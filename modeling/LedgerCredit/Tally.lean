import LedgerCredit.Attempts
import LedgerCredit.Evidence
import LedgerCredit.Txn.Resource

/-!
# The record of a batch run

`runBatch` counts the items of its run at its end and writes the counts to the row of
the run.  `retryFailedItems` processes failed items of the run again, and leaves the
row alone.

*The run as a resource.*  The call that creates a run owns it until the record is
written.  The counts are right then, since no worker of the call is left and nobody
else touches the run.

*Retries.*  A retry that completes an item leaves a record that counts the item as
failed.  While no retry completes an item, the record stays right.
-/

namespace LedgerCredit

open Txn

/-! ## The state of a run -/

/-- What the record of a run counts. -/
structure ItemState where
  id : Uuid
  resourceType : String
  resourceId : String
  status : BatchRunItemStatus

def BatchRunItem.state (i : BatchRunItem) : ItemState := ⟨i.id, i.resourceType, i.resourceId, i.status⟩

/-- The row of a run, and its items. -/
structure RunState where
  row : Option BatchRun
  items : List ItemState

def Store.runState (s : Store) (batchRunId : Uuid) : RunState where
  row := s.batchRuns.get? batchRunId
  items := (s.itemsOf batchRunId none).map (·.state)

namespace RunState

/-- The items in a status. -/
def count (r : RunState) (status : BatchRunItemStatus) : Nat := r.items.countP (·.status = status)

/-- The items, in all or in one status. -/
def total (r : RunState) : Option BatchRunItemStatus → Nat
  | none => r.items.length
  | some status => r.count status

/-- The run is being processed. -/
structure Open (r : RunState) : Prop where
  running : ∃ run, r.row = some run ∧ run.status = .running
  accounts : ∀ i ∈ r.items, i.resourceType = "account"

/-- The run has a record, which is right. -/
structure Recorded (r : RunState) (run : BatchRun) : Prop where
  row : r.row = some run
  processed : run.processedCount = r.items.length
  succeeded : run.successCount = r.count .completed
  failed : run.failureCount = r.count .failed
  status : run.status = BatchService.finalStatus run.successCount run.failureCount
  accounts : ∀ i ∈ r.items, i.resourceType = "account"

end RunState

/-- A record that agrees with the items of its run. -/
structure Store.Tallies (s : Store) (run : BatchRun) : Prop where
  processed : run.processedCount = (s.itemsOf run.id none).length
  succeeded : run.successCount = (s.itemsOf run.id (some .completed)).length
  failed : run.failureCount = (s.itemsOf run.id (some .failed)).length
  completed : (∀ i ∈ s.itemsOf run.id none, i.status ≠ .failed) → run.status = .completed
  partially : (∃ i ∈ s.itemsOf run.id none, i.status = .failed) →
    (∃ i ∈ s.itemsOf run.id none, i.status = .completed) → run.status = .partiallyFailed
  allFailed : s.itemsOf run.id none ≠ [] → (∀ i ∈ s.itemsOf run.id none, i.status = .failed) →
    run.status = .failed

theorem BatchService.finalStatus_ne_running (successCount failureCount : Nat) :
    finalStatus successCount failureCount ≠ .running := by
  unfold finalStatus
  split
  · simp
  · split
    · simp
    · simp

section RunState

variable {s : Store} {b : Uuid}

theorem mem_itemsOf {i : BatchRunItem} :
    i ∈ s.itemsOf b none ↔ i ∈ s.batchRunItems.rows ∧ i.batchRunId = b := by
  simp [Store.itemsOf]

theorem length_itemsOf (status : Option BatchRunItemStatus) :
    (s.itemsOf b status).length = (s.runState b).total status := by
  cases status with
  | none => exact (List.length_map ..).symm
  | some status =>
      simp only [RunState.total, RunState.count, Store.runState, List.countP_map, Store.itemsOf,
        List.countP_filter, ← List.countP_eq_length_filter]
      refine List.countP_congr fun i _ => ?_
      simp [BatchRunItem.state, and_comm]

theorem count_eq_zero {status : BatchRunItemStatus} : (s.runState b).count status = 0 ↔
    ∀ i ∈ s.itemsOf b none, i.status ≠ status := by
  simp [RunState.count, Store.runState, List.countP_eq_zero, BatchRunItem.state]

theorem count_pos {status : BatchRunItemStatus} : 0 < (s.runState b).count status ↔
    ∃ i ∈ s.itemsOf b none, i.status = status := by
  simp [RunState.count, Store.runState, List.countP_pos_iff, BatchRunItem.state]

/-- A right record agrees with the items. -/
theorem RunState.Recorded.agrees {run : BatchRun} (h : (s.runState b).Recorded run) :
    s.Tallies run := by
  obtain rfl : run.id = b := (Table.get?_eq_some.mp h.row).2
  have hstatus := h.status
  rw [h.succeeded, h.failed] at hstatus
  refine ⟨?_, ?_, ?_, fun hnone => ?_, fun hfailed hcompleted => ?_, fun hsome hall => ?_⟩
  · rw [h.processed, Store.runState, List.length_map]
  · rw [h.succeeded, length_itemsOf, RunState.total]
  · rw [h.failed, length_itemsOf, RunState.total]
  · rw [hstatus, BatchService.finalStatus, if_pos (count_eq_zero.mpr hnone)]
  · have hpos := count_pos.mpr hfailed
    rw [hstatus, BatchService.finalStatus, if_neg (by omega), if_pos (count_pos.mpr hcompleted)]
  · obtain ⟨i, hi⟩ := List.exists_mem_of_ne_nil _ hsome
    have hpos := count_pos.mpr ⟨i, hi, hall i hi⟩
    have hzero : (s.runState run.id).count .completed = 0 :=
      count_eq_zero.mpr fun j hj hcompleted => by rw [hall j hj] at hcompleted; cases hcompleted
    rw [hstatus, BatchService.finalStatus, if_neg (by omega), if_neg (by omega)]

end RunState

/-! ## Writes and runs -/

/-- The write leaves the run as it is. -/
def Write.KeepsRun (b : Uuid) (r : RunState) : Write → Prop
  | .batchRun row => row.id ≠ b
  | .updateBatchRun id _ => id ≠ b
  | .batchRunItem row => row.batchRunId ≠ b
  | .updateBatchRunItem id d => ∀ i ∈ r.items, i.id = id → i.status = d.status
  | _ => True

/-- The write leaves the run open. -/
def Write.KeepsOpen (b : Uuid) : Write → Prop
  | .batchRun row => row.id ≠ b
  | .updateBatchRun id _ => id ≠ b
  | .batchRunItem row => row.batchRunId = b → row.resourceType = "account"
  | _ => True

/-- The write belongs to no run. -/
def Write.apart : Write → Prop
  | .batchRun _ | .updateBatchRun .. | .batchRunItem _ | .updateBatchRunItem .. => False
  | _ => True

section Writes

variable {s : Store} {b : Uuid}

theorem Write.apart_of_kind {w : Write} (h : w.kind ≠ .batch) : w.apart := by
  cases w <;> trivial

theorem Write.apart.keepsRun {w : Write} (h : w.apart) (r : RunState) : w.KeepsRun b r := by
  cases w <;> trivial

theorem Write.apart.keepsOpen {w : Write} (h : w.apart) : w.KeepsOpen b := by
  cases w <;> trivial

theorem getRun_apply {w : Write} (hcreate : ∀ row, w = .batchRun row → row.id ≠ b)
    (hupdate : ∀ id d, w = .updateBatchRun id d → id ≠ b) :
    (w.apply s).batchRuns.get? b = s.batchRuns.get? b := by
  cases w with
  | batchRun row =>
      by_cases hfresh : s.batchRuns.Fresh row
      · exact (Table.get?_insert hfresh b).trans (if_neg (hcreate row rfl))
      · rw [Write.apply, Table.insert, dif_neg hfresh]
  | updateBatchRun id d =>
      show (s.batchRuns.modify id d.apply d.apply_id fun _ => rfl).get? b = _
      rw [Table.get?_modify]
      simp [(hupdate id d rfl).symm]
  | _ => rfl

/-- The items of a run after a write that creates none. -/
theorem itemsOf_apply {w : Write} (hw : ∀ r, w ≠ .batchRunItem r) :
    (w.apply s).itemsOf b none = (s.itemsOf b none).map w.onItem := by
  have hsame := fun i => w.onItem_same i
  simp [Store.itemsOf, items_apply hw, List.filter_map, Function.comp_def, hsame]

/-- The items of a run after an insert. -/
theorem itemsOf_insert (row : BatchRunItem) (s : Store) (b : Uuid) :
    ((Write.batchRunItem row).apply s).itemsOf b none = s.itemsOf b none ∨
      row.batchRunId = b ∧
        ((Write.batchRunItem row).apply s).itemsOf b none = s.itemsOf b none ++ [row] := by
  by_cases hfresh : s.batchRunItems.Fresh row
  · by_cases hb : row.batchRunId = b
    · refine Or.inr ⟨hb, ?_⟩
      simp [Store.itemsOf, Write.apply, Table.rows_insert hfresh, hb]
    · refine Or.inl ?_
      simp [Store.itemsOf, Write.apply, Table.rows_insert hfresh, hb]
  · refine Or.inl ?_
    rw [Write.apply, Table.insert, dif_neg hfresh]

theorem Write.KeepsRun.runState {w : Write} (h : w.KeepsRun b (s.runState b)) :
    (w.apply s).runState b = s.runState b := by
  have hrow : (w.apply s).batchRuns.get? b = s.batchRuns.get? b := by
    refine getRun_apply ?_ ?_
    · rintro row rfl
      exact h
    · rintro id d rfl
      exact h
  have hitems : ((w.apply s).itemsOf b none).map (·.state) = (s.itemsOf b none).map (·.state) := by
    cases w with
    | batchRunItem row =>
        rcases itemsOf_insert row s b with hsame | ⟨hb, -⟩
        · rw [hsame]
        · exact absurd hb h
    | updateBatchRunItem id d =>
        rw [itemsOf_apply (by simp), List.map_map]
        refine List.map_congr_left fun i hi => ?_
        simp only [Function.comp_apply, Write.onItem]
        split
        · rename_i hid
          have hstatus : i.status = d.status := h i.state (List.mem_map_of_mem hi) hid
          simp [BatchRunItem.state, BatchRunItemUpdate.apply, hstatus]
        · rfl
    | _ => rfl
  simp only [Store.runState, hrow, hitems]

/-- Writes that leave a run as it is, one after another. -/
theorem runState_applyAll {ws : List Write} (h : ∀ w ∈ ws, w.KeepsRun b (s.runState b)) :
    (database.applyAll ws s).runState b = s.runState b := by
  induction ws generalizing s with
  | nil => rfl
  | cons w ws ih =>
      obtain ⟨hw, hws⟩ := List.forall_mem_cons.mp h
      have hsame := hw.runState
      exact (ih (s := w.apply s) (by rwa [hsame])).trans hsame

theorem Write.KeepsOpen.runState {w : Write} (h : w.KeepsOpen b) (hs : (s.runState b).Open) :
    ((w.apply s).runState b).Open := by
  have hrow : (w.apply s).batchRuns.get? b = s.batchRuns.get? b := by
    refine getRun_apply ?_ ?_
    · rintro row rfl
      exact h
    · rintro id d rfl
      exact h
  obtain ⟨hrunning, haccounts⟩ := hs
  refine ⟨by rwa [Store.runState, hrow], fun x hx => ?_⟩
  obtain ⟨i, hi, rfl⟩ := List.mem_map.mp hx
  have hold : ∀ j ∈ s.itemsOf b none, j.resourceType = "account" :=
    fun j hj => haccounts j.state (List.mem_map_of_mem hj)
  by_cases hcreates : ∃ row, w = .batchRunItem row
  · obtain ⟨row, rfl⟩ := hcreates
    rcases itemsOf_insert row s b with hsame | ⟨hb, hsame⟩
    · rw [hsame] at hi
      exact hold i hi
    · rw [hsame] at hi
      rcases List.mem_append.mp hi with hi | hi
      · exact hold i hi
      · rw [List.mem_singleton.mp hi]
        exact h hb
  · rw [itemsOf_apply fun row hr => hcreates ⟨row, hr⟩] at hi
    obtain ⟨j, hj, rfl⟩ := List.mem_map.mp hi
    exact (w.onItem_same j).2.1.trans (hold j hj)

theorem open_applyAll {ws : List Write} (h : ∀ w ∈ ws, w.KeepsOpen b) (hs : (s.runState b).Open) :
    ((database.applyAll ws s).runState b).Open := by
  induction ws generalizing s with
  | nil => exact hs
  | cons w ws ih =>
      obtain ⟨hw, hws⟩ := List.forall_mem_cons.mp h
      exact ih hws (hw.runState hs)

end Writes

/-! ## Commits and runs -/

/-- What a statement saw, when items have stayed under their keys since. -/
def SawItems (s : Store) : View := fun p e =>
  ∃ (s₀ : Store) (ch : Choice), s₀.KeepsItems s ∧
    (database.applyAll p s₀).exec e.query ch = .ok (e.reply, e.writes)

/-- The identifier was one of an item of the run. -/
def Store.ItemOf (s : Store) (batchRunId id : Uuid) : Prop :=
  ∃ (s₀ : Store) (i : BatchRunItem), s₀.KeepsItems s ∧ i ∈ s₀.batchRunItems.rows ∧
    i.batchRunId = batchRunId ∧ i.id = id

theorem answering_of_sawItems {s : Store} : Answering (SawItems s) := by
  intro p α q r ws h
  obtain ⟨_, _, _, hexec⟩ := h
  exact exec_answers hexec

section Commits

variable {s : Store} {b : Uuid} {env : Env}

/-- An identifier belongs to the items of one run. -/
theorem Store.ItemOf.run_eq {b' id : Uuid} (h : s.ItemOf b' id) {i : BatchRunItem}
    (hi : i ∈ s.itemsOf b none) (hid : i.id = id) : b' = b := by
  obtain ⟨s₀, j, hle, hj, rfl, rfl⟩ := h
  obtain ⟨hmem, rfl⟩ := mem_itemsOf.mp hi
  have hkey := hle.eq_key (Table.find?_eq_some.mpr ⟨hj, rfl⟩) (Table.find?_eq_some.mpr ⟨hmem, rfl⟩) hid
  exact congrArg Prod.fst hkey

/-- The writes that process items of a run: updates of these items, and the ledger. -/
def Write.processes (s : Store) (b : Uuid) (w : Write) : Prop :=
  w.kind = .ledger ∨ ∃ id d, w = .updateBatchRunItem id d ∧ s.ItemOf b id

theorem Write.processes.keepsRun {b' : Uuid} {w : Write} (h : w.processes s b') (hne : b' ≠ b) :
    w.KeepsRun b (s.runState b) := by
  rcases h with hkind | ⟨id, d, rfl, hof⟩
  · exact (Write.apart_of_kind (by simp [hkind])).keepsRun _
  · intro x hx hid
    obtain ⟨i, hi, rfl⟩ := List.mem_map.mp hx
    exact absurd (hof.run_eq hi hid) hne

theorem Write.processes.keepsOpen {b' : Uuid} {w : Write} (h : w.processes s b') : w.KeepsOpen b := by
  rcases h with hkind | ⟨id, d, rfl, -⟩
  · exact (Write.apart_of_kind (by simp [hkind])).keepsOpen
  · trivial

theorem itemOf_of_updates {p ws : List Write} {t : String} {rs : List String} {d : BatchRunItemUpdate}
    {u : Unit} (h : SawItems s p ⟨.updateBatchRunItems b t rs d, u, ws⟩)
    (hp : ∀ r, .batchRunItem r ∉ p) : ∀ w ∈ ws, w.processes s b := by
  obtain ⟨s₀, ch, hle, hexec⟩ := h
  obtain ⟨-, rfl, -⟩ := attempt_ok hexec
  intro w hw
  obtain ⟨i, hi, rfl⟩ := List.mem_map.mp hw
  have hmem : i.id ∈ (database.applyAll p s₀).itemIds b t rs := List.mem_map_of_mem hi
  rw [itemIds_applyAll hp] at hmem
  obtain ⟨j, hj, hid⟩ := List.mem_map.mp hmem
  obtain ⟨hj, hrun⟩ := List.mem_filter.mp hj
  simp only [Bool.and_eq_true, decide_eq_true_eq] at hrun
  exact Or.inr ⟨i.id, d, rfl, s₀, j, hle, hj, hrun.1.1, hid⟩

theorem BatchService.ChunkRun.processes {accounts : List BatchAccountSnapshot}
    {revenue : List (String × Uuid)} {ws running completed : List Write} {effectiveAt : Time}
    {rows : List InterestRows} (h : ChunkRun (SawItems s) env b accounts revenue ws effectiveAt rows
      running completed) : ∀ w ∈ ws, w.processes s b := by
  have hrunning := itemOf_of_updates h.marked (by simp)
  have hrows : ∀ w ∈ rowWrites rows, w.processes s b := fun w hw => Or.inl (rowWrites_kind w hw)
  have hnone : ∀ r, .batchRunItem r ∉ running ++ rowWrites rows := by
    intro r hr
    rcases List.forall_mem_append.mpr ⟨hrunning, hrows⟩ _ hr with hkind | ⟨_, _, heq, _⟩
    · cases hkind
    · cases heq
  rw [h.writes]
  exact List.forall_mem_append.mpr ⟨List.forall_mem_append.mpr ⟨hrunning, hrows⟩,
    itemOf_of_updates h.closed hnone⟩

theorem BatchService.ItemRun.processes {accountId : Uuid} {ws : List Write}
    (h : ItemRun (SawItems s) env b accountId ws) : ∀ w ∈ ws, w.processes s b := by
  cases h with
  | absent _ => simp
  | closed _ _ => simp
  | processed hread _ _ hpaid =>
      obtain ⟨s₀, ch, hle, hexec⟩ := hread
      obtain ⟨hfind, -⟩ := Prod.mk.inj (Except.ok.inj hexec)
      obtain ⟨hmem, hkey⟩ := Table.find?_mem hfind
      have hof : s.ItemOf b _ :=
        ⟨s₀, _, hle, hmem, congrArg Prod.fst (Option.some.inj hkey), rfl⟩
      have hupdate : ∀ d, (Write.updateBatchRunItem _ d).processes s b :=
        fun d => Or.inr ⟨_, d, rfl, hof⟩
      simp only [List.forall_mem_append, List.forall_mem_singleton]
      exact ⟨⟨hupdate _, fun w hw => Or.inl (hpaid.kind w hw)⟩, hupdate _⟩

theorem TransfersService.TransferRun.apart {V : View} {args : CreateTransferArgs}
    {r : TransferMutationResult} {ws : List Write} (h : TransferRun V env args ws r) :
    ∀ w ∈ ws, w.apart := by
  cases h with
  | replay _ _ _ => simp
  | internal _ _ _ _ hcreated _ _ hposted =>
      simp only [List.forall_mem_append, List.forall_mem_cons]
      refine ⟨⟨⟨fun w hw => ?_, trivial, by simp⟩, fun w hw => ?_⟩, trivial, trivial, trivial, by simp⟩
      · exact Write.apart_of_kind (by simp [hcreated.kind w hw])
      · exact Write.apart_of_kind (by simp [hposted.kind w hw])
  | external _ _ _ _ hcreated _ hposted =>
      simp only [List.forall_mem_append, List.forall_mem_cons]
      refine ⟨⟨⟨fun w hw => ?_, trivial, by simp⟩, fun w hw => ?_⟩, trivial, trivial, trivial, by simp⟩
      · exact Write.apart_of_kind (by simp [hcreated.kind w hw])
      · exact Write.apart_of_kind (by simp [hposted.kind w hw])

theorem ExternalRailService.EventRun.apart {V : View} {event : NormalizedExternalRailEvent}
    {r : TransferRequest} {ws : List Write} (h : EventRun V env event ws r) :
    ∀ w ∈ ws, w.apart := by
  cases h with
  | compensated _ _ _ _ hcomp =>
      simp only [List.forall_mem_append, List.forall_mem_cons]
      refine ⟨⟨⟨trivial, trivial, by simp⟩, fun w hw => ?_⟩, trivial, trivial, by simp⟩
      exact Write.apart_of_kind (by simp [hcomp.entry.kind w hw])
  | _ => simp [Write.apart]

end Commits

/-! ## The resource -/

namespace BatchService

/-- A transaction that leaves the run alone, unless it creates it. -/
def leavesRun (b : Uuid) : {α : Type} → Label α → Prop
  | _, .createTransfer _ | _, .applyNormalizedEvent _ => True
  | _, .processBatchChunk b' _ _ | _, .processBatchItem b' _ => b' ≠ b
  | _, .statement (.createBatchRun data) => ∀ id, (data id).status = .running
  | _, .statement (.updateBatchRun b' _) => b' ≠ b
  | _, .statement (.createBatchRunItems data) => ∀ f ∈ data, ∀ id, (f id).batchRunId ≠ b
  | _, .statement (.updateBatchRunItemOf b' _ _ _) => b' ≠ b
  | _, .statement q => Outside q

/-- The transaction created the run. -/
def createsRun (b : Uuid) : {α : Type} → Label α → α → Prop
  | _, .statement (.createBatchRun _), row => row.id = b
  | _, _, _ => False

/-- A transaction that processes a run, and writes no record. -/
def processesRun : {α : Type} → Label α → Prop
  | _, .processBatchChunk .. | _, .processBatchItem .. | _, .statement (.updateBatchRunItemOf ..) =>
      True
  | _, .statement (.createBatchRun _) | _, .statement (.updateBatchRun ..) => False
  | _, .statement (.createBatchRunItems data) => ∀ f ∈ data, ∀ id, (f id).resourceType = "account"
  | _, .statement q => Outside q
  | _, _ => False

/-- A transaction of a retry of the run, when the run is at `r`. -/
def retriesRun (b : Uuid) (r : RunState) : {α : Type} → Label α → Prop
  | _, .processBatchItem b' _ => b' = b
  | _, .statement (.updateBatchRunItemOf b' resourceType resourceId data) =>
      b' = b ∧ data.status = .failed ∧ ∃ i ∈ r.items,
        i.resourceType = resourceType ∧ i.resourceId = resourceId ∧ i.status = .failed
  | _, .statement (.createBatchRun _) => False
  | _, .statement q => leavesRun b (.statement q)
  | _, _ => False

/-- The transaction completes no item of the run. -/
def repairsNone (b : Uuid) : {α : Type} → Label α → List Write → Prop
  | _, .processBatchItem b' _, ws => b' = b → ws = []
  | _, _, _ => True

/-- The record of a run, with the items that it counts. -/
def recordOf (env : Env) (b : Uuid) : Resource Label Store Write where
  Same := fun s s' => s.runState b = s'.runState b
  Absent := fun s => s.batchRuns.get? b = none
  Open := fun s => (s.runState b).Open
  Closed := fun s => ∃ run, (s.runState b).Recorded run
  May := fun s l a ws => (s.batchRuns.get? b = none → s.itemsOf b none = []) ∧
    database.Admissible s ws ∧ Committed (SawItems s) env l a ws
  aside := leavesRun b
  makes := createsRun b
  works := processesRun
  later := fun s l => retriesRun b (s.runState b) l
  spares := repairsNone b

section Lawful

variable {env : Env} {b : Uuid} {s : Store} {α : Type} {l : Label α} {a : α} {ws : List Write}

theorem itemOf_of_updateOf {b' : Uuid} {t r : String} {d : BatchRunItemUpdate} {u : Unit}
    (h : SawItems s [] ⟨.updateBatchRunItemOf b' t r d, u, ws⟩) :
    ∃ (s₀ : Store) (i : BatchRunItem), s₀.KeepsItems s ∧
      s₀.batchRunItems.find? (b', t, r) = some i ∧ ws = [.updateBatchRunItem i.id d] := by
  obtain ⟨s₀, ch, hle, hexec⟩ := h
  simp only [Store.exec, Database.applyAll_nil] at hexec
  split at hexec
  · rename_i i hi
    exact ⟨s₀, i, hle, hi, (attempt_ok hexec).2.1⟩
  · cases hexec

/-- A statement that leaves the run alone. -/
theorem keepsRun_of_statement {q : Stmt α} (hsaw : SawItems s [] ⟨q, a, ws⟩)
    (hq : leavesRun b (.statement q)) (hmakes : ¬ createsRun b (.statement q) a) :
    ∀ w ∈ ws, w.KeepsRun b (s.runState b) := by
  have hanswer := answering_of_sawItems _ _ _ _ hsaw
  cases q with
  | createBatchRun data =>
      obtain ⟨-, rfl⟩ := hanswer
      exact List.forall_mem_singleton.mpr hmakes
  | updateBatchRun id d =>
      obtain rfl := hanswer
      exact List.forall_mem_singleton.mpr hq
  | createBatchRunItems data =>
      obtain ⟨uuid, rfl⟩ := hanswer
      intro w hw
      obtain ⟨d, hd, rfl⟩ := List.mem_map.mp hw
      exact hq d.1 (List.fst_mem_of_mem_zipIdx hd) _
  | updateBatchRunItemOf b' t r d =>
      obtain ⟨s₀, i, hle, hi, rfl⟩ := itemOf_of_updateOf hsaw
      obtain ⟨hmem, hkey⟩ := Table.find?_mem hi
      have hof : s.ItemOf b' i.id :=
        ⟨s₀, i, hle, hmem, congrArg Prod.fst (Option.some.inj hkey), rfl⟩
      exact List.forall_mem_singleton.mpr (Write.processes.keepsRun (Or.inr ⟨_, d, rfl, hof⟩) hq)
  | _ => first
      | exact False.elim hq
      | (obtain rfl := hanswer; simp [Write.KeepsRun])
      | (obtain ⟨_, rfl⟩ := hanswer; simp [Write.KeepsRun])

theorem same_of_leaves (h : (recordOf env b).May s l a ws) (hl : leavesRun b l)
    (hmakes : ¬ createsRun b l a) : (database.applyAll ws s).runState b = s.runState b := by
  refine runState_applyAll ?_
  obtain ⟨-, -, hc⟩ := h
  cases hc with
  | createTransfer hrun => exact fun w hw => (hrun.apart w hw).keepsRun _
  | applyNormalizedEvent hrun => exact fun w hw => (hrun.apart w hw).keepsRun _
  | processBatchChunk hrun => exact fun w hw => (hrun.processes w hw).keepsRun hl
  | processBatchItem hrun => exact fun w hw => (hrun.processes w hw).keepsRun hl
  | statement hsaw => exact keepsRun_of_statement hsaw hl hmakes

theorem open_of_creates (h : (recordOf env b).May s l a ws) (hl : leavesRun b l)
    (hmakes : createsRun b l a) :
    s.batchRuns.get? b = none ∧ ((database.applyAll ws s).runState b).Open := by
  obtain ⟨hhoused, hadm, hc⟩ := h
  cases hc with
  | @statement _ q r ws hsaw =>
      cases q with
      | createBatchRun data =>
          obtain ⟨⟨u, -, rfl⟩, rfl⟩ := answering_of_sawItems _ _ _ _ hsaw
          obtain rfl : (data u).id = b := hmakes
          have habsent : s.batchRuns.get? (data u).id = none := by
            have hkey : ¬ s.present (.row .batchRun (data u).id) = true :=
              Database.Admissible.absent hadm (List.mem_singleton_self _) (List.mem_singleton_self _)
            simpa [Store.present] using hkey
          refine ⟨habsent, ⟨data u, ?_, hl u⟩, ?_⟩
          · have hfresh : s.batchRuns.Fresh (data u) := Table.fresh_of_pk (by simp [habsent]) rfl
            exact (Table.get?_insert hfresh _).trans (if_pos rfl)
          · have hitems : ((database.applyAll [.batchRun (data u)] s).runState (data u).id).items = [] :=
              congrArg (List.map _) (hhoused habsent)
            rw [hitems]
            simp
      | _ => exact False.elim hmakes
  | _ => exact False.elim hmakes

theorem open_of_processes (h : (recordOf env b).May s l a ws) (hl : processesRun l)
    (hs : (s.runState b).Open) : ((database.applyAll ws s).runState b).Open := by
  refine open_applyAll ?_ hs
  obtain ⟨-, -, hc⟩ := h
  cases hc with
  | createTransfer _ => exact False.elim hl
  | applyNormalizedEvent _ => exact False.elim hl
  | processBatchChunk hrun => exact fun w hw => (hrun.processes w hw).keepsOpen
  | processBatchItem hrun => exact fun w hw => (hrun.processes w hw).keepsOpen
  | @statement _ q r ws hsaw =>
      have hanswer := answering_of_sawItems _ _ _ _ hsaw
      cases q with
      | createBatchRunItems data =>
          obtain ⟨uuid, rfl⟩ := hanswer
          intro w hw
          obtain ⟨d, hd, rfl⟩ := List.mem_map.mp hw
          exact fun _ => hl d.1 (List.fst_mem_of_mem_zipIdx hd) _
      | _ => first
          | exact False.elim hl
          | (obtain rfl := hanswer; simp [Write.KeepsOpen])
          | (obtain ⟨_, rfl⟩ := hanswer; simp [Write.KeepsOpen])

/-- A retry that completes no item leaves the run as it is. -/
theorem same_of_retries {r : RunState} (h : (recordOf env b).May s l a ws)
    (hr : r = s.runState b) (hl : retriesRun b r l) (hspares : repairsNone b l ws) :
    (database.applyAll ws s).runState b = s.runState b := by
  subst hr
  obtain ⟨-, -, hc⟩ := id h
  cases hc with
  | createTransfer _ => exact False.elim hl
  | applyNormalizedEvent _ => exact False.elim hl
  | processBatchChunk _ => exact False.elim hl
  | processBatchItem _ =>
      obtain rfl := hspares hl
      rfl
  | @statement _ q r ws hsaw =>
      cases q with
      | updateBatchRunItemOf b' t id d =>
          obtain ⟨rfl, hfailed, x, hx, rfl, rfl, hstatus⟩ := hl
          obtain ⟨i, hi, rfl⟩ := List.mem_map.mp hx
          obtain ⟨hmem, hrun⟩ := mem_itemsOf.mp hi
          obtain ⟨s₀, j, hle, hj, rfl⟩ := itemOf_of_updateOf hsaw
          -- the item that failed before is marked again
          obtain ⟨i', hi', hid, -⟩ := hle _ j hj
          obtain rfl : i' = i := by
            refine Table.eq_of_uk (Table.find?_mem hi').1 hmem (Table.find?_mem hi').2 ?_
            rw [hrun]
            rfl
          refine runState_applyAll (List.forall_mem_singleton.mpr fun y hy hyid => ?_)
          obtain ⟨k, hk, rfl⟩ := List.mem_map.mp hy
          obtain rfl : k = i' := Table.eq_of_pk (mem_itemsOf.mp hk).1 hmem (hyid.trans hid.symm)
          exact hstatus.trans hfailed.symm
      | createBatchRun data => exact False.elim hl
      | _ => exact same_of_leaves h hl (by simp [createsRun])

end Lawful

/-! ## What the calls do with the run -/

/-- A property of processes that holds of the parts of `processBatchRunAccounts` for a run, and
that compositions keep. -/
structure RunParts (env : Env) (batchRunId : Uuid) (P : {α : Type} → Process α → Prop) : Prop where
  pure : ∀ {α : Type} (a : α), P (.pure a)
  throw : ∀ {α : Type} (e : TxError), P (.throw e : Process α)
  bind : ∀ {α β : Type} {p : Process α} {f : α → Process β}, P p → (∀ a, P (f a)) → P (p >>= f)
  load : ∀ currencies, P (statement (.findLedgerAccountsIn .interestRevenue currencies))
  items : ∀ accountIds, P (processBatchItems env batchRunId accountIds)
  chunk : ∀ accounts revenue,
    P ((Proc.transaction (.processBatchChunk batchRunId accounts revenue)).orElse
      fun _ => processBatchItems env batchRunId (accounts.map (·.id)))

section RunParts

variable {env : Env} {batchRunId : Uuid} {P : {α : Type} → Process α → Prop}

theorem RunParts.processChunks (hP : RunParts env batchRunId P)
    (interestRevenueAccountIds : List (String × Uuid)) (chunks : List (List BatchAccountSnapshot)) :
    P (processChunks env batchRunId interestRevenueAccountIds chunks) := by
  induction chunks with
  | nil => exact hP.pure _
  | cons chunk rest ih => exact hP.bind (hP.chunk chunk interestRevenueAccountIds) fun _ => ih

theorem RunParts.processBatchRunAccounts (hP : RunParts env batchRunId P)
    (accounts : List BatchAccountSnapshot) : P (processBatchRunAccounts env batchRunId accounts) := by
  refine hP.bind (hP.items _) fun _ => ?_
  split
  · exact hP.pure _
  · refine hP.bind (hP.bind (hP.load _) fun ledgerAccounts => ?_) fun _ => hP.processChunks _ _
    simp only
    split
    · exact hP.throw _
    · exact hP.pure _

end RunParts

section Calls

variable {env : Env} {b : Uuid}

theorem statement_aside {α : Type} {q : Stmt α} (hq : leavesRun b (.statement q))
    (hmakes : ∀ a, ¬ createsRun b (.statement q) a) : (recordOf env b).Aside (statement q) :=
  .transaction (l := Label.statement q) hq hmakes

theorem applyNormalizedEvent_aside (event : NormalizedExternalRailEvent) :
    (recordOf env b).Aside (ExternalRailService.applyNormalizedEvent event) := by
  rw [applyNormalizedEvent_eq]
  refine .bind (.transaction trivial fun _ h => h) fun r => ?_
  have hreport : ∀ correlationId : String,
      (recordOf env b).Aside (reportEvent event r correlationId) :=
    fun _ => .bind (statement_aside trivial fun _ h => h) fun _ => trivial
  unfold afterEvent
  cases r.correlationId with
  | some correlationId => exact hreport correlationId
  | none => exact .bind (.bind (statement_aside trivial fun _ h => h) fun _ => trivial) hreport

theorem aside_parts : TransferParts fun p => (recordOf env b).Aside p where
  pure := fun _ => trivial
  throw := fun _ => trivial
  bind := .bind
  statement := fun q hq => by
    cases q with
    | findTransferRequest id => exact statement_aside trivial fun _ h => h
    | publishJob job => exact statement_aside trivial fun _ h => h
    | createAuditEvent data => exact statement_aside trivial fun _ h => h
    | _ => cases hq
  event := applyNormalizedEvent_aside
  create := fun _ => .transaction trivial fun _ h => h

/-- The items of another run. -/
theorem processBatchItems_aside {b' : Uuid} (hne : b' ≠ b) (accountIds : List Uuid) :
    (recordOf env b).Aside (processBatchItems env b' accountIds) := by
  unfold processBatchItems
  split
  · trivial
  · exact .pool fun id => .orElse hne (fun _ h => h) fun _ => statement_aside hne fun _ h => h

theorem aside_runParts {b' : Uuid} (hne : b' ≠ b) :
    RunParts env b' fun p => (recordOf env b).Aside p where
  pure := fun _ => trivial
  throw := fun _ => trivial
  bind := .bind
  load := fun _ => statement_aside trivial fun _ h => h
  items := processBatchItems_aside hne
  chunk := fun _ _ => .orElse hne (fun _ h => h) fun _ => processBatchItems_aside hne _

theorem retryFailedItems_aside {b' : Uuid} (hne : b' ≠ b) (context : RequestContext) :
    (recordOf env b).Aside (retryFailedItems env b' context) := by
  refine .bind (statement_aside trivial fun _ h => h) fun failedItems => ?_
  split
  · trivial
  · exact .bind (processBatchItems_aside hne _) fun _ =>
      .bind (statement_aside trivial fun _ h => h) fun _ => trivial

theorem processBatchItem_works (b' accountId : Uuid) :
    (recordOf env b).Works (processBatchItem env b' accountId) := by
  refine ⟨trivial, fun r => ?_⟩
  cases r with
  | ok u => trivial
  | error e =>
      refine ⟨trivial, fun r => ?_⟩
      cases r with
      | ok u => trivial
      | error e => trivial

theorem processBatchItems_tends (b' : Uuid) (accountIds : List Uuid) :
    (recordOf env b).Tends (processBatchItems env b' accountIds) := by
  unfold processBatchItems
  split
  · trivial
  · exact .pool fun id => processBatchItem_works b' id

theorem tends_runParts (b' : Uuid) : RunParts env b' fun p => (recordOf env b).Tends p where
  pure := fun _ => trivial
  throw := fun _ => trivial
  bind := .bind
  load := fun _ => .transaction trivial
  items := processBatchItems_tends b'
  chunk := fun _ _ => .orElse trivial fun _ => processBatchItems_tends b' _

/-! ### The owner -/

/-- A count of the owner is the count of the run as it is. -/
theorem owns_count {α : Type} {status : Option BatchRunItemStatus} {f : Nat → Process α} {s : Store}
    (hs : (s.runState b).Open) (hf : ∀ s' : Store, s.runState b = s'.runState b →
      (recordOf env b).Owns (server env) (f ((s.runState b).total status)) s') :
    (recordOf env b).Owns (server env) (statement (.countBatchRunItems b status) >>= f) s := by
  intro s' (hsame : s.runState b = s'.runState b)
  refine ⟨fun _ => trivial, fun n ws hruns _ => Or.inl ?_⟩
  obtain ⟨s₁, ch, hs₁, hexec⟩ := runs_send.mp hruns
  have hs₁ : s₁.runState b = s'.runState b := hs₁
  cases hexec
  refine ⟨show (s'.runState b).Open from hsame ▸ hs, ?_⟩
  have hcount : ((database.applyAll [] s₁).itemsOf b status).length = (s.runState b).total status := by
    rw [Database.applyAll_nil, length_itemsOf, hs₁, hsame]
  exact hcount ▸ hf s' hsame

theorem owns_newDate {α : Type} {f : Time → Process α} {s : Store} (hs : (s.runState b).Open)
    (hf : ∀ now (s' : Store), s.runState b = s'.runState b →
      (recordOf env b).Owns (server env) (f now) s') :
    (recordOf env b).Owns (server env) (statement .newDate >>= f) s := by
  intro s' (hsame : s.runState b = s'.runState b)
  refine ⟨fun _ => trivial, fun now ws hruns _ => Or.inl ?_⟩
  obtain ⟨s₁, ch, -, hexec⟩ := runs_send.mp hruns
  cases hexec
  exact ⟨show (s'.runState b).Open from hsame ▸ hs, hf _ s' hsame⟩

/-- The update at the end writes a record that is right. -/
theorem owns_record {α : Type} {f : Unit → Process α} {s : Store} {d : BatchRunUpdate}
    (hs : (s.runState b).Open) (hprocessed : d.processedCount = (s.runState b).total none)
    (hsucceeded : d.successCount = (s.runState b).total (some .completed))
    (hfailed : d.failureCount = (s.runState b).total (some .failed))
    (hstatus : d.status = finalStatus d.successCount d.failureCount)
    (hf : (recordOf env b).Aside (f ())) :
    (recordOf env b).Owns (server env) (statement (.updateBatchRun b d) >>= f) s := by
  intro s' (hsame : s.runState b = s'.runState b)
  refine ⟨fun _ => trivial, fun u ws hruns _ => Or.inr ⟨?_, hf⟩⟩
  obtain ⟨s₁, ch, -, hexec⟩ := runs_send.mp hruns
  obtain ⟨-, rfl, -⟩ := attempt_ok hexec
  rw [hsame] at hs hprocessed hsucceeded hfailed
  obtain ⟨run, hrun, -⟩ := hs.running
  refine ⟨d.apply run, ?_, hprocessed, hsucceeded, hfailed, hstatus, hs.accounts⟩
  have hrow : s'.batchRuns.get? b = some run := hrun
  show (s'.batchRuns.modify b d.apply d.apply_id fun _ => rfl).get? b = some (d.apply run)
  rw [Table.get?_modify, hrow]
  simp

/-- A statement that leaves the run alone, and the rest of a call that does. -/
theorem clear_statement {α β : Type} {q : Stmt α} {f : α → Process β}
    (hq : leavesRun b (.statement q)) (hmakes : ∀ a, ¬ createsRun b (.statement q) a)
    (hf : ∀ a, (recordOf env b).Clear (server env) none (f a)) :
    (recordOf env b).Clear (server env) none (statement q >>= f) :=
  .transaction_bind (l := Label.statement q) hq fun a =>
    ⟨fun _ => hf a, fun hm => (hmakes a hm).elim⟩

theorem open_of_same {s s' : Store} (hsame : s.runState b = s'.runState b)
    (hs : (s.runState b).Open) : (s'.runState b).Open := hsame ▸ hs

theorem recorded_of_same {s s' : Store} (hsame : s.runState b = s'.runState b)
    (hs : ∃ run, (s.runState b).Recorded run) : ∃ run, (s'.runState b).Recorded run := hsame ▸ hs

/-- The run is owned by the call of `runBatch` that creates it. -/
theorem runBatch_clear (triggeredBy : String) :
    (recordOf env b).Clear (server env) none (Call.program env (.runBatch triggeredBy)) := by
  simp only [Call.program, runBatch, randomUUID, Proc.bind_assoc]
  refine clear_statement trivial (fun _ h => h) fun _ => ?_
  refine clear_statement trivial (fun _ h => h) fun _ => ?_
  refine clear_statement trivial (fun _ h => h) fun _ => ?_
  refine .transaction_bind (l := Label.statement _) (fun _ => rfl) fun batchRun =>
    ⟨fun (hother : batchRun.id ≠ b) => ?_, fun (hown : batchRun.id = b) => ⟨rfl, fun s hs => ?_⟩⟩
  · -- the call processes another run
    refine clear_statement trivial (fun _ h => h) fun accounts => ?_
    refine clear_statement (fun f hf id => ?_) (fun _ h => h) fun _ => Resource.Aside.clear ?_
    · obtain ⟨p, -, rfl⟩ := List.mem_map.mp hf
      exact hother
    · refine .bind ((aside_runParts hother).processBatchRunAccounts accounts) fun _ => ?_
      refine .bind (statement_aside trivial fun _ h => h) fun _ => ?_
      refine .bind (statement_aside trivial fun _ h => h) fun _ => ?_
      refine .bind (statement_aside trivial fun _ h => h) fun _ => ?_
      refine .bind (statement_aside trivial fun _ h => h) fun _ => ?_
      refine .bind (statement_aside hother fun _ h => h) fun _ => ?_
      exact .bind (statement_aside trivial fun _ h => h) fun _ => trivial
  · obtain rfl := hown
    have hitems : ∀ accounts, (recordOf env batchRun.id).Tends
        (statement (.createBatchRunItems (itemData env batchRun.id accounts))) := by
      refine fun accounts => .transaction (l := Label.statement _) fun f hf id => ?_
      obtain ⟨p, -, rfl⟩ := List.mem_map.mp hf
      rfl
    refine Resource.Tends.owns open_of_same open_of_processes
      (.transaction (l := Label.statement .findActiveAccounts) trivial) (fun accounts s hs => ?_) s hs
    refine Resource.Tends.owns open_of_same open_of_processes (hitems accounts) (fun _ s hs => ?_) s hs
    refine Resource.Tends.owns open_of_same open_of_processes
      ((tends_runParts batchRun.id).processBatchRunAccounts accounts) (fun _ s hs => ?_) s hs
    -- from here on the run stays as it is
    refine owns_count hs fun s₁ h₁ => owns_count (open_of_same h₁ hs) fun s₂ h₂ => ?_
    refine owns_count (open_of_same (h₁.trans h₂) hs) fun s₃ h₃ => ?_
    refine owns_newDate (open_of_same ((h₁.trans h₂).trans h₃) hs) fun now s₄ h₄ => ?_
    have hsame := ((h₁.trans h₂).trans h₃).trans h₄
    refine owns_record (open_of_same hsame hs) ?_ ?_ ?_ rfl ?_
    · rw [← hsame]
    · rw [← hsame, h₁]
    · rw [← hsame, h₁, h₂]
    · exact .bind (statement_aside trivial fun _ h => h) fun _ => trivial

/-! ### Retries -/

/-- A retry of a run with a record marks only items that failed. -/
theorem retryFailedItems_later {s : Store} {run : BatchRun} (hs : (s.runState b).Recorded run)
    (context : RequestContext) :
    (recordOf env b).Later (server env) s (Call.program env (.retryFailedItems b context)) := by
  refine .bind ?_ fun _ => trivial
  refine .transaction_bind (l := Label.statement (.findBatchRunItems b .failed)) trivial
    fun failedItems ws hruns => ?_
  obtain ⟨s₁, ch, (hs₁ : s₁.runState b = s.runState b), hexec⟩ := runs_send.mp hruns
  cases hexec
  have hfailed : ∀ i ∈ arrange ch.order (s₁.itemsOf b (some .failed)), ∃ x ∈ (s.runState b).items,
      x.resourceType = "account" ∧ x.resourceId = i.resourceId ∧ x.status = .failed := by
    intro i hi
    obtain ⟨hmem, hof⟩ := List.mem_filter.mp (mem_arrange.mp hi)
    simp only [Bool.and_eq_true, decide_eq_true_eq, Option.all_some] at hof
    have hstate : i.state ∈ (s₁.runState b).items :=
      List.mem_map_of_mem (mem_itemsOf.mpr ⟨hmem, hof.1⟩)
    rw [hs₁] at hstate
    exact ⟨i.state, hstate, hs.accounts _ hstate, rfl, hof.2⟩
  split
  · trivial
  · refine .bind ?_ fun _ => .bind ⟨trivial, fun _ => trivial, fun _ _ _ => trivial⟩ fun _ => trivial
    unfold processBatchItems
    split
    · trivial
    · refine .pool fun id hid => ⟨rfl, fun e => ?_, fun _ _ _ => trivial⟩
      obtain ⟨i, hi, rfl⟩ := List.mem_map.mp hid
      exact ⟨⟨rfl, rfl, hfailed i hi⟩, fun _ => trivial, fun _ _ _ => trivial⟩

/-- Calls other than those of batches leave the run alone. -/
theorem transfers_clear {call : Call} (hcall : call.ofTransfers = true) :
    (recordOf env b).Clear (server env) none ((server env).program call) :=
  Resource.Aside.clear (transferProgram_parts aside_parts hcall)

end Calls

/-! ## Runs -/

/-- The items of the run belong to a row. -/
def Housed (b : Uuid) (s : Store) : Prop := s.batchRuns.get? b = none → s.itemsOf b none = []

/-- Rules without guards, under which items stay under their keys. -/
def recordRules (env : Env) (b : Uuid) : Rules (server env) Empty Empty :=
  Rules.static (server env) (Housed b) Store.KeepsItems (fun _ => True) (fun _ _ => True)
    (fun _ => []) fun _ _ _ _ => True

/-- Retries of the run are started when it has a record. -/
def retriedLater (b : Uuid) (c : ServerConfig) : Action Choice Call → Bool
  | .start (.retryFailedItems batchRunId _) =>
      batchRunId ≠ b || (c.store.batchRuns.get? b).any (·.status ≠ .running)
  | _ => true

/-- No item of the run is completed after it has a record. -/
def repairsNoItem (b : Uuid) (c : ServerConfig) : Action Choice Call → Bool
  | .advance i _ =>
      match c.threads[i]? with
      | some ⟨_, _, .opened (.processBatchItem batchRunId _) h (.pure _) _⟩ =>
          batchRunId ≠ b || (c.store.batchRuns.get? b).all (·.status = .running) ||
            (writes h).isEmpty
      | _ => true
  | _ => true

section Runs

variable {env : Env} {b : Uuid} {s : Store} {c : ServerConfig}
  {ok : ServerConfig → Action Choice Call → Bool}

theorem housed_apply {w : Write} (hadds : ∀ x ∈ w.adds, ¬ s.present x = true)
    (hneeds : ∀ x ∈ w.needs, s.present x = true) (hs : Housed b s) : Housed b (w.apply s) := by
  intro hnone
  have hbefore : s.batchRuns.get? b = none := by
    have hkey := present_apply w s hadds (.row .batchRun b)
    simp only [Store.present, hnone, Option.isSome_none, Bool.false_eq_true, false_iff, not_or] at hkey
    simpa using hkey.1
  have hitems := hs hbefore
  by_cases hcreates : ∃ row, w = .batchRunItem row
  · obtain ⟨row, rfl⟩ := hcreates
    rcases itemsOf_insert row s b with hsame | ⟨rfl, -⟩
    · rw [hsame, hitems]
    · have hrun := hneeds (.row .batchRun row.batchRunId) (List.mem_singleton_self _)
      simp [Store.present, hbefore] at hrun
  · rw [itemsOf_apply fun row hr => hcreates ⟨row, hr⟩, hitems, List.map_nil]

theorem housed_applyAll {ws : List Write} (hadm : database.Admissible s ws) (hs : Housed b s) :
    Housed b (database.applyAll ws s) := by
  induction ws generalizing s with
  | nil => exact hs
  | cons w ws ih =>
      obtain ⟨hadds, hneeds, hws⟩ := (Database.admissible_cons lawful_database).mp hadm
      exact ih hws (housed_apply hadds hneeds hs)

theorem recordRules_valid : (recordRules env b).Valid ok := by
  refine Rules.static_valid lawful_database Store.KeepsItems.refl (fun _ _ _ => .trans)
    (Rules.unguarded_statements (fun _ => rfl) fun _ _ _ _ => trivial) ?_ ?_
  · exact fun s T l h a hc =>
      ⟨housed_applyAll hc.admissible hc.inv, .applyAll (writes h) s, trivial⟩
  · exact fun c call _ _ => (Rules.Fine.of_pre (fun _ _ _ => trivial) _ _ _).mono
      (fun _ _ _ _ => trivial) fun _ _ _ _ => trivial

theorem mays_of_steps (hs : Housed b s) (hrun : Steps (server env) ok (.initial s) c) :
    (recordOf env b).Mays c := by
  intro i call pool β l h x k hth
  obtain ⟨⟨own, hsound⟩, -⟩ := Rules.sound_of_steps (@recordRules_valid env b ok) hs hrun
  have hc := hsound.commits (@recordRules_valid env b ok) hth
  refine ⟨hc.inv, hc.admissible, committed_of_runs answering_of_sawItems
    (runs_of_completes hc.path (hc.evidence.mono fun p e _ he => ?_))⟩
  obtain ⟨s₀, ch, -, hle, hexec⟩ := he.1
  exact ⟨s₀, ch, hle, hexec⟩

theorem lawful_record : (recordOf env b).Lawful (server env)
    fun c a => retriedLater b c a && repairsNoItem b c a where
  same := ⟨fun _ => rfl, fun h => h.symm, fun h h' => h.trans h'⟩
  same_absent := fun h habsent => (congrArg RunState.row h).symm.trans habsent
  same_open := open_of_same
  same_closed := recorded_of_same
  aside := fun hmay hl hmakes => (same_of_leaves hmay hl hmakes).symm
  absent_of_makes := open_of_creates
  works := open_of_processes
  later := fun hmay _ hsame hl hspares => (same_of_retries hmay hsame hl hspares).symm
  not_absent := by
    rintro s (hopen | ⟨run, hrecorded⟩) (habsent : s.batchRuns.get? b = none)
    · obtain ⟨run, hrow, -⟩ := hopen.running
      cases habsent.symm.trans hrow
    · cases habsent.symm.trans hrecorded.row
  start := by
    intro c call hok
    have hlater : retriedLater b c (.start call) = true := (Bool.and_eq_true_iff.mp hok).1
    cases call with
    | runBatch triggeredBy => exact Or.inl (runBatch_clear triggeredBy)
    | retryFailedItems id context =>
        by_cases hid : id = b
        · subst hid
          obtain ⟨run, hrow, hended⟩ : ∃ run, c.store.batchRuns.get? id = some run ∧
              run.status ≠ .running := by simpa [retriedLater, Option.any_eq_true] using hlater
          refine Or.inr ⟨fun (habsent : c.store.batchRuns.get? id = none) => ?_, fun hopen => ?_, ?_⟩
          · cases habsent.symm.trans hrow
          · obtain ⟨run', hrow', hrunning⟩ := hopen.running
            cases Option.some.inj (hrow'.symm.trans hrow)
            exact hended hrunning
          · rintro s₀ ⟨run', hrecorded⟩ -
            exact retryFailedItems_later hrecorded context
        · exact Or.inl (Resource.Aside.clear (.bind (retryFailedItems_aside hid context) fun _ => trivial))
    | _ => exact Or.inl (transfers_clear rfl)
  spared := by
    rintro c i ch call pool β l h a k hok hth ⟨run, hrecorded⟩
    have hnone : repairsNoItem b c (.advance i ch) = true := (Bool.and_eq_true_iff.mp hok).2
    cases l with
    | processBatchItem b' accountId =>
        rintro rfl
        have hended : run.status ≠ .running := hrecorded.status ▸ finalStatus_ne_running _ _
        have hrow : c.store.batchRuns.get? b' = some run := hrecorded.row
        simpa [repairsNoItem, hth, hrow, hended] using hnone
    | _ => trivial

end Runs

end BatchService

open BatchService in
/-- While no item of the run is completed after the end of `runBatch`, the record of the run agrees
with its items. -/
theorem record_agrees (env : Env) {b : Uuid} {s : Store} (hrow : s.batchRuns.get? b = none)
    (hitems : s.itemsOf b none = []) {c : ServerConfig}
    (hrun : Steps (server env) (fun c a => retriedLater b c a && repairsNoItem b c a) (.initial s) c)
    {run : BatchRun} (hfound : c.store.batchRuns.get? b = some run) (hended : run.status ≠ .running) :
    c.store.Tallies run := by
  have hphase := (@lawful_record env b).phase_of_steps hrow
    (fun _ => mays_of_steps fun _ => hitems) hrun
  have hopen : ¬ (c.store.runState b).Open := by
    rintro ⟨⟨run', hrow', hrunning⟩, -⟩
    cases Option.some.inj (hrow'.symm.trans hfound)
    exact hended hrunning
  cases hphase with
  | absent habsent _ => cases habsent.symm.trans hfound
  | owned howned => exact absurd howned.open_ hopen
  | orphaned ho _ => exact absurd ho hopen
  | closed hclosed hsame _ =>
      obtain ⟨run', hrecorded⟩ := recorded_of_same hsame hclosed
      cases Option.some.inj (hrecorded.row.symm.trans hfound)
      exact hrecorded.agrees

/-! ## Two runs -/

/-- The row of a run that ended, with the first identifiers of its schedule. -/
def endedRun (status : BatchRunStatus) (successCount failureCount : Nat) : BatchRun where
  id := "id-a10-0"
  batchType := "end-of-day-interest-close"
  status := status
  scheduledFor := 0
  startedAt := some 0
  completedAt := some 0
  processedCount := successCount + failureCount
  successCount := successCount
  failureCount := failureCount
  failureSummary := some failureCount
  correlationId := "id-a1-0"

open BatchService in
/-- The item of an account without a ledger account fails again when it is retried. -/
theorem record_agrees_unlinked : (endedRun .failed 0 1).status ≠ .running ∧
    ∃ c : ServerConfig, c.threads.length = 4 ∧ c.atRest = true ∧
      c.store.Tallies (endedRun .failed 0 1) := by
  have hended : (endedRun .failed 0 1).status ≠ .running := by decide
  obtain ⟨c, hrun, hthreads, hrest, hrow⟩ := exists_of_play (server testEnvironment)
    (fun c a => retriedLater "id-a10-0" c a && repairsNoItem "id-a10-0" c a) (.initial unlinkedStore)
    (.start (.runBatch "scheduler") ::
      (advances 0 "a" 19 ++ advances 1 "b" 8 ++ advances 0 "c" 19 ++
        .start (.retryFailedItems "id-a10-0" (demoContext "k")) ::
          (advances 2 "d" 4 ++ advances 3 "e" 8 ++ advances 2 "f" 4)))
    (fun c => c.threads.length = 4 ∧ c.atRest = true ∧
      c.store.batchRuns.get? "id-a10-0" = some (endedRun .failed 0 1)) (by decide +kernel)
  exact ⟨hended, c, hthreads, hrest,
    record_agrees testEnvironment (by decide +kernel) (by decide +kernel) hrun hrow hended⟩

open BatchService in
/-- The chunk and one item of a run are aborted.  A retry completes the item, and the record still
counts it as failed. -/
theorem record_stale : ∃ c : ServerConfig,
    Steps (server testEnvironment) (retriedLater "id-a10-0") (.initial demoStore) c ∧
      c.atRest = true ∧ c.store.batchRuns.get? "id-a10-0" = some (endedRun .partiallyFailed 1 1) ∧
      ¬ c.store.Tallies (endedRun .partiallyFailed 1 1) := by
  obtain ⟨c, hrun, hrest, hrow, hitems⟩ := exists_of_play (server testEnvironment)
    (retriedLater "id-a10-0") (.initial demoStore)
    (.start (.runBatch "scheduler") ::
      (advances 0 "a" 22 ++ .abort 0 :: advances 0 "b" 1 ++ advances 1 "c" 2 ++
        .abort 1 :: advances 1 "d" 3 ++ advances 2 "e" 16 ++ advances 0 "f" 19 ++
        .start (.retryFailedItems "id-a10-0" (demoContext "k")) ::
          (advances 3 "g" 4 ++ advances 4 "h" 16 ++ advances 3 "i" 4)))
    (fun c => c.atRest = true ∧
      c.store.batchRuns.get? "id-a10-0" = some (endedRun .partiallyFailed 1 1) ∧
      (c.store.itemsOf "id-a10-0" (some .failed)).length = 0) (by decide +kernel)
  refine ⟨c, hrun, hrest, hrow, fun htallies => ?_⟩
  have hfailed := htallies.failed
  rw [show (endedRun .partiallyFailed 1 1).id = "id-a10-0" from rfl, hitems] at hfailed
  cases hfailed

end LedgerCredit
