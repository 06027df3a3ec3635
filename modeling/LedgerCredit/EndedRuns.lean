import LedgerCredit.Tally
import LedgerCredit.Txn.Knowledge

/-!
# Runs that end

`runBatch` creates an item for each active account, and it returns when each of them is
completed or failed.  A chunk completes its items or none, and after an error its accounts are
handed to workers.  A worker completes its item or marks it as failed, and an error of the mark
is an error of the call.

*Facts.*  `RunFact` is what threads learn of a run from what they commit.  Only the list of its
items has a key, which the call that created the run keeps.  `runKnowledge` says how
transactions use the facts, for any calls that run at once.

*Counts.*  While no retry completes an item of the run, its record says that the items that
succeeded and those that failed are all.
-/

namespace LedgerCredit

open Txn

/-- The statuses of an item that was processed. -/
def BatchRunItemStatus.ended : BatchRunItemStatus → Bool
  | .completed | .failed => true
  | .pending | .running => false

namespace BatchService

/-! ## Facts -/

/-- What a thread knows of the items, for the run that is looked at. -/
inductive RunFact where
  /-- The run exists, and its items are those of the accounts. -/
  | items (accountIds : List Uuid)
  /-- There is an item, in any run. -/
  | has (batchRunId accountId : Uuid)
  | ended (accountId : Uuid)
  | recorded
  /-- The active accounts are among these. -/
  | listed (accountIds : List Uuid)

/-- The resources of the items of a run. -/
def resources (s : Store) (b : Uuid) : List (String × Uuid) :=
  (s.itemsOf b none).map fun i => (i.resourceType, i.resourceId)

/-- The item of the account has ended. -/
def Ended (s : Store) (b accountId : Uuid) : Prop :=
  ∃ i, s.itemOf b accountId = some i ∧ i.status.ended = true

namespace RunFact

/-- The fact holds of the store, for the run `b`. -/
def Holds (b : Uuid) (s : Store) : RunFact → Prop
  | .items ids => (s.batchRuns.get? b).isSome = true ∧ resources s b = ids.map ("account", ·)
  | .has b' x => (s.itemOf b' x).isSome = true
  | .ended x => Ended s b x
  | .recorded => ∃ run, s.batchRuns.get? b = some run ∧ run.status ≠ .running
  | .listed ids => ∀ account ∈ s.accounts.rows, account.status = .active → account.id ∈ ids

/-- The list of the items is known to one thread. -/
def key : RunFact → Option Unit
  | .items _ => some ()
  | _ => none

end RunFact

/-- How the items of a run evolve: they stay, and those that ended stay ended. -/
structure Proceeds (b : Uuid) (s s' : Store) : Prop where
  keeps : s.KeepsItems s'
  accounts : s'.accounts = s.accounts
  ended : ∀ x, Ended s b x → Ended s' b x

theorem Proceeds.refl (b : Uuid) (s : Store) : Proceeds b s s := ⟨.refl s, rfl, fun _ h => h⟩

theorem Proceeds.trans {b : Uuid} {s s' s'' : Store} (h : Proceeds b s s') (h' : Proceeds b s' s'') :
    Proceeds b s s'' :=
  ⟨h.keeps.trans h'.keeps, h'.accounts.trans h.accounts, fun x hx => h'.ended x (h.ended x hx)⟩

/-- The row of an item, whatever identifier it gets. -/
def itemOfAccount (b : Uuid) (f : Uuid → BatchRunItem) : Prop :=
  ∀ id, (f id).batchRunId = b ∧ (f id).resourceType = "account" ∧ (f id).resourceId = (f "").resourceId

/-- What a transaction needs to know. -/
def runNeeds (b : Uuid) (M : Set RunFact) : {α : Type} → Label α → Prop
  | _, .createTransfer _ | _, .applyNormalizedEvent _ | _, .processBatchItem .. => True
  | _, .processBatchChunk b' accounts _ => ∀ x ∈ accounts, .has b' x.id ∈ M
  | _, .statement (.createBatchRunItems data) =>
      (∀ f ∈ data, ∀ id, (f id).status = .pending ∧ (f id).attemptCount = 0) ∧
        ((∀ f ∈ data, ∀ id, (f id).batchRunId ≠ b) ∨
          (∃ ids, .items ids ∈ M) ∧ ∀ f ∈ data, itemOfAccount b f)
  | _, .statement (.updateBatchRunItemOf b' t r d) =>
      marksFailed (b', r) (.statement (.updateBatchRunItemOf b' t r d))
  | _, .statement (.updateBatchRun b' d) => b' = b → d.status ≠ .running
  | _, .statement q => Outside q

/-- What it leaves known. -/
def runLearns (b : Uuid) (M : Set RunFact) : {α : Type} → Label α → α → Set RunFact
  | _, .processBatchChunk b' accounts _, _ => M ∪ {d | b' = b ∧ ∃ x ∈ accounts, d = .ended x.id}
  | _, .processBatchItem b' x, _ => M ∪ {d | b' = b ∧ .has b x ∈ M ∧ d = .ended x}
  | _, .statement (.createBatchRun _), run => M ∪ {d | run.id = b ∧ d = .items []}
  | _, .statement .findActiveAccounts, accounts => M ∪ {.listed (accounts.map (·.id))}
  | _, .statement (.createBatchRunItems data), _ =>
      {d | d ∈ M ∧ d.key = none} ∪
        {d | ∃ f ∈ data, ∃ b', itemOfAccount b' f ∧ d = .has b' (f "").resourceId} ∪
        {d | ∃ ids, .items ids ∈ M ∧ (∀ f ∈ data, itemOfAccount b f) ∧
          d = .items (ids ++ data.map fun f => (f "").resourceId)}
  | _, .statement (.updateBatchRunItemOf b' _ x _), _ => M ∪ {d | b' = b ∧ d = .ended x}
  | _, .statement (.updateBatchRun b' _), _ => M ∪ {d | b' = b ∧ d = .recorded}
  | _, _, _ => M

/-- What a call that returns the run has learned: its items are those of the active accounts, and all
of them have ended. -/
def runDone (b : Uuid) (_ : Call) (r : Reply) (M : Set RunFact) : Prop :=
  r = .batchRun b → .recorded ∈ M ∧ ∃ ids, .items ids ∈ M ∧ .listed ids ∈ M ∧ ∀ x ∈ ids, .ended x ∈ M

/-- What calls learn of the run `b`. -/
def runKnowledge (b : Uuid) : Knowledge Label TxError Store RunFact Unit Call Reply where
  Inv := fun s => (∀ x, Tried s b x) ∧ Housed b s
  le := Proceeds b
  met := fun s d => d.Holds b s
  key := RunFact.key
  pre := fun M l => runNeeds b M l
  next := fun M l a => runLearns b M l a
  fails := fun _ _ _ => True
  done := runDone b

/-! ## Writes -/

/-- The write creates an item of the run. -/
def AddsItem (b : Uuid) : Write → Prop
  | .batchRunItem row => row.batchRunId = b
  | _ => False

/-- The write does not open the record of the run again. -/
def KeepsRecord (b : Uuid) : Write → Prop
  | .updateBatchRun id d => id = b → d.status ≠ .running
  | _ => True

section Writes

variable {b : Uuid} {s : Store}

theorem items_of_apart {ws : List Write} (h : ∀ w ∈ ws, w.apart) :
    (database.applyAll ws s).batchRunItems = s.batchRunItems := by
  induction ws generalizing s with
  | nil => rfl
  | cons w ws ih =>
      obtain ⟨hw, hws⟩ := List.forall_mem_cons.mp h
      refine (ih (s := w.apply s) hws).trans ?_
      cases w <;> first | rfl | exact False.elim hw

theorem recorded_apply {w : Write} (hw : KeepsRecord b w) (hs : RunFact.recorded.Holds b s) :
    RunFact.recorded.Holds b (w.apply s) := by
  obtain ⟨run, hrow, hstatus⟩ := hs
  cases w with
  | batchRun row =>
      by_cases hfresh : s.batchRuns.Fresh row
      · refine ⟨run, (Table.get?_insert hfresh b).trans ?_, hstatus⟩
        have hne : row.id ≠ b := by
          rintro rfl
          exact hfresh.1 (List.mem_map.mpr ⟨run, Table.get?_eq_some.mp hrow⟩)
        rw [if_neg hne, hrow]
      · refine ⟨run, ?_, hstatus⟩
        rw [Write.apply, Table.insert, dif_neg hfresh]
        exact hrow
  | updateBatchRun id d =>
      have hget : ((Write.updateBatchRun id d).apply s).batchRuns.get? b =
          some (if b = id then d.apply run else run) := by
        show (s.batchRuns.modify id d.apply d.apply_id fun _ => rfl).get? b = _
        rw [Table.get?_modify, hrow]
        split <;> rfl
      refine ⟨_, hget, ?_⟩
      split
      · rename_i hid
        exact hw hid.symm
      · exact hstatus
  | _ => exact ⟨run, hrow, hstatus⟩

theorem recorded_applyAll {ws : List Write} (hws : ∀ w ∈ ws, KeepsRecord b w)
    (hs : RunFact.recorded.Holds b s) : RunFact.recorded.Holds b (database.applyAll ws s) := by
  induction ws generalizing s with
  | nil => exact hs
  | cons w ws ih =>
      obtain ⟨hw, hws⟩ := List.forall_mem_cons.mp hws
      exact ih hws (recorded_apply hw hs)

/-- The items of the run are those of before, and those that are created. -/
theorem resources_apply {w : Write} (hw : ¬ AddsItem b w) :
    resources (w.apply s) b = resources s b := by
  by_cases hcreates : ∃ row, w = .batchRunItem row
  · obtain ⟨row, rfl⟩ := hcreates
    rcases itemsOf_insert row s b with hsame | ⟨hb, -⟩
    · rw [resources, hsame]
      rfl
    · exact absurd hb hw
  · have hsame := fun i => w.onItem_same i
    rw [resources, itemsOf_apply fun row hr => hcreates ⟨row, hr⟩, List.map_map]
    exact List.map_congr_left fun i _ => by simp [hsame]

theorem resources_applyAll {ws : List Write} (hws : ∀ w ∈ ws, ¬ AddsItem b w) :
    resources (database.applyAll ws s) b = resources s b := by
  induction ws generalizing s with
  | nil => rfl
  | cons w ws ih =>
      obtain ⟨hw, hws⟩ := List.forall_mem_cons.mp hws
      exact (ih (s := w.apply s) hws).trans (resources_apply hw)

theorem resources_created {rows : List BatchRunItem} (hrows : ∀ row ∈ rows, row.batchRunId = b)
    (hadm : database.Admissible s (rows.map .batchRunItem)) :
    resources (database.applyAll (rows.map .batchRunItem) s) b =
      resources s b ++ rows.map fun i => (i.resourceType, i.resourceId) := by
  induction rows generalizing s with
  | nil => simp
  | cons row rows ih =>
      obtain ⟨hrow, hrows⟩ := List.forall_mem_cons.mp hrows
      obtain ⟨hadds, -, hadm⟩ := (Database.admissible_cons lawful_database).mp hadm
      have hfresh : s.batchRunItems.Fresh row := by
        refine Table.fresh_of_absent ?_ fun u hu => ?_
        · exact Bool.eq_false_iff.mpr (hadds (.row .batchRunItem row.id) (List.mem_cons_self ..))
        · cases hu
          exact Bool.eq_false_iff.mpr (hadds
            (.batchRunItem row.batchRunId row.resourceType row.resourceId)
            (List.mem_cons_of_mem _ (List.mem_singleton_self _)))
      refine (ih (s := (Write.batchRunItem row).apply s) hrows hadm).trans ?_
      have hone : resources ((Write.batchRunItem row).apply s) b =
          resources s b ++ [(row.resourceType, row.resourceId)] := by
        simp [resources, Store.itemsOf, Write.apply, Table.rows_insert hfresh, hrow]
      rw [hone, List.map_cons, List.append_assoc]
      rfl

end Writes

/-! ## Commits -/

/-- The transactions that look at transfers. -/
def ofRail : {α : Type} → Label α → Prop
  | _, .createTransfer _ | _, .applyNormalizedEvent _ => True
  | _, _ => False

section Commits

variable {env : Env} {b : Uuid} {s : Store} {M : Set RunFact} {α : Type} {l : Label α}
  {h : List (Event Stmt Write)} {a : α}

/-- A transaction of the batch that knows what it needs is ready. -/
theorem ready_of_needs (hl : ¬ ofRail l) (hmet : (runKnowledge b).Met s M) (hneeds : runNeeds b M l) :
    Ready s l := by
  cases l with
  | createTransfer args => exact absurd trivial hl
  | applyNormalizedEvent event => exact absurd trivial hl
  | processBatchChunk b' accounts revenue => exact ⟨none, Or.inl fun x hx => hmet _ (hneeds x hx)⟩
  | processBatchItem b' x => exact ⟨none, Or.inl trivial⟩
  | statement q =>
      cases q with
      | createBatchRunItems data => exact ⟨none, Or.inl hneeds.1⟩
      | updateBatchRunItemOf b' t r d => exact ⟨some (b', r), Or.inr ⟨_, rfl, hneeds⟩⟩
      | updateBatchRun b' d => exact ⟨none, Or.inl trivial⟩
      | _ => exact ⟨none, Or.inl hneeds⟩

theorem committed_of_underway (hc : (runKnowledge b).Underway (server env) s M l h (.pure a)) :
    Committed (SawItems s) env l a (writes h) := by
  refine committed_of_runs answering_of_sawItems (runs_of_completes hc.path ?_)
  refine hc.evidence.mono fun p e _ he => ?_
  obtain ⟨s₀, ch, -, -, hle, hexec⟩ := he
  exact ⟨s₀, ch, hle.keeps, hexec⟩

variable (hadm : database.Admissible s (writes h))
  (hc : (runKnowledge b).Underway (server env) s M l h (.pure a))

include hadm hc

theorem attempt_of_underway (hl : ¬ ofRail l) (x : Uuid) :
    (attemptRules env b x).Commits s ∅ l h a := by
  refine ⟨hc.inv.1 x, ready_of_needs hl hc.met hc.pre, hc.path, ?_, hadm⟩
  refine hc.evidence.mono fun p e _ he => ?_
  obtain ⟨s₀, ch, hinv, hmet, hle, hexec⟩ := he
  exact ⟨⟨s₀, ch, hinv.1 x, hle.keeps, hexec⟩, s₀, ∅, ch, ready_of_needs hl hmet hc.pre, hle.keeps,
    hexec⟩

omit hadm in
/-- A statement saw an earlier store. -/
theorem read_of_underway {q : Stmt α} (hl : l = .statement q) :
    ∃ (s₀ : Store) (ch : Choice), Proceeds b s₀ s ∧ s₀.exec q ch = .ok (a, writes h) := by
  subst hl
  obtain ⟨s₀, ch, -, -, hproceeds, hexec⟩ := runs_send.mp (runs_of_completes hc.path hc.evidence)
  exact ⟨s₀, ch, hproceeds, hexec⟩

omit hadm in
theorem saw_of_underway {q : Stmt α} (hl : l = .statement q) : SawItems s [] ⟨q, a, writes h⟩ := by
  obtain ⟨s₀, ch, hproceeds, hexec⟩ := read_of_underway hc hl
  exact ⟨s₀, ch, hproceeds.keeps, hexec⟩

/-- What a commit does to the item of an account. -/
theorem itemStep_of_underway (x : Uuid) :
    ItemStep b x l (s.itemOf b x) ((database.applyAll (writes h) s).itemOf b x)
      ((attempting b x l h).toNat + (covers b x l).toNat) := by
  by_cases hl : ofRail l
  · have hsame : (database.applyAll (writes h) s).itemOf b x = s.itemOf b x := by
      cases committed_of_underway hc with
      | createTransfer hrun => rw [Store.itemOf, items_of_apart hrun.apart, Store.itemOf]
      | applyNormalizedEvent hrun => rw [Store.itemOf, items_of_apart hrun.apart, Store.itemOf]
      | _ => exact False.elim hl
    rw [hsame]
    cases l with
    | createTransfer args => exact .kept _
    | applyNormalizedEvent event => exact .kept _
    | _ => exact False.elim hl
  · exact itemStep_of_commits (attempt_of_underway hadm hc hl x)

theorem proceeds_of_underway : Proceeds b s (database.applyAll (writes h) s) := by
  refine ⟨.applyAll (writes h) s, applyAll_accounts _ _, fun x ⟨i, hi, hended⟩ => ?_⟩
  have hstep := itemStep_of_underway hadm hc x
  obtain ⟨i', hi', -⟩ := Store.KeepsItems.applyAll (writes h) s _ i hi
  refine ⟨i', hi', ?_⟩
  rw [hi, show (database.applyAll (writes h) s).itemOf b x = some i' from hi'] at hstep
  generalize (attempting b x l h).toNat + (covers b x l).toNat = n at hstep
  cases hstep with
  | kept => exact hended
  | counted _ hstatus => rw [hstatus]; rfl
  | failed _ _ hstatus => rw [hstatus]; rfl

/-- What a transaction may write of runs. -/
def mayWrite : {α : Type} → Label α → Write → Prop
  | _, .statement (.createBatchRunItems data), w => ∃ f ∈ data, ∃ id, w = .batchRunItem (f id)
  | _, .statement (.updateBatchRun id d), w => w = .updateBatchRun id d
  | _, _, w => (∀ row, w ≠ .batchRunItem row) ∧ ∀ id d, w ≠ .updateBatchRun id d

omit hadm in
theorem mayWrite_of_underway : ∀ w ∈ writes h, mayWrite l w := by
  have happart : ∀ {w : Write}, w.apart →
      (∀ row, w ≠ .batchRunItem row) ∧ ∀ id d, w ≠ .updateBatchRun id d := by
    intro w hw
    refine ⟨?_, ?_⟩
    · rintro row rfl
      exact hw
    · rintro id d rfl
      exact hw
  have hprocesses : ∀ {b' : Uuid} {w : Write}, w.processes s b' →
      (∀ row, w ≠ .batchRunItem row) ∧ ∀ id d, w ≠ .updateBatchRun id d := by
    rintro b' w (hkind | ⟨id, d, rfl, -⟩)
    · exact happart (Write.apart_of_kind (by simp [hkind]))
    · simp
  cases committed_of_underway hc with
  | createTransfer hrun => exact fun w hw => happart (hrun.apart w hw)
  | applyNormalizedEvent hrun => exact fun w hw => happart (hrun.apart w hw)
  | processBatchChunk hrun => exact fun w hw => hprocesses (hrun.processes w hw)
  | processBatchItem hrun => exact fun w hw => hprocesses (hrun.processes w hw)
  | @statement _ q r ws hsaw =>
      have hanswer := answering_of_sawItems _ _ _ _ hsaw
      have hneeds := hc.pre
      generalize writes h = ws at hanswer hsaw ⊢
      cases q with
      | createBatchRunItems data =>
          obtain ⟨uuid, rfl⟩ := hanswer
          intro w hw
          obtain ⟨d, hd, rfl⟩ := List.mem_map.mp hw
          exact ⟨d.1, List.fst_mem_of_mem_zipIdx hd, _, rfl⟩
      | updateBatchRun id d =>
          obtain rfl := hanswer
          exact List.forall_mem_singleton.mpr rfl
      | updateBatchRunItemOf b' t r d =>
          obtain ⟨_, _, _, _, rfl⟩ := itemOf_of_updateOf hsaw
          simp [mayWrite]
      | _ => first
          | exact False.elim hneeds
          | (obtain rfl := hanswer; simp [mayWrite])
          | (obtain ⟨_, rfl⟩ := hanswer; simp [mayWrite])

/-- The statement creates items of the run. -/
def addsItems (b : Uuid) : {α : Type} → Label α → Prop
  | _, .statement (.createBatchRunItems data) => ¬ ∀ f ∈ data, ∀ id, (f id).batchRunId ≠ b
  | _, _ => False

/-- A fact outlives a commit that does not list other items. -/
theorem holds_of_underway {d : RunFact} (hd : d.Holds b s) (hkey : d.key = none ∨ ¬ addsItems b l) :
    d.Holds b (database.applyAll (writes h) s) := by
  have hproceeds := proceeds_of_underway hadm hc
  have hmay := mayWrite_of_underway hc
  cases d with
  | has b' x =>
      obtain ⟨i, hi⟩ := Option.isSome_iff_exists.mp hd
      obtain ⟨i', hi', -⟩ := hproceeds.keeps _ i hi
      exact Option.isSome_iff_exists.mpr ⟨i', hi'⟩
  | ended x => exact hproceeds.ended x hd
  | listed ids =>
      intro account haccount
      rw [hproceeds.accounts] at haccount
      exact hd account haccount
  | recorded =>
      refine recorded_applyAll (fun w hw => ?_) hd
      have hw := hmay w hw
      cases w with
      | updateBatchRun id d =>
          cases l with
          | statement q =>
              cases q with
              | updateBatchRun id' d' =>
                  cases hw
                  exact hc.pre
              | createBatchRunItems data =>
                  obtain ⟨f, -, x, hx⟩ := hw
                  cases hx
              | _ => exact absurd rfl (hw.2 _ _)
          | _ => exact absurd rfl (hw.2 _ _)
      | _ => trivial
  | items ids =>
      have hforeign : ¬ addsItems b l := hkey.resolve_left (by simp [RunFact.key])
      refine ⟨?_, (resources_applyAll fun w hw hadds => ?_).trans hd.2⟩
      · exact (Database.present_applyAll lawful_database hadm (.row .batchRun b)).mpr (Or.inl hd.1)
      · have hw := hmay w hw
        cases w with
        | batchRunItem row =>
            cases l with
            | statement q =>
                cases q with
                | createBatchRunItems data =>
                    obtain ⟨f, hf, x, hx⟩ := hw
                    cases hx
                    exact not_not.mp hforeign f hf x hadds
                | updateBatchRun id d => cases hw
                | _ => exact absurd rfl (hw.1 _)
            | _ => exact absurd rfl (hw.1 _)
        | _ => exact hadds

end Commits

/-! ## What commits leave known -/

section Learned

variable {env : Env} {b : Uuid} {s : Store} {M : Set RunFact} {h : List (Event Stmt Write)}

/-- An attempt that is counted ends the item. -/
theorem ItemStep.ended {α : Type} {l : Label α} {x : Uuid} {s' : Store} {n : Nat}
    (h : ItemStep b x l (s.itemOf b x) (s'.itemOf b x) n) (hn : n = 1) : Ended s' b x := by
  unfold Ended
  generalize s.itemOf b x = before, s'.itemOf b x = after at h ⊢
  cases h with
  | counted _ hstatus => exact ⟨_, rfl, by rw [hstatus]; rfl⟩
  | _ => cases hn

theorem ended_of_chunk {accounts : List BatchAccountSnapshot} {revenue : List (String × Uuid)}
    {u : Unit} (hadm : database.Admissible s (writes h))
    (hc : (runKnowledge b).Underway (server env) s M (.processBatchChunk b accounts revenue) h
      (.pure u)) {x : BatchAccountSnapshot} (hx : x ∈ accounts) :
    Ended (database.applyAll (writes h) s) b x.id := by
  refine (itemStep_of_underway hadm hc x.id).ended ?_
  have hcovers : covers b x.id (.processBatchChunk b accounts revenue) = true := by
    simp only [covers, decide_true, Bool.true_and, decide_eq_true_eq]
    exact List.mem_map_of_mem hx
  rw [hcovers]
  rfl

/-- `processBatchItem` leaves an item that is there ended: it was completed, or it is now. -/
theorem ended_of_item {x : Uuid} {u : Unit} (hadm : database.Admissible s (writes h))
    (hc : (runKnowledge b).Underway (server env) s M (.processBatchItem b x) h (.pure u))
    (hx : .has b x ∈ M) : Ended (database.applyAll (writes h) s) b x := by
  obtain ⟨item, ws, h', rfl, hcase⟩ := completes_processBatchItem hc.path
  obtain ⟨s₀, ch, -, hmet, hproceeds, hexec⟩ := ((holds_cons ..).mp hc.evidence).1
  have hread : item = s₀.itemOf b x := (Prod.mk.inj (Except.ok.inj hexec)).1.symm
  obtain ⟨i, hi⟩ := Option.isSome_iff_exists.mp (hmet _ hx)
  obtain rfl := hread.trans hi
  rcases hcase with ⟨-, hcompleted⟩ | ⟨j, hj, hopen, -⟩
  · have hended : Ended s₀ b x := ⟨i, hi, by rw [hcompleted i rfl]; rfl⟩
    exact (proceeds_of_underway hadm hc).ended x (hproceeds.ended x hended)
  · obtain rfl := Option.some.inj hj
    refine (itemStep_of_underway hadm hc x).ended ?_
    simp [attempting, found, hopen, covers]

/-- A run that is created was not there. -/
theorem absent_of_createBatchRun {data : Uuid → BatchRun} {run : BatchRun}
    (hadm : database.Admissible s (writes h))
    (hc : (runKnowledge b).Underway (server env) s M (.statement (.createBatchRun data)) h
      (.pure run))
    (hrun : run.id = b) : s.batchRuns.get? b = none ∧ writes h = [.batchRun run] := by
  have hsaw := saw_of_underway hc rfl
  obtain ⟨-, hws⟩ := answering_of_sawItems _ _ _ _ hsaw
  rw [hws] at hadm
  have hkey : ¬ s.present (.row .batchRun run.id) = true :=
    Database.Admissible.absent hadm (List.mem_singleton_self _) (List.mem_singleton_self _)
  rw [hrun] at hkey
  exact ⟨by simpa [Store.present] using hkey, hws⟩

theorem items_of_createBatchRun {data : Uuid → BatchRun} {run : BatchRun}
    (hadm : database.Admissible s (writes h))
    (hc : (runKnowledge b).Underway (server env) s M (.statement (.createBatchRun data)) h
      (.pure run))
    (hrun : run.id = b) : (RunFact.items []).Holds b (database.applyAll (writes h) s) := by
  obtain ⟨habsent, hws⟩ := absent_of_createBatchRun hadm hc hrun
  rw [hws] at hadm ⊢
  refine ⟨?_, ?_⟩
  · exact (Database.present_applyAll lawful_database hadm (.row .batchRun b)).mpr
      (Or.inr (List.mem_flatMap.mpr ⟨_, List.mem_singleton_self _, hrun ▸ List.mem_singleton_self _⟩))
  · have hnone : (database.applyAll [.batchRun run] s).itemsOf b none = [] := hc.inv.2 habsent
    rw [resources, hnone]
    rfl

theorem ended_of_updateOf {b' t r : Uuid} {d : BatchRunItemUpdate} {u : Unit}
    (hc : (runKnowledge b).Underway (server env) s M (.statement (.updateBatchRunItemOf b' t r d)) h
      (.pure u)) (hb : b' = b) : Ended (database.applyAll (writes h) s) b r := by
  subst hb
  obtain ⟨-, rfl, -, hfailed, -⟩ : marksFailed (b', r) (.statement (.updateBatchRunItemOf b' t r d)) :=
    hc.pre
  have hsaw := saw_of_underway hc rfl
  obtain ⟨s₀, i, hle, hi, hws⟩ := itemOf_of_updateOf hsaw
  obtain ⟨i', hi', hid, -⟩ := hle _ i hi
  rw [hws]
  refine ⟨_, findItem_applyAll _ hi', ?_⟩
  simp [Write.onItem, hid, BatchRunItemUpdate.apply, hfailed, BatchRunItemStatus.ended]

theorem recorded_of_update {d : BatchRunUpdate} {u : Unit} (hadm : database.Admissible s (writes h))
    (hc : (runKnowledge b).Underway (server env) s M (.statement (.updateBatchRun b d)) h (.pure u)) :
    RunFact.recorded.Holds b (database.applyAll (writes h) s) := by
  have hsaw := saw_of_underway hc rfl
  have hws := answering_of_sawItems _ _ _ _ hsaw
  rw [hws] at hadm ⊢
  obtain ⟨-, hneeds, -⟩ := (Database.admissible_cons lawful_database).mp hadm
  have hthere : (s.batchRuns.get? b).isSome = true :=
    hneeds (.row .batchRun b) (List.mem_singleton_self _)
  obtain ⟨run, hrun⟩ := Option.isSome_iff_exists.mp hthere
  refine ⟨d.apply run, ?_, hc.pre rfl⟩
  show (s.batchRuns.modify b d.apply d.apply_id fun _ => rfl).get? b = _
  rw [Table.get?_modify, hrun]
  simp

theorem holds_of_created {data : List (Uuid → BatchRunItem)} {u : Unit}
    (hadm : database.Admissible s (writes h))
    (hc : (runKnowledge b).Underway (server env) s M (.statement (.createBatchRunItems data)) h
      (.pure u)) {d : RunFact} (hd : d ∈ runLearns b M (.statement (.createBatchRunItems data)) u) :
    d.Holds b (database.applyAll (writes h) s) := by
  rcases hd with (⟨hd, hkey⟩ | ⟨f, hf, b', hof, rfl⟩) | ⟨ids, hids, hof, rfl⟩
  · exact holds_of_underway hadm hc (hc.met d hd) (Or.inl hkey)
  · obtain ⟨id, hthere⟩ := created_of_commits (attempt_of_underway hadm hc id "") f hf
    obtain ⟨hrun, htype, hresource⟩ := hof id
    rw [hrun, htype, hresource] at hthere
    exact hthere
  · obtain ⟨hrow, hresources⟩ : (RunFact.items ids).Holds b s := hc.met _ hids
    refine ⟨?_, ?_⟩
    · exact (Database.present_applyAll lawful_database hadm (.row .batchRun b)).mpr (Or.inl hrow)
    · have hsaw := saw_of_underway hc rfl
      obtain ⟨uuid, hws⟩ := answering_of_sawItems _ _ _ _ hsaw
      have hrows : writes h = (data.zipIdx.map fun d => d.1 (uuid d.2)).map .batchRunItem := by
        rw [hws, List.map_map]
        rfl
      rw [hrows] at hadm ⊢
      have hofRun : ∀ row ∈ data.zipIdx.map fun d => d.1 (uuid d.2), row.batchRunId = b := by
        intro row hrow
        obtain ⟨d, hd, rfl⟩ := List.mem_map.mp hrow
        exact (hof d.1 (List.fst_mem_of_mem_zipIdx hd) _).1
      rw [resources_created hofRun hadm, hresources, List.map_append, List.map_map, List.map_map]
      refine congrArg _ ?_
      have hdata : data.map ((fun x => (("account" : String), x)) ∘ fun f => (f "").resourceId) =
          data.zipIdx.map
            ((fun x => (("account" : String), x)) ∘ (fun f => (f "").resourceId) ∘ Prod.fst) := by
        conv_lhs => rw [← List.zipIdx_map_fst 0 data, List.map_map]
        rfl
      rw [hdata]
      refine List.map_congr_left fun d hd => ?_
      obtain ⟨-, htype, hresource⟩ := hof d.1 (List.fst_mem_of_mem_zipIdx hd) (uuid d.2)
      simp only [Function.comp_apply, htype, hresource]

theorem met_of_underway {α : Type} {l : Label α} {a : α} (hadm : database.Admissible s (writes h))
    (hc : (runKnowledge b).Underway (server env) s M l h (.pure a)) :
    (runKnowledge b).Met (database.applyAll (writes h) s) (runLearns b M l a) := by
  have hold : ∀ d ∈ M, ¬ addsItems b l → d.Holds b (database.applyAll (writes h) s) :=
    fun d hd hl => holds_of_underway hadm hc (hc.met d hd) (Or.inr hl)
  cases l with
  | createTransfer args => exact fun d hd => hold d hd id
  | applyNormalizedEvent event => exact fun d hd => hold d hd id
  | processBatchChunk b' accounts revenue =>
      rintro d (hd | ⟨rfl, x, hx, rfl⟩)
      · exact hold d hd id
      · exact ended_of_chunk hadm hc hx
  | processBatchItem b' x =>
      rintro d (hd | ⟨rfl, hx, rfl⟩)
      · exact hold d hd id
      · exact ended_of_item hadm hc hx
  | statement q =>
      cases q with
      | createBatchRun data =>
          rintro d (hd | ⟨hrun, rfl⟩)
          · exact hold d hd id
          · exact items_of_createBatchRun hadm hc hrun
      | findActiveAccounts =>
          rintro d (hd | rfl)
          · exact hold d hd id
          · obtain ⟨s₀, ch, hproceeds, hexec⟩ := read_of_underway hc rfl
            have hreply : s₀.activeAccounts.map s₀.snapshot = a := (Prod.mk.inj (Except.ok.inj hexec)).1
            intro account haccount hactive
            rw [applyAll_accounts, hproceeds.accounts] at haccount
            have hmem : account ∈ s₀.activeAccounts :=
              (List.perm_insertionSort _ _).mem_iff.mpr
                (List.mem_filter.mpr ⟨haccount, by simpa using hactive⟩)
            rw [← hreply, List.map_map]
            exact List.mem_map.mpr ⟨account, hmem, rfl⟩
      | createBatchRunItems data => exact fun d hd => holds_of_created hadm hc hd
      | updateBatchRunItemOf b' t r d' =>
          rintro d (hd | ⟨hb, rfl⟩)
          · exact hold d hd id
          · exact ended_of_updateOf hc hb
      | updateBatchRun b' d' =>
          rintro d (hd | ⟨rfl, rfl⟩)
          · exact hold d hd id
          · exact recorded_of_update hadm hc
      | _ => exact fun d hd => hold d hd id

end Learned

/-! ## What calls learn -/

section Calls

variable {env : Env} {b : Uuid} {M : Set RunFact}

/-- A statement that leaves what is known as it is. -/
def plain : {α : Type} → Stmt α → Prop
  | _, .createBatchRun _ | _, .findActiveAccounts | _, .createBatchRunItems _
  | _, .updateBatchRunItemOf .. | _, .updateBatchRun .. => False
  | _, q => Outside q

theorem Learns.plain {α : Type} {q : Stmt α} {A : α → Set RunFact → Prop} (hA : ∀ a, A a M)
    (hq : plain q := by exact trivial) : (runKnowledge b).Learns (statement q) M A := by
  have hboth : runNeeds b M (.statement q) ∧ ∀ a, runLearns b M (.statement q) a = M := by
    cases q <;> first | exact ⟨hq, fun _ => rfl⟩ | exact False.elim hq
  exact .transaction hboth.1 fun a => by
    rw [show (runKnowledge b).next M (.statement q) a = M from hboth.2 a]
    exact hA a

theorem applyNormalizedEvent_learns (event : NormalizedExternalRailEvent) (M : Set RunFact) :
    (runKnowledge b).Learns (ExternalRailService.applyNormalizedEvent event) M fun _ _ => True := by
  rw [applyNormalizedEvent_eq]
  refine .transaction_bind trivial fun r => ?_
  have hreport : ∀ correlationId : String,
      (runKnowledge b).Learns (reportEvent event r correlationId) M fun _ _ => True :=
    fun _ => .bind (Learns.plain fun _ => trivial)
  unfold afterEvent
  cases r.correlationId with
  | some correlationId => exact hreport correlationId
  | none => exact .bind (.bind (Learns.plain fun _ => hreport _))

/-- The calls of transfers learn nothing of the run. -/
theorem transferParts_learns :
    TransferParts fun p => ∀ M, (runKnowledge b).Learns p M fun _ _ => True where
  pure := fun _ _ => trivial
  throw := fun _ _ => trivial
  bind := fun hp hf M => .bind ((hp M).mono fun a M' _ => hf a M')
  statement := fun q hq M => by
    cases q with
    | findTransferRequest id => exact Learns.plain fun _ => trivial
    | publishJob job => exact Learns.plain fun _ => trivial
    | createAuditEvent data => exact Learns.plain fun _ => trivial
    | _ => cases hq
  event := applyNormalizedEvent_learns
  create := fun _ M => .transaction trivial fun _ => trivial

theorem processBatchItem_learns {b' x : Uuid} (hx : .has b' x ∈ M) :
    (runKnowledge b).Learns (processBatchItem env b' x) M
      fun _ M' => {d | b' = b ∧ d = .ended x} ⊆ M' := by
  have hmarks : ∀ e, runNeeds b M (.statement (.updateBatchRunItemOf b' "account" x
      { status := .failed, lastError := some (some (env.message e)) })) :=
    fun _ => ⟨rfl, rfl, rfl, rfl, rfl⟩
  refine .orElse trivial (fun _ => ?_) fun e _ => .transaction (hmarks e) fun _ => ?_
  · rintro d ⟨rfl, rfl⟩
    exact Or.inr ⟨rfl, hx, rfl⟩
  · rintro d ⟨rfl, rfl⟩
    exact Or.inr ⟨rfl, rfl⟩

/-- The workers end the items that they are given. -/
theorem processBatchItems_learns {b' : Uuid} {ids : List Uuid} (hids : ∀ x ∈ ids, .has b' x ∈ M) :
    (runKnowledge b).Learns (processBatchItems env b' ids) M fun _ M' =>
      M ⊆ M' ∧ (b' = b → ∀ x ∈ ids, .ended x ∈ M') := by
  unfold processBatchItems
  split
  · rename_i hnone
    obtain rfl := List.length_eq_zero_iff.mp hnone
    exact ⟨Set.Subset.refl M, fun _ _ hx => by cases hx⟩
  · refine .pool (F := {d | ∃ x ∈ ids, d = .has b' x}) (G := fun x => {d | b' = b ∧ d = .ended x})
      ?_ ?_ (fun x hx => ?_) (And.intro Set.subset_union_left ?_)
    · rintro d ⟨x, hx, rfl⟩
      exact hids x hx
    · refine Set.eq_empty_of_forall_notMem ?_
      rintro u ⟨d, ⟨x, -, rfl⟩, hu⟩
      cases hu
    · exact processBatchItem_learns ⟨x, hx, rfl⟩
    · exact fun hb x hx => Or.inr ⟨x, hx, hb, rfl⟩

theorem processChunks_learns {b' : Uuid} {revenue : List (String × Uuid)}
    {chunks : List (List BatchAccountSnapshot)}
    (hchunks : ∀ chunk ∈ chunks, ∀ x ∈ chunk, .has b' x.id ∈ M) :
    (runKnowledge b).Learns (processChunks env b' revenue chunks) M fun _ M' =>
      M ⊆ M' ∧ (b' = b → ∀ chunk ∈ chunks, ∀ x ∈ chunk, .ended x.id ∈ M') := by
  induction chunks generalizing M with
  | nil => exact ⟨Set.Subset.refl M, fun _ _ hchunk => by cases hchunk⟩
  | cons chunk rest ih =>
      obtain ⟨hchunk, hrest⟩ := List.forall_mem_cons.mp hchunks
      -- the chunk itself, by its transaction or by workers
      have hfirst : (runKnowledge b).Learns
          ((Proc.transaction (.processBatchChunk b' chunk revenue)).orElse
            fun _ => processBatchItems env b' (chunk.map (·.id))) M fun _ M' =>
          M ⊆ M' ∧ (b' = b → ∀ x ∈ chunk, .ended x.id ∈ M') := by
        refine .orElse hchunk (fun _ => ⟨Set.subset_union_left, fun hb x hx => ?_⟩) fun _ _ => ?_
        · exact Or.inr ⟨hb, x, hx, rfl⟩
        · refine (processBatchItems_learns ?_).mono fun _ M' hM' => ⟨hM'.1, fun hb x hx => ?_⟩
          · intro y hy
            obtain ⟨x, hx, rfl⟩ := List.mem_map.mp hy
            exact hchunk x hx
          · exact hM'.2 hb x.id (List.mem_map_of_mem hx)
      refine .bind (hfirst.mono fun _ M₁ hM₁ => ?_)
      refine (ih fun c hc x hx => hM₁.1 (hrest c hc x hx)).mono fun _ M₂ hM₂ => ?_
      refine ⟨hM₁.1.trans hM₂.1, fun hb => List.forall_mem_cons.mpr ⟨fun x hx => ?_, hM₂.2 hb⟩⟩
      exact hM₂.1 (hM₁.2 hb x hx)

theorem loadInterestRevenueAccounts_learns (currencies : List String) :
    (runKnowledge b).Learns (loadInterestRevenueAccounts currencies) M fun _ M' => M' = M := by
  refine .bind (Learns.plain fun ledgerAccounts => ?_)
  simp only
  split
  · trivial
  · rfl

theorem exists_chunk {α : Type} {size n : Nat} (hsize : 0 < size) {l : List α} (hn : l.length ≤ n)
    {x : α} (hx : x ∈ l) : ∃ chunk ∈ chunks size n l, x ∈ chunk := by
  induction n generalizing l with
  | zero =>
      obtain rfl := List.length_eq_zero_iff.mp (Nat.le_zero.mp hn)
      cases hx
  | succ n ih =>
      cases l with
      | nil => cases hx
      | cons y l =>
          rw [← List.take_append_drop size (y :: l)] at hx
          rcases List.mem_append.mp hx with hx | hx
          · exact ⟨_, List.mem_cons_self .., hx⟩
          · have hlength : ((y :: l).drop size).length ≤ n := by
              rw [List.length_drop]
              simp only [List.length_cons] at hn ⊢
              omega
            obtain ⟨chunk, hchunk, hx⟩ := ih hlength hx
            exact ⟨chunk, List.mem_cons_of_mem _ hchunk, hx⟩

/-- Each account goes to a worker or is in a chunk. -/
theorem processBatchRunAccounts_learns {b' : Uuid} {accounts : List BatchAccountSnapshot}
    (haccounts : ∀ x ∈ accounts, .has b' x.id ∈ M) :
    (runKnowledge b).Learns (processBatchRunAccounts env b' accounts) M fun _ M' =>
      M ⊆ M' ∧ (b' = b → ∀ x ∈ accounts, .ended x.id ∈ M') := by
  have hfallback : ∀ y ∈ (accounts.filter fun account => account.ledgerAccountId.isNone).map (·.id),
      .has b' y ∈ M := by
    intro y hy
    obtain ⟨x, hx, rfl⟩ := List.mem_map.mp hy
    exact haccounts x (List.mem_filter.mp hx).1
  refine .bind ((processBatchItems_learns hfallback).mono fun _ M₁ hM₁ => ?_)
  have hnone : b' = b → ∀ x ∈ accounts, x.ledgerAccountId = none → .ended x.id ∈ M₁ :=
    fun hb x hx hledger => hM₁.2 hb x.id
      (List.mem_map_of_mem (List.mem_filter.mpr ⟨hx, by simp [hledger]⟩))
  split
  · rename_i hempty
    refine ⟨hM₁.1, fun hb x hx => hnone hb x hx ?_⟩
    by_contra hsome
    have hmem : x ∈ accounts.filter fun account => account.ledgerAccountId.isSome :=
      List.mem_filter.mpr ⟨hx, Option.isSome_iff_ne_none.mpr hsome⟩
    rw [List.length_eq_zero_iff.mp hempty] at hmem
    cases hmem
  · refine .bind ((loadInterestRevenueAccounts_learns _).mono fun revenue M₂ hM₂ => ?_)
    subst hM₂
    refine (processChunks_learns fun chunk hchunk x hx => ?_).mono fun _ M₃ hM₃ =>
      ⟨hM₁.1.trans hM₃.1, fun hb x hx => ?_⟩
    · exact hM₁.1 (haccounts x (List.mem_filter.mp (mem_of_mem_chunks hchunk hx)).1)
    · cases hledger : x.ledgerAccountId with
      | none => exact hM₃.1 (hnone hb x hx hledger)
      | some ledgerAccountId =>
          have hmem : x ∈ accounts.filter fun account => account.ledgerAccountId.isSome :=
            List.mem_filter.mpr ⟨hx, by simp [hledger]⟩
          obtain ⟨chunk, hchunk, hx⟩ := exists_chunk (lt_max_of_lt_left Nat.one_pos) le_rfl hmem
          exact hM₃.2 hb chunk hchunk x hx

/-! ### The statements of `runBatch` -/

theorem createBatchRun_learns (data : Uuid → BatchRun) :
    (runKnowledge b).Learns (statement (.createBatchRun data)) M fun run M' =>
      run.id = b → .items [] ∈ M' :=
  .transaction trivial fun _ hrun => Or.inr ⟨hrun, rfl⟩

theorem findActiveAccounts_learns : (runKnowledge b).Learns (statement .findActiveAccounts) M
    fun accounts M' => M ⊆ M' ∧ .listed (accounts.map (·.id)) ∈ M' :=
  .transaction trivial fun _ => ⟨Set.subset_union_left, Or.inr rfl⟩

theorem itemData_resources (b' : Uuid) (accounts : List BatchAccountSnapshot) :
    (itemData env b' accounts).map (fun f => (f "").resourceId) = accounts.map (·.id) := by
  rw [itemData, List.map_map]
  conv_rhs => rw [← List.zipIdx_map_fst 0 accounts, List.map_map]
  rfl

theorem createBatchRunItems_learns {b' : Uuid} (accounts : List BatchAccountSnapshot)
    (hitems : b' = b → .items [] ∈ M) :
    (runKnowledge b).Learns (statement (.createBatchRunItems (itemData env b' accounts))) M fun _ M' =>
      (∀ d ∈ M, d.key = none → d ∈ M') ∧ (∀ x ∈ accounts, .has b' x.id ∈ M') ∧
        (b' = b → .items (accounts.map (·.id)) ∈ M') := by
  have hof : ∀ f ∈ itemData env b' accounts, itemOfAccount b' f := by
    intro f hf id
    obtain ⟨p, -, rfl⟩ := List.mem_map.mp hf
    exact ⟨rfl, rfl, rfl⟩
  have hneeds : runNeeds b M (.statement (.createBatchRunItems (itemData env b' accounts))) := by
    refine ⟨itemData_untried, ?_⟩
    by_cases hb : b' = b
    · exact Or.inr ⟨⟨[], hitems hb⟩, hb ▸ hof⟩
    · exact Or.inl fun f hf id => (hof f hf id).1 ▸ hb
  refine .transaction hneeds fun _ =>
    ⟨fun d hd hkey => Or.inl (Or.inl ⟨hd, hkey⟩), fun x hx => ?_, fun hb => ?_⟩
  · have hmem : x.id ∈ (itemData env b' accounts).map fun f => (f "").resourceId := by
      rw [itemData_resources]
      exact List.mem_map_of_mem hx
    obtain ⟨f, hf, hresource⟩ := List.mem_map.mp hmem
    exact Or.inl (Or.inr ⟨f, hf, b', hof f hf, by rw [hresource]⟩)
  · exact Or.inr ⟨[], hitems hb, hb ▸ hof, by rw [itemData_resources]; rfl⟩

theorem updateBatchRun_learns {b' : Uuid} {d : BatchRunUpdate} (hd : d.status ≠ .running) :
    (runKnowledge b).Learns (statement (.updateBatchRun b' d)) M fun _ M' =>
      M ⊆ M' ∧ (b' = b → .recorded ∈ M') :=
  .transaction (l := Label.statement _) (fun _ => hd) fun _ =>
    ⟨Set.subset_union_left, fun hb => Or.inr ⟨hb, rfl⟩⟩

theorem runBatch_learns (triggeredBy : String) :
    (runKnowledge b).Learns (Call.program env (.runBatch triggeredBy)) ∅
      (runDone b (.runBatch triggeredBy)) := by
  simp only [Call.program, runBatch, randomUUID, Proc.bind_assoc]
  refine .bind (Learns.plain fun uuid => ?_)
  show (runKnowledge b).Learns (statement .newDate >>= _) ∅ _
  refine .bind (Learns.plain fun _ => ?_)
  refine .bind (Learns.plain fun _ => ?_)
  refine .bind ((createBatchRun_learns _).mono fun batchRun M₁ hitems => ?_)
  refine .bind (findActiveAccounts_learns.mono fun accounts M₂ hM₂ => ?_)
  refine .bind ((createBatchRunItems_learns accounts fun hb => hM₂.1 (hitems hb)).mono
    fun _ M₃ hM₃ => ?_)
  have hlisted := hM₃.1 _ hM₂.2 rfl
  refine .bind ((processBatchRunAccounts_learns hM₃.2.1).mono fun _ M₄ hM₄ => ?_)
  refine .bind (Learns.plain fun _ => ?_)
  refine .bind (Learns.plain fun _ => ?_)
  refine .bind (Learns.plain fun _ => ?_)
  refine .bind (Learns.plain fun _ => ?_)
  refine .bind ((updateBatchRun_learns (finalStatus_ne_running _ _)).mono fun _ M₅ hM₅ => ?_)
  refine .bind (Learns.plain fun _ => ?_)
  rintro ⟨hb⟩
  refine ⟨hM₅.2 rfl, accounts.map (·.id), hM₅.1 (hM₄.1 (hM₃.2.2 rfl)), hM₅.1 (hM₄.1 hlisted), ?_⟩
  intro y hy
  obtain ⟨x, hx, rfl⟩ := List.mem_map.mp hy
  exact hM₅.1 (hM₄.2 rfl x hx)

theorem retryFailedItems_learns (b' : Uuid) (context : RequestContext) :
    (runKnowledge b).Learns (retryFailedItems env b' context) M fun _ _ => True := by
  refine .bind (Learns.plain fun failedItems => ?_)
  split
  · trivial
  · refine .bind ?_
    have haudit : ∀ M, (runKnowledge b).Learns
        (auditRecord context ⟨"batch.retry_requested", "batch_run", b'⟩ >>=
          fun _ => pure failedItems.length) M fun _ _ => True :=
      fun _ => .bind (Learns.plain fun _ => trivial)
    unfold processBatchItems
    split
    · exact haudit M
    · refine .pool (F := ∅) (G := fun _ => ∅) (Set.empty_subset _) (by simp) (fun x _ => ?_) (haudit _)
      exact .orElse trivial (fun _ => Set.empty_subset _) fun e _ =>
        .transaction (l := Label.statement _) ⟨rfl, rfl, rfl, rfl, rfl⟩ fun _ => Set.empty_subset _

theorem program_learns (call : Call) :
    (runKnowledge b).Learns (call.program env) ∅ (runDone b call) := by
  have hnot : ∀ {r : Reply} {M : Set RunFact}, r ≠ .batchRun b → runDone b call r M :=
    fun hr heq => absurd heq hr
  have hreturn : ∀ {α : Type} {p : Process α} {f : α → Reply}, (∀ a, f a ≠ .batchRun b) →
      (runKnowledge b).Learns p ∅ (fun _ _ => True) →
      (runKnowledge b).Learns (p >>= fun a => .pure (f a)) ∅ (runDone b call) :=
    fun hf hp => .bind (hp.mono fun a M' _ => hnot (hf a))
  cases call with
  | runBatch triggeredBy => exact runBatch_learns triggeredBy
  | retryFailedItems b' context => exact hreturn (by simp) (retryFailedItems_learns b' context)
  | createTransfer input context =>
      exact hreturn (by simp)
        (TransfersService.createTransfer_parts transferParts_learns input context ∅)
  | applyNormalizedEvent event =>
      exact hreturn (by simp) (applyNormalizedEvent_learns event ∅)
  | processQueuedSubmission id =>
      exact hreturn (by simp)
        (ExternalRailService.processQueuedSubmission_parts transferParts_learns id ∅)
  | reconcileTransfer id context =>
      exact hreturn (by simp)
        (ExternalRailService.reconcileTransfer_parts transferParts_learns id context ∅)
  | redriveTransfer id context =>
      exact hreturn (by simp)
        (ExternalRailService.redriveTransfer_parts transferParts_learns id context ∅)

end Calls

/-! ## Runs -/

section Runs

variable {env : Env} {b : Uuid} {ok : ServerConfig → Action Choice Call → Bool}

/-- Only who knows the items of the run adds to them. -/
theorem key_of_addsItems {M : Set RunFact} {α : Type} {l : Label α} (hneeds : runNeeds b M l)
    (hadds : addsItems b l) : () ∈ (runKnowledge b).keys M := by
  cases l with
  | statement q =>
      cases q with
      | createBatchRunItems data =>
          obtain ⟨-, hforeign | ⟨⟨ids, hids⟩, -⟩⟩ := hneeds
          · exact absurd hforeign hadds
          · exact ⟨_, hids, rfl⟩
      | _ => exact hadds.elim
  | _ => exact hadds.elim

/-- A transaction takes the key of the run over, or it creates the run. -/
theorem key_of_learns {s : Store} {M : Set RunFact} {h : List (Event Stmt Write)} {α : Type}
    {l : Label α} {a : α} (hadm : database.Admissible s (writes h))
    (hc : (runKnowledge b).Underway (server env) s M l h (.pure a))
    (hu : () ∈ (runKnowledge b).keys (runLearns b M l a)) :
    () ∈ (runKnowledge b).keys M ∨ s.batchRuns.get? b = none := by
  obtain ⟨d, hd, hkey⟩ := hu
  have hold : d ∈ M → () ∈ (runKnowledge b).keys M := fun hd => ⟨d, hd, hkey⟩
  cases l with
  | createTransfer args => exact Or.inl (hold hd)
  | applyNormalizedEvent event => exact Or.inl (hold hd)
  | processBatchChunk b' accounts revenue =>
      rcases hd with hd | ⟨-, x, -, rfl⟩
      · exact Or.inl (hold hd)
      · cases hkey
  | processBatchItem b' x =>
      rcases hd with hd | ⟨-, -, rfl⟩
      · exact Or.inl (hold hd)
      · cases hkey
  | statement q =>
      cases q with
      | createBatchRun data =>
          rcases hd with hd | ⟨hrun, rfl⟩
          · exact Or.inl (hold hd)
          · exact Or.inr (absent_of_createBatchRun hadm hc hrun).1
      | findActiveAccounts =>
          rcases hd with hd | rfl
          · exact Or.inl (hold hd)
          · cases hkey
      | createBatchRunItems data =>
          rcases hd with (⟨hd, -⟩ | ⟨f, -, b', -, rfl⟩) | ⟨ids, hids, -, rfl⟩
          · exact Or.inl (hold hd)
          · cases hkey
          · exact Or.inl ⟨_, hids, rfl⟩
      | updateBatchRunItemOf b' t r d' =>
          rcases hd with hd | ⟨-, rfl⟩
          · exact Or.inl (hold hd)
          · cases hkey
      | updateBatchRun b' d' =>
          rcases hd with hd | ⟨-, rfl⟩
          · exact Or.inl (hold hd)
          · cases hkey
      | _ => exact Or.inl (hold hd)

theorem lawful_runKnowledge : (runKnowledge b).Lawful (server env) ok where
  lawful := lawful_database
  le_refl := Proceeds.refl b
  le_trans := fun _ _ _ => .trans
  commit := by
    intro α s M l h a hc hadm
    refine ⟨⟨fun x => tried_of_step (itemStep_of_underway hadm hc x) (hc.inv.1 x),
      housed_applyAll hadm hc.inv.2⟩, proceeds_of_underway hadm hc, met_of_underway hadm hc,
      fun M' hmet hapart d hd => ?_, fun u hu => ?_⟩
    · refine holds_of_underway hadm hc (hmet d hd) ?_
      cases hkey : d.key with
      | none => exact Or.inl rfl
      | some u =>
          refine Or.inr fun hadds => Set.disjoint_left.mp hapart ⟨d, hd, hkey⟩ ?_
          exact key_of_addsItems hc.pre hadds
    · refine (key_of_learns hadm hc hu).imp id fun habsent d hkey hd => ?_
      cases d with
      | items ids =>
          have hthere : (s.batchRuns.get? b).isSome = true := hd.1
          simp [habsent] at hthere
      | _ => cases hkey
  fail := fun _ _ _ _ _ _ _ _ _ _ _ => trivial
  start := fun _ call _ => program_learns call

end Runs

end BatchService

theorem itemOf_eq_none {b : Uuid} {s : Store} (hitems : s.itemsOf b none = []) (x : Uuid) :
    s.itemOf b x = none := by
  refine Option.eq_none_iff_forall_ne_some.mpr fun i hi => ?_
  obtain ⟨hmem, hkey⟩ := Table.find?_mem hi
  have hi : i ∈ s.itemsOf b none := mem_itemsOf.mpr ⟨hmem, congrArg Prod.fst (Option.some.inj hkey)⟩
  rw [hitems] at hi
  cases hi

theorem ended_iff {status : BatchRunItemStatus} :
    status.ended = true ↔ status = .completed ∨ status = .failed := by
  cases status <;> simp [BatchRunItemStatus.ended]

namespace BatchService

variable {env : Env} {b : Uuid} {s : Store} {c : ServerConfig} {ok : ServerConfig → Action Choice Call → Bool}

/-- What the call that returned the run has learned. -/
theorem learned_of_returned (hitems : s.itemsOf b none = []) (hrun : Steps (server env) ok (.initial s) c)
    {i : Nat} (hout : c.outcome i = some (.ok (.batchRun b))) :
    RunFact.recorded.Holds b c.store ∧ ∃ ids, (RunFact.items ids).Holds b c.store ∧
      (RunFact.listed ids).Holds b c.store ∧ ∀ x ∈ ids, Ended c.store b x := by
  have hinv : (runKnowledge b).Inv s := by
    refine ⟨fun x i hi => ?_, fun _ => hitems⟩
    rw [itemOf_eq_none hitems] at hi
    cases hi
  obtain ⟨call, M, hdone, hmet⟩ :=
    (@lawful_runKnowledge env b ok).learned_of_steps hinv hrun hout (by simp [server])
  obtain ⟨hrecorded, ids, hids, hlisted, hended⟩ := hdone rfl
  exact ⟨hmet _ hrecorded, ids, hmet _ hids, hmet _ hlisted, fun x hx => hmet _ (hended x hx)⟩

/-- The items of the accounts are the items of the run. -/
theorem ended_of_items {ids : List Uuid} (hids : (RunFact.items ids).Holds b s)
    (hended : ∀ x ∈ ids, Ended s b x) :
    ∀ item ∈ s.itemsOf b none, item.status = .completed ∨ item.status = .failed := by
  intro item hitem
  have hmem : (item.resourceType, item.resourceId) ∈ ids.map ("account", ·) :=
    hids.2 ▸ List.mem_map_of_mem hitem
  obtain ⟨x, hx, heq⟩ := List.mem_map.mp hmem
  obtain ⟨htype, hresource⟩ := Prod.mk.inj heq
  obtain ⟨item', hitem', hstatus⟩ := hended x hx
  obtain ⟨hrow, hrun⟩ := mem_itemsOf.mp hitem
  have hkey : s.itemOf b x = some item :=
    Table.find?_eq_some.mpr ⟨hrow, by rw [hrun, ← htype, ← hresource]⟩
  obtain rfl := Option.some.inj (hitem'.symm.trans hkey)
  exact ended_iff.mp hstatus

/-- Where all items have ended, those that are completed and those that failed are all. -/
theorem total_of_ended (h : ∀ item ∈ s.itemsOf b none, item.status = .completed ∨ item.status = .failed) :
    (s.runState b).count .completed + (s.runState b).count .failed = (s.itemsOf b none).length := by
  simp only [RunState.count, Store.runState, List.countP_map]
  generalize s.itemsOf b none = items at h
  induction items with
  | nil => rfl
  | cons item items ih =>
      obtain ⟨hitem, hitems⟩ := List.forall_mem_cons.mp h
      have hrest := ih hitems
      simp only [List.countP_cons, Function.comp_apply, BatchRunItem.state, List.length_cons]
        at hrest ⊢
      rcases hitem with hstatus | hstatus
      · simp only [hstatus, decide_true, if_true, reduceCtorEq, decide_false, Bool.false_eq_true,
          if_false]
        omega
      · simp only [hstatus, decide_true, if_true, reduceCtorEq, decide_false, Bool.false_eq_true,
          if_false]
        omega

end BatchService

open BatchService in
/-- When `runBatch` has returned the run, in any schedule, the run has its record, every item of it is
completed or failed, and every active account has an item. -/
theorem items_ended (env : Env) {b : Uuid} {s : Store} (hitems : s.itemsOf b none = []) {c : ServerConfig}
    (hrun : Steps (server env) (fun _ _ => true) (.initial s) c) {i : Nat}
    (hout : c.outcome i = some (.ok (.batchRun b))) :
    (∃ run, c.store.batchRuns.get? b = some run ∧ run.status ≠ .running) ∧
      (∀ item ∈ c.store.itemsOf b none, item.status = .completed ∨ item.status = .failed) ∧
      ∀ account ∈ c.store.accounts.rows, account.status = .active →
        ∃ item ∈ c.store.itemsOf b none, item.resourceType = "account" ∧ item.resourceId = account.id := by
  obtain ⟨hrecorded, ids, hids, hlisted, hended⟩ := learned_of_returned hitems hrun hout
  refine ⟨hrecorded, ended_of_items hids hended, fun account haccount hactive => ?_⟩
  have hmem : ("account", account.id) ∈ resources c.store b := by
    rw [hids.2]
    exact List.mem_map_of_mem (hlisted account haccount hactive)
  obtain ⟨item, hitem, heq⟩ := List.mem_map.mp hmem
  obtain ⟨htype, hresource⟩ := Prod.mk.inj heq
  exact ⟨item, hitem, htype, hresource⟩

/-- What a call has returned. -/
def returned (c : ServerConfig) (i : Nat) : Option Reply := (c.outcome i).bind Except.toOption

theorem outcome_of_returned {c : ServerConfig} {i : Nat} {r : Reply} (h : returned c i = some r) :
    c.outcome i = some (.ok r) := by
  obtain ⟨o, hout, ho⟩ := Option.bind_eq_some_iff.mp h
  cases o with
  | error e => cases ho
  | ok r' =>
      cases ho
      exact hout

/-- The batch over the seed, whose chunk is aborted, and so is the first of its two items. -/
def abortedRun : List (Action Choice Call) :=
  .start (.runBatch "scheduler") ::
    (advances 0 "a" 22 ++ .abort 0 :: advances 0 "b" 1 ++ advances 1 "c" 2 ++
      .abort 1 :: advances 1 "d" 3 ++ advances 2 "e" 16 ++ advances 0 "f" 19)

open BatchService in
/-- One item is completed and the other one failed, and the batch returns. -/
theorem items_ended_aborted : demoStore.itemsOf "id-a10-0" none = [] ∧ ∃ c : ServerConfig,
    returned c 0 = some (.batchRun "id-a10-0") ∧
    (c.store.itemsOf "id-a10-0" (some .completed)).length = 1 ∧
    (c.store.itemsOf "id-a10-0" (some .failed)).length = 1 ∧
    (∃ run, c.store.batchRuns.get? "id-a10-0" = some run ∧ run.status ≠ .running) ∧
    (∀ item ∈ c.store.itemsOf "id-a10-0" none, item.status = .completed ∨ item.status = .failed) ∧
    ∀ account ∈ c.store.accounts.rows, account.status = .active →
      ∃ item ∈ c.store.itemsOf "id-a10-0" none,
        item.resourceType = "account" ∧ item.resourceId = account.id := by
  have hitems : demoStore.itemsOf "id-a10-0" none = [] := by decide +kernel
  obtain ⟨c, hrun, hreturned, hcompleted, hfailed⟩ := exists_of_play (server testEnvironment)
    (fun _ _ => true) (.initial demoStore) abortedRun
    (fun c => returned c 0 = some (.batchRun "id-a10-0") ∧
      (c.store.itemsOf "id-a10-0" (some .completed)).length = 1 ∧
      (c.store.itemsOf "id-a10-0" (some .failed)).length = 1) (by decide +kernel)
  exact ⟨hitems, c, hreturned, hcompleted, hfailed,
    items_ended testEnvironment hitems hrun (outcome_of_returned hreturned)⟩

open BatchService in
/-- If the retries of the run start after its record is written, and complete no item, then the
record of a run that was returned accounts for every item: it succeeded or it failed. -/
theorem record_accounts (env : Env) {b : Uuid} {s : Store} (hrow : s.batchRuns.get? b = none)
    (hitems : s.itemsOf b none = []) {c : ServerConfig}
    (hrun : Steps (server env) (fun c a => retriedLater b c a && repairsNoItem b c a) (.initial s) c)
    {i : Nat} (hout : c.outcome i = some (.ok (.batchRun b))) :
    ∃ run, c.store.batchRuns.get? b = some run ∧
      run.processedCount = (c.store.itemsOf b none).length ∧
      run.successCount + run.failureCount = run.processedCount := by
  obtain ⟨⟨run, hfound, hended⟩, ids, hids, -, hall⟩ := learned_of_returned hitems hrun hout
  have hphase := (@lawful_record env b).phase_of_steps hrow (fun _ => mays_of_steps fun _ => hitems) hrun
  have hopen : ¬ (c.store.runState b).Open := by
    rintro ⟨⟨run', hrow', hrunning⟩, -⟩
    cases Option.some.inj (hrow'.symm.trans hfound)
    exact hended hrunning
  cases hphase with
  | absent habsent _ => cases habsent.symm.trans hfound
  | owned howned => exact absurd howned.open_ hopen
  | orphaned ho _ => exact absurd ho hopen
  | closed hclosed hsame _ =>
      obtain ⟨run', hrecorded⟩ := recorded_of_same hsame hclosed
      have hprocessed : run'.processedCount = (c.store.itemsOf b none).length := by
        rw [hrecorded.processed, Store.runState, List.length_map]
      refine ⟨run', hrecorded.row, hprocessed, ?_⟩
      rw [hprocessed, hrecorded.succeeded, hrecorded.failed]
      exact total_of_ended (ended_of_items hids hall)

open BatchService in
theorem record_accounts_aborted : demoStore.batchRuns.get? "id-a10-0" = none ∧
    demoStore.itemsOf "id-a10-0" none = [] ∧ ∃ c : ServerConfig,
      returned c 0 = some (.batchRun "id-a10-0") ∧ ∃ run,
        c.store.batchRuns.get? "id-a10-0" = some run ∧
        run.processedCount = (c.store.itemsOf "id-a10-0" none).length ∧
        run.successCount + run.failureCount = run.processedCount := by
  have hrow : demoStore.batchRuns.get? "id-a10-0" = none := by decide +kernel
  have hitems : demoStore.itemsOf "id-a10-0" none = [] := by decide +kernel
  obtain ⟨c, hrun, hreturned⟩ := exists_of_play (server testEnvironment)
    (fun c a => retriedLater "id-a10-0" c a && repairsNoItem "id-a10-0" c a) (.initial demoStore)
    abortedRun (fun c => returned c 0 = some (.batchRun "id-a10-0")) (by decide +kernel)
  exact ⟨hrow, hitems, c, hreturned,
    record_accounts testEnvironment hrow hitems hrun (outcome_of_returned hreturned)⟩

end LedgerCredit
