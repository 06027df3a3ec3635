import LedgerCredit.BatchItems
import LedgerCredit.Seed
import LedgerCredit.Txn.Counting
import LedgerCredit.Txn.Reactions
import LedgerCredit.Txn.Soundness

/-!
# Attempts

`processBatchItem` counts an attempt in the transaction that also does the work, so
the count is kept if and only if the work is.  The chunk counts one attempt for each
of its accounts, in the same way.  What happens after a failure is another
statement, which marks the item as failed and counts nothing.

*What is counted.*  An attempt is open once its transaction has read the item and
has not found it completed (`attempting`).  It lands when the transaction commits,
and it is lost when the transaction is rolled back or cut off.  A transaction that
ends before it has read the item is lost too, if the item is not completed by then
(`early`).

*The balance.*  In every run the attempts that an item counts, those that are open and
those that were lost add up to those that were started (`attempts_balance`).

*Failed items.*  An item is marked as failed only after a failure of
`processBatchItem` for it.  If no attempt was lost, this was a transaction that
found the item completed.
-/

namespace LedgerCredit

open Txn

namespace BatchService

/-! ## What the batch runs -/

/-- A statement that marks no item, and creates only items that were not tried. -/
def unmarking : {α : Type} → Stmt α → Prop
  | _, .updateBatchRunItemOf .. => False
  | _, .createBatchRunItems data =>
      ∀ f ∈ data, ∀ id, (f id).status = .pending ∧ (f id).attemptCount = 0
  | _, q => Outside q

/-- The account whose processing failed. -/
def reported : {α : Type} → Label α → Option (Uuid × Uuid)
  | _, .processBatchItem batchRunId accountId => some (batchRunId, accountId)
  | _, _ => none

/-- The transactions that the batch runs whatever happened before. -/
def unprompted (chunks : Uuid → List BatchAccountSnapshot → Prop) : {α : Type} → Label α → Prop
  | _, .processBatchChunk batchRunId accounts _ => chunks batchRunId accounts
  | _, .processBatchItem .. => True
  | _, .statement q => unmarking q
  | _, _ => False

/-- The statement that marks the item of an account as failed. -/
def marksFailed (x : Uuid × Uuid) : {α : Type} → Label α → Prop
  | _, .statement (.updateBatchRunItemOf batchRunId resourceType resourceId data) =>
      batchRunId = x.1 ∧ resourceType = "account" ∧ resourceId = x.2 ∧ data.status = .failed ∧
        data.increment = 0
  | _, _ => False

/-- An item is marked as failed right after a failure for it.  Chunks are run as `chunks` says. -/
def marking (chunks : Uuid → List BatchAccountSnapshot → Prop) : Reactions Label (Uuid × Uuid) where
  reports := reported
  always := unprompted chunks
  after := fun x => marksFailed x

section Reacts

variable {env : Env} {chunks : Uuid → List BatchAccountSnapshot → Prop}
  {d : Option (Uuid × Uuid)}

theorem statement_reacts {α : Type} {q : Stmt α} (hq : unmarking q) :
    (statement q).Reacts (marking chunks) d := .transaction (Or.inl hq)

theorem processBatchItem_reacts (batchRunId accountId : Uuid) :
    (processBatchItem env batchRunId accountId).Reacts (marking chunks) d :=
  .handled trivial fun _ => .transaction (Or.inr ⟨_, rfl, rfl, rfl, rfl, rfl, rfl⟩)

theorem processBatchItems_reacts (batchRunId : Uuid) (accountIds : List Uuid) :
    (processBatchItems env batchRunId accountIds).Reacts (marking chunks) d := by
  unfold processBatchItems
  split
  · trivial
  · exact .pool fun id => processBatchItem_reacts batchRunId id

theorem loadInterestRevenueAccounts_reacts (currencies : List String) :
    (loadInterestRevenueAccounts currencies).Reacts (marking chunks) d := by
  refine .bind (statement_reacts trivial) fun ledgerAccounts => ?_
  simp only
  split
  · trivial
  · trivial

theorem processChunks_reacts {batchRunId : Uuid} {interestRevenueAccountIds : List (String × Uuid)}
    {l : List (List BatchAccountSnapshot)} (h : ∀ accounts ∈ l, chunks batchRunId accounts) :
    (processChunks env batchRunId interestRevenueAccountIds l).Reacts (marking chunks) d := by
  induction l generalizing d with
  | nil => trivial
  | cons accounts rest ih =>
      obtain ⟨hchunk, hrest⟩ := List.forall_mem_cons.mp h
      exact .bind (.handled hchunk fun _ => processBatchItems_reacts batchRunId _) fun _ => ih hrest

theorem processBatchRunAccounts_reacts {batchRunId : Uuid} {accounts : List BatchAccountSnapshot}
    (h : ∀ chunk : List BatchAccountSnapshot, chunk ⊆ accounts → chunks batchRunId chunk) :
    (processBatchRunAccounts env batchRunId accounts).Reacts (marking chunks) d := by
  refine .bind (processBatchItems_reacts batchRunId _) fun _ => ?_
  split
  · trivial
  · refine .bind (loadInterestRevenueAccounts_reacts _) fun _ => processChunks_reacts ?_
    exact fun chunk hchunk => h chunk fun x hx =>
      (List.mem_filter.mp (mem_of_mem_chunks hchunk hx)).1

theorem retryFailedItems_reacts (batchRunId : Uuid) (context : RequestContext) :
    (retryFailedItems env batchRunId context).Reacts (marking chunks) d := by
  refine .bind (statement_reacts trivial) fun failedItems => ?_
  split
  · trivial
  · exact .bind (processBatchItems_reacts batchRunId _) fun _ =>
      .bind (statement_reacts trivial) fun _ => trivial

/-- The rows of a new run are not tried yet. -/
theorem itemData_untried {batchRunId : Uuid} {accounts : List BatchAccountSnapshot} :
    ∀ f ∈ itemData env batchRunId accounts, ∀ id,
      (f id).status = .pending ∧ (f id).attemptCount = 0 := by
  intro f hf id
  obtain ⟨p, -, rfl⟩ := List.mem_map.mp hf
  exact ⟨rfl, rfl⟩

theorem runBatch_reacts (hall : ∀ batchRunId accounts, chunks batchRunId accounts)
    (triggeredBy : String) : (runBatch env triggeredBy).Reacts (marking chunks) d := by
  refine .bind (.bind (statement_reacts trivial) fun _ => trivial) fun _ => ?_
  refine .bind (statement_reacts trivial) fun _ => .bind (statement_reacts trivial) fun _ => ?_
  refine .bind (statement_reacts trivial) fun batchRun => ?_
  refine .bind (statement_reacts trivial) fun accounts => ?_
  refine .bind (statement_reacts itemData_untried) fun _ => ?_
  refine .bind (processBatchRunAccounts_reacts fun _ _ => hall _ _) fun _ => ?_
  refine .bind (statement_reacts trivial) fun _ => .bind (statement_reacts trivial) fun _ => ?_
  refine .bind (statement_reacts trivial) fun _ => .bind (statement_reacts trivial) fun _ => ?_
  exact .bind (statement_reacts trivial) fun _ => .bind (statement_reacts trivial) fun _ => trivial

end Reacts

/-! ## What is counted -/

/-- The item that a statement found. -/
def found : Event Stmt Write → Option BatchRunItem
  | ⟨.findBatchRunItem .., item, _⟩ => item
  | _ => none

/-- The transaction of `processBatchItem` has found the item of the account, not completed. -/
def attempting (batchRunId accountId : Uuid) : {α : Type} → Label α → List (Event Stmt Write) → Bool
  | _, .processBatchItem b a, h =>
      b = batchRunId && a = accountId && (h.head?.bind found).any (·.status ≠ .completed)
  | _, _, _ => false

/-- The transaction of `processBatchItem` has not found the item of the account. -/
def early (batchRunId accountId : Uuid) : {α : Type} → Label α → List (Event Stmt Write) → Bool
  | _, .processBatchItem b a, h =>
      b = batchRunId && a = accountId && (h.head?.bind found).isNone
  | _, _, _ => false

/-- The transaction is a chunk with the account. -/
def covers (batchRunId accountId : Uuid) : {α : Type} → Label α → Bool
  | _, .processBatchChunk b accounts _ => b = batchRunId && accountId ∈ accounts.map (·.id)
  | _, _ => false

/-- The chunks with the account that an action commits. -/
def chunksWith (batchRunId accountId : Uuid) : Happening Stmt Label Write → Nat
  | .committed l _ => (covers batchRunId accountId l).toNat
  | _ => 0

/-- The attempts that an action ends before they have read the item, if it is not completed. -/
def endedEarly (c : ServerConfig) (batchRunId accountId : Uuid) (x : Happening Stmt Label Write) :
    Nat :=
  if (c.store.itemOf batchRunId accountId).all (·.status ≠ .completed) then
    x.dropped (early batchRunId accountId) (c.openCount (early batchRunId accountId))
  else 0

/-- The attempts that an action starts, by `processBatchItem` or by a chunk that commits. -/
def started (env : Env) (batchRunId accountId : Uuid) (c : ServerConfig) (a : Action Choice Call) :
    Nat :=
  let x := (server env).happens c a
  x.opened (attempting batchRunId accountId) + chunksWith batchRunId accountId x +
    endedEarly c batchRunId accountId x

/-- The attempts that an action loses. -/
def lost (env : Env) (batchRunId accountId : Uuid) (c : ServerConfig) (a : Action Choice Call) :
    Nat :=
  let x := (server env).happens c a
  x.dropped (attempting batchRunId accountId) (c.openCount (attempting batchRunId accountId)) +
    endedEarly c batchRunId accountId x

/-- The attempts that an item counts. -/
def attempts (s : Store) (batchRunId accountId : Uuid) : Nat :=
  (s.itemOf batchRunId accountId).elim 0 (·.attemptCount)

/-- What a transaction does to the item of an account, with the attempts that it counts. -/
inductive ItemStep (batchRunId accountId : Uuid) {α : Type} (l : Label α) :
    Option BatchRunItem → Option BatchRunItem → Nat → Prop where
  | kept (o : Option BatchRunItem) : ItemStep batchRunId accountId l o o 0
  | counted {i i' : BatchRunItem} : i'.attemptCount = i.attemptCount + 1 →
      i'.status = .completed → ItemStep batchRunId accountId l (some i) (some i') 1
  | failed {i i' : BatchRunItem} : marksFailed (batchRunId, accountId) l →
      i'.attemptCount = i.attemptCount → i'.status = .failed →
      ItemStep batchRunId accountId l (some i) (some i') 0
  | created {i : BatchRunItem} : i.status = .pending → i.attemptCount = 0 →
      ItemStep batchRunId accountId l none (some i) 0

section Counted

variable {batchRunId accountId : Uuid} {α : Type} {l : Label α}

@[simp] theorem attempting_nil : attempting batchRunId accountId l [] = false := by
  cases l <;> simp [attempting]

/-- What a transaction read first stays what it read first. -/
theorem attempting_append {h : List (Event Stmt Write)} (e : Event Stmt Write)
    (hl : attempting batchRunId accountId l h = true) :
    attempting batchRunId accountId l (h ++ [e]) = true := by
  cases h with
  | nil => simp at hl
  | cons e' h => cases l <;> exact hl

theorem ItemStep.attempts {o o' : Option BatchRunItem} {n : Nat}
    (h : ItemStep batchRunId accountId l o o' n) :
    o'.elim 0 (·.attemptCount) = o.elim 0 (·.attemptCount) + n := by
  cases h with
  | kept => rfl
  | counted hcount _ => exact hcount
  | failed _ hcount _ => exact hcount
  | created _ hcount => exact hcount

end Counted

/-! ## Rules -/

/-- The accounts have items in the run. -/
def hasItems (s : Store) (batchRunId : Uuid) (accounts : List BatchAccountSnapshot) : Prop :=
  ∀ x ∈ accounts, (s.itemOf batchRunId x.id).isSome = true

/-- A transaction of the batch, where a chunk has its items. -/
def Ready (s : Store) {α : Type} (l : Label α) : Prop := ∃ d, (marking (hasItems s)).Allows d l

/-- The items that a transaction created are there. -/
def created (s : Store) : {α : Type} → Label α → Prop
  | _, .statement (.createBatchRunItems data) => ∀ f ∈ data, ∃ id,
      s.present (.batchRunItem (f id).batchRunId (f id).resourceType (f id).resourceId) = true
  | _, _ => True

/-- The item of the account counts an attempt if it is completed. -/
def Tried (s : Store) (batchRunId accountId : Uuid) : Prop :=
  ∀ i, s.itemOf batchRunId accountId = some i → i.status = .completed → 1 ≤ i.attemptCount

/-- What a statement of a batch transaction saw, on a store that has come to be `s`. -/
def Observed (s : Store) {α : Type} (l : Label α) : View := fun p e =>
  ∃ (s₀ : Store) (_ : Set Empty) (ch : Choice), Ready s₀ l ∧ s₀.KeepsItems s ∧
    (database.applyAll p s₀).exec e.query ch = .ok (e.reply, e.writes)

/-- The rules of the batch, for the item of one account. -/
def attemptRules (env : Env) (batchRunId accountId : Uuid) : Rules (server env) Empty Empty where
  Inv := fun s => Tried s batchRunId accountId
  le := Store.KeepsItems
  born := fun _ => ∅
  rely := fun _ _ _ => True
  pre := fun s _ l => Ready s l
  post := fun _ _ l _ s' _ => created s' l
  done := fun _ _ _ _ => True
  guard := fun _ => []
  Cur := fun s l p e => Observed s l p e

theorem hasItems_of_keeps {s s' : Store} (h : s.KeepsItems s') {batchRunId : Uuid}
    {accounts : List BatchAccountSnapshot} (hs : hasItems s batchRunId accounts) :
    hasItems s' batchRunId accounts := by
  intro x hx
  obtain ⟨i, hi⟩ := Option.isSome_iff_exists.mp (hs x hx)
  obtain ⟨i', hi', -⟩ := h _ i hi
  exact Option.isSome_iff_exists.mpr ⟨i', hi'⟩

theorem answering_of_observed {s : Store} {α : Type} {l : Label α} : Answering (Observed s l) := by
  intro p α q r ws h
  obtain ⟨_, _, _, _, _, hexec⟩ := h
  exact exec_answers hexec

/-! ## What commits do to an item -/

section Commits

variable {env : Env} {batchRunId accountId : Uuid} {s : Store}

/-- What a transaction of the batch that commits may have done. -/
theorem runs_of_commits {α : Type} {T : Set Empty} {l : Label α} {h : List (Event Stmt Write)}
    {a : α} (hc : (attemptRules env batchRunId accountId).Commits s T l h a) :
    Runs (Observed s l) [] (l.body env) (writes h) a :=
  runs_of_completes hc.path (hc.evidence.mono fun _ _ _ he => he.2)

/-- An update of items in a transaction that has created none. -/
theorem observed_updateBatchRunItems {α : Type} {l : Label α} {p ws : List Write} {b : Uuid}
    {t : String} {rs : List String} {d : BatchRunItemUpdate} {u : Unit}
    (h : Observed s l p ⟨.updateBatchRunItems b t rs d, u, ws⟩) (hp : ∀ r, .batchRunItem r ∉ p) :
    ∃ s₀ : Store, Ready s₀ l ∧ s₀.KeepsItems s ∧
      ws = (s₀.itemIds b t rs).map fun id => .updateBatchRunItem id d := by
  obtain ⟨s₀, _, ch, hready, hle, hexec⟩ := h
  obtain ⟨-, rfl, -⟩ := attempt_ok hexec
  refine ⟨s₀, hready, hle, ?_⟩
  rw [← itemIds_applyAll hp s₀, Store.itemIds, List.map_map]
  rfl

theorem ready_processBatchChunk {b : Uuid} {accounts : List BatchAccountSnapshot}
    {revenue : List (String × Uuid)} (h : Ready s (.processBatchChunk b accounts revenue)) :
    hasItems s b accounts := by
  obtain ⟨d, hchunk | ⟨x, -, hx⟩⟩ := h
  · exact hchunk
  · exact hx.elim

section Chunk

variable {b : Uuid} {accounts : List BatchAccountSnapshot} {revenue : List (String × Uuid)}

/-- The item of an account of a chunk is there. -/
theorem item_of_covers (h : hasItems s b accounts)
    (hcovers : b = batchRunId ∧ accountId ∈ accounts.map (·.id)) :
    (s.itemOf batchRunId accountId).isSome = true := by
  obtain ⟨rfl, hmem⟩ := hcovers
  obtain ⟨x, hx, rfl⟩ := List.mem_map.mp hmem
  exact h x hx

/-- An update of the items of a chunk, on the item of an account. -/
theorem onItems_chunk {p ws : List Write} {d : BatchRunItemUpdate} {u : Unit}
    (h : Observed s (.processBatchChunk b accounts revenue) p
      ⟨.updateBatchRunItems b "account" (accounts.map (·.id)) d, u, ws⟩)
    (hp : ∀ r, .batchRunItem r ∉ p) {i : BatchRunItem}
    (hi : s.itemOf batchRunId accountId = some i) {i' : BatchRunItem} (hid : i'.id = i.id) :
    onItems ws i' =
      if covers batchRunId accountId (.processBatchChunk b accounts revenue) then d.apply i'
      else i' := by
  obtain ⟨s₀, hready, hle, rfl⟩ := observed_updateBatchRunItems h hp
  have hmem := mem_itemIds hle b (accounts.map (·.id))
    (fun hb ha => item_of_covers (ready_processBatchChunk hready) ⟨hb, ha⟩) hi
  rw [onItems_updates d (nodup_itemIds ..), hid]
  simp only [hmem, covers, Bool.and_eq_true, decide_eq_true_eq]

/-- A chunk counts an attempt for each of its accounts. -/
theorem ChunkRun.itemStep {ws running completed : List Write} {effectiveAt : Time}
    {rows : List InterestRows} (hready : Ready s (.processBatchChunk b accounts revenue))
    (h : ChunkRun (Observed s (.processBatchChunk b accounts revenue)) env b accounts revenue ws
      effectiveAt rows running completed) :
    ItemStep batchRunId accountId (.processBatchChunk b accounts revenue)
      (s.itemOf batchRunId accountId) ((database.applyAll ws s).itemOf batchRunId accountId)
      (covers batchRunId accountId (.processBatchChunk b accounts revenue)).toNat := by
  have hrunning : ∀ r, .batchRunItem r ∉ running ++ rowWrites rows := by
    obtain ⟨ids, rfl⟩ := answering_of_observed _ _ _ _ h.marked
    simp [rowWrites]
  have hcompleted : ∀ r, .batchRunItem r ∉ completed := by
    obtain ⟨ids, rfl⟩ := answering_of_observed _ _ _ _ h.closed
    simp
  cases hi : s.itemOf batchRunId accountId with
  | none =>
      have hcovers : covers batchRunId accountId (.processBatchChunk b accounts revenue) = false := by
        refine Bool.eq_false_iff.mpr fun hc => ?_
        have hsome := item_of_covers (ready_processBatchChunk hready) (by simpa [covers] using hc)
        rw [hi] at hsome
        cases hsome
      have hnone : (database.applyAll ws s).itemOf batchRunId accountId = none := by
        refine findItem_none hi fun r hr => ?_
        rw [h.writes] at hr
        rcases List.mem_append.mp hr with hr | hr
        · exact hrunning r hr
        · exact hcompleted r hr
      rw [hcovers, hnone]
      exact .kept none
  | some i =>
      rw [Store.itemOf, findItem_applyAll ws hi, h.writes, onItems_append, onItems_append,
        onItems_chunk h.marked (by simp) hi rfl, onItems_of_kind rowWrites_kind,
        onItems_chunk h.closed hrunning hi (by split <;> rfl)]
      cases covers batchRunId accountId (.processBatchChunk b accounts revenue) with
      | false => exact .kept (some i)
      | true => exact .counted rfl rfl

end Chunk

section Item

variable {b x : Uuid}

/-- The transaction of `processBatchItem` begins by reading the item. -/
theorem completes_processBatchItem {h : List (Event Stmt Write)} {u : Unit}
    (hc : Completes (processBatchItemTx env b x) h u) : ∃ item ws h',
      h = ⟨.findBatchRunItem b "account" x, item, ws⟩ :: h' ∧
      (h' = [] ∧ (∀ i, item = some i → i.status = .completed) ∨
        ∃ i, item = some i ∧ i.status ≠ .completed ∧
          Completes (processOpenItem env b x i) h' u) := by
  obtain ⟨item, ws, h', rfl, hc'⟩ := completes_query.mp hc
  refine ⟨item, ws, h', rfl, ?_⟩
  cases item with
  | none =>
      obtain ⟨rfl, -⟩ := completes_pure.mp hc'
      exact Or.inl ⟨rfl, nofun⟩
  | some i =>
      change Completes (if i.status = .completed then pure () else processOpenItem env b x i) h' u
        at hc'
      split at hc'
      · rename_i hi
        obtain ⟨rfl, -⟩ := completes_pure.mp hc'
        refine Or.inl ⟨rfl, fun j hj => ?_⟩
        cases hj
        exact hi
      · rename_i hi
        exact Or.inr ⟨i, rfl, hi, hc'⟩

theorem observed_findBatchRunItem {α : Type} {l : Label α} {item : Option BatchRunItem}
    {ws : List Write} (h : Observed s l [] ⟨.findBatchRunItem b "account" x, item, ws⟩) :
    ∃ s₀ : Store, s₀.KeepsItems s ∧ item = s₀.itemOf b x ∧ ws = [] := by
  obtain ⟨s₀, _, ch, -, hle, hexec⟩ := h
  cases hexec
  exact ⟨s₀, hle, rfl, rfl⟩

/-- The item of an account is the one that was read under its key. -/
theorem id_eq_iff {s₀ : Store} (hle : s₀.KeepsItems s) {i j : BatchRunItem}
    (hi : s₀.itemOf b x = some i) (hj : s.itemOf batchRunId accountId = some j) :
    j.id = i.id ↔ b = batchRunId ∧ x = accountId := by
  constructor
  · intro hid
    have hkey := hle.eq_key hi hj hid
    simpa using hkey
  · rintro ⟨rfl, rfl⟩
    obtain ⟨j', hj', hid, -⟩ := hle _ i hi
    obtain rfl : j' = j := Option.some.inj (hj'.symm.trans hj)
    exact hid

/-- `processBatchItem` counts an attempt if it commits after it found the item not completed. -/
theorem processBatchItem_itemStep {T : Set Empty} {h : List (Event Stmt Write)} {u : Unit}
    (hc : (attemptRules env batchRunId accountId).Commits s T (.processBatchItem b x) h u) :
    ItemStep batchRunId accountId (.processBatchItem b x) (s.itemOf batchRunId accountId)
      ((database.applyAll (writes h) s).itemOf batchRunId accountId)
      (attempting batchRunId accountId (.processBatchItem b x) h).toNat := by
  obtain ⟨item, ws, h', rfl, hcase⟩ := completes_processBatchItem hc.path
  have hev : Holds (Observed s (.processBatchItem b x)) [] _ := hc.evidence.mono fun _ _ _ he => he.2
  obtain ⟨hread, hrest⟩ := (holds_cons ..).mp hev
  obtain ⟨s₀, hle, hitem, rfl⟩ := observed_findBatchRunItem hread
  rcases hcase with ⟨rfl, hclosed⟩ | ⟨i, rfl, hopen, hcompletes⟩
  · have hnot : attempting batchRunId accountId (.processBatchItem b x)
        [⟨.findBatchRunItem b "account" x, item, []⟩] = false := by
      cases item with
      | none => simp [attempting, found]
      | some i => simp [attempting, found, hclosed i rfl]
    rw [hnot]
    exact .kept _
  · obtain ⟨account, ledgerAccount, balance, paid, -, hpaid, hwrites⟩ :=
      processOpenItem_runs answering_of_observed (runs_of_completes hcompletes hrest)
    have hattempting : attempting batchRunId accountId (.processBatchItem b x)
        (⟨.findBatchRunItem b "account" x, some i, []⟩ :: h') =
          decide (b = batchRunId ∧ x = accountId) := by
      simp [attempting, found, hopen]
    rw [hattempting, writes_cons, hwrites, List.nil_append]
    cases hj : s.itemOf batchRunId accountId with
    | none =>
        have hother : ¬ (b = batchRunId ∧ x = accountId) := by
          rintro ⟨rfl, rfl⟩
          obtain ⟨j, hj', -⟩ := hle _ i hitem.symm
          rw [Store.itemOf, hj'] at hj
          cases hj
        rw [decide_eq_false hother, Store.itemOf, findItem_none hj]
        · exact .kept none
        · intro r hr
          simp only [List.mem_append, List.mem_singleton] at hr
          rcases hr with (hr | hr) | hr
          · cases hr
          · cases hpaid.kind _ hr
          · cases hr
    | some j =>
        rw [Store.itemOf, findItem_applyAll _ hj, onItems_append, onItems_append,
          onItems_of_kind hpaid.kind]
        have hid := id_eq_iff hle hitem.symm hj
        by_cases hsame : b = batchRunId ∧ x = accountId
        · simp only [onItems_cons, onItems_nil, Write.onItem, hid.mpr hsame, decide_eq_true hsame,
            if_true, BatchRunItemUpdate.apply_id]
          exact .counted rfl rfl
        · have hne : j.id ≠ i.id := fun heq => hsame (hid.mp heq)
          simp only [onItems_cons, onItems_nil, Write.onItem, if_neg hne, decide_eq_false hsame]
          exact .kept (some j)

end Item

theorem ready_statement {α : Type} {q : Stmt α} (h : Ready s (.statement q)) :
    unmarking q ∨ ∃ x, marksFailed x (.statement q) := by
  obtain ⟨d, hq | ⟨x, -, hx⟩⟩ := h
  · exact Or.inl hq
  · exact Or.inr ⟨x, hx⟩

/-- The statement after a failure marks the item that it finds. -/
theorem updateBatchRunItemOf_itemStep {b : Uuid} {t r : String} {d : BatchRunItemUpdate} {u : Unit}
    {ws : List Write} {y : Uuid × Uuid}
    (hmarks : marksFailed y (.statement (.updateBatchRunItemOf b t r d)))
    (h : Observed s (.statement (.updateBatchRunItemOf b t r d)) []
      ⟨.updateBatchRunItemOf b t r d, u, ws⟩) :
    ItemStep batchRunId accountId (.statement (.updateBatchRunItemOf b t r d))
      (s.itemOf batchRunId accountId) ((database.applyAll ws s).itemOf batchRunId accountId) 0 := by
  obtain ⟨rfl, rfl, rfl, hfailed, hincrement⟩ := id hmarks
  obtain ⟨s₀, _, ch, -, hle, hexec⟩ := h
  simp only [Store.exec, Database.applyAll_nil] at hexec
  split at hexec
  · rename_i j hj
    obtain ⟨-, rfl, -⟩ := attempt_ok hexec
    cases hi : s.itemOf batchRunId accountId with
    | none =>
        rw [Store.itemOf, findItem_none hi (by simp)]
        exact .kept none
    | some i =>
        rw [Store.itemOf, findItem_applyAll _ hi]
        by_cases hid : i.id = j.id
        · obtain ⟨hrun, haccount⟩ := (id_eq_iff hle hj hi).mp hid
          simp only [onItems_cons, onItems_nil, Write.onItem, hid, if_true]
          refine .failed ⟨hrun, rfl, haccount, hfailed, hincrement⟩ ?_ hfailed
          simp [BatchRunItemUpdate.apply, hincrement]
        · simp only [onItems_cons, onItems_nil, Write.onItem, if_neg hid]
          exact .kept (some i)
  · cases hexec

/-- The items of a new run count nothing. -/
theorem createBatchRunItems_itemStep {data : List (Uuid → BatchRunItem)} {uuid : Nat → Uuid}
    (hdata : ∀ f ∈ data, ∀ id, (f id).status = .pending ∧ (f id).attemptCount = 0) {α : Type}
    {l : Label α} :
    ItemStep batchRunId accountId l (s.itemOf batchRunId accountId)
      ((database.applyAll (data.zipIdx.map fun d => .batchRunItem (d.1 (uuid d.2))) s).itemOf
        batchRunId accountId) 0 := by
  have hkeep : ∀ {P : BatchRunItem → Prop} (w : Write),
      w ∈ (data.zipIdx.map fun d => Write.batchRunItem (d.1 (uuid d.2))) →
      ∀ i, P i → P (w.onItem i) := by
    intro P w hw i hi
    obtain ⟨d, -, rfl⟩ := List.mem_map.mp hw
    exact hi
  cases hi : s.itemOf batchRunId accountId with
  | some i =>
      rw [Store.itemOf, findItem_applyAll _ hi, onItems_keeps (P := (· = i)) hkeep rfl]
      exact .kept (some i)
  | none =>
      cases hafter : (database.applyAll _ s).itemOf batchRunId accountId with
      | none => exact .kept none
      | some i =>
          obtain ⟨hstatus, hcount⟩ : i.status = .pending ∧ i.attemptCount = 0 := by
            refine findItem_created (P := fun i => i.status = .pending ∧ i.attemptCount = 0) hi hafter
              (fun r hr => ?_) hkeep
            obtain ⟨d, hd, heq⟩ := List.mem_map.mp hr
            cases heq
            exact hdata d.1 (List.fst_mem_of_mem_zipIdx hd) _
          exact .created hstatus hcount

/-- A statement counts nothing. -/
theorem statement_itemStep {α : Type} {q : Stmt α} {r : α} {ws : List Write}
    (hready : Ready s (.statement q)) (h : Observed s (.statement q) [] ⟨q, r, ws⟩) :
    ItemStep batchRunId accountId (.statement q) (s.itemOf batchRunId accountId)
      ((database.applyAll ws s).itemOf batchRunId accountId) 0 := by
  have hanswer := answering_of_observed _ _ _ _ h
  rcases ready_statement hready with hq | ⟨y, hy⟩
  · cases q with
    | updateBatchRunItemOf b t r d => cases hq
    | createBatchRunItems data =>
        obtain ⟨uuid, rfl⟩ := hanswer
        exact createBatchRunItems_itemStep hq
    | _ => first
        | exact False.elim hq
        | (obtain rfl := hanswer; exact .kept _)
        | (obtain ⟨_, rfl⟩ := hanswer; exact .kept _)
  · cases q with
    | updateBatchRunItemOf b t r d => exact updateBatchRunItemOf_itemStep hy h
    | _ => cases hy

/-- What a commit does to the item of an account. -/
theorem itemStep_of_commits {α : Type} {T : Set Empty} {l : Label α} {h : List (Event Stmt Write)}
    {a : α} (hc : (attemptRules env batchRunId accountId).Commits s T l h a) :
    ItemStep batchRunId accountId l (s.itemOf batchRunId accountId)
      ((database.applyAll (writes h) s).itemOf batchRunId accountId)
      ((attempting batchRunId accountId l h).toNat + (covers batchRunId accountId l).toNat) := by
  have hready : Ready s l := hc.pre
  cases l with
  | createTransfer args =>
      obtain ⟨d, hl | ⟨x, -, hx⟩⟩ := hready
      · exact hl.elim
      · exact hx.elim
  | applyNormalizedEvent event =>
      obtain ⟨d, hl | ⟨x, -, hx⟩⟩ := hready
      · exact hl.elim
      · exact hx.elim
  | processBatchChunk b accounts revenue =>
      obtain ⟨_, _, _, _, hrun⟩ := processBatchChunk_runs answering_of_observed (runs_of_commits hc)
      rw [show attempting batchRunId accountId (.processBatchChunk b accounts revenue) h = false
        from rfl, Bool.toNat_false, Nat.zero_add]
      exact ChunkRun.itemStep hready hrun
  | processBatchItem b x => exact processBatchItem_itemStep hc
  | statement q =>
      exact statement_itemStep hready (runs_send.mp (runs_of_commits hc))

end Commits

/-! ## Safety -/

section Safety

variable {env : Env} {batchRunId accountId : Uuid}

theorem tried_of_step {s s' : Store} {α : Type} {l : Label α} {n : Nat}
    (h : ItemStep batchRunId accountId l (s.itemOf batchRunId accountId)
      (s'.itemOf batchRunId accountId) n) (hs : Tried s batchRunId accountId) :
    Tried s' batchRunId accountId := by
  intro i' hi' hcompleted
  generalize hbefore : s.itemOf batchRunId accountId = before at h
  rw [hi'] at h
  cases h with
  | kept => exact hs i' hbefore hcompleted
  | counted hcount _ => omega
  | failed _ _ hstatus => rw [hstatus] at hcompleted; cases hcompleted
  | created hstatus _ => rw [hstatus] at hcompleted; cases hcompleted

/-- The items that were created are there when the statement commits. -/
theorem created_of_commits {s : Store} {α : Type} {T : Set Empty} {l : Label α}
    {h : List (Event Stmt Write)} {a : α}
    (hc : (attemptRules env batchRunId accountId).Commits s T l h a) :
    created (database.applyAll (writes h) s) l := by
  cases l with
  | statement q =>
      cases q with
      | createBatchRunItems data =>
          intro f hf
          obtain ⟨uuid, hws⟩ := answering_of_observed _ _ _ _ (runs_send.mp (runs_of_commits hc))
          obtain ⟨n, hn, rfl⟩ := List.mem_iff_getElem.mp hf
          have hmem : (data[n], n) ∈ data.zipIdx := by
            rw [List.mem_zipIdx_iff_getElem?]
            exact List.getElem?_eq_getElem hn
          have hadds : Key.batchRunItem (data[n] (uuid n)).batchRunId (data[n] (uuid n)).resourceType
              (data[n] (uuid n)).resourceId ∈ (writes h).flatMap database.adds := by
            rw [hws]
            refine List.mem_flatMap.mpr ⟨_, List.mem_map.mpr ⟨(data[n], n), hmem, rfl⟩, ?_⟩
            exact List.mem_cons_of_mem _ (List.mem_singleton_self _)
          exact ⟨uuid n, (Database.present_applyAll lawful_database hc.admissible _).mpr (Or.inr hadds)⟩
      | _ => trivial
  | _ => trivial

theorem allows_mono {chunks chunks' : Uuid → List BatchAccountSnapshot → Prop}
    (h : ∀ b accounts, chunks b accounts → chunks' b accounts) {d : Option (Uuid × Uuid)} {α : Type}
    {l : Label α} (hl : (marking chunks).Allows d l) : (marking chunks').Allows d l := by
  refine hl.imp (fun hl => ?_) id
  cases l with
  | processBatchChunk b accounts revenue => exact h b accounts hl
  | _ => exact hl

/-- A process of the batch is safe where its chunks have their items. -/
theorem safe_of_marking (chunks : Uuid → List BatchAccountSnapshot → Prop) {α : Type}
    {p : Process α} (hp : p.Reacts (marking chunks) none) {P : Store → Prop}
    (hkeeps : ∀ s s' : Store, s.KeepsItems s' → P s → P s')
    (hP : ∀ s, P s → ∀ b accounts, chunks b accounts → hasItems s b accounts) {s : Store}
    {T : Set Empty} (hs : P s) :
    (attemptRules env batchRunId accountId).Safe p (fun _ _ _ => True) (fun _ _ _ => True) s T :=
  Rules.safe_of_reacts hkeeps
    (fun s _ d _ hl hs => (⟨d, allows_mono (hP s hs) hl⟩ : Ready s _)) hp hs

/-- A statement before a process that is safe. -/
theorem statement_safe {α β : Type} {q : Stmt α} {f : α → Process β} (hq : unmarking q)
    {A : β → Store → Set Empty → Prop} {s : Store} {T : Set Empty}
    (hf : ∀ a s' T', created s' (.statement q) →
      (attemptRules env batchRunId accountId).Safe (f a) A (fun _ _ _ => True) s' T') :
    (attemptRules env batchRunId accountId).Safe (statement q >>= f) A (fun _ _ _ => True) s T := by
  refine .bind (Rules.Safe.transaction (fun s' _ => ?_) (fun _ _ _ => trivial)
    fun _ _ a s' T' _ _ hpost => hf a s' T' hpost)
  have hready : Ready s' (.statement q) := ⟨none, Or.inl hq⟩
  exact hready

/-- The accounts of a new run have items after these were created. -/
theorem hasItems_of_created {s : Store} {b : Uuid} {accounts : List BatchAccountSnapshot}
    (h : created s (.statement (.createBatchRunItems (itemData env b accounts)))) :
    hasItems s b accounts := by
  intro x hx
  obtain ⟨n, hn, rfl⟩ := List.mem_iff_getElem.mp hx
  have hmem : (accounts[n], n) ∈ accounts.zipIdx := by
    rw [List.mem_zipIdx_iff_getElem?]
    exact List.getElem?_eq_getElem hn
  obtain ⟨id, hid⟩ := h _ (List.mem_map.mpr ⟨_, hmem, rfl⟩)
  exact hid

theorem runBatch_safe (triggeredBy : String) {s : Store} {T : Set Empty} :
    (attemptRules env batchRunId accountId).Safe (runBatch env triggeredBy) (fun _ _ _ => True)
      (fun _ _ _ => True) s T := by
  refine .bind (statement_safe (by trivial) fun _ _ _ _ => ?_)
  refine statement_safe (by trivial) fun _ _ _ _ => ?_
  refine statement_safe (by trivial) fun _ _ _ _ => ?_
  refine statement_safe (by trivial) fun batchRun _ _ _ => ?_
  refine statement_safe (by trivial) fun accounts _ _ _ => ?_
  refine statement_safe (by exact itemData_untried) fun _ s' T' hcreated => ?_
  refine safe_of_marking (fun b chunk => b = batchRun.id ∧ chunk ⊆ accounts)
    (P := fun s => hasItems s batchRun.id accounts) ?_ (fun _ _ h => hasItems_of_keeps h) ?_
    (hasItems_of_created hcreated)
  · refine .bind (processBatchRunAccounts_reacts fun _ hsub => ⟨rfl, hsub⟩) fun _ => ?_
    refine .bind (statement_reacts trivial) fun _ => .bind (statement_reacts trivial) fun _ => ?_
    refine .bind (statement_reacts trivial) fun _ => .bind (statement_reacts trivial) fun _ => ?_
    exact .bind (statement_reacts trivial) fun _ => .bind (statement_reacts trivial) fun _ => trivial
  · rintro s hs b chunk ⟨rfl, hsub⟩ x hx
    exact hs x (hsub hx)

/-- The calls of the batch. -/
def batchCalls (_ : ServerConfig) (a : Action Choice Call) : Bool :=
  Starts (fun call : Call => !call.ofTransfers) a

theorem program_safe {call : Call} (hcall : call.ofTransfers = false) {s : Store} {T : Set Empty} :
    (attemptRules env batchRunId accountId).Safe (call.program env) (fun _ _ _ => True)
      (fun _ _ _ => True) s T := by
  cases call with
  | runBatch triggeredBy => exact .bind ((runBatch_safe triggeredBy).mono (fun _ _ _ _ => trivial)
      fun _ _ _ _ => trivial)
  | retryFailedItems id context =>
      refine safe_of_marking (fun _ _ => False) (P := fun _ => True) ?_
        (fun _ _ _ _ => trivial) (fun _ _ _ _ h => h.elim) trivial
      exact .bind (retryFailedItems_reacts id context) fun _ => trivial
  | _ => cases hcall

theorem program_reacts {call : Call} (hcall : call.ofTransfers = false) :
    (call.program env).Reacts (marking fun _ _ => True) none := by
  cases call with
  | runBatch triggeredBy => exact .bind (runBatch_reacts (fun _ _ => trivial) triggeredBy) fun _ => trivial
  | retryFailedItems id context => exact .bind (retryFailedItems_reacts id context) fun _ => trivial
  | _ => cases hcall

theorem attemptRules_valid : (attemptRules env batchRunId accountId).Valid batchCalls where
  lawful := lawful_database
  le_refl := Store.KeepsItems.refl
  le_trans := fun _ _ _ => .trans
  rely_refl := fun _ _ => trivial
  rely_trans := fun _ _ _ _ _ _ => trivial
  born_mono := fun _ _ _ => Set.Subset.refl _
  statements := Rules.observed_statements (fun _ => rfl) (fun _ _ _ _ => Iff.rfl)
    Store.KeepsItems.refl (fun _ _ _ => .trans) fun s _ _ h _ _ => .applyAll (writes h) s
  commit := fun s T l h a hc =>
    ⟨tried_of_step (itemStep_of_commits hc) hc.inv, .applyAll (writes h) s⟩
  guarantee := fun _ _ _ _ _ _ _ _ => trivial
  result := fun s T l h a hc => ⟨∅, Set.empty_subset _, created_of_commits hc⟩
  start := fun c call hok _ => Or.inl (program_safe (by simpa [batchCalls, Starts] using hok))
  done_le := fun _ _ _ _ _ _ _ _ => trivial
  done_idle := fun _ _ _ => trivial

end Safety

/-! ## Runs -/

section Runs

variable {env : Env} {batchRunId accountId : Uuid} {c c' : ServerConfig} {a : Action Choice Call}
  {own : Owner → Set Empty}

/-- What a step adds to the attempts that an item counts. -/
theorem attempts_step (hc : (attemptRules env batchRunId accountId).Sound c own)
    (hstep : (server env).step c a = some c') :
    attempts c'.store batchRunId accountId = attempts c.store batchRunId accountId +
      ((server env).happens c a).landed (attempting batchRunId accountId) +
      chunksWith batchRunId accountId ((server env).happens c a) := by
  cases step_cases hstep with
  | start call => rfl
  | crash => rfl
  | begin hth => rw [happens_run hth]; rfl
  | statement hth hexec _ => rw [happens_statement hth hexec]; rfl
  | rollback hth hfails => rw [happens_rollback hth hfails]; rfl
  | commit hth =>
      rw [happens_commit hth, Nat.add_assoc]
      exact (itemStep_of_commits (hc.commits attemptRules_valid hth)).attempts
  | fork hth => rw [happens_run hth]; rfl
  | take hth _ => rw [happens_run hth]; rfl
  | resume hth _ => rw [happens_await hth]; rfl

/-- A step keeps the balance of attempts. -/
theorem balance_step (hc : (attemptRules env batchRunId accountId).Sound c own)
    (hstep : (server env).step c a = some c') :
    attempts c'.store batchRunId accountId + c'.openCount (attempting batchRunId accountId) +
        lost env batchRunId accountId c a =
      attempts c.store batchRunId accountId + c.openCount (attempting batchRunId accountId) +
        started env batchRunId accountId c a := by
  have hattempts := attempts_step hc hstep
  have hopen := openCount_step (p := attempting batchRunId accountId) (fun _ => attempting_nil)
    (fun _ _ e h => attempting_append e h) hstep
  simp only [lost, started]
  omega

/-- In every run the attempts that are counted, open and lost are those that were started. -/
theorem attempts_balance {s : Store} (hs : s.itemOf batchRunId accountId = none) {n : ℕ × ℕ}
    (h : Weighed (server env) batchCalls
      (fun c a => (started env batchRunId accountId c a, lost env batchRunId accountId c a))
      (.initial s) n c) :
    attempts c.store batchRunId accountId + c.openCount (attempting batchRunId accountId) + n.2 =
      n.1 := by
  have htried : Tried s batchRunId accountId := fun i hi => by rw [hs] at hi; cases hi
  induction h with
  | refl => simp [Config.initial, Config.openCount, attempts, hs]
  | tail hrun hok hstep ih =>
      obtain ⟨⟨own, hsound⟩, -⟩ := Rules.sound_of_steps attemptRules_valid htried hrun.steps
      have hbalance := balance_step hsound hstep
      simp only [Prod.fst_add, Prod.snd_add] at ih ⊢
      omega

/-! ## Failed items -/

/-- The item of the account counts an attempt. -/
def met (batchRunId accountId : Uuid) (s : Store) (x : Uuid × Uuid) : Prop :=
  x = (batchRunId, accountId) → 1 ≤ attempts s batchRunId accountId

theorem attempts_of_item {s : Store} {i : BatchRunItem} (hi : s.itemOf batchRunId accountId = some i) :
    attempts s batchRunId accountId = i.attemptCount := by
  simp [attempts, hi]

theorem attempts_mono {s s' : Store} (h : s.KeepsItems s') :
    attempts s batchRunId accountId ≤ attempts s' batchRunId accountId := by
  cases hi : s.itemOf batchRunId accountId with
  | none => simp [attempts, hi]
  | some i =>
      obtain ⟨i', hi', -, hle⟩ := h _ i hi
      rw [attempts_of_item hi, attempts_of_item hi']
      exact hle

/-- The first statement of `processBatchItem`. -/
theorem path_processBatchItem {b x : Uuid} {e : Event Stmt Write} {h : List (Event Stmt Write)}
    {t : Transaction Unit} (hp : Path (processBatchItemTx env b x) (e :: h) t) :
    ∃ item ws, e = ⟨.findBatchRunItem b "account" x, item, ws⟩ := by
  change Path (.query (Stmt.findBatchRunItem b "account" x) _) _ _ at hp
  cases hp with
  | cons _ => exact ⟨_, _, rfl⟩

/-- If nothing is lost, `processBatchItem` fails only after the item was completed. -/
theorem tried_of_rollback (hc : (attemptRules env batchRunId accountId).Sound c own) {i : Nat}
    {call : Call} {pool : Option Nat} {h : List (Event Stmt Write)} {t : Transaction Unit}
    {k : Except TxError Unit → Process Reply} {e : TxError}
    (hth : c.threads[i]? = some ⟨call, pool, .opened (.processBatchItem batchRunId accountId) h t k⟩)
    (hfails : Fails (server env) c i h t a e) (hlost : lost env batchRunId accountId c a = 0) :
    1 ≤ attempts c.store batchRunId accountId := by
  simp only [lost, happens_rollback hth hfails, Happening.dropped_rolledBack, endedEarly,
    Nat.add_eq_zero_iff] at hlost
  obtain ⟨hattempting, hearly⟩ := hlost
  cases hfound : h.head?.bind found with
  | none =>
      -- the item is completed by now
      have hcompleted : ¬ (c.store.itemOf batchRunId accountId).all (·.status ≠ .completed) = true := by
        intro hopen
        rw [if_pos hopen] at hearly
        simp [early, hfound] at hearly
      cases hi : c.store.itemOf batchRunId accountId with
      | none => simp [hi] at hcompleted
      | some item =>
          rw [attempts_of_item hi]
          exact hc.inv item hi (by simpa [hi] using hcompleted)
  | some item =>
      -- the item was completed when it was read
      have hcompleted : item.status = .completed := by
        simpa [attempting, hfound] using hattempting
      cases h with
      | nil => cases hfound
      | cons e' h =>
          obtain ⟨hopened, hpath⟩ := hc.thread _ _ hth
          obtain ⟨item', ws, rfl⟩ := path_processBatchItem hpath
          obtain ⟨⟨s₀, ch, hinv, hle, hexec⟩, -⟩ := ((holds_cons ..).mp hopened.evidence).1
          cases hexec
          have hread : s₀.itemOf batchRunId accountId = some item := hfound
          refine le_trans ?_ (attempts_mono hle)
          rw [attempts_of_item hread]
          exact hinv item hread hcompleted

/-- An item that failed counts an attempt. -/
def FailedTried (s : Store) (batchRunId accountId : Uuid) : Prop :=
  ∀ i, s.itemOf batchRunId accountId = some i → i.status = .failed → 1 ≤ i.attemptCount

theorem failedTried_of_step {s s' : Store} {α : Type} {l : Label α} {n : Nat}
    (h : ItemStep batchRunId accountId l (s.itemOf batchRunId accountId)
      (s'.itemOf batchRunId accountId) n)
    (hl : marksFailed (batchRunId, accountId) l → 1 ≤ attempts s batchRunId accountId)
    (hs : FailedTried s batchRunId accountId) : FailedTried s' batchRunId accountId := by
  intro i' hi' hfailed
  generalize hbefore : s.itemOf batchRunId accountId = before at h
  rw [hi'] at h
  cases h with
  | kept => exact hs i' hbefore hfailed
  | counted hcount _ => omega
  | failed hmarks hcount _ =>
      have hmet := hl hmarks
      rwa [attempts_of_item hbefore, ← hcount] at hmet
  | created hstatus _ => rw [hstatus] at hfailed; cases hfailed

/-- A transaction that marks the item as failed was reported the failure. -/
theorem tried_of_allows {s : Store} {α : Type} {l : Label α}
    (hallows : unprompted (fun _ _ => True) l ∨
      ∃ x, met batchRunId accountId s x ∧ marksFailed x l)
    (hmarks : marksFailed (batchRunId, accountId) l) : 1 ≤ attempts s batchRunId accountId := by
  cases l with
  | statement q =>
      cases q with
      | updateBatchRunItemOf b t r d =>
          obtain hq | ⟨x, hmet, hx, -, hr, -⟩ := hallows
          · exact hq.elim
          · exact hmet (Prod.ext (hx.symm.trans hmarks.1) (hr.symm.trans hmarks.2.2.1))
      | _ => cases hmarks
  | _ => cases hmarks

/-- A step that loses no attempt keeps failed items tried, and what is reported met. -/
theorem failed_step (hc : (attemptRules env batchRunId accountId).Sound c own)
    (hreacts : c.Reacts (marking fun _ _ => True) (met batchRunId accountId))
    (hfailed : FailedTried c.store batchRunId accountId) (hok : batchCalls c a = true)
    (hlost : lost env batchRunId accountId c a = 0) (hstep : (server env).step c a = some c') :
    c'.Reacts (marking fun _ _ => True) (met batchRunId accountId) ∧
      FailedTried c'.store batchRunId accountId := by
  have hle := (hc.step attemptRules_valid hok hstep).2
  refine ⟨reacts_step (fun call hcall => ?_) (fun x hx heq => (hx heq).trans (attempts_mono hle))
    ?_ hreacts hstep, ?_⟩
  · subst hcall
    exact program_reacts (by simpa [batchCalls, Starts] using hok)
  · rintro i call pool β l h t k e hth hfails x hreport rfl
    cases l with
    | processBatchItem b y =>
        cases hreport
        exact tried_of_rollback hc hth hfails hlost
    | _ => cases hreport
  · cases step_cases hstep with
    | commit hth =>
        refine failedTried_of_step (itemStep_of_commits (hc.commits attemptRules_valid hth)) ?_ hfailed
        exact tried_of_allows (hreacts.allows hth)
    | _ => exact hfailed

/-- In a run that loses no attempt a failed item has counted one. -/
theorem failed_tried {s : Store} (hs : s.itemOf batchRunId accountId = none) {n : ℕ × ℕ}
    (h : Weighed (server env) batchCalls
      (fun c a => (started env batchRunId accountId c a, lost env batchRunId accountId c a))
      (.initial s) n c) (hlost : n.2 = 0) :
    c.Reacts (marking fun _ _ => True) (met batchRunId accountId) ∧
      FailedTried c.store batchRunId accountId := by
  have hnone : ∀ i, s.itemOf batchRunId accountId ≠ some i := by simp [hs]
  induction h with
  | refl => exact ⟨reacts_initial s, fun i hi _ => absurd hi (hnone i)⟩
  | tail hrun hok hstep ih =>
      obtain ⟨hbefore, hnow⟩ := Nat.add_eq_zero_iff.mp hlost
      obtain ⟨hreacts, hfailed⟩ := ih hbefore
      obtain ⟨⟨own, hsound⟩, -⟩ := Rules.sound_of_steps attemptRules_valid
        (fun i hi _ => absurd hi (hnone i) : Tried s batchRunId accountId) hrun.steps
      exact failed_step hsound hreacts hfailed hok hnow hstep

end Runs

end BatchService

open BatchService in
/-- When every call has ended, the item of an account counts the attempts that were started, and
has counted one if it failed, if and only if none was lost. -/
theorem attempts_counted_iff (env : Env) {s : Store} {batchRunId accountId : Uuid}
    (hs : s.itemOf batchRunId accountId = none) {n m : ℕ} {c : ServerConfig}
    (hrun : Weighed (server env) batchCalls
      (fun c a => (started env batchRunId accountId c a, lost env batchRunId accountId c a))
      (.initial s) (n, m) c) (hrest : c.atRest = true) {i : BatchRunItem}
    (hi : c.store.itemOf batchRunId accountId = some i) :
    (i.attemptCount = n ∧ (i.status = .failed → 1 ≤ i.attemptCount)) ↔ m = 0 := by
  have hbalance := attempts_balance hs hrun
  rw [attempts_of_item hi, openCount_of_atRest hrest] at hbalance
  constructor
  · rintro ⟨hcount, -⟩
    omega
  · intro hlost
    exact ⟨by omega, (failed_tried hs hrun hlost).2 i hi⟩

/-! ## Two runs -/

/-- An account without a ledger account. -/
def unlinkedStore : Store :=
  .opening (Table.empty.insert ⟨demoData.checkingAccountId, "customer", "USD", .active⟩) .empty .empty

/-- The item that the batch leaves on the store, with the first identifiers of its schedule. -/
def runItem (status : BatchRunItemStatus) (attemptCount : Nat) (lastError : Option String) :
    BatchRunItem :=
  ⟨"id-a16-0", "id-a10-0", "account", demoData.checkingAccountId, "0", status, attemptCount, lastError⟩

open BatchService in
/-- The batch over the seed counts the one attempt for the checking account. -/
theorem attempts_counted_seed : ∃ c : ServerConfig,
    c.store.itemOf "id-a10-0" demoData.checkingAccountId = some (runItem .completed 1 none) ∧
    (((runItem .completed 1 none).attemptCount = 1 ∧ ((runItem .completed 1 none).status = .failed →
      1 ≤ (runItem .completed 1 none).attemptCount)) ↔ 0 = 0) := by
  obtain ⟨⟨n, m⟩, c, hrun, ⟨rfl, rfl⟩, hrest, hi⟩ := exists_weighed (server testEnvironment) batchCalls
    (fun c a => (started testEnvironment "id-a10-0" demoData.checkingAccountId c a,
      lost testEnvironment "id-a10-0" demoData.checkingAccountId c a)) (.initial demoStore)
    (.start (.runBatch "scheduler") :: advances 0 "a" 49)
    (fun n c => (n.1 = 1 ∧ n.2 = 0) ∧ c.atRest = true ∧
      c.store.itemOf "id-a10-0" demoData.checkingAccountId = some (runItem .completed 1 none))
    (by decide +kernel)
  exact ⟨c, hi, attempts_counted_iff testEnvironment (by decide +kernel) hrun hrest hi⟩

open BatchService in
/-- The batch starts an attempt for an account without a ledger account.  The item failed, and
counts none. -/
theorem failed_uncounted : unlinkedStore.itemOf "id-a10-0" demoData.checkingAccountId = none ∧
    ∃ (n : ℕ × ℕ) (c : ServerConfig), Weighed (server testEnvironment) batchCalls
      (fun c a => (started testEnvironment "id-a10-0" demoData.checkingAccountId c a,
        lost testEnvironment "id-a10-0" demoData.checkingAccountId c a))
      (.initial unlinkedStore) n c ∧ n.1 = 1 ∧ c.atRest = true ∧
      c.store.itemOf "id-a10-0" demoData.checkingAccountId =
        some (runItem .failed 0 (some "Batch item account was not found.")) := by
  refine ⟨by decide +kernel, exists_weighed _ _ _ _ (.start (.runBatch "scheduler") ::
    (advances 0 "a" 19 ++ advances 1 "b" 8 ++ advances 0 "c" 19)) _ ?_⟩
  decide +kernel

end LedgerCredit
