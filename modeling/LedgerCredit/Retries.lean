import LedgerCredit.Attempts
import LedgerCredit.Redelivery
import LedgerCredit.Txn.Log

/-!
# Retries of a batch run

Any number of retries of a batch run may overlap with the run and with one another.  The
guard of a payment is the status of the item, which `processBatchItem` reads in its
transaction without a lock.

*The run.*  The accounts of a run are its own while their items are PENDING: a retry picks
FAILED items only, and an item that left PENDING never returns to it.  So what the run does,
chunk by chunk and item by item, always meets items that nobody paid.

*The retries.*  A transaction that found its item open still has to find it open when it
commits, and a failure must not be recorded over a completed item (`stillOpen`).  While this
is so, an account is paid at most once in a run, and exactly once when a transaction that
completed its item computed interest for it (`paid_once_per_run`).
-/

namespace LedgerCredit

open Txn LedgerService

/-- The interest entries of a batch run that credit a ledger account. -/
def Store.accrualsIn (s : Store) (batchRunId ledgerAccountId : Uuid) : List JournalEntry :=
  (s.accruals ledgerAccountId).filter (·.batchRunId = some batchRunId)

namespace BatchService

/-- The balance that a statement found. -/
def foundBalance : Event Stmt Write → Option Int
  | ⟨.findAccountWithBalance _, some ⟨_, some _, b⟩, _⟩ => some (balanceOf b)
  | _ => none

/-- The interest that a transaction computed for an account whose item in the run it completed. -/
def computed (env : Env) (batchRunId accountId : Uuid) :
    {α : Type} → Label α → List (Event Stmt Write) → Option Int
  | _, .processBatchChunk b accounts _, _ =>
      if b = batchRunId then
        (accounts.find? (·.id = accountId)).map (snapshotInterest env)
      else none
  | _, .processBatchItem b a, h =>
      if attempting batchRunId accountId (.processBatchItem b a) h then
        (h.findSome? foundBalance).map (interest env)
      else none
  | _, _, _ => none

/-! ## What a commit pays -/

section Pays

variable {V : View} {env : Env} {s : Store} {batchRunId accountId : Uuid} {l : LedgerAccount}
  {ws : List Write} {entries : List (JournalEntry × List Posting)}

/-- The entries among some new ones that pay a ledger account in a run. -/
def paying (batchRunId ledgerAccountId : Uuid) (entries : List (JournalEntry × List Posting)) :
    List JournalEntry :=
  ((entries.filter (accrues ledgerAccountId)).map (·.1)).filter (·.batchRunId = some batchRunId)

theorem accrualsIn_applyAll (hadm : database.Admissible s ws) (hj : Journalled ws entries)
    (hkeys : s.ForeignKeys) (batchRunId id : Uuid) :
    (database.applyAll ws s).accrualsIn batchRunId id =
      s.accrualsIn batchRunId id ++ paying batchRunId id entries := by
  rw [Store.accrualsIn, accruals_applyAll hadm hj hkeys, List.filter_append]
  rfl

/-- Entries of one run pay in that run only. -/
theorem paying_of_run {r : Option Uuid} (h : ∀ e ∈ entries, e.1.batchRunId = r)
    (batchRunId id : Uuid) : paying batchRunId id entries =
      if r = some batchRunId then (entries.filter (accrues id)).map (·.1) else [] := by
  have hrun : ∀ g ∈ (entries.filter (accrues id)).map (·.1), g.batchRunId = r := by
    intro g hg
    obtain ⟨e, he, rfl⟩ := List.mem_map.mp hg
    exact h e (List.mem_filter.mp he).1
  split
  · rename_i hr
    exact List.filter_eq_self.mpr fun g hg => by simp [hrun g hg, hr]
  · rename_i hr
    exact List.filter_eq_nil_iff.mpr fun g hg => by simp [hrun g hg, hr]

/-- What a transaction pays to an account in a run: at most once, only if it takes the account
there, and surely if it computed interest. -/
structure Pays (env : Env) (batchRunId accountId ledgerAccountId : Uuid) {α : Type} (label : Label α)
    (h : List (Event Stmt Write)) (entries : List (JournalEntry × List Posting)) : Prop where
  journalled : Journalled (writes h) entries
  once : (paying batchRunId ledgerAccountId entries).length ≤ 1
  taken : paying batchRunId ledgerAccountId entries ≠ [] →
    attempting batchRunId accountId label h = true ∨ covers batchRunId accountId label = true
  paid : ∀ i, computed env batchRunId accountId label h = some i → 0 < i →
    paying batchRunId ledgerAccountId entries ≠ []

section Chunk

variable {b : Uuid} {accounts : List BatchAccountSnapshot}
  {interestRevenueAccountIds : List (String × Uuid)} {running completed : List Write}
  {effectiveAt : Time} {rows : List InterestRows}

/-- The entries of a chunk belong to its run. -/
theorem ChunkRun.runs (h : ChunkRun V env b accounts interestRevenueAccountIds ws effectiveAt rows
    running completed) : ∀ e ∈ entriesOf rows, e.1.batchRunId = some b := by
  intro e he
  obtain ⟨row, hrow, rfl⟩ := List.mem_map.mp he
  obtain ⟨x, hx, _, _, _, _, _, rfl⟩ := h.rowOf row hrow
  rfl

/-- A chunk pays each of its accounts that has interest. -/
theorem ChunkRun.accrued (hground : s.Grounded accounts interestRevenueAccountIds)
    (hl : s.ledgerAccountOf accountId = some l)
    (h : ChunkRun V env b accounts interestRevenueAccountIds ws effectiveAt rows running completed)
    {x : BatchAccountSnapshot} (hx : x ∈ accounts) (hid : x.id = accountId)
    (hpositive : 0 < snapshotInterest env x) :
    (entriesOf rows).filter (accrues l.id) ≠ [] := by
  obtain ⟨uuid, hbuilt⟩ := h.built
  have hmem : x ∈ accounts.filter fun account => 0 < snapshotInterest env account :=
    List.mem_filter.mpr ⟨hx, by simpa using hpositive⟩
  obtain ⟨row, hrow, hof⟩ := mem_of_forall₂ (chunkRows_forall hbuilt).flip hmem
  have hrowOf : RowOf env b interestRevenueAccountIds effectiveAt x row := hof
  have haccrues := hrowOf.accrues hground hx hl
  obtain ⟨_, _, _, _, _, rfl⟩ := hof
  refine List.ne_nil_of_mem (List.mem_filter.mpr ⟨List.mem_map_of_mem hrow, ?_⟩)
  rw [haccrues]
  exact decide_eq_true hid

theorem ChunkRun.pays (hV : Answering V) (hground : s.Grounded accounts interestRevenueAccountIds)
    (hl : s.ledgerAccountOf accountId = some l) {h : List (Event Stmt Write)}
    (hrun : ChunkRun V env b accounts interestRevenueAccountIds (Txn.writes h) effectiveAt rows
      running completed) :
    Pays env batchRunId accountId l.id (.processBatchChunk b accounts interestRevenueAccountIds) h
      (entriesOf rows) := by
  have haccruals := hrun.accruals hV hground hl
  have hpaying := paying_of_run hrun.runs batchRunId l.id
  refine ⟨haccruals.journalled, ?_, fun hsome => ?_, fun i hi hpositive => ?_⟩
  · rw [hpaying]
    split
    · rw [List.length_map]
      exact haccruals.once
    · exact Nat.zero_le _
  · rw [hpaying] at hsome
    split at hsome
    · rename_i hb
      obtain rfl := Option.some.inj hb
      refine Or.inr ?_
      by_contra hnot
      refine hsome (List.map_eq_nil_iff.mpr (haccruals.none fun hmem => hnot ?_))
      simpa [covers] using hmem
    · exact absurd rfl hsome
  · simp only [computed] at hi
    split at hi
    · rename_i hb
      subst hb
      obtain ⟨x, hfind, rfl⟩ := Option.map_eq_some_iff.mp hi
      rw [hpaying, if_pos rfl]
      exact fun hnil => hrun.accrued hground hl (List.mem_of_find?_eq_some hfind)
        (by simpa using List.find?_some hfind) hpositive (List.map_eq_nil_iff.mp hnil)
    · cases hi

end Chunk

section Item

variable {b x : Uuid}

/-- The second statement of an attempt finds the balance that interest is computed from. -/
theorem completes_processOpenItem (hV : Answering V) {item : BatchRunItem}
    {h : List (Event Stmt Write)} {p : List Write} {u : Unit}
    (hc : Completes (processOpenItem env b x item) h u) (hev : Holds V p h) :
    ∃ account ledgerAccount balance paid h',
      h = ⟨.findAccountWithBalance x, some ⟨account, some ledgerAccount, balance⟩, []⟩ :: h' ∧
      V p ⟨.findAccountWithBalance x, some ⟨account, some ledgerAccount, balance⟩, []⟩ ∧
      InterestPaid V env b account ledgerAccount (interest env (balanceOf balance))
        (p ++ [.updateBatchRunItem item.id runningUpdate]) paid ∧
      writes h = [.updateBatchRunItem item.id runningUpdate] ++ paid ++
        [.updateBatchRunItem item.id completedUpdate] := by
  unfold processOpenItem at hc
  obtain ⟨h₁, found, h', rfl, hfirst, hc'⟩ := completes_bind.mp hc
  obtain ⟨_, ws, _, rfl, hpure⟩ := completes_query.mp hfirst
  obtain ⟨rfl, rfl⟩ := completes_pure.mp hpure
  obtain ⟨hread, hrest⟩ := (holds_cons ..).mp hev
  obtain rfl : ws = [] := hV _ _ _ _ hread
  have hr := runs_of_completes hc' hrest
  simp only [orThrow, runs_bind, runs_send, runs_require, List.append_nil] at hr
  obtain ⟨_, ⟨account, ledgerAccount⟩, ⟨rfl, hfound⟩, _, hwrites, running, _, hrunning, _, rfl, paid,
    _, hpaid, _, rfl, hcompleted⟩ := hr
  obtain rfl := hV _ _ _ _ hrunning
  obtain rfl := hV _ _ _ _ hcompleted
  obtain ⟨⟨a, lo, balance⟩, rfl, hledger⟩ := Option.bind_eq_some_iff.mp hfound
  obtain ⟨l, rfl, heq⟩ := Option.map_eq_some_iff.mp hledger
  obtain ⟨rfl, rfl⟩ := Prod.mk.inj heq
  have hpaid' := payInterest_runs hV hpaid
  simp only [List.append_nil] at hpaid'
  refine ⟨a, l, balance, paid, h', rfl, hread, hpaid', ?_⟩
  rw [writes_append, hwrites]
  simp [runningUpdate, completedUpdate]

theorem attempting_item {item : BatchRunItem} {ws : List Write} {h : List (Event Stmt Write)}
    (hopen : item.status ≠ .completed) :
    attempting batchRunId accountId (.processBatchItem b x)
      (⟨.findBatchRunItem b "account" x, some item, ws⟩ :: h) =
        decide (b = batchRunId ∧ x = accountId) := by
  simp [attempting, found, hopen]

/-- The entry that pays an item belongs to its run. -/
theorem batchRunId_item {a revenue ledgerAccountId : Uuid} {now : Time} {amount : Money}
    {p posted rest : List Write} {journalEntry : JournalEntry} {postings : List Posting}
    {ledgerAccounts : List LedgerAccount}
    (h : JournalPosted V (interestInput b now a revenue ledgerAccountId amount) p posted
      journalEntry postings ledgerAccounts rest) : journalEntry.batchRunId = truthy (some b) := by
  obtain ⟨u, rfl⟩ := h.entry
  rfl

theorem pays_nothing {α : Type} {label : Label α} {id : Uuid} {h : List (Event Stmt Write)}
    (hj : Journalled (writes h) [])
    (hcomputed : ∀ i, computed env batchRunId accountId label h = some i → i ≤ 0) :
    Pays env batchRunId accountId id label h [] where
  journalled := hj
  once := Nat.zero_le _
  taken := fun hsome => absurd rfl hsome
  paid := fun i hi hpositive => absurd (hcomputed i hi) (not_le.mpr hpositive)

theorem item_pays (hV : ∀ p e, V p e → Saw s p e) (hb : batchRunId ≠ "")
    (hl : s.ledgerAccountOf accountId = some l) {h : List (Event Stmt Write)} {u : Unit}
    (hc : Completes (processBatchItemTx env b x) h u) (hev : Holds V [] h) :
    ∃ entries, Pays env batchRunId accountId l.id (.processBatchItem b x) h entries := by
  have hanswering : Answering V := answering_of_saw hV
  obtain ⟨item, ws, h', rfl, hcase⟩ := completes_processBatchItem hc
  obtain ⟨hread, hrest⟩ := (holds_cons ..).mp hev
  obtain rfl : ws = [] := hanswering _ _ _ _ hread
  rcases hcase with ⟨rfl, hclosed⟩ | ⟨item, rfl, hopen, hcompletes⟩
  · have hnot : attempting batchRunId accountId (.processBatchItem b x)
        [⟨.findBatchRunItem b "account" x, item, []⟩] = false := by
      cases item with
      | none => simp [attempting, found]
      | some i => simp [attempting, found, hclosed i rfl]
    refine ⟨[], pays_nothing (.nil_of_kind (by simp)) fun i hi => ?_⟩
    simp [computed, hnot] at hi
  · obtain ⟨account, ledgerAccount, balance, paid, h'', rfl, hfound, hpaid, hwrites⟩ :=
      completes_processOpenItem hanswering hcompletes hrest
    have hcomputed : computed env batchRunId accountId (.processBatchItem b x)
        (⟨.findBatchRunItem b "account" x, some item, []⟩ :: ⟨.findAccountWithBalance x,
          some ⟨account, some ledgerAccount, balance⟩, []⟩ :: h'') =
        if b = batchRunId ∧ x = accountId then some (interest env (balanceOf balance)) else none := by
      have hbalance : (⟨.findBatchRunItem b "account" x, some item, []⟩ ::
          ⟨.findAccountWithBalance x, some ⟨account, some ledgerAccount, balance⟩, []⟩ ::
            h'').findSome? foundBalance = some (balanceOf balance) := rfl
      simp only [computed, attempting_item hopen, decide_eq_true_eq, hbalance, Option.map_some]
    cases hpaid with
    | none hnone =>
        refine ⟨[], pays_nothing (.nil_of_kind ?_) fun i hi => ?_⟩
        · rw [writes_cons, hwrites]
          simp [Write.kind]
        · rw [hcomputed] at hi
          split at hi
          · cases hi
            exact hnone
          · cases hi
    | @paid revenue effectiveAt amount journalEntry postings ledgerAccounts _ rest hpositive _ _
        hposted =>
        obtain ⟨howns, hid⟩ := saw_findAccountWithBalance (hV _ _ hfound)
        have hiff := ledgerAccountOf_inj hl (hid ▸ howns.ledgerAccount)
        have hrun : ∀ e ∈ [(journalEntry, postings)], e.1.batchRunId = truthy (some b) := by
          simpa using batchRunId_item hposted
        have hsome : truthy (some b) = some batchRunId ↔ b = batchRunId := by
          constructor
          · intro heq
            exact Option.some.inj (Option.filter_eq_some_iff.mp heq).1
          · rintro rfl
            simp [truthy, hb]
        have hpaying : paying batchRunId l.id [(journalEntry, postings)] =
            if b = batchRunId ∧ x = accountId then [journalEntry] else [] := by
          rw [paying_of_run hrun]
          by_cases hrun' : b = batchRunId
          · rw [if_pos (hsome.mpr hrun')]
            by_cases hacc : x = accountId <;> simp [hrun', hacc, accrues_item hposted, hiff]
          · rw [if_neg fun h => hrun' (hsome.mp h), if_neg fun h => hrun' h.1]
        refine ⟨[(journalEntry, postings)], ?_, ?_, fun htaken => Or.inl ?_, fun i hi _ => ?_⟩
        · rw [writes_cons, hwrites]
          exact hposted.journalled.wrap (by simp [Write.kind]) (by simp [Write.kind])
        · rw [hpaying]
          split <;> simp
        · rw [attempting_item hopen]
          rw [hpaying] at htaken
          by_contra hnot
          simp_all
        · rw [hcomputed] at hi
          split at hi
          · rename_i hboth
            rw [hpaying, if_pos hboth]
            exact List.cons_ne_nil _ _
          · cases hi

end Item

end Pays

/-! ## Rules -/

end BatchService

open BatchService

/-- The item of an account is there, and PENDING. -/
def Store.Waits (s : Store) (batchRunId accountId : Uuid) : Prop :=
  ∃ i, s.itemOf batchRunId accountId = some i ∧ i.status = .pending

/-- The item of an account is there, and no longer PENDING. -/
def Store.Begun (s : Store) (batchRunId accountId : Uuid) : Prop :=
  ∃ i, s.itemOf batchRunId accountId = some i ∧ i.status ≠ .pending

/-- No row mentions the batch run. -/
structure Store.Unopened (s : Store) (batchRunId : Uuid) : Prop where
  run : s.batchRuns.get? batchRunId = none
  items : ∀ i ∈ s.batchRunItems.rows, i.batchRunId ≠ batchRunId
  entries : ∀ e ∈ s.journalEntries.rows, e.batchRunId ≠ some batchRunId

/-- The invariant of stores after `s₀`, for one batch run. -/
structure Store.InRun (s₀ : Store) (batchRunId : Uuid) (s : Store) : Prop where
  extended : s₀.Extends s
  keys : s.ForeignKeys
  tried : ∀ a, Tried s batchRunId a
  accounts : ∀ i ∈ s.batchRunItems.rows, i.batchRunId = batchRunId → i.resourceType = "account"

/-- How stores evolve for one batch run: an item that was begun never waits again. -/
structure Store.Proceeds (batchRunId : Uuid) (s s' : Store) : Prop where
  extended : s.Extends s'
  items : s.KeepsItems s'
  begun : ∀ a, s.Begun batchRunId a → s'.Begun batchRunId a
  run : s.present (.row .batchRun batchRunId) = true →
    s'.present (.row .batchRun batchRunId) = true

namespace Store.Proceeds

variable {batchRunId : Uuid} {s s' s'' : Store}

theorem refl (s : Store) : Proceeds batchRunId s s :=
  ⟨.refl s, .refl s, fun _ h => h, fun h => h⟩

theorem trans (h : Proceeds batchRunId s s') (h' : Proceeds batchRunId s' s'') :
    Proceeds batchRunId s s'' where
  extended := h.extended.trans h'.extended
  items := h.items.trans h'.items
  begun := fun a ha => h'.begun a (h.begun a ha)
  run := fun hrun => h'.run (h.run hrun)

end Store.Proceeds

namespace BatchService

/-- The accounts whose items in the run a transaction changes. -/
def handled (batchRunId : Uuid) : {α : Type} → Label α → List Uuid
  | _, .processBatchChunk b accounts _ => if b = batchRunId then accounts.map (·.id) else []
  | _, .processBatchItem b a => if b = batchRunId then [a] else []
  | _, .statement (.updateBatchRunItemOf b _ a _) => if b = batchRunId then [a] else []
  | _, _ => []

/-- The items that a statement creates in the run are items of accounts. -/
def createsAccounts (batchRunId : Uuid) : {α : Type} → Label α → Prop
  | _, .statement (.createBatchRunItems data) =>
      ∀ f ∈ data, ∀ id, (f id).batchRunId = batchRunId → (f id).resourceType = "account"
  | _, _ => True

/-- The tokens that a statement gives to the thread that creates the run. -/
def granted (batchRunId : Uuid) : {α : Type} → Label α → α → Set Uuid
  | _, .statement (.createBatchRun _), r => {_a | r.id = batchRunId}
  | _, _, _ => ∅

/-- The items that a statement created wait. -/
def waiting (batchRunId : Uuid) (s : Store) : {α : Type} → Label α → Prop
  | _, .statement (.createBatchRunItems data) => ∀ f ∈ data, ∃ id,
      (f id).batchRunId = batchRunId → s.Waits batchRunId (f id).resourceId
  | _, _ => True

/-- The items that a statement found FAILED were begun. -/
def begun (batchRunId : Uuid) (s : Store) : {α : Type} → Label α → α → Prop
  | _, .statement (.findBatchRunItems b status), r => b = batchRunId → status ≠ .pending →
      ∀ i ∈ r, s.Begun batchRunId i.resourceId
  | _, _, _ => True

/-- What a transaction of the batch needs: who handles an item owns its account while it waits, and
only a chunk insists on that. -/
structure Takes (s₀ : Store) (batchRunId : Uuid) (s : Store) (T : Set Uuid) {α : Type} (l : Label α) :
    Prop where
  grounds : grounds s₀ l
  ready : Ready s l
  accounts : createsAccounts batchRunId l
  handled : ∀ a ∈ handled batchRunId l,
    a ∈ T ∧ s.Waits batchRunId a ∨ l.isChunk = false ∧ s.Begun batchRunId a

/-- What is known after a transaction of the batch. -/
structure Leaves (s₀ : Store) (batchRunId : Uuid) (T : Set Uuid) {α : Type} (l : Label α) (r : α)
    (s' : Store) (T' : Set Uuid) (s : Store) : Prop where
  tokens : T' = T ∪ granted batchRunId l r
  learned : learned s₀ l r
  distinct : distinctAccounts l r
  created : created s' l
  waiting : waiting batchRunId s' l
  begun : begun batchRunId s' l r
  items : s.KeepsItems s'
  others : ∀ a ∈ T, a ∉ BatchService.handled batchRunId l → s.Waits batchRunId a →
    s'.Waits batchRunId a

/-- The rules of the batch, for one batch run.  The tokens are its accounts, and nobody but the
owner of an account touches its item while it waits. -/
def runRules (env : Env) (s₀ : Store) (batchRunId : Uuid) : Rules (server env) Empty Uuid where
  Inv := s₀.InRun batchRunId
  le := Store.Proceeds batchRunId
  born := fun s => {_a | s.present (.row .batchRun batchRunId) = true}
  rely := fun T s s' => ∀ a ∈ T, s.Waits batchRunId a → s'.Waits batchRunId a
  pre := fun s T l => Takes s₀ batchRunId s T l
  post := fun s T l r s' T' => Leaves s₀ batchRunId T l r s' T' s
  done := fun _ _ _ _ => True
  guard := fun _ => []
  Cur := fun s l p e => ∃ s₁ T ch, Takes s₀ batchRunId s₁ T l ∧ Store.Proceeds batchRunId s₁ s ∧
    (server env).exec e.query ch ((server env).applyAll p s₁) = .ok (e.reply, e.writes)

/-! ## What commits keep -/

section Commits

variable {env : Env} {s₀ s : Store} {batchRunId : Uuid} {α : Type} {T : Set Uuid} {l : Label α}
  {h : List (Event Stmt Write)} {r : α}

/-- The transaction follows the rules of attempts. -/
theorem attempt_of_commits (hc : (runRules env s₀ batchRunId).Commits s T l h r) (a : Uuid) :
    (attemptRules env batchRunId a).Commits s ∅ l h r := by
  have hinv : s₀.InRun batchRunId s := hc.inv
  have hpre : Takes s₀ batchRunId s T l := hc.pre
  refine ⟨hinv.tried a, hpre.ready, hc.path, hc.evidence.mono fun p e he => ?_, hc.admissible⟩
  rintro ⟨⟨s₁, ch, hinv₁, hle, hexec⟩, s₂, _, ch₂, htakes, hle₂, hexec₂⟩
  exact ⟨⟨s₁, ch, hinv₁.tried a, hle.items, hexec⟩, s₂, ∅, ch₂, htakes.ready, hle₂.items, hexec₂⟩

/-- What the transaction does to the item of an account. -/
theorem run_itemStep (hc : (runRules env s₀ batchRunId).Commits s T l h r) (a : Uuid) :
    ItemStep batchRunId a l (s.itemOf batchRunId a)
      ((database.applyAll (writes h) s).itemOf batchRunId a)
      ((attempting batchRunId a l h).toNat + (covers batchRunId a l).toNat) :=
  itemStep_of_commits (attempt_of_commits hc a)

/-- An account whose item changes is one that the transaction handles. -/
theorem mem_handled {a : Uuid} (h' : attempting batchRunId a l h = true ∨
    covers batchRunId a l = true ∨ marksFailed (batchRunId, a) l) : a ∈ handled batchRunId l := by
  cases l with
  | processBatchChunk b accounts revenue =>
      rcases h' with h' | h' | h'
      · cases h'
      · simp only [covers, Bool.and_eq_true, decide_eq_true_eq] at h'
        rw [handled, if_pos h'.1]
        exact h'.2
      · cases h'
  | processBatchItem b x =>
      rcases h' with h' | h' | h'
      · simp only [attempting, Bool.and_eq_true, decide_eq_true_eq] at h'
        simp [handled, h'.1.1, h'.1.2]
      · cases h'
      · cases h'
  | statement q =>
      rcases h' with h' | h' | h'
      · cases h'
      · cases h'
      · cases q with
        | updateBatchRunItemOf b t x d => simp [handled, h'.1, h'.2.2.1]
        | _ => cases h'
  | _ => rcases h' with h' | h' | h' <;> cases h'

/-- The item of an account that is not handled keeps its status, or is created. -/
theorem waits_of_commits (hc : (runRules env s₀ batchRunId).Commits s T l h r) {a : Uuid}
    (hnot : a ∉ handled batchRunId l) (hwaits : s.Waits batchRunId a) :
    (database.applyAll (writes h) s).Waits batchRunId a := by
  obtain ⟨i, hi, hpending⟩ := hwaits
  have hattempting : attempting batchRunId a l h = false :=
    Bool.eq_false_iff.mpr fun h' => hnot (mem_handled (Or.inl h'))
  have hcovers : covers batchRunId a l = false :=
    Bool.eq_false_iff.mpr fun h' => hnot (mem_handled (h := h) (Or.inr (Or.inl h')))
  have hstep := run_itemStep hc a
  rw [hattempting, hcovers, hi] at hstep
  generalize hafter : (database.applyAll (writes h) s).itemOf batchRunId a = after at hstep
  cases hstep with
  | kept => exact ⟨i, hafter, hpending⟩
  | failed hmarks _ _ => exact absurd (mem_handled (h := h) (Or.inr (Or.inr hmarks))) hnot

theorem begun_of_commits (hc : (runRules env s₀ batchRunId).Commits s T l h r) {a : Uuid}
    (hbegun : s.Begun batchRunId a) : (database.applyAll (writes h) s).Begun batchRunId a := by
  obtain ⟨i, hi, hstatus⟩ := hbegun
  have hstep := run_itemStep hc a
  rw [hi] at hstep
  generalize hafter : (database.applyAll (writes h) s).itemOf batchRunId a = after at hstep
  generalize (attempting batchRunId a l h).toNat + (covers batchRunId a l).toNat = n at hstep
  cases hstep with
  | kept => exact ⟨i, hafter, hstatus⟩
  | counted _ hcompleted => exact ⟨_, hafter, by rw [hcompleted]; decide⟩
  | failed _ _ hfailed => exact ⟨_, hafter, by rw [hfailed]; decide⟩

theorem run_committed (hc : (runRules env s₀ batchRunId).Commits s T l h r) :
    Committed (Saw s) env l r (writes h) :=
  committed_of_runs (answering_of_saw fun _ _ h => h) (runs_of_completes hc.path
    (hc.evidence.mono fun _ _ _ he => saw_of_seen (fun _ _ h => h.extended) he.1))

/-- The items that appear in the run belong to accounts. -/
theorem account_of_created (hready : Ready s l) (haccounts : createsAccounts batchRunId l)
    {V : View} (hV : Answering V) {ws : List Write} (hcommitted : Committed V env l r ws)
    {i : BatchRunItem} (hi : .batchRunItem i ∈ ws) (hrun : i.batchRunId = batchRunId) :
    i.resourceType = "account" := by
  have hledger : ∀ {ws : List Write}, (∀ w ∈ ws, w.kind = .ledger) → .batchRunItem i ∉ ws := by
    intro ws hkind hmem
    cases hkind _ hmem
  cases hcommitted with
  | createTransfer _ =>
      obtain ⟨_, hno | ⟨_, -, hno⟩⟩ := hready
      · cases hno
      · cases hno
  | applyNormalizedEvent _ =>
      obtain ⟨_, hno | ⟨_, -, hno⟩⟩ := hready
      · cases hno
      · cases hno
  | processBatchChunk hchunk =>
      obtain ⟨_, hrunning⟩ := hV _ _ _ _ hchunk.marked
      obtain ⟨_, hcompleted⟩ := hV _ _ _ _ hchunk.closed
      simp [hchunk.writes, hrunning, hcompleted, hledger rowWrites_kind] at hi
  | processBatchItem hitem =>
      cases hitem with
      | processed _ _ _ hpaid => simp [hledger hpaid.kind] at hi
      | _ => cases hi
  | @statement _ q _ ws hread =>
      have hanswer := hV _ _ _ _ hread
      rcases ready_statement hready with hq | ⟨y, hy⟩
      · cases q with
        | updateBatchRunItemOf b t x d => cases hq
        | createBatchRunItems data =>
            obtain ⟨uuid, rfl⟩ := hanswer
            obtain ⟨d, hd, heq⟩ := List.mem_map.mp hi
            cases heq
            exact haccounts d.1 (List.fst_mem_of_mem_zipIdx hd) _ hrun
        | _ => first
            | exact False.elim hq
            | (obtain rfl := hanswer; simp at hi)
            | (obtain ⟨_, rfl⟩ := hanswer; simp at hi)
      · cases q with
        | updateBatchRunItemOf b t x d =>
            obtain ⟨_, rfl⟩ := hanswer
            simp at hi
        | _ => cases hy

/-- A commit keeps the invariant of the run. -/
theorem inRun_of_commits (hc : (runRules env s₀ batchRunId).Commits s T l h r) :
    s₀.InRun batchRunId (database.applyAll (writes h) s) := by
  have hinv : s₀.InRun batchRunId s := hc.inv
  have hpre : Takes s₀ batchRunId s T l := hc.pre
  refine ⟨hinv.extended.trans (extends_applyAll _ s), foreignKeys_applyAll hc.admissible hinv.keys,
    fun a => tried_of_step (run_itemStep hc a) (hinv.tried a), fun i hi => ?_⟩
  have hfound := Table.find?_eq_some.mpr ⟨hi, rfl⟩
  cases hbefore : s.batchRunItems.find? (i.batchRunId, i.resourceType, i.resourceId) with
  | some j =>
      obtain ⟨hmem, hkey⟩ := Table.find?_mem hbefore
      have hsame : j.batchRunId = i.batchRunId ∧ j.resourceType = i.resourceType ∧
        j.resourceId = i.resourceId := by simpa using hkey
      rw [← hsame.1, ← hsame.2.1]
      exact hinv.accounts j hmem
  | none =>
      refine findItem_created
        (P := fun i => i.batchRunId = batchRunId → i.resourceType = "account") hbefore hfound
        (fun g hg => ?_) fun w _ j hj => ?_
      · exact account_of_created hpre.ready hpre.accounts (answering_of_saw fun _ _ h => h)
          (run_committed hc) hg
      · rw [(w.onItem_same j).1, (w.onItem_same j).2.1]
        exact hj

theorem proceeds_of_commits (hc : (runRules env s₀ batchRunId).Commits s T l h r) :
    Store.Proceeds batchRunId s (database.applyAll (writes h) s) where
  extended := extends_applyAll _ s
  items := .applyAll _ s
  begun := fun _ ha => begun_of_commits hc ha
  run := present_applyAll hc.admissible

/-- Nobody makes an account of another thread stop waiting. -/
theorem rely_of_commits (hc : (runRules env s₀ batchRunId).Commits s T l h r) {T' : Set Uuid}
    (hdisjoint : Disjoint T T') : ∀ a ∈ T', s.Waits batchRunId a →
      (database.applyAll (writes h) s).Waits batchRunId a := by
  intro a ha hwaits
  have hpre : Takes s₀ batchRunId s T l := hc.pre
  refine waits_of_commits hc (fun hmem => ?_) hwaits
  rcases hpre.handled a hmem with ⟨hT, -⟩ | ⟨-, hbegun⟩
  · exact Set.disjoint_left.mp hdisjoint hT ha
  · obtain ⟨i, hi, hpending⟩ := hwaits
    obtain ⟨j, hj, hstatus⟩ := hbegun
    obtain rfl := Option.some.inj (hi.symm.trans hj)
    exact hstatus hpending

/-- The items that a statement created wait when it commits. -/
theorem waiting_of_commits (hc : (runRules env s₀ batchRunId).Commits s T l h r) :
    waiting batchRunId (database.applyAll (writes h) s) l := by
  have hpre : Takes s₀ batchRunId s T l := hc.pre
  cases l with
  | statement q =>
      cases q with
      | createBatchRunItems data =>
          intro f hf
          have hread := runs_send.mp (runs_of_completes hc.path
            (hc.evidence.mono fun _ _ _ he => saw_of_seen (fun _ _ h => h.extended) he.1))
          obtain ⟨uuid, hws⟩ := answering_of_saw (fun _ _ h => h) _ _ _ _ hread
          obtain ⟨n, hn, rfl⟩ := List.mem_iff_getElem.mp hf
          have hmem : .batchRunItem (data[n] (uuid n)) ∈ writes h := by
            rw [hws]
            refine List.mem_map.mpr ⟨(data[n], n), ?_, rfl⟩
            rw [List.mem_zipIdx_iff_getElem?]
            exact List.getElem?_eq_getElem hn
          refine ⟨uuid n, fun hrun => ?_⟩
          have htype := hpre.accounts _ hf (uuid n) hrun
          -- the key of the row was free, so the item that is there now is new
          have hkey : Key.batchRunItem (data[n] (uuid n)).batchRunId (data[n] (uuid n)).resourceType
              (data[n] (uuid n)).resourceId ∈ database.adds (.batchRunItem (data[n] (uuid n))) := by
            exact List.mem_cons_of_mem _ (List.mem_singleton_self _)
          have hbefore := Database.Admissible.absent hc.admissible hmem hkey
          have hafter := (Database.present_applyAll lawful_database hc.admissible _).mpr
            (Or.inr (List.mem_flatMap.mpr ⟨_, hmem, hkey⟩))
          rw [hrun, htype] at hbefore hafter
          have hstep := run_itemStep hc (data[n] (uuid n)).resourceId
          have hnone : s.itemOf batchRunId (data[n] (uuid n)).resourceId = none :=
            Option.not_isSome_iff_eq_none.mp hbefore
          obtain ⟨i, hi⟩ := Option.isSome_iff_exists.mp hafter
          rw [hnone] at hstep
          have hi' : (database.applyAll (writes h) s).itemOf batchRunId
              (data[n] (uuid n)).resourceId = some i := hi
          rw [hi'] at hstep
          cases hstep with
          | created hpending _ => exact ⟨i, hi, hpending⟩
      | _ => trivial
  | _ => trivial

/-- The items that a statement found FAILED are begun when it commits. -/
theorem begun_of_found (hc : (runRules env s₀ batchRunId).Commits s T l h r) :
    begun batchRunId (database.applyAll (writes h) s) l r := by
  cases l with
  | statement q =>
      cases q with
      | findBatchRunItems b status =>
          rintro rfl hstatus i hi
          obtain ⟨s₁, ch, hinv, hle, hexec⟩ := runs_send.mp (runs_of_completes hc.path
            (hc.evidence.mono fun _ _ _ he => he.1))
          have hreply : Except.ok (arrange ch.order (s₁.itemsOf b (some status)), []) =
            (Except.ok (r, writes h) : Except TxError _) := hexec
          obtain ⟨rfl, -⟩ := Prod.mk.inj (Except.ok.inj hreply)
          have hi' : i ∈ s₁.itemsOf b (some status) := mem_arrange.mp hi
          obtain ⟨hmem, hof⟩ := List.mem_filter.mp hi'
          simp only [Bool.and_eq_true, decide_eq_true_eq, Option.all_some] at hof
          have haccount := hinv.accounts i hmem hof.1
          refine (proceeds_of_commits hc).begun _ (hle.begun _ ⟨i, ?_, by rw [hof.2]; exact hstatus⟩)
          exact Table.find?_eq_some.mpr ⟨hmem, by simp [hof.1, haccount]⟩
      | _ => trivial
  | _ => trivial

/-- Who creates the run gets its tokens. -/
theorem granted_of_commits (hc : (runRules env s₀ batchRunId).Commits s T l h r) :
    granted batchRunId l r ⊆ (runRules env s₀ batchRunId).born (database.applyAll (writes h) s) \
      (runRules env s₀ batchRunId).born s := by
  cases l with
  | statement q =>
      cases q with
      | createBatchRun data =>
          rintro a (rfl : r.id = batchRunId)
          have hread := runs_send.mp (runs_of_completes hc.path
            (hc.evidence.mono fun _ _ _ he => saw_of_seen (fun _ _ h => h.extended) he.1))
          obtain ⟨-, hws⟩ := answering_of_saw (fun _ _ h => h) _ _ _ _ hread
          have hmem : .batchRun r ∈ writes h := hws ▸ List.mem_singleton_self _
          have hkey : Key.row .batchRun r.id ∈ database.adds (.batchRun r) :=
            List.mem_singleton_self _
          exact ⟨(Database.present_applyAll lawful_database hc.admissible _).mpr
            (Or.inr (List.mem_flatMap.mpr ⟨_, hmem, hkey⟩)),
            Database.Admissible.absent hc.admissible hmem hkey⟩
      | _ => exact Set.empty_subset _
  | _ => exact Set.empty_subset _

theorem leaves_of_commits (hc : (runRules env s₀ batchRunId).Commits s T l h r) :
    Leaves s₀ batchRunId T l r (database.applyAll (writes h) s) (T ∪ granted batchRunId l r) s where
  tokens := rfl
  learned := by
    have hinv : s₀.InRun batchRunId s := hc.inv
    exact (run_committed hc).learned hinv.extended fun _ _ h => h
  distinct := distinctAccounts_of_committed (run_committed hc)
  created := created_of_commits (attempt_of_commits hc "")
  waiting := waiting_of_commits hc
  begun := begun_of_found hc
  items := .applyAll _ s
  others := fun _ _ hnot hwaits => waits_of_commits hc hnot hwaits

end Commits

/-! ## Processes -/

section Processes

variable {env : Env} {s₀ s : Store} {batchRunId b : Uuid} {T : Set Uuid}

/-- A statement that touches no item that is there. -/
theorem takes_statement {α : Type} {q : Stmt α} (hq : Outside q) (hq' : unmarking q)
    (haccounts : createsAccounts batchRunId (.statement q)) :
    Takes s₀ batchRunId s T (.statement q) where
  grounds := hq
  ready := ⟨none, Or.inl hq'⟩
  accounts := haccounts
  handled := by
    intro a ha
    cases q with
    | updateBatchRunItemOf _ _ _ _ => cases hq'
    | _ => cases ha

theorem statement_run {α β : Type} {q : Stmt α} (hq : Outside q) (hq' : unmarking q)
    (haccounts : createsAccounts batchRunId (.statement q)) {f : α → Process β}
    {A : β → Store → Set Uuid → Prop}
    (hf : ∀ r s' T' s'', Leaves s₀ batchRunId T (.statement q) r s' T' s'' →
      (runRules env s₀ batchRunId).Safe (f r) A (fun _ _ _ => True) s' T') :
    (runRules env s₀ batchRunId).Safe (statement q >>= f) A (fun _ _ _ => True) s T :=
  .bind (.transaction (fun _ _ => takes_statement hq hq' haccounts) (fun _ _ _ => trivial)
    fun s'' _ r s' T' _ _ hleaves => hf r s' T' s'' hleaves)

/-- A process of statements that touch no items. -/
theorem outside_run {α : Type} {p : Process α}
    (hp : p.Uses fun l => ∀ s T, Takes s₀ batchRunId s T l) :
    (runRules env s₀ batchRunId).Safe p (fun _ _ _ => True) (fun _ _ _ => True) s T :=
  Rules.Safe.of_uses (P := fun _ => True) hp (fun _ _ _ h => h) (fun s T _ hl _ => hl s T) trivial

/-- The account has an item in the run `b`, which waits if `b` is the run that is looked at. -/
def HasItem (batchRunId b : Uuid) (x : BatchAccountSnapshot) (s : Store) : Prop :=
  ∃ i, s.itemOf b x.id = some i ∧ (b = batchRunId → i.status = .pending)

theorem HasItem.kept {s' : Store} {x : BatchAccountSnapshot} (h : HasItem batchRunId b x s)
    (hitems : s.KeepsItems s')
    (hwaits : b = batchRunId → s.Waits batchRunId x.id → s'.Waits batchRunId x.id) :
    HasItem batchRunId b x s' := by
  obtain ⟨i, hi, hpending⟩ := h
  by_cases hb : b = batchRunId
  · subst hb
    obtain ⟨j, hj, hstatus⟩ := hwaits rfl ⟨i, hi, hpending rfl⟩
    exact ⟨j, hj, fun _ => hstatus⟩
  · obtain ⟨j, hj, -⟩ := hitems _ i hi
    exact ⟨j, hj, fun hrun => absurd hrun hb⟩

/-- The share of an account in the run `b`, if `b` is the run that is looked at. -/
def shareOf (batchRunId b accountId : Uuid) : Set Uuid := {t | b = batchRunId ∧ t = accountId}

/-- A run takes the account whose share it holds. -/
theorem taken_of_held {x : BatchAccountSnapshot}
    (h : Held (shareOf batchRunId b) (HasItem batchRunId b) s T x) (hb : b = batchRunId) :
    x.id ∈ T ∧ s.Waits batchRunId x.id := by
  obtain ⟨hsub, i, hi, hpending⟩ := h
  subst hb
  exact ⟨hsub ⟨rfl, rfl⟩, i, hi, hpending rfl⟩

/-- A run holds its accounts while their items wait. -/
theorem shares_run : Shares (runRules env s₀ batchRunId) s₀ b (shareOf batchRunId b)
    (HasItem batchRunId b) where
  disjoint := by
    refine fun hne => Set.disjoint_left.mpr ?_
    rintro t ⟨-, rfl⟩ ⟨-, heq⟩
    exact hne heq
  move := fun hmove hheld => ⟨hheld.1, hheld.2.kept hmove.le.items fun hb =>
    hmove.rely _ (taken_of_held hheld hb).1⟩
  item := by
    refine fun hheld => ⟨trivial, ⟨none, Or.inl trivial⟩, trivial, fun a ha => ?_⟩
    simp only [handled] at ha
    split at ha
    · rename_i hb
      obtain rfl := List.mem_singleton.mp ha
      exact Or.inl (taken_of_held hheld hb)
    · cases ha
  failed := by
    intro s T x message hheld
    refine ⟨trivial, ⟨some (b, x.id), Or.inr ⟨_, rfl, rfl, rfl, rfl, rfl, rfl⟩⟩, trivial,
      fun a ha => ?_⟩
    simp only [handled] at ha
    split at ha
    · rename_i hb
      obtain rfl := List.mem_singleton.mp ha
      exact Or.inl (taken_of_held hheld hb)
    · cases ha
  chunk := by
    intro s T accounts revenue hground hheld
    have hitems : hasItems s b accounts := by
      intro x hx
      obtain ⟨-, i, hi, -⟩ := hheld x hx
      exact Option.isSome_iff_exists.mpr ⟨i, hi⟩
    refine ⟨hground, ⟨none, Or.inl hitems⟩, trivial, fun a ha => ?_⟩
    simp only [handled] at ha
    split at ha
    · rename_i hb
      obtain ⟨x, hx, rfl⟩ := List.mem_map.mp ha
      exact Or.inl (taken_of_held (hheld x hx) hb)
    · cases ha
  others := by
    intro s s' T T' accounts revenue u x hleaves hnot hheld
    refine ⟨fun t ht => hleaves.tokens ▸ Or.inl (hheld.1 ht), hheld.2.kept hleaves.items fun hb =>
      hleaves.others _ (taken_of_held hheld hb).1 ?_⟩
    rwa [handled, if_pos hb]
  load := fun _ => takes_statement trivial trivial trivial
  loaded := fun hleaves => ⟨hleaves.learned, fun x hheld =>
    ⟨fun t ht => hleaves.tokens ▸ Or.inl (hheld.1 ht), hheld.2.kept hleaves.items fun hb =>
      hleaves.others _ (taken_of_held hheld hb).1 List.not_mem_nil⟩⟩

/-- The items of a new run wait. -/
theorem waits_of_created {accounts : List BatchAccountSnapshot}
    (h : waiting batchRunId s (.statement (.createBatchRunItems (itemData env b accounts))))
    (hb : b = batchRunId) {x : BatchAccountSnapshot} (hx : x ∈ accounts) :
    s.Waits batchRunId x.id := by
  obtain ⟨n, hn, rfl⟩ := List.mem_iff_getElem.mp hx
  have hmem : (accounts[n], n) ∈ accounts.zipIdx := by
    rw [List.mem_zipIdx_iff_getElem?]
    exact List.getElem?_eq_getElem hn
  obtain ⟨id, hwaits⟩ := h _ (List.mem_map.mpr ⟨_, hmem, rfl⟩)
  exact hwaits hb

theorem createsAccounts_itemData {accounts : List BatchAccountSnapshot} :
    createsAccounts batchRunId (.statement (.createBatchRunItems (itemData env b accounts))) := by
  intro f hf id _
  obtain ⟨p, -, rfl⟩ := List.mem_map.mp hf
  rfl

theorem runBatch_run (triggeredBy : String) :
    (runRules env s₀ batchRunId).Safe (runBatch env triggeredBy) (fun _ _ _ => True)
      (fun _ _ _ => True) s T := by
  have houtside : ∀ {α : Type} {q : Stmt α}, Outside q → unmarking q →
      createsAccounts batchRunId (.statement q) →
      (statement q).Uses fun l => ∀ s T, Takes s₀ batchRunId s T l :=
    fun hq hq' hcreates => .transaction fun _ _ => takes_statement hq hq' hcreates
  refine .bind (statement_run (by trivial) (by trivial) (by trivial) fun uuid _ _ _ _ =>
    Rules.safe_return.mpr ?_)
  refine statement_run (by trivial) (by trivial) (by trivial) fun scheduledFor _ _ _ _ => ?_
  refine statement_run (by trivial) (by trivial) (by trivial) fun startedAt _ _ _ _ => ?_
  refine statement_run (by trivial) (by trivial) (by trivial) fun batchRun s₁ T₁ _ hrun => ?_
  refine statement_run (by trivial) (by trivial) (by trivial) fun accounts s₂ T₂ _ hread => ?_
  refine statement_run (by trivial) (by exact itemData_untried) createsAccounts_itemData
    fun _ s₃ T₃ _ hitems => ?_
  have hheld : ∀ x ∈ accounts, Held (shareOf batchRunId batchRun.id)
      (HasItem batchRunId batchRun.id) s₃ T₃ x := by
    intro x hx
    refine ⟨?_, ?_⟩
    · rintro t ⟨hb, -⟩
      rw [hitems.tokens, hread.tokens, hrun.tokens]
      exact Or.inl (Or.inl (Or.inr hb))
    · obtain ⟨i, hi⟩ := Option.isSome_iff_exists.mp (hasItems_of_created hitems.created x hx)
      refine ⟨i, hi, fun hb => ?_⟩
      obtain ⟨j, hj, hpending⟩ := waits_of_created hitems.waiting hb hx
      rw [← hb, hi] at hj
      cases hj
      exact hpending
  refine .bind (.mono (fun _ s T _ => ?_) (fun _ _ _ _ => trivial)
    (processBatchRunAccounts_safe shares_run hread.distinct hread.learned hheld))
  refine outside_run (.bind (houtside (by trivial) (by trivial) (by trivial)) fun _ => ?_)
  refine .bind (houtside (by trivial) (by trivial) (by trivial)) fun _ => ?_
  refine .bind (houtside (by trivial) (by trivial) (by trivial)) fun _ => ?_
  refine .bind (houtside (by trivial) (by trivial) (by trivial)) fun _ => ?_
  refine .bind (houtside (by trivial) (by trivial) (by trivial)) fun _ => ?_
  exact .bind (houtside (by trivial) (by trivial) (by trivial)) fun _ => .pure

/-- A retry may process an item that is begun. -/
theorem processBatchItem_begun {accountId : Uuid}
    (hbegun : b = batchRunId → s.Begun batchRunId accountId) :
    (runRules env s₀ batchRunId).Safe (processBatchItem env b accountId) (fun _ _ _ => True)
      (fun _ _ _ => True) s T := by
  have hhandled : ∀ {s : Store} {T : Set Uuid} {α : Type} {l : Label α},
      (b = batchRunId → s.Begun batchRunId accountId) → l.isChunk = false →
      handled batchRunId l = (if b = batchRunId then [accountId] else []) →
      ∀ a ∈ handled batchRunId l,
        a ∈ T ∧ s.Waits batchRunId a ∨ l.isChunk = false ∧ s.Begun batchRunId a := by
    intro s T α l hbegun hchunk heq a ha
    rw [heq] at ha
    split at ha
    · rename_i hb
      obtain rfl := List.mem_singleton.mp ha
      exact Or.inr ⟨hchunk, hbegun hb⟩
    · cases ha
  refine .orElse (.transaction (fun s' hmove => ?_) (fun s' hmove error => ?_)
    fun _ _ _ _ _ _ _ _ => trivial)
  · exact ⟨trivial, ⟨none, Or.inl trivial⟩, trivial,
      hhandled (fun hb => hmove.le.begun _ (hbegun hb)) rfl rfl⟩
  · refine .transaction (fun s'' hmove' => ?_) (fun _ _ _ => trivial) fun _ _ _ _ _ _ _ _ => trivial
    exact ⟨trivial, ⟨some (b, accountId), Or.inr ⟨_, rfl, rfl, rfl, rfl, rfl, rfl⟩⟩, trivial,
      hhandled (fun hb => hmove'.le.begun _ (hmove.le.begun _ (hbegun hb))) rfl rfl⟩

theorem retryFailedItems_run (context : RequestContext) :
    (runRules env s₀ batchRunId).Safe (retryFailedItems env b context) (fun _ _ _ => True)
      (fun _ _ _ => True) s T := by
  refine statement_run (by trivial) (by trivial) (by trivial) fun failedItems s' T' _ hleaves => ?_
  split
  · trivial
  · refine .bind (.mono (fun _ _ _ _ => ?_) (fun _ _ _ _ => trivial)
      (?_ : Rules.Safe _ (processBatchItems env b _) (fun _ _ _ => True) (fun _ _ _ => True) _ _))
    · exact outside_run (.bind (.transaction fun _ _ => takes_statement (by trivial) (by trivial)
        (by trivial)) fun _ => .pure)
    · unfold processBatchItems
      split
      · trivial
      · refine .pool (fun id hid s'' hmove => ?_) (fun _ _ _ _ _ => trivial) fun _ _ _ _ => trivial
        obtain ⟨item, hitem, rfl⟩ := List.mem_map.mp hid
        exact processBatchItem_begun fun hb =>
          hmove.le.begun _ (hleaves.begun hb (by decide) item hitem)

theorem runRules_valid : (runRules env s₀ batchRunId).Valid batchCalls where
  lawful := lawful_database
  le_refl := Store.Proceeds.refl
  le_trans := fun _ _ _ => .trans
  rely_refl := fun _ _ _ _ h => h
  rely_trans := fun _ _ _ _ h h' a ha hs => h' a ha (h a ha hs)
  born_mono := fun _ _ hle _ hs => hle.run hs
  statements := Rules.observed_statements (fun _ => rfl) (fun _ _ _ _ => Iff.rfl)
    Store.Proceeds.refl (fun _ _ _ => .trans) fun _ _ _ _ _ hc => proceeds_of_commits hc
  commit := fun _ _ _ _ _ hc => ⟨inRun_of_commits hc, proceeds_of_commits hc⟩
  guarantee := fun _ _ _ _ _ _ hc hdisjoint => rely_of_commits hc hdisjoint
  result := fun _ _ _ _ _ hc => ⟨_, Set.union_subset_union_right _ (granted_of_commits hc),
    leaves_of_commits hc⟩
  start := by
    intro c call hok _
    cases call with
    | runBatch triggeredBy =>
        exact Or.inl (.bind (.mono (fun _ _ _ _ => trivial) (fun _ _ _ _ => trivial)
          (runBatch_run triggeredBy)))
    | retryFailedItems id context =>
        exact Or.inl (.bind (.mono (fun _ _ _ _ => trivial) (fun _ _ _ _ => trivial)
          (retryFailedItems_run context)))
    | _ => cases hok
  done_le := fun _ _ _ _ _ _ _ _ => trivial
  done_idle := fun _ _ _ => trivial

end Processes

/-! ## Runs -/

section Runs

variable {env : Env} {s₀ s : Store} {batchRunId accountId : Uuid} {l : LedgerAccount}

/-- The transaction records a failure for the item of an account. -/
def recordsFailure (batchRunId accountId : Uuid) : {α : Type} → Label α → Bool
  | _, .statement (.updateBatchRunItemOf b t a _) =>
      b = batchRunId && t = "account" && a = accountId
  | _, _ => false

/-- An attempt commits only while the item is not completed, and a failure is recorded only then. -/
def stillOpen (batchRunId accountId : Uuid) {α : Type} (s : Store) (label : Label α)
    (h : List (Event Stmt Write)) : Bool :=
  !(attempting batchRunId accountId label h || recordsFailure batchRunId accountId label) ||
    (s.itemOf batchRunId accountId).all (·.status ≠ .completed)

/-- Runs of the batch in which the item of the account is still open when an attempt commits and
when a failure is recorded for it. -/
def retrying (batchRunId accountId : Uuid) (c : ServerConfig) (a : Action Choice Call) : Bool :=
  batchCalls c a && CommitsOnly (stillOpen batchRunId accountId) c a

/-- The entries that pay an account in a run, on a store with the commits that led to it. -/
structure PaidIn (env : Env) (batchRunId accountId ledgerAccountId : Uuid) (s : Store)
    (cs : List (Commit Stmt Label Write)) : Prop where
  once : (s.accrualsIn batchRunId ledgerAccountId).length ≤ 1
  completed : s.accrualsIn batchRunId ledgerAccountId ≠ [] →
    ∃ i, s.itemOf batchRunId accountId = some i ∧ i.status = .completed
  paid : ∀ t ∈ cs, ∀ i, computed env batchRunId accountId t.label t.history = some i → 0 < i →
    s.accrualsIn batchRunId ledgerAccountId ≠ []

theorem pays_of_commits {α : Type} {T : Set Uuid} {label : Label α} {h : List (Event Stmt Write)}
    {r : α} (hc : (runRules env s₀ batchRunId).Commits s T label h r) (hb : batchRunId ≠ "")
    (hl : s₀.ledgerAccountOf accountId = some l) :
    ∃ entries, Pays env batchRunId accountId l.id label h entries := by
  have hinv : s₀.InRun batchRunId s := hc.inv
  have hpre : Takes s₀ batchRunId s T label := hc.pre
  have hground := grounds_of_extends hinv.extended hpre.grounds
  have hl' : s.ledgerAccountOf accountId = some l :=
    (ledgerAccountOf_eq hinv.extended.ledgerAccounts accountId).trans hl
  have hsaw : Holds (Saw s) [] h :=
    hc.evidence.mono fun _ _ _ he => saw_of_seen (fun _ _ h => h.extended) he.1
  have hanswering : Answering (Saw s) := answering_of_saw fun _ _ h => h
  cases label with
  | createTransfer args =>
      obtain ⟨_, hno | ⟨_, -, hno⟩⟩ := hpre.ready
      · cases hno
      · cases hno
  | applyNormalizedEvent event =>
      obtain ⟨_, hno | ⟨_, -, hno⟩⟩ := hpre.ready
      · cases hno
      · cases hno
  | processBatchChunk b accounts revenue =>
      obtain ⟨_, _, _, _, hrun⟩ := processBatchChunk_runs hanswering (runs_of_completes hc.path hsaw)
      exact ⟨_, hrun.pays hanswering hground hl'⟩
  | processBatchItem b x => exact item_pays (fun _ _ h => h) hb hl' hc.path hsaw
  | statement q =>
      refine ⟨[], pays_nothing (.nil_of_kind fun w hw => ?_) fun i hi => by cases hi⟩
      have hread := runs_send.mp (runs_of_completes hc.path hsaw)
      simp [kind_of_outside hanswering hground hread w hw]

/-- The item of an account that a transaction attempts or covers is completed when it commits. -/
theorem completed_of_taken {α : Type} {T : Set Uuid} {label : Label α} {h : List (Event Stmt Write)}
    {r : α} (hc : (runRules env s₀ batchRunId).Commits s T label h r)
    (htaken : attempting batchRunId accountId label h = true ∨
      covers batchRunId accountId label = true) :
    ∃ i, (database.applyAll (writes h) s).itemOf batchRunId accountId = some i ∧
      i.status = .completed := by
  have hstep := run_itemStep hc accountId
  have hpositive : 0 < (attempting batchRunId accountId label h).toNat +
      (covers batchRunId accountId label).toNat := by
    rcases htaken with htaken | htaken
    · simp [htaken]
    · simp [htaken]
  generalize (attempting batchRunId accountId label h).toNat +
    (covers batchRunId accountId label).toNat = n at hstep hpositive
  generalize s.itemOf batchRunId accountId = before at hstep
  generalize (database.applyAll (writes h) s).itemOf batchRunId accountId = after at hstep ⊢
  cases hstep with
  | counted _ hcompleted => exact ⟨_, rfl, hcompleted⟩
  | _ => cases hpositive

/-- A transaction that pays an account commits while the item of the account is not completed. -/
theorem open_of_taken {α : Type} {T : Set Uuid} {label : Label α} {h : List (Event Stmt Write)}
    {r : α} (hc : (runRules env s₀ batchRunId).Commits s T label h r)
    (hopen : stillOpen batchRunId accountId s label h = true)
    (htaken : attempting batchRunId accountId label h = true ∨
      covers batchRunId accountId label = true) {i : BatchRunItem}
    (hi : s.itemOf batchRunId accountId = some i) : i.status ≠ .completed := by
  have hpre : Takes s₀ batchRunId s T label := hc.pre
  rcases htaken with htaken | htaken
  · simpa [stillOpen, htaken, hi] using hopen
  · have hmem := mem_handled (h := h) (Or.inr (Or.inl htaken))
    cases label with
    | processBatchChunk b accounts revenue =>
        rcases hpre.handled _ hmem with ⟨-, j, hj, hpending⟩ | ⟨hchunk, -⟩
        · obtain rfl := Option.some.inj (hi.symm.trans hj)
          rw [hpending]
          decide
        · cases hchunk
    | _ => cases htaken

/-- A commit of such a run keeps the account paid at most once. -/
theorem paidIn_of_commits {cs : List (Commit Stmt Label Write)} {α : Type} {T : Set Uuid}
    {label : Label α} {h : List (Event Stmt Write)} {r : α} (hb : batchRunId ≠ "")
    (hl : s₀.ledgerAccountOf accountId = some l)
    (hs : PaidIn env batchRunId accountId l.id s cs)
    (hc : (runRules env s₀ batchRunId).Commits s T label h r)
    (hopen : stillOpen batchRunId accountId s label h = true) :
    PaidIn env batchRunId accountId l.id (database.applyAll (writes h) s) (cs ++ [⟨label, h⟩]) := by
  have hinv : s₀.InRun batchRunId s := hc.inv
  obtain ⟨entries, hpays⟩ := pays_of_commits hc hb hl
  have haccruals := accrualsIn_applyAll hc.admissible hpays.journalled hinv.keys batchRunId l.id
  by_cases hnew : paying batchRunId l.id entries = []
  · rw [hnew, List.append_nil] at haccruals
    refine ⟨haccruals ▸ hs.once, fun hsome => ?_, fun t ht i hi hpositive => ?_⟩
    · -- nothing but a failure takes a completed item back
      obtain ⟨i, hi, hcompleted⟩ := hs.completed (haccruals ▸ hsome)
      have hstep := run_itemStep hc accountId
      rw [hi] at hstep
      generalize hn : (attempting batchRunId accountId label h).toNat +
        (covers batchRunId accountId label).toNat = n at hstep
      generalize hafter : (database.applyAll (writes h) s).itemOf batchRunId accountId = after
        at hstep
      cases hstep with
      | kept => exact ⟨i, rfl, hcompleted⟩
      | counted _ hcompleted' => exact ⟨_, rfl, hcompleted'⟩
      | failed hmarks _ _ =>
          have hrecords : recordsFailure batchRunId accountId label = true := by
            cases label with
            | statement q =>
                cases q with
                | updateBatchRunItemOf b t x d =>
                    simp [recordsFailure, hmarks.1, hmarks.2.1, hmarks.2.2.1]
                | _ => cases hmarks
            | _ => cases hmarks
          simp [stillOpen, hrecords, hi, hcompleted] at hopen
    · rw [haccruals]
      rcases List.mem_append.mp ht with ht | ht
      · exact hs.paid t ht i hi hpositive
      · obtain rfl := List.mem_singleton.mp ht
        exact absurd hnew (hpays.paid i hi hpositive)
  · have htaken := hpays.taken hnew
    have hnone : s.accrualsIn batchRunId l.id = [] := by
      by_contra hsome
      obtain ⟨i, hi, hcompleted⟩ := hs.completed hsome
      exact open_of_taken hc hopen htaken hi hcompleted
    rw [hnone, List.nil_append] at haccruals
    exact ⟨haccruals ▸ hpays.once, fun _ => completed_of_taken hc htaken,
      fun _ _ _ _ _ => haccruals ▸ hnew⟩

end Runs

end BatchService

open BatchService in
/-- A batch run pays an account at most once, and exactly once if a transaction that completed the
item computed interest, however its retries overlap with it and with one another, if no attempt
commits and no failure is recorded on an item that is completed. -/
theorem paid_once_per_run {env : Env} {s : Store} {batchRunId accountId : Uuid} {l : LedgerAccount}
    (hkeys : s.ForeignKeys) (hfresh : s.Unopened batchRunId) (hb : batchRunId ≠ "")
    (hl : s.ledgerAccountOf accountId = some l) {cs : List (Commit Stmt Label Write)}
    {c : ServerConfig}
    (hrun : Traced (server env) (retrying batchRunId accountId) (.initial s) cs c) :
    (c.store.accrualsIn batchRunId l.id).length ≤ 1 ∧
      ∀ t ∈ cs, ∀ i, computed env batchRunId accountId t.label t.history = some i → 0 < i →
        (c.store.accrualsIn batchRunId l.id).length = 1 := by
  have hitems : ∀ a, s.itemOf batchRunId a = none := by
    intro a
    refine Option.eq_none_iff_forall_ne_some.mpr fun i hi => ?_
    obtain ⟨hmem, hkey⟩ := Table.find?_mem hi
    exact hfresh.items i hmem (by simpa using congrArg (Option.map (·.1)) hkey)
  have hinv : s.InRun batchRunId s := by
    refine ⟨.refl s, hkeys, fun a i hi => ?_, fun i hi hrun => absurd hrun (hfresh.items i hi)⟩
    rw [hitems a] at hi
    cases hi
  have hnone : s.accrualsIn batchRunId l.id = [] := by
    refine List.filter_eq_nil_iff.mpr fun e he => ?_
    simpa using hfresh.entries e (List.mem_filter.mp he).1
  have hpaid : PaidIn env batchRunId accountId l.id c.store cs := by
    refine (Rules.sound_initial hinv).traced runRules_valid ?_ ?_ hrun
    · exact ⟨by simp [Config.initial, hnone], fun hsome => absurd hnone hsome, by simp⟩
    · exact fun s' cs T label h r hs hc hopen => paidIn_of_commits hb hl hs hc hopen
  refine ⟨hpaid.once, fun t ht i hi hpositive => Nat.le_antisymm hpaid.once ?_⟩
  exact List.length_pos_iff.mpr (hpaid.paid t ht i hi hpositive)

/-! ## Two retries -/

/-- The chunk of a run is rolled back, and then the item of the checking account, which fails. -/
def failedItem : List (Action Choice Call) :=
  .start (.runBatch "scheduler") :: (advances 0 "a" 25 ++ .abort 0 :: (advances 0 "b" 1 ++
    advances 1 "c" 5 ++ .abort 1 :: advances 1 "d" 3))

/-- An operator retries the run. -/
def retried : Action Choice Call := .start (.retryFailedItems "id-a10-0" (demoContext "k"))

open BatchService in
/-- While the run goes on, a retry pays the account whose item failed. -/
theorem paid_once_retried : demoStore.ForeignKeys ∧ demoStore.Unopened "id-a10-0" ∧
    "id-a10-0" ≠ "" ∧
    demoStore.ledgerAccountOf demoData.checkingAccountId = some checkingLedger ∧
    ∃ cs c, Traced (server testEnvironment) (retrying "id-a10-0" demoData.checkingAccountId)
        (.initial demoStore) cs c ∧
      c.store.itemOf "id-a10-0" demoData.checkingAccountId = some (runItem .completed 1 none) ∧
      (c.store.accrualsIn "id-a10-0" checkingLedger.id).length ≤ 1 ∧
      ∀ t ∈ cs, ∀ i, computed testEnvironment "id-a10-0" demoData.checkingAccountId t.label t.history =
        some i → 0 < i → (c.store.accrualsIn "id-a10-0" checkingLedger.id).length = 1 := by
  have hkeys : demoStore.ForeignKeys := seedBaseData_foreignKeys _ _ _
  have hfresh : demoStore.Unopened "id-a10-0" :=
    ⟨by decide +kernel, by decide +kernel, by decide +kernel⟩
  obtain ⟨c, hplay, hitem⟩ := play_of_decide (server testEnvironment)
    (retrying "id-a10-0" demoData.checkingAccountId) (.initial demoStore)
    (failedItem ++ retried :: (advances 3 "e" 4 ++ advances 4 "f" 16))
    (fun c => c.store.itemOf "id-a10-0" demoData.checkingAccountId =
      some (runItem .completed 1 none)) (by decide +kernel)
  have hrun := traced_of_play hplay
  exact ⟨hkeys, hfresh, by decide, checkingLedger_owned, _, c, hrun, hitem,
    paid_once_per_run hkeys hfresh (by decide) checkingLedger_owned hrun⟩

open BatchService in
/-- Two retries that both found the item open both pay. -/
example : ((server testEnvironment).play (fun c a => batchCalls c a) (.initial demoStore)
    (failedItem ++ retried :: (advances 3 "e" 4 ++ retried ::
      (advances 5 "f" 4 ++ advances 4 "g" 4 ++ advances 6 "h" 4 ++ advances 4 "i" 12 ++
        advances 6 "j" 12)))).any
      (fun c => (c.store.accrualsIn "id-a10-0" checkingLedger.id).length = 2) = true := by
  decide +kernel

end LedgerCredit
