import LedgerCredit.BatchItems
import LedgerCredit.EventsAlone
import LedgerCredit.JournalEntries
import LedgerCredit.StatementLines
import LedgerCredit.Txn.Sequential

/-!
# The fast path

`processBatchChunk` does for a whole chunk at once, and in memory, what
`processBatchItem` does for one account through the ledger service.

*Paying.*  `PaysRows` says what it is to pay interest to some accounts in a run: each one
with positive interest gets one entry with two postings, one statement line and its new
projection, and nothing else happens beside the items.  Accounts may be paid one after
another (`PaysRows.append`).  `Closes` completes their items besides, and `Settles` does so
for those that are payable.

*Paths.*  A chunk that commits closes its accounts (`closes_of_chunk`), and it commits if
all of them are payable (`processBatchChunk_succeeds`).  An item that is processed alone
is closed just when its account is payable (`processBatchItem_surely`).  So the fast path
and the plain one write the same rows (`chunk_agrees_with_items`).
-/

namespace LedgerCredit

open Txn LedgerService

/-! ## Closing accounts -/

/-- The tables beside the ledger and the items are the same. -/
structure Store.SameBeside (s s' : Store) : Prop where
  accounts : s'.accounts = s.accounts
  ledgerAccounts : s'.ledgerAccounts = s.ledgerAccounts
  transferRequests : s'.transferRequests = s.transferRequests
  idempotencyRecords : s'.idempotencyRecords = s.idempotencyRecords
  externalEvents : s'.externalEvents = s.externalEvents
  auditEvents : s'.auditEvents = s.auditEvents
  batchRuns : s'.batchRuns = s.batchRuns
  jobs : s'.jobs = s.jobs

theorem Store.SameBeside.refl (s : Store) : s.SameBeside s :=
  ⟨rfl, rfl, rfl, rfl, rfl, rfl, rfl, rfl⟩

theorem Store.SameBeside.trans {s s' s'' : Store} (h : s.SameBeside s') (h' : s'.SameBeside s'') :
    s.SameBeside s'' :=
  ⟨h'.1.trans h.1, h'.2.trans h.2, h'.3.trans h.3, h'.4.trans h.4, h'.5.trans h.5, h'.6.trans h.6,
    h'.7.trans h.7, h'.8.trans h.8⟩

/-- The currency has one ledger account to debit for interest, which is the one in the map. -/
def Store.DebitsOne (s : Store) (interestRevenueAccountIds : List (String × Uuid))
    (currency : String) : Prop :=
  ∃ revenue ∈ s.ledgerAccounts.rows,
    mapGet interestRevenueAccountIds currency = some revenue.id ∧
    ∀ l ∈ s.ledgerAccounts.rows,
      l.category = .interestRevenue ∧ l.currency = currency ↔ l = revenue

namespace BatchService

/-- What closing an account does to its item. -/
def closedItem (i : BatchRunItem) : BatchRunItem := completedUpdate.apply (runningUpdate.apply i)

/-- The item of one of some accounts in a run. -/
def isItemOf (batchRunId : Uuid) (accountIds : List Uuid) (i : BatchRunItem) : Bool :=
  i.batchRunId = batchRunId && i.resourceType = "account" && i.resourceId ∈ accountIds

/-- The items after some accounts of a run were closed. -/
def closeItems (batchRunId : Uuid) (accountIds : List Uuid) (items : List BatchRunItem) :
    List BatchRunItem :=
  items.map fun i => if isItemOf batchRunId accountIds i then closedItem i else i

/-- The store `s'` is `s` with the rows that pay some accounts of a run. -/
structure PaysRows (env : Env) (batchRunId : Uuid) (interestRevenueAccountIds : List (String × Uuid))
    (s s' : Store) (accounts : List BatchAccountSnapshot) (rows : List InterestRows) : Prop where
  paid : List.Forall₂ (fun x row => ∃ effectiveAt,
      RowOf env batchRunId interestRevenueAccountIds effectiveAt x row)
    (accounts.filter fun x => 0 < snapshotInterest env x) rows
  journalEntries : s'.journalEntries.rows = s.journalEntries.rows ++ rows.map (·.journalEntry)
  postings : s'.postings.rows = s.postings.rows ++ rows.flatMap fun r => [r.debit, r.credit]
  statementLines : s'.statementLines.rows = s.statementLines.rows ++ rows.map (·.statementLine)
  balances : ∀ accountId, s'.balanceProjections.get? accountId =
    ((rows.map (·.balance)).filter (·.accountId = accountId)).getLast?.or
      (s.balanceProjections.get? accountId)
  beside : s.SameBeside s'

/-- The store `s'` is `s` with some accounts of a run closed: they are paid by the rows, and their
items are completed. -/
structure Closes (env : Env) (batchRunId : Uuid) (interestRevenueAccountIds : List (String × Uuid))
    (s s' : Store) (accounts : List BatchAccountSnapshot) (rows : List InterestRows) : Prop
    extends PaysRows env batchRunId interestRevenueAccountIds s s' accounts rows where
  items : s'.batchRunItems.rows =
    closeItems batchRunId (accounts.map (·.id)) s.batchRunItems.rows

section Closes

variable {env : Env} {batchRunId : Uuid} {interestRevenueAccountIds : List (String × Uuid)}
  {s s' s'' : Store} {xs ys : List BatchAccountSnapshot} {rows rows' : List InterestRows}

/-- Accounts are paid one after another. -/
theorem PaysRows.append (h : PaysRows env batchRunId interestRevenueAccountIds s s' xs rows)
    (h' : PaysRows env batchRunId interestRevenueAccountIds s' s'' ys rows') :
    PaysRows env batchRunId interestRevenueAccountIds s s'' (xs ++ ys) (rows ++ rows') where
  paid := by
    rw [List.filter_append]
    exact List.rel_append h.paid h'.paid
  journalEntries := by rw [h'.journalEntries, h.journalEntries, List.map_append, List.append_assoc]
  postings := by rw [h'.postings, h.postings, List.flatMap_append, List.append_assoc]
  statementLines := by
    rw [h'.statementLines, h.statementLines, List.map_append, List.append_assoc]
  balances := by
    intro accountId
    rw [h'.balances, h.balances, List.map_append, List.filter_append, List.getLast?_append,
      Option.or_assoc]
  beside := h.beside.trans h'.beside

theorem PaysRows.nil : PaysRows env batchRunId interestRevenueAccountIds s s [] [] where
  paid := .nil
  journalEntries := by simp
  postings := by simp
  statementLines := by simp
  balances := by simp
  beside := .refl s

/-- Other balances stay. -/
theorem PaysRows.balance_other (h : PaysRows env batchRunId interestRevenueAccountIds s s' xs rows)
    {accountId : Uuid} (hnot : accountId ∉ xs.map (·.id)) :
    s'.balanceProjections.get? accountId = s.balanceProjections.get? accountId := by
  rw [h.balances, List.filter_eq_nil_iff.mpr]
  · rfl
  · intro b hb hid
    obtain ⟨row, hrow, rfl⟩ := List.mem_map.mp hb
    obtain ⟨x, hx, _, _, _, _, _, _, rfl⟩ := mem_of_forall₂ h.paid hrow
    exact hnot (List.mem_map.mpr ⟨x, (List.mem_filter.mp hx).1, of_decide_eq_true hid⟩)

end Closes

/-! ## The fast path -/

section Chunk

variable {env : Env} {batchRunId : Uuid} {interestRevenueAccountIds : List (String × Uuid)}
  {s s' : Store} {accounts : List BatchAccountSnapshot}

theorem now_updateBatchRunItems {p ws : List Write} {data : BatchRunItemUpdate} {u : Unit}
    (h : Now s p ⟨.updateBatchRunItems batchRunId "account" (accounts.map (·.id)) data, u, ws⟩)
    (hp : ∀ r, .batchRunItem r ∉ p) :
    ws = (s.itemIds batchRunId "account" (accounts.map (·.id))).map fun id =>
      .updateBatchRunItem id data := by
  obtain ⟨ch, hexec⟩ := h
  obtain ⟨-, rfl, -⟩ := attempt_ok hexec
  rw [← itemIds_applyAll hp s, Store.itemIds, List.map_map]
  rfl

/-- Without creations the items are changed where they are. -/
theorem items_applyAll {ws : List Write} (hws : ∀ r, .batchRunItem r ∉ ws) (s : Store) :
    (database.applyAll ws s).batchRunItems.rows = s.batchRunItems.rows.map (onItems ws) := by
  induction ws generalizing s with
  | nil => exact (List.map_id' _).symm
  | cons w ws ih =>
      refine (ih (fun r hr => hws r (List.mem_cons_of_mem _ hr)) (w.apply s)).trans ?_
      rw [items_apply (fun r hr => hws r (hr ▸ List.mem_cons_self ..)) s, List.map_map]
      rfl

theorem mem_itemIds_self {ids : List Uuid} {i : BatchRunItem} (hi : i ∈ s.batchRunItems.rows) :
    i.id ∈ s.itemIds batchRunId "account" ids ↔ isItemOf batchRunId ids i = true := by
  constructor
  · intro hmem
    obtain ⟨j, hj, hid⟩ := List.mem_map.mp hmem
    obtain ⟨hj, hitem⟩ := List.mem_filter.mp hj
    obtain rfl := Table.eq_of_pk hj hi hid
    exact hitem
  · exact fun hitem => List.mem_map.mpr ⟨i, List.mem_filter.mpr ⟨hi, hitem⟩, rfl⟩

/-- What a chunk does to the items. -/
theorem onItems_closed {paid : List Write} (hpaid : ∀ w ∈ paid, w.kind = .ledger) {ids : List Uuid}
    (i : BatchRunItem) (hi : i ∈ s.batchRunItems.rows) :
    onItems ((s.itemIds batchRunId "account" ids).map (.updateBatchRunItem · runningUpdate) ++ paid ++
      (s.itemIds batchRunId "account" ids).map (.updateBatchRunItem · completedUpdate)) i =
        if isItemOf batchRunId ids i then closedItem i else i := by
  have hnodup := nodup_itemIds s batchRunId "account" ids
  rw [onItems_append, onItems_append, onItems_updates _ hnodup, onItems_of_kind hpaid,
    onItems_updates _ hnodup]
  by_cases hmem : i.id ∈ s.itemIds batchRunId "account" ids
  · simp [hmem, (mem_itemIds_self hi).mp hmem, closedItem]
  · have hnot : isItemOf batchRunId ids i = false := by
      simpa using mt (mem_itemIds_self hi).mpr hmem
    simp [hmem, hnot]

/-- What a transaction writes fits. -/
theorem range_of_runs {α : Type} {t : Transaction α} {p ws : List Write} {a : α}
    (h : Runs (Now s) p t ws a) : ∀ w ∈ ws, ∀ n ∈ w.bigInts, inBigInt n = true := by
  obtain ⟨hist, -, hholds, rfl⟩ := h
  intro w hw
  obtain ⟨e, he, hwe⟩ := List.mem_flatMap.mp hw
  obtain ⟨_, ch, hexec⟩ := hholds.of_mem he
  exact (range_of_violations (exec_violations hexec) w hwe).1

/-- The ledger writes of the rows. -/
theorem kind_rowWrites (rows : List InterestRows) : ∀ w ∈ rowWrites rows, w.kind = .ledger := by
  intro w hw
  simp only [rowWrites, List.mem_append, List.mem_map, List.mem_flatMap, List.mem_cons,
    List.not_mem_nil, or_false] at hw
  rcases hw with ((⟨_, _, rfl⟩ | ⟨_, _, rfl | rfl⟩) | ⟨_, _, rfl⟩) | ⟨_, _, rfl⟩ <;> rfl

theorem balances_rowWrites (rows : List InterestRows) :
    (rowWrites rows).filterMap Write.balanceProjection? = rows.map (·.balance) := by
  have hnone : (rows.flatMap fun _ => ([] : List BalanceProjection)) = [] := by simp
  simp [filterMap_rowWrites, List.filterMap_cons, Write.balanceProjection?, hnone]

/-- A chunk has a ledger account and an account to debit for each of its accounts. -/
theorem accounts_of_chunkRows {effectiveAt : Time} {uuid : Nat → Uuid} {rows : List InterestRows}
    (h : chunkRows env batchRunId interestRevenueAccountIds effectiveAt uuid accounts = .ok rows) :
    ∀ x ∈ accounts, ∃ ledgerAccountId revenueId, x.ledgerAccountId = some ledgerAccountId ∧
      mapGet interestRevenueAccountIds x.currency = some revenueId := by
  induction accounts generalizing uuid rows with
  | nil => simp
  | cons account rest ih =>
      simp only [chunkRows] at h
      split at h
      · cases h
      · rename_i ledgerAccountId hledger
        split at h
        · cases h
        · rename_i revenueId hrevenue
          cases hrest : chunkRows env batchRunId interestRevenueAccountIds effectiveAt
              (fun n => uuid (n + 4)) rest with
          | error e =>
              rw [hrest] at h
              cases h
          | ok built =>
              exact List.forall_mem_cons.mpr ⟨⟨_, _, hledger, hrevenue⟩, ih hrest⟩

/-- If each account has both, its rows are built. -/
theorem exists_chunkRows (effectiveAt : Time) (uuid : Nat → Uuid)
    (h : ∀ x ∈ accounts, x.ledgerAccountId.isSome = true ∧
      (mapGet interestRevenueAccountIds x.currency).isSome = true) : ∃ rows,
    chunkRows env batchRunId interestRevenueAccountIds effectiveAt uuid accounts = .ok rows := by
  induction accounts generalizing uuid with
  | nil => exact ⟨[], rfl⟩
  | cons account rest ih =>
      obtain ⟨⟨hledger, hrevenue⟩, hrest⟩ := List.forall_mem_cons.mp h
      obtain ⟨ledgerAccountId, hledger⟩ := Option.isSome_iff_exists.mp hledger
      obtain ⟨revenueId, hrevenue⟩ := Option.isSome_iff_exists.mp hrevenue
      obtain ⟨built, hbuilt⟩ := ih (fun n => uuid (n + 4)) hrest
      simp only [chunkRows, hledger, hrevenue, hbuilt]
      exact ⟨_, rfl⟩

/-- Postings and updates of items change the tables of the ledger and the items. -/
theorem sameBeside_applyAll {ws : List Write}
    (h : ∀ w ∈ ws, w.kind = .ledger ∨ ∃ id d, w = .updateBatchRunItem id d) (s : Store) :
    s.SameBeside (database.applyAll ws s) := by
  induction ws generalizing s with
  | nil => exact .refl s
  | cons w ws ih =>
      obtain ⟨hw, hws⟩ := List.forall_mem_cons.mp h
      refine Store.SameBeside.trans ?_ (ih hws (w.apply s))
      rcases hw with hkind | ⟨id, d, rfl⟩
      · cases w <;> first | exact ⟨rfl, rfl, rfl, rfl, rfl, rfl, rfl, rfl⟩ | cases hkind
      · exact ⟨rfl, rfl, rfl, rfl, rfl, rfl, rfl, rfl⟩

/-- A chunk that commits closes its accounts, and what it writes fits. -/
theorem closes_of_chunk {u : Unit}
    (h : Alone (processBatchChunkTx env batchRunId accounts interestRevenueAccountIds) s
      (.ok (u, s'))) :
    ∃ rows, Closes env batchRunId interestRevenueAccountIds s s' accounts rows ∧
      (∀ x ∈ accounts, ∃ ledgerAccountId revenueId, x.ledgerAccountId = some ledgerAccountId ∧
        mapGet interestRevenueAccountIds x.currency = some revenueId) ∧
      ∀ row ∈ rows, inBigInt row.credit.amountMinor = true ∧ inBigInt row.balance.currentMinor = true := by
  obtain ⟨ws, hruns, rfl, hadm⟩ := h.runs (V := Now s) lawful_database fun p e ch _ hexec => ⟨ch, hexec⟩
  have hrange := range_of_runs hruns
  obtain ⟨effectiveAt, rows, running, completed, hchunk⟩ :=
    processBatchChunk_runs (answering_of_saw fun _ _ => saw_of_now) hruns
  obtain ⟨uuid, hrows⟩ := hchunk.built
  have hkind := kind_rowWrites rows
  have hnoitem : ∀ ws' : List Write, (∀ w ∈ ws', w.kind = .ledger) → ∀ r, .batchRunItem r ∉ ws' :=
    fun ws' hws' r hr => by cases hws' _ hr
  obtain rfl := now_updateBatchRunItems hchunk.marked (by simp)
  obtain rfl := now_updateBatchRunItems hchunk.closed (by simpa using hnoitem _ hkind)
  have hws := hchunk.writes
  refine ⟨rows, ⟨⟨?_, ?_, ?_, ?_, fun accountId => ?_, ?_⟩, ?_⟩, accounts_of_chunkRows hrows, ?_⟩
  · exact (chunkRows_forall hrows).imp fun _ _ hof => ⟨effectiveAt, hof⟩
  · rw [journalEntries_applyAll hadm, hws]
    simp [filterMap_rowWrites, List.filterMap_map, Function.comp_def, Write.journalEntry?]
  · rw [postings_applyAll hadm, hws]
    simp [filterMap_rowWrites, List.filterMap_map, Function.comp_def, Write.posting?]
  · rw [statementLines_applyAll hadm, hws]
    simp [filterMap_rowWrites, List.filterMap_map, Function.comp_def, Write.statementLine?]
  · rw [balanceProjections_applyAll, balancesIn, hws, List.filterMap_append, List.filterMap_append,
      balances_rowWrites]
    simp [List.filterMap_map, Function.comp_def, Write.balanceProjection?]
  · refine sameBeside_applyAll (fun w hw => ?_) s
    rw [hws] at hw
    simp only [List.mem_append, List.mem_map] at hw
    rcases hw with (⟨id, -, rfl⟩ | hw) | ⟨id, -, rfl⟩
    · exact Or.inr ⟨id, _, rfl⟩
    · exact Or.inl (hkind w hw)
    · exact Or.inr ⟨id, _, rfl⟩
  · rw [hws, items_applyAll (by simpa using hnoitem _ hkind)]
    exact List.map_congr_left fun i hi => onItems_closed hkind i hi
  · intro row hrow
    have hmem : ∀ w ∈ rowWrites rows, w ∈ ws := fun w hw => by simp [hws, hw]
    refine ⟨hrange (.posting row.credit) (hmem _ ?_) _ (List.mem_singleton_self _),
      hrange (.balanceProjection row.balance) (hmem _ ?_) _ (List.mem_singleton_self _)⟩
    · simp only [rowWrites, List.mem_append, List.mem_flatMap]
      exact Or.inl (Or.inl (Or.inr ⟨row, hrow, by simp⟩))
    · simp only [rowWrites, List.mem_append, List.mem_map]
      exact Or.inr ⟨row, hrow, rfl⟩

end Chunk

/-! ## The plain path -/

/-- The account of a snapshot has a ledger account, and its interest and its new balance fit. -/
structure Payable (env : Env) (x : BatchAccountSnapshot) : Prop where
  ledgerAccount : x.ledgerAccountId.isSome = true
  amount : 0 < snapshotInterest env x → inBigInt (snapshotInterest env x) = true
  balance : 0 < snapshotInterest env x →
    inBigInt (x.currentMinor.getD 0 + snapshotInterest env x) = true

/-- The store is one on which the accounts of the snapshots can be closed in a run: what the
snapshots say is so, the items are open, and each currency has the one account to debit. -/
structure Closable (env : Env) (batchRunId : Uuid) (interestRevenueAccountIds : List (String × Uuid))
    (s : Store) (accounts : List BatchAccountSnapshot) : Prop where
  seeded : s.Seeded env
  keys : s.ForeignKeys
  normal : s.CreditNormal
  run : batchRunId ≠ "" ∧ s.present (.row .batchRun batchRunId) = true
  distinct : (accounts.map (·.id)).Nodup
  snapshots : ∀ x ∈ accounts, ∃ a ∈ s.accounts.rows, x = s.snapshot a
  items : ∀ x ∈ accounts, ∃ i, s.itemOf batchRunId x.id = some i ∧ i.status ≠ .completed
  revenue : ∀ x ∈ accounts, s.DebitsOne interestRevenueAccountIds x.currency

section Item

variable {env : Env} {batchRunId : Uuid} {interestRevenueAccountIds : List (String × Uuid)}
  {s s' : Store} {x : BatchAccountSnapshot} {xs : List BatchAccountSnapshot}

/-- An entry with one posting on a ledger account of the bank and one on that of a customer. -/
structure EnteredPair (s s' : Store) (journalEntry : JournalEntry) (debit credit : Posting)
    (line : AccountStatementProjection) (balance : BalanceProjection) : Prop where
  journalEntries : s'.journalEntries.rows = s.journalEntries.rows ++ [journalEntry]
  postings : s'.postings.rows = s.postings.rows ++ [debit, credit]
  statementLines : s'.statementLines.rows = s.statementLines.rows ++ [line]
  balances : ∀ accountId, s'.balanceProjections.get? accountId =
    if balance.accountId = accountId then some balance else s.balanceProjections.get? accountId

theorem pair_of_entered {input : PostJournalEntryInput} {journalEntry : JournalEntry}
    {postings : List Posting} {d c : LedgerPostingInput} {accountId : Uuid}
    (h : s.Entered s' input journalEntry postings) (hpostings : input.postings = [d, c])
    (hd : s.accountOf d.ledgerAccountId = none)
    (hc : s.accountOf c.ledgerAccountId = some accountId) :
    ∃ u u₁ u₂ u₃, journalEntry = journalEntryData input u ∧
      EnteredPair s s' journalEntry (postingData journalEntry d u₁) (postingData journalEntry c u₂)
        (statementLineData journalEntry (postingData journalEntry c u₂) accountId
          (s.projected accountId + s.effectOn accountId c) u₃)
        ⟨accountId, c.amount.currency, s.projected accountId + s.effectOn accountId c,
          some journalEntry.id⟩ := by
  obtain ⟨u, hentry⟩ := h.entry
  obtain ⟨lines, hlines, hlinesOf⟩ := h.lines
  have hdata := h.data
  have hother : s.effectOn accountId d = 0 := effectOn_of_ne (by simp [hd])
  have hmoved := h.moved c (by simp [hpostings]) accountId hc
  have hunmoved := h.unmoved
  rw [hpostings] at hdata hlinesOf hmoved hunmoved
  simp only [effectsOn_cons, effectsOn_nil, hother, Int.zero_add, Int.add_zero] at hmoved
  cases hdata with
  | cons hdebit hdata =>
      cases hdata with
      | cons hcredit hdata =>
          cases hdata
          obtain ⟨u₁, rfl⟩ := hdebit.data
          obtain ⟨u₂, rfl⟩ := hcredit.data
          cases hlinesOf with
          | linked haccount _ => cases hd.symm.trans haccount
          | unlinked _ hlinesOf =>
              cases hlinesOf with
              | unlinked haccount _ => cases hc.symm.trans haccount
              | @linked _ _ _ _ _ _ id u₃ haccount hlinesOf =>
                  cases hlinesOf
                  obtain rfl := Option.some.inj (hc.symm.trans haccount)
                  simp only [List.nil_append, List.singleton_append, effectsOn_cons, effectsOn_nil,
                    hother, Int.zero_add, Int.add_zero] at hlines
                  refine ⟨u, u₁, u₂, u₃, hentry, h.journalEntries, h.postingRows, hlines, fun id => ?_⟩
                  by_cases hid : accountId = id
                  · subst hid
                    rw [hmoved]
                    exact (if_pos rfl).symm
                  · refine (hunmoved id fun y hy => ?_).trans (if_neg hid).symm
                    rcases List.mem_cons.mp hy with rfl | hy
                    · simp [hd]
                    · obtain rfl := List.mem_singleton.mp hy
                      simpa [hc] using hid

/-- An entry of the ledger service pays the account. -/
theorem pays_of_entered (hs : s.Seeded env) (hnormal : s.CreditNormal) (hrun : batchRunId ≠ "")
    {a : Account} {l revenue : LedgerAccount} (hl : s.ledgerAccountOf a.id = some l)
    (hrevenue : revenue ∈ s.ledgerAccounts.rows) (hcategory : revenue.category = .interestRevenue)
    (hget : mapGet interestRevenueAccountIds a.currency = some revenue.id)
    (hpositive : 0 < snapshotInterest env (s.snapshot a)) {now : Time} {journalEntry : JournalEntry}
    {postings : List Posting}
    (h : s.Entered s' (interestInput batchRunId now a.id revenue.id l.id
      ⟨a.currency, snapshotInterest env (s.snapshot a)⟩) journalEntry postings) :
    ∃ row, PaysRows env batchRunId interestRevenueAccountIds s s' [s.snapshot a] [row] := by
  obtain ⟨hmem, hlink⟩ := ledgerAccountOf_some.mp hl
  let debit : LedgerPostingInput :=
    ⟨revenue.id, .debit, ⟨a.currency, snapshotInterest env (s.snapshot a)⟩⟩
  let credit : LedgerPostingInput :=
    ⟨l.id, .credit, ⟨a.currency, snapshotInterest env (s.snapshot a)⟩⟩
  have hbank : s.accountOf debit.ledgerAccountId = none :=
    (accountOf_eq hrevenue rfl).trans (hs.unlinked revenue hrevenue (by simp [hcategory]))
  have howned : s.accountOf credit.ledgerAccountId = some a.id := (accountOf_eq hmem rfl).trans hlink
  have heffect : s.effectOn a.id credit = snapshotInterest env (s.snapshot a) := by
    rw [effectOn_eq hmem rfl, if_pos hlink]
    exact if_pos (hnormal l hmem (by simp [hlink])).symm
  obtain ⟨u, u₁, u₂, u₃, rfl, hpair⟩ := pair_of_entered h rfl hbank howned
  rw [heffect] at hpair
  let row := interestRows batchRunId now (fun n => [u, u₁, u₂, u₃].getD n u) (s.snapshot a)
    l.id revenue.id (s.projected a.id) (snapshotInterest env (s.snapshot a))
  have hentry : journalEntryData (interestInput batchRunId now a.id revenue.id l.id
      ⟨a.currency, snapshotInterest env (s.snapshot a)⟩) u = row.journalEntry := by
    simp [journalEntryData, interestInput, truthy, hrun, row, interestRows, Store.snapshot]
  rw [hentry] at hpair
  refine ⟨row, ⟨?_, hpair.journalEntries, hpair.postings, hpair.statementLines, fun accountId => ?_,
    ?_⟩⟩
  · rw [List.filter_cons_of_pos (by simpa using hpositive)]
    refine .cons ⟨now, _, l.id, revenue.id, ?_, hget, rfl⟩ .nil
    simp [Store.snapshot, hl]
  · rw [hpair.balances]
    by_cases hid : a.id = accountId <;> simp [row, interestRows, Store.snapshot, hid]
  · rw [h.rest]
    exact ⟨rfl, rfl, rfl, rfl, rfl, rfl, rfl, rfl⟩

/-- Interest is paid to an account just when it is payable. -/
theorem payInterest_surely (hs : s.Seeded env) (hkeys : s.ForeignKeys) (hnormal : s.CreditNormal)
    (hrun : batchRunId ≠ "" ∧ s.present (.row .batchRun batchRunId) = true) {a : Account}
    (ha : a ∈ s.accounts.rows) {l : LedgerAccount} (hl : s.ledgerAccountOf a.id = some l)
    (hrevenue : s.DebitsOne interestRevenueAccountIds a.currency) :
    Surely (payInterest env batchRunId a l (snapshotInterest env (s.snapshot a))) s
      (fun _ s' => Payable env (s.snapshot a) ∧
        s'.batchRunItems = s.batchRunItems ∧
        ∃ rows, PaysRows env batchRunId interestRevenueAccountIds s s' [s.snapshot a] rows)
      (fun _ => ¬ Payable env (s.snapshot a)) := by
  obtain ⟨hmem, hlink⟩ := ledgerAccountOf_some.mp hl
  have hledger : (s.snapshot a).ledgerAccountId.isSome = true := by simp [Store.snapshot, hl]
  unfold payInterest
  split
  swap
  · rename_i hzero
    have hnot : ¬ 0 < snapshotInterest env (s.snapshot a) := hzero
    refine ⟨⟨hledger, fun h => absurd h hnot, fun h => absurd h hnot⟩, rfl, [],
      ⟨?_, by simp, by simp, by simp, by simp, .refl s⟩⟩
    rw [List.filter_cons_of_neg (by simpa using hnot)]
    exact .nil
  rename_i hpositive
  simp only [findSystemLedgerAccount, orThrow]
  refine Always.bind (Always.bind (surely_read fun _ => rfl) ?_ fun _ h => h.elim) (fun _ _ h => h)
    fun _ h => h
  rintro _ s ⟨⟨ch, rfl⟩, rfl⟩
  obtain ⟨only, hr, hget, hone⟩ := hrevenue
  obtain ⟨hcategory, -⟩ := (hone only hr).mpr rfl
  have hfound : ∀ r, r ∈ arrange ch.order (s.ledgerAccounts.rows.filter fun l =>
      l.category = .interestRevenue && l.currency = a.currency) ↔ r = only := by
    intro r
    rw [mem_arrange, List.mem_filter, Bool.and_eq_true, decide_eq_true_eq, decide_eq_true_eq]
    exact ⟨fun h => (hone r h.1).mp h.2, fun h => ⟨h ▸ hr, (hone r (h ▸ hr)).mpr h⟩⟩
  cases hhead : (arrange ch.order (s.ledgerAccounts.rows.filter fun l =>
      l.category = .interestRevenue && l.currency = a.currency)).head? with
  | none =>
      have hmem := (hfound only).mpr rfl
      simp [List.head?_eq_none_iff.mp hhead] at hmem
  | some revenue =>
      obtain rfl := (hfound revenue).mp (List.mem_of_head? hhead)
      refine (always_require_some rfl).mpr (Always.bind (surely_read fun _ => rfl) ?_ fun _ h => h.elim)
      rintro now s ⟨-, rfl⟩
      have hmoney : Money.fromMinorUnits env a.currency (.bigint (snapshotInterest env (s.snapshot a))) =
          .ok ⟨a.currency, snapshotInterest env (s.snapshot a)⟩ := by
        simp [Money.fromMinorUnits, toBigInt, hs.upper a ha, Except.map]
      have hlinked : s.Linked := fun l' hl' id hid => by
        obtain ⟨a', ha', rfl, -⟩ := hs.linked l' hl' id hid
        exact Option.isSome_iff_exists.mpr ⟨a', Table.get?_eq_some.mpr ⟨ha', rfl⟩⟩
      have hunlinked := hs.unlinked revenue hr (by simp [hcategory])
      have hcredit := hnormal l hmem (by simp [hlink])
      simp only [hmoney, ofExcept, Tx.pure_bind]
      have hentered : Surely (postJournalEntry (interestInput batchRunId now a.id revenue.id l.id
          ⟨a.currency, snapshotInterest env (s.snapshot a)⟩)) s
            (fun r s' => s.Entered s' (interestInput batchRunId now a.id revenue.id l.id
              ⟨a.currency, snapshotInterest env (s.snapshot a)⟩) r.1 r.2) fun _ => True :=
        always_of_ends (fun _ _ h => entered_of_alone hkeys hlinked h) fun _ _ => trivial
      have hdecides := postJournalEntry_surely (interestInput batchRunId now a.id revenue.id l.id
        ⟨a.currency, snapshotInterest env (s.snapshot a)⟩) hkeys hlinked hr hmem rfl
          (by simp [interestInput, truthy]) (by simpa [interestInput, truthy] using fun _ => hrun.2)
      have hbalance : (s.snapshot a).currentMinor.getD 0 = s.projected a.id := rfl
      refine Always.bind (hdecides.and hentered) ?_ fun _ h hpay => h.1 ?_
      · rintro r s' ⟨hpostable, hr'⟩
        obtain ⟨row, hpays⟩ := pays_of_entered hs hnormal hrun.1 hl hr hcategory hget hpositive hr'
        refine ⟨⟨hledger, fun _ => hpostable.debit.amount, fun _ => ?_⟩, ?_, [row], hpays⟩
        · simpa [computeBalanceEffect, hcredit, hbalance] using hpostable.credit.balance a.id hlink
        · rw [hr'.rest]
      · refine ⟨fun heq => ?_, ⟨hpositive, hpay.amount hpositive, by simp [hunlinked]⟩,
          ⟨hpositive, hpay.amount hpositive, fun id hid => ?_⟩⟩
        · obtain rfl := Table.eq_of_pk hr hmem heq
          cases hunlinked.symm.trans hlink
        · obtain rfl := Option.some.inj (hlink.symm.trans hid)
          simpa [computeBalanceEffect, hcredit, hbalance] using hpay.balance hpositive

/-- The item of an account is one. -/
theorem isItemOf_iff {i j : BatchRunItem} {accountId : Uuid}
    (hi : s.itemOf batchRunId accountId = some i) (hj : j ∈ s.batchRunItems.rows) :
    isItemOf batchRunId [accountId] j = true ↔ j.id = i.id := by
  obtain ⟨hmem, hkey⟩ := Table.find?_mem hi
  constructor
  · intro h
    have hparts : (j.batchRunId = batchRunId ∧ j.resourceType = "account") ∧
        j.resourceId = accountId := by simpa [isItemOf] using h
    obtain ⟨⟨rfl, htype⟩, rfl⟩ := hparts
    exact congrArg _ (Table.eq_of_uk hj hmem (congrArg some (by rw [htype])) hkey)
  · intro hid
    obtain rfl := Table.eq_of_pk hj hmem hid
    simpa [isItemOf, and_assoc] using hkey

/-- The item of an account is marked, and marked again. -/
theorem items_of_marked {i : BatchRunItem} {accountId : Uuid}
    (hi : s.itemOf batchRunId accountId = some i) {s₁ s₂ s₃ : Store}
    (h₁ : s₁ = (Write.updateBatchRunItem i.id runningUpdate).apply s)
    (h₂ : s₂.batchRunItems = s₁.batchRunItems)
    (h₃ : s₃ = (Write.updateBatchRunItem i.id completedUpdate).apply s₂) :
    s₃.batchRunItems.rows = closeItems batchRunId [accountId] s.batchRunItems.rows := by
  have hrows : s₃.batchRunItems.rows = s.batchRunItems.rows.map (onItems
      [.updateBatchRunItem i.id runningUpdate, .updateBatchRunItem i.id completedUpdate]) := by
    subst h₁ h₃
    rw [items_apply (by simp), h₂, items_apply (by simp), List.map_map]
    rfl
  rw [hrows, closeItems]
  refine List.map_congr_left fun j hj => ?_
  have hitem := isItemOf_iff hi hj
  by_cases hid : j.id = i.id
  · simp [Write.onItem, hitem.mpr hid, hid, closedItem]
  · simp [Write.onItem, mt hitem.mp hid, hid]

theorem surely_updateBatchRunItem {id : Uuid} {d : BatchRunItemUpdate}
    (hrow : s.present (.row .batchRunItem id) = true) :
    Surely (Tx.send (.updateBatchRunItem id d)) s
      (fun _ s' => database.Admissible s [.updateBatchRunItem id d] ∧
        s' = (Write.updateBatchRunItem id d).apply s) (fun _ => False) := by
  refine surely_write (fun _ => rfl) (fun ch _ hv => ⟨admissible_of_violation hv, rfl⟩) fun ch e _ hv => ?_
  rw [violation_eq_none (by simp [Write.adds]) (by simpa [Write.needs] using hrow)
    (by simp [Write.bigInts]) rfl] at hv
  cases hv

/-- An item that is processed alone is closed just when its account is payable. -/
theorem processBatchItem_surely
    (h : Closable env batchRunId interestRevenueAccountIds s (x :: xs)) :
    Surely (processBatchItemTx env batchRunId x.id) s
      (fun _ s' => Payable env x ∧
        ∃ rows, Closes env batchRunId interestRevenueAccountIds s s' [x] rows)
      (fun _ => ¬ Payable env x) := by
  obtain ⟨a, ha, rfl⟩ := h.snapshots x (List.mem_cons_self ..)
  obtain ⟨i, hi, hopen⟩ := h.items _ (List.mem_cons_self ..)
  have hrevenue := h.revenue _ (List.mem_cons_self ..)
  have hfind : s.batchRunItems.find? (batchRunId, "account", (s.snapshot a).id) = some i := hi
  have haccount : s.accounts.get? (s.snapshot a).id = some a := Table.get?_eq_some.mpr ⟨ha, rfl⟩
  have hrow : s.present (.row .batchRunItem i.id) = true :=
    Option.isSome_iff_exists.mpr ⟨i, Table.get?_eq_some.mpr ⟨(Table.find?_mem hfind).1, rfl⟩⟩
  unfold processBatchItemTx
  refine Always.bind (surely_reply fun _ => rfl) ?_ fun _ h => h.elim
  rintro _ s ⟨rfl, rfl⟩
  simp only [hfind, hopen, if_false]
  unfold processOpenItem
  refine Always.bind (surely_reply fun _ => rfl) ?_ fun _ h => h.elim
  rintro _ s ⟨rfl, rfl⟩
  simp only [haccount, Option.map_some, Option.bind_some, Store.accountWithBalance, orThrow]
  cases hl : s.ledgerAccountOf a.id with
  | none =>
      refine (always_bind.mpr ((always_require_none rfl).mpr fun hpay => ?_))
      simpa [Store.snapshot, hl] using hpay.ledgerAccount
  | some l =>
      refine always_bind.mpr ((always_require_some rfl).mpr ?_)
      refine Always.bind (surely_updateBatchRunItem hrow) ?_ fun _ h => h.elim
      rintro _ s₁ ⟨hadm, hs₁⟩
      have hrow₁ : s₁.present (.row .batchRunItem i.id) = true := hs₁ ▸ present_applyAll hadm hrow
      have hpay : Surely (payInterest env batchRunId a l (snapshotInterest env (s₁.snapshot a))) s₁
          (fun _ s' => Payable env (s₁.snapshot a) ∧ s'.batchRunItems = s₁.batchRunItems ∧
            ∃ rows, PaysRows env batchRunId interestRevenueAccountIds s₁ s' [s₁.snapshot a] rows)
          (fun _ => ¬ Payable env (s₁.snapshot a)) :=
        payInterest_surely
          (hs₁ ▸ h.seeded.of_extends (extends_apply _ s)) (hs₁ ▸ foreignKeys_applyAll hadm h.keys)
          (by subst hs₁; exact h.normal) ⟨h.run.1, hs₁ ▸ present_applyAll hadm h.run.2⟩
          (by subst hs₁; exact ha) (by subst hs₁; exact hl) (by subst hs₁; exact hrevenue)
      have hsame : s₁.snapshot a = s.snapshot a := by subst hs₁; rfl
      rw [hsame] at hpay
      refine Always.bind hpay ?_ fun _ h => h
      rintro _ s₂ ⟨hpayable, hitems, rows, hpays⟩
      have hrow₂ : s₂.present (.row .batchRunItem i.id) = true := by
        simpa [Store.present, hitems] using hrow₁
      refine (surely_updateBatchRunItem hrow₂).mono ?_ fun _ h => h.elim
      rintro _ s₃ ⟨-, hs₃⟩
      refine ⟨hpayable, rows, ?_, items_of_marked hi hs₁ hitems hs₃⟩
      subst hs₁ hs₃
      exact ⟨hpays.paid, hpays.journalEntries, hpays.postings, hpays.statementLines, hpays.balances,
        ⟨hpays.beside.1, hpays.beside.2, hpays.beside.3, hpays.beside.4, hpays.beside.5,
          hpays.beside.6, hpays.beside.7, hpays.beside.8⟩⟩

end Item

/-! ## What makes a chunk fail -/

section New

variable {s : Store} {ws : List Write}

theorem absent_applyAll (hadm : database.Admissible s ws) {k : Key} (h : s.present k = false)
    (hk : k ∉ ws.flatMap Write.adds) : (database.applyAll ws s).present k = false := by
  refine Bool.eq_false_iff.mpr fun hpresent => ?_
  rcases (Database.present_applyAll lawful_database hadm k).mp hpresent with hold | hnew
  · cases h.symm.trans hold
  · exact hk hnew

/-- Writes with new keys break no constraint, if the rows that they refer to are there and the
numbers fit. -/
theorem violations_of_new (hadds : ∀ w ∈ ws, ∀ k ∈ w.adds, s.present k = false)
    (hdistinct : (ws.flatMap Write.adds).Nodup)
    (hneeds : ∀ w ∈ ws, ∀ k ∈ w.needs, s.present k = true)
    (hbig : ∀ w ∈ ws, ∀ n ∈ w.bigInts, inBigInt n = true) (hcheck : ∀ w ∈ ws, w.check = true) :
    s.violations ws = none := by
  induction ws generalizing s with
  | nil => rfl
  | cons w ws ih =>
      simp only [List.forall_mem_cons] at hadds hneeds hbig hcheck
      rw [List.flatMap_cons] at hdistinct
      obtain ⟨-, hrest, hapart⟩ := List.nodup_append.mp hdistinct
      have hw := violation_eq_none hadds.1 hneeds.1 hbig.1 hcheck.1
      have hadm := admissible_of_violation hw
      refine Database.firstViolation_cons.mpr ⟨hw, ih (fun w' hw' k hk => ?_) hrest
        (fun w' hw' k hk => ?_) hbig.2 hcheck.2⟩
      · refine absent_applyAll hadm (hadds.2 w' hw' k hk) fun hmem => ?_
        simp only [List.flatMap_cons, List.flatMap_nil, List.append_nil] at hmem
        exact hapart k hmem k (List.mem_flatMap.mpr ⟨w', hw', hk⟩) rfl
      · exact present_applyAll hadm (hneeds.2 w' hw' k hk)

/-- Writes that add no key. -/
theorem violations_of_updates (hadds : ∀ w ∈ ws, w.adds = [])
    (hneeds : ∀ w ∈ ws, ∀ k ∈ w.needs, s.present k = true)
    (hbig : ∀ w ∈ ws, ∀ n ∈ w.bigInts, inBigInt n = true) (hcheck : ∀ w ∈ ws, w.check = true) :
    s.violations ws = none := by
  refine violations_of_new (fun w hw k hk => ?_) ?_ hneeds hbig hcheck
  · simp [hadds w hw] at hk
  · rw [List.flatMap_eq_nil_iff.mpr hadds]
    exact .nil

/-- A statement whose writes break no constraint. -/
theorem surely_writes {β : Type} {q : Stmt β} {r : β} (hexec : ∀ ch, s.exec q ch = s.attempt r ws)
    (hv : s.violations ws = none) :
    Surely (Tx.send q) s (fun b s' => b = r ∧ database.Admissible s ws ∧ s' = database.applyAll ws s)
      (fun _ => False) := by
  refine always_send.mpr fun ch _ => ?_
  have hattempt : database.exec q ch s = .ok (r, ws) := by
    refine (hexec ch).trans ?_
    simp [Store.attempt, hv]
  refine ⟨fun e he => ?_, fun r' ws' hr => ?_⟩
  · cases hattempt.symm.trans he
  · cases hattempt.symm.trans hr
    exact ⟨rfl, violations_none hv, rfl⟩

end New

section Numbered

variable {env : Env} {batchRunId : Uuid} {interestRevenueAccountIds : List (String × Uuid)}
  {s : Store} {accounts : List BatchAccountSnapshot} {effectiveAt : Time} {uuid : Nat → Uuid}
  {rows : List InterestRows}

/-- The row of an account, with the identifiers from `uuid (4 * n)` on. -/
def NumberedRow (env : Env) (batchRunId : Uuid) (interestRevenueAccountIds : List (String × Uuid))
    (effectiveAt : Time) (uuid : Nat → Uuid) (accounts : List BatchAccountSnapshot) (n : Nat)
    (row : InterestRows) : Prop :=
  ∃ x ∈ accounts, ∃ ledgerAccountId revenueId, x.ledgerAccountId = some ledgerAccountId ∧
    mapGet interestRevenueAccountIds x.currency = some revenueId ∧ 0 < snapshotInterest env x ∧
    row = interestRows batchRunId effectiveAt (fun k => uuid (k + 4 * n)) x ledgerAccountId revenueId
      (x.currentMinor.getD 0) (snapshotInterest env x)

/-- The rows of a chunk have identifiers of their own. -/
theorem numbered_of_chunkRows
    (h : chunkRows env batchRunId interestRevenueAccountIds effectiveAt uuid accounts = .ok rows) :
    ∃ ns : List Nat, ns.Nodup ∧ List.Forall₂ (NumberedRow env batchRunId interestRevenueAccountIds
      effectiveAt uuid accounts) ns rows := by
  induction accounts generalizing uuid rows with
  | nil =>
      cases h
      exact ⟨[], .nil, .nil⟩
  | cons account rest ih =>
      simp only [chunkRows] at h
      split at h
      · cases h
      rename_i ledgerAccountId hledger
      split at h
      · cases h
      rename_i revenueId hrevenue
      cases hrest : chunkRows env batchRunId interestRevenueAccountIds effectiveAt
          (fun n => uuid (n + 4)) rest with
      | error e =>
          rw [hrest] at h
          cases h
      | ok built =>
          rw [hrest] at h
          cases h
          obtain ⟨ns, hnodup, hbuilt⟩ := ih hrest
          -- the rest begins four identifiers later
          have hlater : List.Forall₂ (NumberedRow env batchRunId interestRevenueAccountIds effectiveAt
              uuid (account :: rest)) (ns.map (· + 1)) built := by
            refine List.forall₂_map_left_iff.mpr (hbuilt.imp ?_)
            rintro n row ⟨x, hx, hrow⟩
            exact ⟨x, List.mem_cons_of_mem _ hx, hrow⟩
          have hsucc : (ns.map (· + 1)).Nodup := hnodup.map fun a b hab => Nat.succ.inj hab
          split
          · exact ⟨_, hsucc, hlater⟩
          · rename_i hpositive
            refine ⟨0 :: ns.map (· + 1), List.nodup_cons.mpr ⟨by simp, hsucc⟩, .cons ?_ hlater⟩
            exact ⟨account, List.mem_cons_self .., _, _, hledger, hrevenue, not_le.mp hpositive, rfl⟩

theorem flatMap_of_numbered {α β γ : Type} {R : α → β → Prop} {xs : List α} {ys : List β}
    {f : α → List γ} {g : β → List γ} (h : List.Forall₂ R xs ys) (hfg : ∀ x y, R x y → g y = f x) :
    ys.flatMap g = xs.flatMap f := by
  induction h with
  | nil => rfl
  | cons hxy _ ih => rw [List.flatMap_cons, List.flatMap_cons, ih, hfg _ _ hxy]

/-- The keys of numbered rows are distinct. -/
theorem nodup_of_numbered {β : Type} {R : Nat → β → Prop} {ns : List Nat} {ys : List β}
    {f : Nat → List Key} {g : β → List Key} (hns : ns.Nodup) (h : List.Forall₂ R ns ys)
    (hfg : ∀ n y, R n y → g y = f n) (hnodup : ∀ n, (f n).Nodup)
    (hapart : ∀ m n, m ≠ n → List.Disjoint (f m) (f n)) : (ys.flatMap g).Nodup := by
  rw [flatMap_of_numbered h hfg, List.nodup_flatMap]
  exact ⟨fun n _ => hnodup n, hns.imp fun hne => hapart _ _ hne⟩

variable {ns : List Nat} (hns : ns.Nodup)
  (hrows : List.Forall₂ (NumberedRow env batchRunId interestRevenueAccountIds effectiveAt uuid accounts)
    ns rows)

include hrows in
theorem forall_of_numbered {P : InterestRows → Prop} (h : ∀ n, ∀ x ∈ accounts,
    ∀ ledgerAccountId revenueId, x.ledgerAccountId = some ledgerAccountId →
    mapGet interestRevenueAccountIds x.currency = some revenueId → 0 < snapshotInterest env x →
    P (interestRows batchRunId effectiveAt (fun k => uuid (k + 4 * n)) x ledgerAccountId revenueId
      (x.currentMinor.getD 0) (snapshotInterest env x))) : ∀ row ∈ rows, P row := by
  intro row hrow
  obtain ⟨n, -, x, hx, l, r, hl, hr, hpositive, rfl⟩ := mem_of_forall₂ hrows hrow
  exact h n x hx l r hl hr hpositive

section Writes

variable (hinjective : Function.Injective uuid)

include hns hrows hinjective in
theorem entries_fit
    (hnew : ∀ n, s.present (.row .journalEntry (uuid n)) = false)
    (hrun : s.present (.row .batchRun batchRunId) = true) :
    s.violations ((rows.map (·.journalEntry)).map .journalEntry) = none := by
  rw [List.map_map]
  refine violations_of_new ?_ ?_ ?_ (by simp [Write.bigInts]) (by simp [Write.check])
  · simp only [List.forall_mem_map]
    refine forall_of_numbered hrows fun n x _ _ _ _ _ _ => ?_
    simpa [Write.adds, interestRows] using hnew (4 * n)
  · rw [List.flatMap_map]
    refine nodup_of_numbered (f := fun n => [.row .journalEntry (uuid (0 + 4 * n))]) hns hrows ?_
      (by simp) fun m n hne => by simpa [hinjective.eq_iff] using hne.symm
    rintro n _ ⟨x, -, _, _, -, -, -, rfl⟩
    rfl
  · simp only [List.forall_mem_map]
    refine forall_of_numbered hrows fun n x _ _ _ _ _ _ => ?_
    simpa [Write.needs, interestRows] using hrun

include hns hrows hinjective in
theorem postings_fit (hnew : ∀ n, s.present (.row .posting (uuid n)) = false)
    (hentry : ∀ row ∈ rows, s.present (.row .journalEntry row.journalEntry.id) = true)
    (hledger : ∀ x ∈ accounts, ∀ id, x.ledgerAccountId = some id →
      s.present (.row .ledgerAccount id) = true)
    (hrevenue : ∀ x ∈ accounts, ∀ id, mapGet interestRevenueAccountIds x.currency = some id →
      s.present (.row .ledgerAccount id) = true)
    (hpayable : ∀ x ∈ accounts, Payable env x) :
    s.violations ((rows.flatMap fun r => [r.debit, r.credit]).map .posting) = none := by
  rw [List.map_flatMap]
  refine violations_of_new ?_ ?_ ?_ ?_ ?_
  · simp only [List.forall_mem_flatMap]
    refine forall_of_numbered hrows fun n x _ _ _ _ _ _ => ?_
    simpa [Write.adds, interestRows] using ⟨hnew (1 + 4 * n), hnew (2 + 4 * n)⟩
  · rw [List.flatMap_assoc]
    refine nodup_of_numbered (f := fun n => [.row .posting (uuid (1 + 4 * n)),
      .row .posting (uuid (2 + 4 * n))]) hns hrows ?_ ?_ fun m n hne => ?_
    · rintro n _ ⟨x, -, _, _, -, -, -, rfl⟩
      rfl
    · simp [hinjective.eq_iff]
    · simp [hinjective.eq_iff]
      omega
  · simp only [List.forall_mem_flatMap]
    have hneeds : ∀ row ∈ rows, s.present (.row .ledgerAccount row.debit.ledgerAccountId) = true ∧
        s.present (.row .ledgerAccount row.credit.ledgerAccountId) = true ∧
        row.debit.journalEntryId = row.journalEntry.id ∧
        row.credit.journalEntryId = row.journalEntry.id := by
      refine forall_of_numbered hrows fun n x hx l r hl hr _ => ?_
      exact ⟨hrevenue x hx r hr, hledger x hx l hl, rfl, rfl⟩
    intro row hrow
    simpa [Write.needs, hneeds row hrow] using hentry row hrow
  · simp only [List.forall_mem_flatMap]
    refine forall_of_numbered hrows fun n x hx _ _ _ _ hpositive => ?_
    simpa [Write.bigInts, interestRows] using (hpayable x hx).amount hpositive
  · simp only [List.forall_mem_flatMap]
    refine forall_of_numbered hrows fun n x hx _ _ _ _ hpositive => ?_
    simpa [Write.check, interestRows] using hpositive

include hns hrows hinjective in
theorem lines_fit (hnew : ∀ n, s.present (.row .statementLine (uuid n)) = false)
    (hlineless : ∀ n, s.present (.statementLinePosting (uuid n)) = false)
    (hentry : ∀ row ∈ rows, s.present (.row .journalEntry row.journalEntry.id) = true)
    (hposting : ∀ row ∈ rows, s.present (.row .posting row.credit.id) = true)
    (haccount : ∀ x ∈ accounts, s.present (.row .account x.id) = true)
    (hpayable : ∀ x ∈ accounts, Payable env x) :
    s.violations ((rows.map (·.statementLine)).map .statementLine) = none := by
  rw [List.map_map]
  refine violations_of_new ?_ ?_ ?_ ?_ (by simp [Write.check])
  · simp only [List.forall_mem_map]
    refine forall_of_numbered hrows fun n x _ _ _ _ _ _ => ?_
    simpa [Write.adds, interestRows] using ⟨hnew (3 + 4 * n), hlineless (2 + 4 * n)⟩
  · rw [List.flatMap_map]
    refine nodup_of_numbered (f := fun n => [.row .statementLine (uuid (3 + 4 * n)),
      .statementLinePosting (uuid (2 + 4 * n))]) hns hrows ?_ (by simp) fun m n hne => ?_
    · rintro n _ ⟨x, -, _, _, -, -, -, rfl⟩
      rfl
    · simpa [hinjective.eq_iff] using hne.symm
  · simp only [List.forall_mem_map]
    have hneeds : ∀ row ∈ rows, s.present (.row .account row.statementLine.accountId) = true ∧
        row.statementLine.journalEntryId = row.journalEntry.id ∧
        row.statementLine.postingId = row.credit.id := by
      refine forall_of_numbered hrows fun n x hx l r hl hr _ => ?_
      exact ⟨haccount x hx, rfl, rfl⟩
    intro row hrow
    simpa [Write.needs, hneeds row hrow] using ⟨hentry row hrow, hposting row hrow⟩
  · simp only [List.forall_mem_map]
    refine forall_of_numbered hrows fun n x hx _ _ _ _ hpositive => ?_
    simpa [Write.bigInts, interestRows] using
      ⟨(hpayable x hx).amount hpositive, (hpayable x hx).balance hpositive⟩

include hrows in
theorem balances_fit (haccount : ∀ x ∈ accounts, s.present (.row .account x.id) = true)
    (hpayable : ∀ x ∈ accounts, Payable env x) :
    s.violations ((rows.map (·.balance)).map .balanceProjection) = none := by
  rw [List.map_map]
  refine violations_of_updates (by simp [Write.adds]) ?_ ?_ (by simp [Write.check])
  · simp only [List.forall_mem_map]
    refine forall_of_numbered hrows fun n x hx _ _ _ _ _ => ?_
    simpa [Write.needs, interestRows] using haccount x hx
  · simp only [List.forall_mem_map]
    refine forall_of_numbered hrows fun n x hx _ _ _ _ hpositive => ?_
    simpa [Write.bigInts, interestRows] using (hpayable x hx).balance hpositive

include hns hrows hinjective in
/-- Rows with new identifiers are written, if the rows that they refer to are there and the
accounts are payable. -/
theorem writeRows_succeeds (hnew : ∀ n table, table ≠ .balanceProjection →
      s.present (.row table (uuid n)) = false)
    (hkeys : s.ForeignKeys) (hrun : s.present (.row .batchRun batchRunId) = true)
    (haccount : ∀ x ∈ accounts, s.present (.row .account x.id) = true)
    (hledger : ∀ x ∈ accounts, ∀ id, x.ledgerAccountId = some id →
      s.present (.row .ledgerAccount id) = true)
    (hrevenue : ∀ x ∈ accounts, ∀ id, mapGet interestRevenueAccountIds x.currency = some id →
      s.present (.row .ledgerAccount id) = true)
    (hpayable : ∀ x ∈ accounts, Payable env x)
    (hone : (rows.map (·.balance.accountId)).Nodup) :
    Surely (writeRows rows) s (fun _ _ => True) fun _ => False := by
  unfold writeRows
  split
  swap
  · trivial
  have hentries := entries_fit hns hrows hinjective (fun n => hnew n _ (by decide)) hrun
  refine Always.bind (surely_writes (fun _ => rfl) hentries) ?_ fun _ h => h
  rintro _ s₁ ⟨-, hadm₁, hs₁⟩
  have hold₁ : ∀ k, s.present k = true → s₁.present k = true := fun k hk =>
    hs₁ ▸ present_applyAll hadm₁ hk
  have hentry : ∀ row ∈ rows, s₁.present (.row .journalEntry row.journalEntry.id) = true := by
    intro row hrow
    rw [hs₁]
    exact (Database.present_applyAll lawful_database hadm₁ _).mpr (Or.inr (List.mem_flatMap.mpr
      ⟨.journalEntry row.journalEntry, List.mem_map_of_mem (List.mem_map_of_mem hrow),
        List.mem_singleton_self _⟩))
  have hpostings := postings_fit (s := s₁) hns hrows hinjective (fun n => by
      rw [hs₁]
      exact absent_applyAll hadm₁ (hnew n _ (by decide)) (by simp [Write.adds])) hentry
    (fun x hx id hid => hold₁ _ (hledger x hx id hid))
    (fun x hx id hid => hold₁ _ (hrevenue x hx id hid)) hpayable
  refine Always.bind (surely_writes (fun _ => rfl) hpostings) ?_ fun _ h => h
  rintro _ s₂ ⟨-, hadm₂, hs₂⟩
  have hold₂ : ∀ k, s₁.present k = true → s₂.present k = true := fun k hk =>
    hs₂ ▸ present_applyAll hadm₂ hk
  have hposting : ∀ row ∈ rows, s₂.present (.row .posting row.credit.id) = true := by
    intro row hrow
    rw [hs₂]
    refine (Database.present_applyAll lawful_database hadm₂ _).mpr (Or.inr (List.mem_flatMap.mpr
      ⟨.posting row.credit, List.mem_map_of_mem (List.mem_flatMap.mpr ⟨row, hrow, by simp⟩),
        List.mem_singleton_self _⟩))
  have hlines := lines_fit (s := s₂) hns hrows hinjective (fun n => by
      have hline := hnew n .statementLine (by decide)
      rw [hs₂]
      refine absent_applyAll hadm₂ ?_ (by simp [Write.adds])
      rw [hs₁]
      exact absent_applyAll hadm₁ hline (by simp [Write.adds])) (fun n => by
      have hline := lineless_of_new hkeys (hnew n .posting (by decide))
      rw [hs₂]
      refine absent_applyAll hadm₂ ?_ (by simp [Write.adds])
      rw [hs₁]
      exact absent_applyAll hadm₁ hline (by simp [Write.adds]))
    (fun row hrow => hold₂ _ (hentry row hrow)) hposting
    (fun x hx => hold₂ _ (hold₁ _ (haccount x hx))) hpayable
  refine Always.bind (surely_writes (fun _ => rfl) hlines) ?_ fun _ h => h
  rintro _ s₃ ⟨-, hadm₃, hs₃⟩
  have hbalances := balances_fit (s := s₃) hrows (fun x hx => by
    rw [hs₃]
    exact present_applyAll hadm₃ (hold₂ _ (hold₁ _ (haccount x hx)))) hpayable
  have hnodup : ((rows.map (·.balance)).map (·.accountId)).Nodup := by
    simpa [List.map_map, Function.comp_def] using hone
  have hexec : ∀ ch, s₃.exec (.upsertBalanceProjections (rows.map (·.balance))) ch =
      s₃.attempt () ((rows.map (·.balance)).map .balanceProjection) := fun _ => if_pos hnodup
  exact (surely_writes hexec hbalances).mono (fun _ _ _ => trivial) fun _ h => h

end Writes

/-- The items of a run can always be marked. -/
theorem updateBatchRunItems_succeeds {ids : List Uuid} {d : BatchRunItemUpdate} :
    Surely (Tx.send (.updateBatchRunItems batchRunId "account" ids d)) s
      (fun _ s' => ∃ ws, (∀ w ∈ ws, ∃ id, w = .updateBatchRunItem id d) ∧
        s' = database.applyAll ws s ∧ database.Admissible s ws) fun _ => False := by
  have hfit : s.violations ((s.batchRunItems.rows.filter fun i => i.batchRunId = batchRunId &&
      i.resourceType = "account" && i.resourceId ∈ ids).map fun i =>
        .updateBatchRunItem i.id d) = none := by
    refine violations_of_updates ?_ ?_ ?_ ?_
    all_goals simp only [List.forall_mem_map]
    · exact fun _ _ => rfl
    · simp only [Write.needs, List.forall_mem_singleton]
      intro i hi
      exact Option.isSome_iff_exists.mpr
        ⟨i, Table.get?_eq_some.mpr ⟨(List.mem_filter.mp hi).1, rfl⟩⟩
    · simp [Write.bigInts]
    · exact fun _ _ => rfl
  refine (surely_writes (fun _ => rfl) hfit).mono (fun _ s' h => ⟨_, ?_, h.2.2, h.2.1⟩) fun _ h => h
  simp only [List.forall_mem_map]
  exact fun i _ => ⟨i.id, rfl⟩

/-- The identifiers that the code generates. -/
theorem surely_randomUUIDs : Surely (Tx.send .randomUUIDs) s
    (fun uuid s' => (∃ ch, s.Fresh ch ∧ uuid = ch.uuid) ∧ s' = s) fun _ => False := by
  refine always_send.mpr fun ch hfresh => ⟨fun e he => ?_, fun r ws hr => ?_⟩
  · cases he
  · cases hr
    exact ⟨⟨ch, hfresh, rfl⟩, rfl⟩

/-- The accounts with a row are distinct. -/
theorem nodup_balances (hdistinct : (accounts.map (·.id)).Nodup)
    (h : chunkRows env batchRunId interestRevenueAccountIds effectiveAt uuid accounts = .ok rows) :
    (rows.map (·.balance.accountId)).Nodup := by
  have hids : ((accounts.filter fun x => 0 < snapshotInterest env x).map (·.id)) =
      rows.map (·.balance.accountId) := by
    rw [← List.forall₂_eq_eq_eq, List.forall₂_map_left_iff, List.forall₂_map_right_iff]
    refine (chunkRows_forall h).imp ?_
    rintro x _ ⟨_, _, _, _, _, rfl⟩
    rfl
  rw [← hids]
  exact hdistinct.sublist (List.filter_sublist.map _)

/-- A chunk whose accounts are payable commits. -/
theorem processBatchChunk_succeeds
    (h : Closable env batchRunId interestRevenueAccountIds s accounts)
    (hpayable : ∀ x ∈ accounts, Payable env x) :
    Surely (processBatchChunkTx env batchRunId accounts interestRevenueAccountIds) s
      (fun _ _ => True) fun _ => False := by
  unfold processBatchChunkTx
  refine Always.bind (surely_read fun _ => rfl) ?_ fun _ h => h
  rintro effectiveAt s ⟨-, rfl⟩
  refine Always.bind surely_randomUUIDs ?_ fun _ h => h
  rintro _ s ⟨⟨ch, hfresh, rfl⟩, rfl⟩
  have hgot : ∀ x ∈ accounts, (mapGet interestRevenueAccountIds x.currency).isSome = true :=
    fun x hx => by
      obtain ⟨_, -, hget, -⟩ := h.revenue x hx
      simp [hget]
  obtain ⟨rows, hrows⟩ : ∃ rows, chunkRows env batchRunId interestRevenueAccountIds effectiveAt ch.uuid
      accounts = .ok rows :=
    exists_chunkRows effectiveAt ch.uuid fun x hx => ⟨(hpayable x hx).ledgerAccount, hgot x hx⟩
  simp only [hrows, ofExcept, Tx.pure_bind]
  refine Always.bind updateBatchRunItems_succeeds ?_ fun _ h => h
  rintro _ s₁ ⟨ws, hws, hs₁, hadm⟩
  obtain ⟨ns, hns, hnumbered⟩ := numbered_of_chunkRows hrows
  have hold : ∀ k, s.present k = true → s₁.present k = true := fun k hk =>
    hs₁ ▸ present_applyAll hadm hk
  have hadds : ∀ k, k ∉ ws.flatMap Write.adds := fun k hk => by
    obtain ⟨w, hw, hk⟩ := List.mem_flatMap.mp hk
    obtain ⟨id, rfl⟩ := hws w hw
    cases hk
  refine Always.bind (writeRows_succeeds hns hnumbered hfresh.distinct (fun n table htable => ?_)
    (hs₁ ▸ foreignKeys_applyAll hadm h.keys) (hold _ h.run.2) (fun x hx => hold _ ?_)
    (fun x hx id hid => hold _ ?_) (fun x hx id hid => hold _ ?_) hpayable
    (nodup_balances h.distinct hrows)) (fun _ s₂ _ => ?_) fun _ h => h
  · rw [hs₁]
    exact absent_applyAll hadm (absent_of_new (hfresh.new n) htable) (hadds _)
  · obtain ⟨a, ha, rfl⟩ := h.snapshots x hx
    exact Option.isSome_iff_exists.mpr ⟨a, Table.get?_eq_some.mpr ⟨ha, rfl⟩⟩
  · obtain ⟨a, ha, rfl⟩ := h.snapshots x hx
    obtain ⟨l, hl, rfl⟩ := Option.map_eq_some_iff.mp hid
    exact Option.isSome_iff_exists.mpr ⟨l, Table.get?_eq_some.mpr ⟨(ledgerAccountOf_some.mp hl).1, rfl⟩⟩
  · obtain ⟨revenue, hrevenue, hget, -⟩ := h.revenue x hx
    obtain rfl := Option.some.inj (hget.symm.trans hid)
    exact Option.isSome_iff_exists.mpr ⟨revenue, Table.get?_eq_some.mpr ⟨hrevenue, rfl⟩⟩
  · exact updateBatchRunItems_succeeds.mono (fun _ _ _ => trivial) fun _ h => h

end Numbered

/-! ## One account after another -/

/-- `processBatchItem` for some accounts in turn, as one worker runs it. -/
def processInTurn (env : Env) (batchRunId : Uuid) : List Uuid → Process Unit
  | [] => return ()
  | accountId :: rest => do
      processBatchItem env batchRunId accountId
      processInTurn env batchRunId rest

instance (env : Env) (x : BatchAccountSnapshot) : Decidable (Payable env x) :=
  decidable_of_iff (x.ledgerAccountId.isSome = true ∧
    (0 < snapshotInterest env x → inBigInt (snapshotInterest env x) = true) ∧
    (0 < snapshotInterest env x → inBigInt (x.currentMinor.getD 0 + snapshotInterest env x) = true))
    ⟨fun h => ⟨h.1, h.2.1, h.2.2⟩, fun h => ⟨h.1, h.2, h.3⟩⟩

/-- What a failure does to an item. -/
def failedItem (message : String) (i : BatchRunItem) : BatchRunItem :=
  ({ status := .failed, lastError := some (some message) } : BatchRunItemUpdate).apply i

/-- What became of an item: those of the accounts are closed, or failed where the account is not
payable. -/
structure Settled (env : Env) (batchRunId : Uuid) (accounts : List BatchAccountSnapshot)
    (i i' : BatchRunItem) : Prop where
  closed : ∀ x ∈ accounts, isItemOf batchRunId [x.id] i = true → Payable env x → i' = closedItem i
  failed : ∀ x ∈ accounts, isItemOf batchRunId [x.id] i = true → ¬ Payable env x →
    ∃ message, i' = failedItem message i
  other : isItemOf batchRunId (accounts.map (·.id)) i = false → i' = i

/-- The store `s'` is `s` with the payable ones of some accounts paid, and their items settled. -/
structure Settles (env : Env) (batchRunId : Uuid) (interestRevenueAccountIds : List (String × Uuid))
    (s s' : Store) (accounts : List BatchAccountSnapshot) (rows : List InterestRows) : Prop
    extends PaysRows env batchRunId interestRevenueAccountIds s s'
      (accounts.filter fun x => Payable env x) rows where
  items : List.Forall₂ (Settled env batchRunId accounts) s.batchRunItems.rows s'.batchRunItems.rows

section Turns

variable {env : Env} {batchRunId : Uuid} {interestRevenueAccountIds : List (String × Uuid)}
  {s s' s'' : Store} {x : BatchAccountSnapshot} {xs : List BatchAccountSnapshot}
  {rows rows' : List InterestRows}

theorem isItemOf_cons {id : Uuid} {ids : List Uuid} (i : BatchRunItem) :
    isItemOf batchRunId (id :: ids) i = (isItemOf batchRunId [id] i || isItemOf batchRunId ids i) := by
  simp [isItemOf, Bool.and_or_distrib_left]

theorem isItemOf_of_not_mem {ids : List Uuid} {i : BatchRunItem} {id : Uuid} (hid : id ∉ ids)
    (h : isItemOf batchRunId [id] i = true) : isItemOf batchRunId ids i = false := by
  simp only [isItemOf, Bool.and_eq_true, decide_eq_true_eq, List.mem_singleton] at h
  simp [isItemOf, h.2, hid]

/-- What became of an item in turn. -/
theorem Settled.cons {i i' i'' : BatchRunItem} (hx : x.id ∉ xs.map (·.id))
    (h : Settled env batchRunId [x] i i') (h' : Settled env batchRunId xs i' i'') :
    Settled env batchRunId (x :: xs) i i'' := by
  have hlater : isItemOf batchRunId [x.id] i = false → i' = i := fun hfalse => h.other hfalse
  have hdone : isItemOf batchRunId [x.id] i = true → isItemOf batchRunId (xs.map (·.id)) i' = false := by
    intro hitem
    have hkey : isItemOf batchRunId [x.id] i' = isItemOf batchRunId [x.id] i := by
      by_cases hpay : Payable env x
      · rw [h.closed x (List.mem_singleton_self _) hitem hpay]
        rfl
      · obtain ⟨m, rfl⟩ := h.failed x (List.mem_singleton_self _) hitem hpay
        rfl
    exact isItemOf_of_not_mem hx (hkey.trans hitem)
  have hnot : ∀ y ∈ xs, isItemOf batchRunId [y.id] i = true → isItemOf batchRunId [x.id] i = false := by
    intro y hy hitem
    refine Bool.eq_false_iff.mpr fun htrue => hx ?_
    simp only [isItemOf, Bool.and_eq_true, decide_eq_true_eq, List.mem_singleton] at hitem htrue
    exact htrue.2 ▸ hitem.2 ▸ List.mem_map_of_mem hy
  refine ⟨?_, ?_, fun hfalse => ?_⟩
  · intro y hy hitem hpay
    rcases List.mem_cons.mp hy with rfl | hy
    · rw [h'.other (hdone hitem), h.closed y (List.mem_singleton_self _) hitem hpay]
    · obtain rfl := hlater (hnot y hy hitem)
      exact h'.closed y hy hitem hpay
  · intro y hy hitem hpay
    rcases List.mem_cons.mp hy with rfl | hy
    · rw [h'.other (hdone hitem)]
      exact h.failed y (List.mem_singleton_self _) hitem hpay
    · obtain rfl := hlater (hnot y hy hitem)
      exact h'.failed y hy hitem hpay
  · rw [List.map_cons, isItemOf_cons, Bool.or_eq_false_iff] at hfalse
    obtain rfl := hlater hfalse.1
    exact h'.other hfalse.2

theorem forall₂_comp {α β γ : Type} {R : α → β → Prop} {R' : β → γ → Prop} {R'' : α → γ → Prop}
    (hcomp : ∀ a b c, R a b → R' b c → R'' a c) {as : List α} {bs : List β} {cs : List γ}
    (h : List.Forall₂ R as bs) (h' : List.Forall₂ R' bs cs) : List.Forall₂ R'' as cs := by
  induction h generalizing cs with
  | nil =>
      cases h'
      exact .nil
  | cons hab _ ih =>
      cases h' with
      | cons hbc hrest => exact .cons (hcomp _ _ _ hab hbc) (ih hrest)

/-- Accounts are settled one after another. -/
theorem Settles.cons (h : Settles env batchRunId interestRevenueAccountIds s s' [x] rows)
    (h' : Settles env batchRunId interestRevenueAccountIds s' s'' xs rows')
    (hx : x.id ∉ xs.map (·.id)) :
    Settles env batchRunId interestRevenueAccountIds s s'' (x :: xs) (rows ++ rows') where
  toPaysRows := by
    have happend := h.toPaysRows.append h'.toPaysRows
    rwa [← List.filter_append] at happend
  items := by
    refine forall₂_comp ?_ h.items h'.items
    exact fun _ _ _ => Settled.cons hx

theorem Settles.nil : Settles env batchRunId interestRevenueAccountIds s s [] [] where
  toPaysRows := .nil
  items := List.forall₂_same.mpr fun i _ => ⟨by simp, by simp, fun _ => rfl⟩

/-- A payable account that is closed is settled. -/
theorem Closes.settles (h : Closes env batchRunId interestRevenueAccountIds s s' [x] rows)
    (hpay : Payable env x) : Settles env batchRunId interestRevenueAccountIds s s' [x] rows where
  toPaysRows := by
    rw [List.filter_cons_of_pos (by simpa using hpay)]
    exact h.toPaysRows
  items := by
    rw [h.items, closeItems, List.forall₂_map_right_iff, List.forall₂_same]
    intro i _
    refine ⟨fun y hy hitem _ => ?_, fun y hy _ hnot => ?_, fun hfalse => if_neg (by simpa using hfalse)⟩
    · obtain rfl := List.mem_singleton.mp hy
      exact if_pos hitem
    · obtain rfl := List.mem_singleton.mp hy
      exact absurd hpay hnot

/-- An account that is not payable is settled when its item has failed. -/
theorem settles_of_failed {i : BatchRunItem} {message : String}
    (hi : s.itemOf batchRunId x.id = some i) (hpay : ¬ Payable env x)
    (hs' : s' = (Write.updateBatchRunItem i.id
      { status := .failed, lastError := some (some message) }).apply s) :
    Settles env batchRunId interestRevenueAccountIds s s' [x] [] where
  toPaysRows := by
    rw [List.filter_cons_of_neg (by simpa using hpay)]
    subst hs'
    exact ⟨.nil, by simp [Write.apply], by simp [Write.apply], by simp [Write.apply],
      by simp [Write.apply], ⟨rfl, rfl, rfl, rfl, rfl, rfl, rfl, rfl⟩⟩
  items := by
    have hrows : s'.batchRunItems.rows = s.batchRunItems.rows.map fun j =>
        if j.id = i.id then failedItem message j else j := by
      subst hs'
      rw [items_apply (by simp)]
      rfl
    rw [hrows, List.forall₂_map_right_iff, List.forall₂_same]
    intro j hj
    have hitem := isItemOf_iff hi hj
    refine ⟨fun y hy _ hyes => ?_, fun y hy hyes _ => ?_, fun hfalse => if_neg fun hid => ?_⟩
    · obtain rfl := List.mem_singleton.mp hy
      exact absurd hyes hpay
    · obtain rfl := List.mem_singleton.mp hy
      exact ⟨message, if_pos (hitem.mp hyes)⟩
    · exact absurd (hitem.mpr hid) (by simpa using hfalse)

/-- What an account needs to be closed is there after the accounts before it were settled. -/
theorem Closable.step (h : Closable env batchRunId interestRevenueAccountIds s (x :: xs))
    (hsettles : Settles env batchRunId interestRevenueAccountIds s s' [x] rows)
    (hkeys : s'.ForeignKeys) : Closable env batchRunId interestRevenueAccountIds s' xs := by
  have hbeside := hsettles.beside
  obtain ⟨hx, hdistinct⟩ := List.nodup_cons.mp h.distinct
  refine ⟨⟨?_, ?_, ?_⟩, hkeys, ?_, ⟨h.run.1, ?_⟩, hdistinct, fun y hy => ?_, fun y hy => ?_,
    fun y hy => ?_⟩
  · rw [hbeside.accounts]
    exact h.seeded.upper
  · rw [hbeside.accounts, hbeside.ledgerAccounts]
    exact h.seeded.linked
  · rw [hbeside.ledgerAccounts]
    exact h.seeded.unlinked
  · intro l hl
    rw [hbeside.ledgerAccounts] at hl
    exact h.normal l hl
  · simpa [Store.present, hbeside.batchRuns] using h.run.2
  · obtain ⟨a, ha, rfl⟩ := h.snapshots y (List.mem_cons_of_mem _ hy)
    have hother : a.id ∉ ([x].filter fun x => Payable env x).map (·.id) := by
      intro hmem
      obtain ⟨x', hx', hid⟩ := List.mem_map.mp hmem
      obtain rfl := List.mem_singleton.mp (List.mem_filter.mp hx').1
      exact hx (List.mem_map.mpr ⟨_, hy, hid.symm⟩)
    refine ⟨a, hbeside.accounts ▸ ha, ?_⟩
    simp only [Store.snapshot, Store.ledgerAccountOf, hbeside.ledgerAccounts,
      hsettles.balance_other hother]
  · obtain ⟨i, hi, hopen⟩ := h.items y (List.mem_cons_of_mem _ hy)
    obtain ⟨hmem, hkey⟩ := Table.find?_eq_some.mp hi
    obtain ⟨i', hi', hsettled⟩ := mem_of_forall₂ hsettles.items.flip hmem
    have hnot : isItemOf batchRunId [x.id] i = false := by
      have hid : i.resourceId = y.id := by
        have hparts := Option.some.inj hkey
        exact (Prod.mk.inj (Prod.mk.inj hparts).2).2
      have hne : y.id ≠ x.id := fun heq => hx (List.mem_map.mpr ⟨y, hy, heq⟩)
      simp [isItemOf, hid, hne]
    obtain rfl := hsettled.other hnot
    exact ⟨i', Table.find?_eq_some.mpr ⟨hi', hkey⟩, hopen⟩
  · obtain ⟨revenue, hrevenue, hget, hone⟩ := h.revenue y (List.mem_cons_of_mem _ hy)
    refine ⟨revenue, ?_, hget, ?_⟩
    · rw [hbeside.ledgerAccounts]
      exact hrevenue
    · rw [hbeside.ledgerAccounts]
      exact hone

/-- An item that is processed alone is settled. -/
theorem processBatchItem_settles (h : Closable env batchRunId interestRevenueAccountIds s (x :: xs)) :
    Concludes (server env) Store.Fresh (processBatchItem env batchRunId x.id) s fun o s' =>
      o = .ok () ∧ s'.ForeignKeys ∧
        ∃ rows, Settles env batchRunId interestRevenueAccountIds s s' [x] rows := by
  have hkeys : Surely (processBatchItemTx env batchRunId x.id) s (fun _ s' => s'.ForeignKeys)
      fun _ => True := Always.of_runs (V := fun _ _ => True) lawful_database (fun _ _ _ _ _ => trivial)
        fun _ _ _ hadm => foreignKeys_applyAll hadm h.keys
  refine ((processBatchItem_surely h).and hkeys).mono ?_ ?_
  · rintro _ s' ⟨⟨hpay, rows, hcloses⟩, hkeys'⟩
    exact ⟨rfl, hkeys', rows, hcloses.settles hpay⟩
  · rintro e ⟨hpay, -⟩
    obtain ⟨i, hi, -⟩ := h.items x (List.mem_cons_self ..)
    have hfind : s.batchRunItems.find? (batchRunId, "account", x.id) = some i := hi
    let d : BatchRunItemUpdate := { status := .failed, lastError := some (some (env.message e)) }
    have hexec : ∀ ch, s.exec (.updateBatchRunItemOf batchRunId "account" x.id d) ch =
        s.attempt () [.updateBatchRunItem i.id d] := fun _ => by simp only [Store.exec, hfind]
    have hfit : s.violations [.updateBatchRunItem i.id d] = none := by
      refine violations_of_updates ?_ ?_ ?_ ?_
      all_goals simp only [List.forall_mem_singleton]
      · rfl
      · simp only [Write.needs, List.forall_mem_singleton]
        exact Option.isSome_iff_exists.mpr
          ⟨i, Table.get?_eq_some.mpr ⟨(Table.find?_mem hfind).1, rfl⟩⟩
      · simp [Write.bigInts]
      · rfl
    refine Always.mono (surely_writes hexec hfit) ?_ fun _ h => h.elim
    rintro _ s' ⟨-, hadm, hs'⟩
    exact ⟨rfl, hs' ▸ foreignKeys_applyAll hadm h.keys, [], settles_of_failed hi hpay hs'⟩

/-- Accounts that are processed alone, one after another, are settled. -/
theorem processInTurn_settles {accounts : List BatchAccountSnapshot}
    (h : Closable env batchRunId interestRevenueAccountIds s accounts) :
    Concludes (server env) Store.Fresh (processInTurn env batchRunId (accounts.map (·.id))) s
      fun o s' => o = .ok () ∧
        ∃ rows, Settles env batchRunId interestRevenueAccountIds s s' accounts rows := by
  induction accounts generalizing s with
  | nil => exact ⟨rfl, [], .nil⟩
  | cons x xs ih =>
      refine Concludes.andThen ((processBatchItem_settles h).mono ?_)
      rintro _ s' ⟨rfl, hkeys, rows, hsettles⟩
      refine ⟨(), rfl, (ih (h.step hsettles hkeys)).mono ?_⟩
      rintro _ s'' ⟨rfl, rows', hrest⟩
      exact ⟨rfl, rows ++ rows', hsettles.cons hrest (List.nodup_cons.mp h.distinct).1⟩

end Turns

/-! ## Both paths -/

/-- The row without what is generated, and without its time. -/
def InterestRows.unnamed (row : InterestRows) : InterestRows where
  journalEntry := { row.journalEntry with id := "", effectiveAt := 0 }
  debit := { row.debit with id := "", journalEntryId := "" }
  credit := { row.credit with id := "", journalEntryId := "" }
  statementLine := { row.statementLine with
    id := "", journalEntryId := "", postingId := "", effectiveAt := 0 }
  balance := { row.balance with journalEntryId := none }

section Paths

variable {env : Env} {batchRunId : Uuid} {interestRevenueAccountIds : List (String × Uuid)}
  {s s' : Store} {accounts : List BatchAccountSnapshot} {rows rows' : List InterestRows}

/-- Rows that pay the same accounts are the same but for what is generated. -/
theorem unnamed_of_paid {xs : List BatchAccountSnapshot}
    (h : List.Forall₂ (fun x row => ∃ effectiveAt,
      RowOf env batchRunId interestRevenueAccountIds effectiveAt x row) xs rows)
    (h' : List.Forall₂ (fun x row => ∃ effectiveAt,
      RowOf env batchRunId interestRevenueAccountIds effectiveAt x row) xs rows') :
    rows.map InterestRows.unnamed = rows'.map InterestRows.unnamed := by
  induction h generalizing rows' with
  | nil =>
      cases h'
      rfl
  | cons hrow _ ih =>
      cases h' with
      | cons hrow' hrest =>
          obtain ⟨_, _, l, r, hl, hr, rfl⟩ := hrow
          obtain ⟨_, _, l', r', hl', hr', rfl⟩ := hrow'
          obtain rfl := Option.some.inj (hl.symm.trans hl')
          obtain rfl := Option.some.inj (hr.symm.trans hr')
          rw [List.map_cons, List.map_cons, ih hrest]
          rfl

/-- Where all accounts are payable, their items are closed. -/
theorem Settles.closes (h : Settles env batchRunId interestRevenueAccountIds s s' accounts rows)
    (hpayable : ∀ x ∈ accounts, Payable env x) :
    Closes env batchRunId interestRevenueAccountIds s s' accounts rows where
  toPaysRows := by
    have hall : (accounts.filter fun x => Payable env x) = accounts :=
      List.filter_eq_self.mpr fun x hx => by simpa using hpayable x hx
    exact hall ▸ h.toPaysRows
  items := by
    rw [closeItems, ← List.forall₂_eq_eq_eq, List.forall₂_map_right_iff]
    refine h.items.flip.imp fun i' i hsettled => ?_
    split
    · rename_i hitem
      simp only [isItemOf, Bool.and_eq_true, decide_eq_true_eq] at hitem
      obtain ⟨x, hx, hid⟩ := List.mem_map.mp hitem.2
      exact hsettled.closed x hx (by simp [isItemOf, hitem.1, hid]) (hpayable x hx)
    · rename_i hitem
      exact hsettled.other (by simpa using hitem)

/-- What a chunk that commits pays is payable. -/
theorem payable_of_chunk {u : Unit} (h : Alone (processBatchChunkTx env batchRunId accounts
    interestRevenueAccountIds) s (.ok (u, s'))) : ∀ x ∈ accounts, Payable env x := by
  obtain ⟨rows, hcloses, haccounts, hrange⟩ := closes_of_chunk h
  intro x hx
  have hrow : 0 < snapshotInterest env x → ∃ row ∈ rows,
      row.credit.amountMinor = snapshotInterest env x ∧
      row.balance.currentMinor = x.currentMinor.getD 0 + snapshotInterest env x := by
    intro hpositive
    have hmem : x ∈ accounts.filter fun x => 0 < snapshotInterest env x :=
      List.mem_filter.mpr ⟨hx, by simpa using hpositive⟩
    obtain ⟨row, hrow, _, _, _, _, _, _, rfl⟩ := mem_of_forall₂ hcloses.paid.flip hmem
    exact ⟨_, hrow, rfl, rfl⟩
  refine ⟨?_, fun hpositive => ?_, fun hpositive => ?_⟩
  · obtain ⟨_, _, hledger, -⟩ := haccounts x hx
    simp [hledger]
  · obtain ⟨row, hmem, hamount, -⟩ := hrow hpositive
    exact hamount ▸ (hrange row hmem).1
  · obtain ⟨row, hmem, -, hbalance⟩ := hrow hpositive
    exact hbalance ▸ (hrange row hmem).2

/-- Stores with the same accounts closed show the same balances. -/
theorem balances_of_unnamed {s₁ s₂ : Store}
    (h₁ : Closes env batchRunId interestRevenueAccountIds s s₁ accounts rows)
    (h₂ : Closes env batchRunId interestRevenueAccountIds s s₂ accounts rows') (accountId : Uuid) :
    (s₁.balanceProjections.get? accountId).map (·.currentMinor) =
      (s₂.balanceProjections.get? accountId).map (·.currentMinor) := by
  have hlast : ∀ rows : List InterestRows,
      (((rows.map (·.balance)).filter (·.accountId = accountId)).getLast?).map (·.currentMinor) =
        ((((rows.map InterestRows.unnamed).map (·.balance)).filter
          (·.accountId = accountId)).getLast?).map (·.currentMinor) := by
    intro rows
    simp [List.filter_map, List.getLast?_map, Function.comp_def, InterestRows.unnamed]
  rw [h₁.balances, h₂.balances, Option.map_or, Option.map_or, hlast rows, hlast rows',
    unnamed_of_paid h₁.paid h₂.paid]

/-- The fast path does what the plain one does.  Where the accounts of a chunk are payable, the
chunk commits, and accounts that are processed one after another end with the same rows, but for
what is generated, the same items and the same balances.  Where one is not payable the chunk
fails, and the accounts that are processed one after another are those that are payable. -/
theorem chunk_agrees_with_items
    (h : Closable env batchRunId interestRevenueAccountIds s accounts)
    {o : Except TxError (Unit × Store)}
    (hchunk : Alone (processBatchChunkTx env batchRunId accounts interestRevenueAccountIds) s o) :
    Concludes (server env) Store.Fresh (processInTurn env batchRunId (accounts.map (·.id))) s
      fun o' s₂ => o' = .ok () ∧ ∃ rows₂,
        Settles env batchRunId interestRevenueAccountIds s s₂ accounts rows₂ ∧
        ((∃ e, o = .error e) ∧ (∃ x ∈ accounts, ¬ Payable env x) ∨
          ∃ s₁ rows₁, o = .ok ((), s₁) ∧ (∀ x ∈ accounts, Payable env x) ∧
            Closes env batchRunId interestRevenueAccountIds s s₁ accounts rows₁ ∧
            rows₁.map InterestRows.unnamed = rows₂.map InterestRows.unnamed ∧
            s₁.batchRunItems.rows = s₂.batchRunItems.rows ∧
            ∀ accountId, (s₁.balanceProjections.get? accountId).map (·.currentMinor) =
              (s₂.balanceProjections.get? accountId).map (·.currentMinor)) := by
  refine (processInTurn_settles h).mono ?_
  rintro _ s₂ ⟨rfl, rows₂, hsettles⟩
  refine ⟨rfl, rows₂, hsettles, ?_⟩
  cases o with
  | error e =>
      refine Or.inl ⟨⟨e, rfl⟩, ?_⟩
      by_contra hnone
      refine (processBatchChunk_succeeds h fun x hx => ?_).error hchunk
      by_contra hnot
      exact hnone ⟨x, hx, hnot⟩
  | ok result =>
      obtain ⟨u, s₁⟩ := result
      have hpayable := payable_of_chunk hchunk
      obtain ⟨rows₁, hcloses, -⟩ := closes_of_chunk hchunk
      have hsame := hsettles.closes hpayable
      refine Or.inr ⟨s₁, rows₁, rfl, hpayable, hcloses, unnamed_of_paid hcloses.paid hsame.paid, ?_,
        balances_of_unnamed hcloses hsame⟩
      rw [hcloses.items, hsame.items]

end Paths

/-! ## The demo accounts -/

/-- What a run finds in the demo store. -/
def demoSnapshots : List BatchAccountSnapshot := demoStore.activeAccounts.map demoStore.snapshot

/-- A run, with an item for each account. -/
def demoRunWrites : List Write :=
  .batchRun
    { id := "run"
      batchType := "end-of-day-interest-close"
      status := .running
      scheduledFor := 0
      startedAt := some 0
      completedAt := none
      processedCount := 0
      successCount := 0
      failureCount := 0
      failureSummary := none
      correlationId := "correlation" } ::
    (itemData testEnvironment "run" demoSnapshots).zipIdx.map fun d =>
      .batchRunItem (d.1 ("item-" ++ toString d.2))

/-- The demo store when the run begins its chunks. -/
def demoRunStore : Store := database.applyAll demoRunWrites demoStore

theorem demoRunStore_closable : Closable testEnvironment "run"
    [("USD", demoData.interestRevenueLedgerAccountId)] demoRunStore demoSnapshots := by
  have hadm : database.Admissible demoStore demoRunWrites := violations_none (by decide +kernel)
  have hext : demoStore.Extends demoRunStore := extends_applyAll demoRunWrites demoStore
  refine ⟨(seedBaseData_seeded (by decide +kernel) ..).of_extends hext,
    foreignKeys_applyAll hadm (seedBaseData_foreignKeys _ _ _), ?_, ⟨by decide, by decide +kernel⟩,
    by decide +kernel, fun x hx => ?_, ?_, ?_⟩
  · intro l hl
    rw [hext.ledgerAccounts] at hl
    exact creditNormal_demoStore l hl
  · obtain ⟨a, ha, rfl⟩ := List.mem_map.mp hx
    refine ⟨a, ?_, rfl⟩
    rw [hext.accounts]
    exact (List.mem_filter.mp ((List.mem_insertionSort _).mp ha)).1
  · have hopen : ∀ x ∈ demoSnapshots, (demoRunStore.itemOf "run" x.id).any
        (fun i => decide (i.status ≠ .completed)) = true := by decide +kernel
    intro x hx
    obtain ⟨i, hi, hstatus⟩ := (Option.any_eq_true _ _).mp (hopen x hx)
    exact ⟨i, hi, by simpa using hstatus⟩
  · have husd : ∀ x ∈ demoSnapshots, x.currency = "USD" := by decide +kernel
    intro x hx
    rw [husd x hx]
    refine ⟨⟨demoData.interestRevenueLedgerAccountId, none, .interestRevenue, "USD", .credit⟩,
      by decide +kernel, by decide +kernel, by decide +kernel⟩

/-- Both paths close the demo accounts. -/
theorem chunk_agrees_with_items_demo : ∃ s₁, Alone (processBatchChunkTx testEnvironment "run"
      demoSnapshots [("USD", demoData.interestRevenueLedgerAccountId)]) demoRunStore (.ok ((), s₁)) ∧
    Concludes (server testEnvironment) Store.Fresh
      (processInTurn testEnvironment "run" (demoSnapshots.map (·.id))) demoRunStore
      fun _ s₂ => s₁.batchRunItems.rows = s₂.batchRunItems.rows := by
  obtain ⟨_, s₁, hchunk, -⟩ := (processBatchChunk_succeeds demoRunStore_closable
    (by decide +kernel)).exists_result exists_fresh
  refine ⟨s₁, hchunk, (chunk_agrees_with_items demoRunStore_closable hchunk).mono ?_⟩
  rintro _ s₂ ⟨-, rows, -, ⟨⟨e, he⟩, -⟩ | ⟨s', rows₁, ho, -, -, -, hitems, -⟩⟩
  · cases he
  · cases ho
    exact hitems

end BatchService

end LedgerCredit
