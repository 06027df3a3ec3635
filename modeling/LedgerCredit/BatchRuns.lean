import LedgerCredit.LedgerRuns

/-!
# What the interest batch does

`ChunkRun` says what the transaction of `processBatchChunk` writes.  It marks the
items, writes the rows that it built, and marks the items again.  Where it built
no row it writes none, so the rows need no case of their own.  `ItemRun` says what
the transaction of `processBatchItem` can do.
-/

namespace LedgerCredit

open Txn

namespace BatchService

open LedgerService

variable {V : View} {env : Env}

/-! ## The rows of a chunk -/

/-- The interest of an account at the balance of its snapshot. -/
def snapshotInterest (env : Env) (account : BatchAccountSnapshot) : Int :=
  interest env (account.currentMinor.getD 0)

/-- The row of one account of a chunk. -/
def RowOf (env : Env) (batchRunId : Uuid) (interestRevenueAccountIds : List (String × Uuid))
    (effectiveAt : Time) (account : BatchAccountSnapshot) (row : InterestRows) : Prop :=
  ∃ uuid ledgerAccountId interestRevenueAccountId,
    account.ledgerAccountId = some ledgerAccountId ∧
    mapGet interestRevenueAccountIds account.currency = some interestRevenueAccountId ∧
    row = interestRows batchRunId effectiveAt uuid account ledgerAccountId interestRevenueAccountId
      (account.currentMinor.getD 0) (snapshotInterest env account)

/-- A chunk has one row for each account with interest, in the order of the accounts. -/
theorem chunkRows_forall {batchRunId : Uuid} {interestRevenueAccountIds : List (String × Uuid)}
    {effectiveAt : Time} {uuid : Nat → Uuid} {accounts : List BatchAccountSnapshot}
    {rows : List InterestRows}
    (h : chunkRows env batchRunId interestRevenueAccountIds effectiveAt uuid accounts = .ok rows) :
    List.Forall₂ (RowOf env batchRunId interestRevenueAccountIds effectiveAt)
      (accounts.filter fun account => 0 < snapshotInterest env account) rows := by
  induction accounts generalizing uuid rows with
  | nil =>
      cases h
      exact .nil
  | cons account rest ih =>
      simp only [chunkRows] at h
      split at h
      · cases h
      · rename_i ledgerAccountId hledger
        split at h
        · cases h
        · rename_i interestRevenueAccountId hrevenue
          cases hrest : chunkRows env batchRunId interestRevenueAccountIds effectiveAt
              (fun n => uuid (n + 4)) rest with
          | error e =>
              rw [hrest] at h
              cases h
          | ok built =>
              rw [hrest] at h
              cases h
              by_cases hpos : 0 < snapshotInterest env account
              · rw [List.filter_cons_of_pos (by simpa using hpos)]
                have hpos' : ¬ interest env (account.currentMinor.getD 0) ≤ 0 := not_le.mpr hpos
                simp only [hpos', if_false]
                exact .cons ⟨uuid, _, _, hledger, hrevenue, rfl⟩ (ih hrest)
              · rw [List.filter_cons_of_neg (by simpa using hpos)]
                have hpos' : interest env (account.currentMinor.getD 0) ≤ 0 := not_lt.mp hpos
                simp only [hpos', if_true]
                exact ih hrest

/-! ## The chunk -/

/-- The rows that a chunk writes. -/
def rowWrites (rows : List InterestRows) : List Write :=
  rows.map (.journalEntry ·.journalEntry) ++
    (rows.flatMap fun r => [.posting r.debit, .posting r.credit]) ++
    rows.map (.statementLine ·.statementLine) ++ rows.map (.balanceProjection ·.balance)

/-- What the transaction of `processBatchChunk` does. -/
structure ChunkRun (V : View) (env : Env) (batchRunId : Uuid)
    (accounts : List BatchAccountSnapshot) (interestRevenueAccountIds : List (String × Uuid))
    (ws : List Write) (effectiveAt : Time) (rows : List InterestRows)
    (running completed : List Write) : Prop where
  built : ∃ uuid,
    chunkRows env batchRunId interestRevenueAccountIds effectiveAt uuid accounts = .ok rows
  positive : ∀ row ∈ rows, 0 < row.debit.amountMinor ∧ 0 < row.credit.amountMinor
  distinct : (rows.map (·.balance.accountId)).Nodup
  marked : V [] ⟨.updateBatchRunItems batchRunId "account" (accounts.map (·.id))
    { status := .running, increment := 1 }, (), running⟩
  closed : V (running ++ rowWrites rows) ⟨.updateBatchRunItems batchRunId "account"
    (accounts.map (·.id)) { status := .completed, lastError := some none }, (), completed⟩
  writes : ws = running ++ rowWrites rows ++ completed

theorem writeRows_runs (hV : Answering V) {rows : List InterestRows} {p ws : List Write}
    {u : Unit} (hr : Runs V p (writeRows rows) ws u) :
    ws = rowWrites rows ∧ (rows.map (·.balance.accountId)).Nodup ∧
      ∀ row ∈ rows, 0 < row.debit.amountMinor ∧ 0 < row.credit.amountMinor := by
  unfold writeRows at hr
  split at hr
  · simp only [runs_bind, runs_send] at hr
    obtain ⟨_, _, hentries, _, rfl, _, _, hpostings, _, rfl, _, _, hlines, _, rfl, hbalances⟩ := hr
    obtain rfl := hV _ _ _ _ hentries
    obtain ⟨hpos, rfl⟩ := hV _ _ _ _ hpostings
    obtain rfl := hV _ _ _ _ hlines
    obtain ⟨hnodup, rfl⟩ := hV _ _ _ _ hbalances
    refine ⟨?_, by simpa [Function.comp_def] using hnodup, fun row hrow => ?_⟩
    · simp [rowWrites, List.map_flatMap, Function.comp_def]
    · exact ⟨hpos _ (List.mem_flatMap.mpr ⟨row, hrow, by simp⟩),
        hpos _ (List.mem_flatMap.mpr ⟨row, hrow, by simp⟩)⟩
  · rename_i hempty
    obtain ⟨rfl, -⟩ := runs_return.mp hr
    obtain rfl := List.length_eq_zero_iff.mp (Nat.eq_zero_of_not_pos hempty)
    simp [rowWrites]

/-- Everything the transaction of `processBatchChunk` can do. -/
theorem processBatchChunk_runs (hV : Answering V) {batchRunId : Uuid}
    {accounts : List BatchAccountSnapshot} {interestRevenueAccountIds : List (String × Uuid)}
    {ws : List Write} {u : Unit}
    (hr : Runs V [] (processBatchChunkTx env batchRunId accounts interestRevenueAccountIds) ws u) :
    ∃ effectiveAt rows running completed, ChunkRun V env batchRunId accounts
      interestRevenueAccountIds ws effectiveAt rows running completed := by
  simp only [processBatchChunkTx, runs_bind, runs_send, runs_ofExcept] at hr
  obtain ⟨_, effectiveAt, hnow, _, rfl, _, uuid, huuid, _, rfl, _, rows, ⟨rfl, hrows⟩, _, rfl,
    running, _, hrunning, _, rfl, _, _, hwritten, completed, rfl, hcompleted⟩ := hr
  obtain rfl := hV _ _ _ _ hnow
  obtain rfl := hV _ _ _ _ huuid
  simp only [List.append_nil, List.nil_append] at *
  obtain ⟨rfl, hdistinct, hpos⟩ := writeRows_runs hV hwritten
  exact ⟨effectiveAt, rows, running, completed, ⟨uuid, hrows⟩, hpos, hdistinct, hrunning,
    hcompleted, by simp⟩

/-! ## The item -/

/-- What the payment of an item does after `p`. -/
inductive InterestPaid (V : View) (env : Env) (batchRunId : Uuid) (account : Account)
    (ledgerAccount : LedgerAccount) (interestMinor : Int) (p : List Write) :
    List Write → Prop where
  | none : interestMinor ≤ 0 →
      InterestPaid V env batchRunId account ledgerAccount interestMinor p []
  | paid {revenue : LedgerAccount} {effectiveAt : Time} {amount : Money}
      {journalEntry : JournalEntry} {postings : List Posting} {ledgerAccounts : List LedgerAccount}
      {posted rest : List Write} :
      0 < interestMinor →
      V p ⟨.findFirstLedgerAccount .interestRevenue account.currency, some revenue, []⟩ →
      Money.fromMinorUnits env account.currency (.bigint interestMinor) = .ok amount →
      JournalPosted V (interestInput batchRunId effectiveAt account.id revenue.id ledgerAccount.id
        amount) p posted journalEntry postings ledgerAccounts rest →
      InterestPaid V env batchRunId account ledgerAccount interestMinor p posted

/-- The update of an item whose processing starts. -/
def runningUpdate : BatchRunItemUpdate := { status := .running, increment := 1 }

/-- The update of an item that was processed. -/
def completedUpdate : BatchRunItemUpdate := { status := .completed, lastError := some none }

/-- What the transaction of `processBatchItem` can do. -/
inductive ItemRun (V : View) (env : Env) (batchRunId accountId : Uuid) : List Write → Prop where
  | absent :
      V [] ⟨.findBatchRunItem batchRunId "account" accountId, none, []⟩ →
      ItemRun V env batchRunId accountId []
  | closed {item : BatchRunItem} :
      V [] ⟨.findBatchRunItem batchRunId "account" accountId, some item, []⟩ →
      item.status = .completed → ItemRun V env batchRunId accountId []
  | processed {item : BatchRunItem} {account : Account} {ledgerAccount : LedgerAccount}
      {b : Option BalanceProjection} {paid : List Write} :
      V [] ⟨.findBatchRunItem batchRunId "account" accountId, some item, []⟩ →
      item.status ≠ .completed →
      V [] ⟨.findAccountWithBalance accountId, some ⟨account, some ledgerAccount, b⟩, []⟩ →
      InterestPaid V env batchRunId account ledgerAccount (interest env (balanceOf b))
        [.updateBatchRunItem item.id runningUpdate] paid →
      ItemRun V env batchRunId accountId ([.updateBatchRunItem item.id runningUpdate] ++ paid ++
        [.updateBatchRunItem item.id completedUpdate])

theorem payInterest_runs (hV : Answering V) {batchRunId : Uuid} {account : Account}
    {ledgerAccount : LedgerAccount} {interestMinor : Int} {p ws : List Write} {u : Unit}
    (hr : Runs V p (payInterest env batchRunId account ledgerAccount interestMinor) ws u) :
    InterestPaid V env batchRunId account ledgerAccount interestMinor p ws := by
  unfold payInterest at hr
  split at hr
  · rename_i hpos
    simp only [runs_bind, runs_send, runs_ofExcept, runs_return] at hr
    obtain ⟨_, revenue, hrevenue, _, rfl, _, effectiveAt, hnow, _, rfl, _, amount, ⟨rfl, hmoney⟩, _,
      rfl, posted, _, hpost, _, rfl, rfl, -⟩ := hr
    obtain ⟨rfl, hfind⟩ := findSystemLedgerAccount_runs hV hrevenue
    obtain rfl := hV _ _ _ _ hnow
    simp only [List.append_nil, List.nil_append] at *
    obtain ⟨ledgerAccounts, rest, hposted⟩ := postJournalEntry_runs hV hpost
    exact .paid hpos hfind hmoney hposted
  · rename_i hpos
    obtain ⟨rfl, -⟩ := runs_return.mp hr
    exact .none (not_lt.mp hpos)

/-- Everything that the transaction does on an item that is not completed. -/
theorem processOpenItem_runs (hV : Answering V) {batchRunId accountId : Uuid} {item : BatchRunItem}
    {p ws : List Write} {u : Unit}
    (hr : Runs V p (processOpenItem env batchRunId accountId item) ws u) :
    ∃ account ledgerAccount b paid,
      V p ⟨.findAccountWithBalance accountId, some ⟨account, some ledgerAccount, b⟩, []⟩ ∧
      InterestPaid V env batchRunId account ledgerAccount (interest env (balanceOf b))
        (p ++ [.updateBatchRunItem item.id runningUpdate]) paid ∧
      ws = [.updateBatchRunItem item.id runningUpdate] ++ paid ++
        [.updateBatchRunItem item.id completedUpdate] := by
  simp only [processOpenItem, runs_bind, runs_send, orThrow, runs_require] at hr
  obtain ⟨_, found, hread, _, rfl, _, ⟨account, ledgerAccount⟩, ⟨rfl, hfound⟩, _, rfl, _, _,
    hrunning, _, rfl, paid, _, hpaid, _, rfl, hcompleted⟩ := hr
  obtain rfl := hV _ _ _ _ hread
  obtain rfl := hV _ _ _ _ hrunning
  obtain rfl := hV _ _ _ _ hcompleted
  obtain ⟨⟨a, lo, b⟩, rfl, hledger⟩ := Option.bind_eq_some_iff.mp hfound
  obtain ⟨l, rfl, heq⟩ := Option.map_eq_some_iff.mp hledger
  obtain ⟨rfl, rfl⟩ := Prod.mk.inj heq
  have hpaid' := payInterest_runs hV hpaid
  simp only [List.append_nil] at hpaid'
  exact ⟨a, l, b, paid, hread, hpaid', by simp [runningUpdate, completedUpdate]⟩

/-- Everything the transaction of `processBatchItem` can do. -/
theorem processBatchItem_runs (hV : Answering V) {batchRunId accountId : Uuid} {ws : List Write}
    {u : Unit} (hr : Runs V [] (processBatchItemTx env batchRunId accountId) ws u) :
    ItemRun V env batchRunId accountId ws := by
  simp only [processBatchItemTx, runs_bind, runs_send] at hr
  obtain ⟨_, item, hitem, _, rfl, hr⟩ := hr
  obtain rfl := hV _ _ _ _ hitem
  cases item with
  | none =>
      obtain ⟨rfl, -⟩ := runs_return.mp hr
      exact .absent hitem
  | some item =>
      split at hr
      · cases ‹some item = none›
      · rename_i item' heq
        obtain rfl := Option.some.inj heq
        split at hr
        · rename_i hclosed
          obtain ⟨rfl, -⟩ := runs_return.mp hr
          exact .closed hitem hclosed
        · rename_i hopen
          obtain ⟨account, ledgerAccount, b, paid, hread, hpaid, rfl⟩ := processOpenItem_runs hV hr
          exact .processed hitem hopen hread hpaid

end BatchService

end LedgerCredit
