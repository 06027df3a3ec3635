import LedgerCredit.Ledger

/-!
# The interest batch

Two transactions pay interest.  `processBatchChunk` builds the rows of a whole
chunk in memory, from balances that `runBatch` read before, and writes them with
a few statements.  `processBatchItem` handles one account: it looks at the item
and at the balance again and posts through the ledger service.
-/

namespace LedgerCredit

open Txn

namespace BatchService

/-- The operation type of interest entries. -/
def interestOperation : String := "END_OF_DAY_INTEREST"

/-- `(balanceMinor * interestRateBps) / 10_000n / 365n`, where `/` truncates. -/
def interest (env : Env) (balanceMinor : Int) : Int :=
  ((balanceMinor * env.interestRateBps).tdiv 10000).tdiv 365

/-- `getWorkerConcurrency`. -/
def getWorkerConcurrency (env : Env) : Nat :=
  match env.batchWorkerConcurrency with
  | none => 1
  | some configured => if configured < 1 then 1 else configured.floor.toNat

/-- The chunk size, and the divisor of shard keys. -/
def chunkSize (env : Env) : Nat := max 1 env.batchShardSize

/-- The chunks that the loop `for (offset = 0; offset < n; offset += size)` takes with `slice`. -/
def chunks {α : Type} (size : Nat) : Nat → List α → List (List α)
  | 0, _ => []
  | _ + 1, [] => []
  | n + 1, l => l.take size :: chunks size n (l.drop size)

/-- The item rows of a new run. -/
def itemData (env : Env) (batchRunId : Uuid) (accounts : List BatchAccountSnapshot) :
    List (Uuid → BatchRunItem) :=
  accounts.zipIdx.map fun p id =>
    { id, batchRunId
      resourceType := "account"
      resourceId := p.1.id
      shardKey := toString (p.2 / chunkSize env)
      status := .pending
      attemptCount := 0
      lastError := none }

/-- The error of a missing `INTEREST_REVENUE` account. -/
def missingRevenueAccount (currency : String) : AppException :=
  ⟨500, "system_ledger_account_missing",
    "Missing system ledger account for INTEREST_REVENUE/" ++ currency ++ "."⟩

/-- `[...new Set(currencies)]`. -/
def uniqueCurrencies (currencies : List String) : List String :=
  currencies.foldl (fun seen c => if c ∈ seen then seen else seen ++ [c]) []

/-! ## The chunk -/

/-- The rows that a chunk writes for one account. -/
structure InterestRows where
  journalEntry : JournalEntry
  debit : Posting
  credit : Posting
  statementLine : AccountStatementProjection
  balance : BalanceProjection

/-- The rows for an account, with the identifiers `uuid 0` to `uuid 3`. -/
def interestRows (batchRunId : Uuid) (effectiveAt : Time) (uuid : Nat → Uuid)
    (account : BatchAccountSnapshot) (ledgerAccountId interestRevenueAccountId : Uuid)
    (balanceMinor interestMinor : Int) : InterestRows where
  journalEntry :=
    { id := uuid 0
      transferRequestId := none
      batchRunId := some batchRunId
      effectiveAt
      sourceOperationType := interestOperation
      correlationId := some batchRunId
      idempotencyKey := none
      description := some ("Interest accrual for account " ++ account.id) }
  debit :=
    { id := uuid 1
      journalEntryId := uuid 0
      ledgerAccountId := interestRevenueAccountId
      amountMinor := interestMinor
      currency := account.currency
      direction := .debit }
  credit :=
    { id := uuid 2
      journalEntryId := uuid 0
      ledgerAccountId := ledgerAccountId
      amountMinor := interestMinor
      currency := account.currency
      direction := .credit }
  statementLine :=
    { id := uuid 3
      accountId := account.id
      journalEntryId := uuid 0
      postingId := uuid 2
      effectiveAt
      amountMinor := interestMinor
      currency := account.currency
      direction := .credit
      runningBalanceMinor := balanceMinor + interestMinor }
  balance :=
    { accountId := account.id
      currency := account.currency
      currentMinor := balanceMinor + interestMinor
      journalEntryId := some (uuid 0) }

/-- The loop of `processBatchChunk` that builds the rows.  Account `n` uses the identifiers
from `uuid (4 * n)` on. -/
def chunkRows (env : Env) (batchRunId : Uuid) (interestRevenueAccountIds : List (String × Uuid))
    (effectiveAt : Time) (uuid : Nat → Uuid) :
    List BatchAccountSnapshot → Except AppException (List InterestRows)
  | [] => .ok []
  | account :: rest =>
      match account.ledgerAccountId with
      | none => .error ⟨404, "account_not_found", "Batch item account was not found."⟩
      | some ledgerAccountId =>
          match mapGet interestRevenueAccountIds account.currency with
          | none => .error (missingRevenueAccount account.currency)
          | some interestRevenueAccountId =>
              let balanceMinor := account.currentMinor.getD 0
              let interestMinor := interest env balanceMinor
              (chunkRows env batchRunId interestRevenueAccountIds effectiveAt
                (fun n => uuid (n + 4)) rest).map fun rows =>
                  if interestMinor ≤ 0 then rows
                  else interestRows batchRunId effectiveAt uuid account ledgerAccountId
                    interestRevenueAccountId balanceMinor interestMinor :: rows

/-- The four statements of `processBatchChunk` that write the rows, if there are any. -/
def writeRows (rows : List InterestRows) : Transaction Unit :=
  if 0 < rows.length then do
    Tx.send (.createJournalEntries (rows.map (·.journalEntry)))
    Tx.send (.createPostings (rows.flatMap fun r => [r.debit, r.credit]))
    Tx.send (.createStatementLines (rows.map (·.statementLine)))
    Tx.send (.upsertBalanceProjections (rows.map (·.balance)))
  else return ()

/-- `processBatchChunk`.  The rows are built before its transaction starts; an error there
leaves no more behind than one inside. -/
def processBatchChunkTx (env : Env) (batchRunId : Uuid) (accounts : List BatchAccountSnapshot)
    (interestRevenueAccountIds : List (String × Uuid)) : Transaction Unit := do
  let effectiveAt ← Tx.send .newDate
  let uuid ← Tx.send .randomUUIDs
  let rows ← ofExcept
    (chunkRows env batchRunId interestRevenueAccountIds effectiveAt uuid accounts)
  Tx.send (.updateBatchRunItems batchRunId "account" (accounts.map (·.id))
    { status := .running, increment := 1 })
  writeRows rows
  Tx.send (.updateBatchRunItems batchRunId "account" (accounts.map (·.id))
    { status := .completed, lastError := some none })

/-! ## The item -/

/-- The input of the journal entry that pays interest to one account. -/
def interestInput (batchRunId : Uuid) (now : Time) (accountId revenue ledgerAccountId : Uuid)
    (amount : Money) : PostJournalEntryInput where
  batchRunId := some batchRunId
  effectiveAt := now
  sourceOperationType := interestOperation
  description := some ("Interest accrual for account " ++ accountId)
  correlationId := some batchRunId
  postings := [⟨revenue, .debit, amount⟩, ⟨ledgerAccountId, .credit, amount⟩]

/-- The payment of an item, if there is interest to pay. -/
def payInterest (env : Env) (batchRunId : Uuid) (account : Account)
    (ledgerAccount : LedgerAccount) (interestMinor : Int) : Transaction Unit :=
  if 0 < interestMinor then do
    let revenue ← LedgerService.findSystemLedgerAccount .interestRevenue account.currency
    let effectiveAt ← Tx.send .newDate
    let amount ← ofExcept (Money.fromMinorUnits env account.currency (.bigint interestMinor))
    let _ ← LedgerService.postJournalEntry
      (interestInput batchRunId effectiveAt account.id revenue.id ledgerAccount.id amount)
    return ()
  else return ()

/-- The transaction of `processBatchItem` on an item that is not completed. -/
def processOpenItem (env : Env) (batchRunId : Uuid) (accountId : Uuid) (batchItem : BatchRunItem) :
    Transaction Unit := do
  let found ← Tx.send (.findAccountWithBalance accountId)
  let (account, ledgerAccount) ← orThrow
    (found.bind fun account => account.ledgerAccount.map fun ledgerAccount =>
      (account, ledgerAccount))
    ⟨404, "account_not_found", "Batch item account was not found."⟩
  Tx.send (.updateBatchRunItem batchItem.id { status := .running, increment := 1 })
  let balanceMinor := (account.balanceProjection.map (·.currentMinor)).getD 0
  payInterest env batchRunId account.account ledgerAccount (interest env balanceMinor)
  Tx.send (.updateBatchRunItem batchItem.id { status := .completed, lastError := some none })

/-- The transaction of `processBatchItem`. -/
def processBatchItemTx (env : Env) (batchRunId : Uuid) (accountId : Uuid) : Transaction Unit := do
  let batchItem ← Tx.send (.findBatchRunItem batchRunId "account" accountId)
  match batchItem with
  | none => return ()
  | some batchItem =>
      if batchItem.status = .completed then return ()
      else processOpenItem env batchRunId accountId batchItem

end BatchService

end LedgerCredit
