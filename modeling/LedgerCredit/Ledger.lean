import LedgerCredit.Common

/-!
# The ledger service

`postJournalEntry` checks that the postings balance in one currency and that
their ledger accounts exist, creates the entry, and then handles one posting
after another: it creates the posting, and if the ledger account belongs to a
customer account it reads the balance projection, computes the running balance
and writes it to the projection and to a statement line.
-/

namespace LedgerCredit

open Txn

structure LedgerPostingInput where
  ledgerAccountId : Uuid
  direction : Direction
  amount : Money
  deriving DecidableEq, Repr

structure PostJournalEntryInput where
  transferRequestId : Option Uuid := none
  batchRunId : Option Uuid := none
  effectiveAt : Time
  sourceOperationType : String
  description : Option String := none
  correlationId : Option String := none
  idempotencyKey : Option String := none
  postings : List LedgerPostingInput

namespace LedgerService

/-- `computeBalanceEffect`. -/
def computeBalanceEffect (postingDirection normalBalanceDirection : Direction)
    (amountMinor : Int) : Int :=
  if postingDirection = normalBalanceDirection then amountMinor else -amountMinor

/-- The sum of the postings in one direction. -/
def total (direction : Direction) (postings : List LedgerPostingInput) : Int :=
  ((postings.filter (·.direction = direction)).map (·.amount.minorUnits)).sum

/-- The row that `journalEntry.create` gets. -/
def journalEntryData (input : PostJournalEntryInput) (id : Uuid) : JournalEntry where
  id := id
  transferRequestId := truthy input.transferRequestId
  batchRunId := truthy input.batchRunId
  effectiveAt := input.effectiveAt
  sourceOperationType := input.sourceOperationType
  correlationId := truthy input.correlationId
  idempotencyKey := truthy input.idempotencyKey
  description := truthy input.description

/-- The row that `posting.create` gets. -/
def postingData (journalEntry : JournalEntry) (input : LedgerPostingInput) (id : Uuid) :
    Posting where
  id := id
  journalEntryId := journalEntry.id
  ledgerAccountId := input.ledgerAccountId
  amountMinor := input.amount.minorUnits
  currency := input.amount.currency
  direction := input.direction

/-- The row that `balanceProjection.upsert` gets. -/
def balanceData (journalEntry : JournalEntry) (posting : Posting) (accountId : Uuid)
    (runningBalance : Int) : BalanceProjection where
  accountId := accountId
  currency := posting.currency
  currentMinor := runningBalance
  journalEntryId := some journalEntry.id

/-- The row that `accountStatementProjection.create` gets. -/
def statementLineData (journalEntry : JournalEntry) (posting : Posting) (accountId : Uuid)
    (runningBalance : Int) (id : Uuid) : AccountStatementProjection where
  id := id
  accountId := accountId
  journalEntryId := journalEntry.id
  postingId := posting.id
  effectiveAt := journalEntry.effectiveAt
  amountMinor := posting.amountMinor
  currency := posting.currency
  direction := posting.direction
  runningBalanceMinor := runningBalance

/-- `ledgerAccountMap.get(ledgerAccountId)` and its `accountId`, if it has one. -/
def customerAccount (ledgerAccounts : List LedgerAccount) (ledgerAccountId : Uuid) :
    Option (LedgerAccount × Uuid) :=
  (mapGet (ledgerAccounts.map fun l => (l.id, l)) ledgerAccountId).bind fun l =>
    l.accountId.map fun accountId => (l, accountId)

/-- One turn of the loop over the postings. -/
def postPosting (ledgerAccounts : List LedgerAccount) (journalEntry : JournalEntry)
    (postingInput : LedgerPostingInput) : Transaction Posting := do
  let posting ← Tx.send (.createPosting (postingData journalEntry postingInput))
  match customerAccount ledgerAccounts posting.ledgerAccountId with
  | none => return posting
  | some (ledgerAccount, accountId) =>
      let existingProjection ← Tx.send (.findBalanceProjection accountId)
      let effect := computeBalanceEffect posting.direction ledgerAccount.normalBalanceDirection
        posting.amountMinor
      let runningBalance := (existingProjection.map (·.currentMinor)).getD 0 + effect
      Tx.send (.upsertBalanceProjection (balanceData journalEntry posting accountId runningBalance))
      Tx.send (.createStatementLine (statementLineData journalEntry posting accountId runningBalance))
      return posting

/-- The loop over the postings. -/
def postPostings (ledgerAccounts : List LedgerAccount) (journalEntry : JournalEntry) :
    List LedgerPostingInput → Transaction (List Posting)
  | [] => return []
  | postingInput :: rest => do
      let posting ← postPosting ledgerAccounts journalEntry postingInput
      let postings ← postPostings ledgerAccounts journalEntry rest
      return posting :: postings

/-- `LedgerService.postJournalEntry`. -/
def postJournalEntry (input : PostJournalEntryInput) :
    Transaction (JournalEntry × List Posting) := do
  assert (2 ≤ input.postings.length)
    ⟨422, "invalid_postings", "A journal entry must contain at least two postings."⟩
  let currency := input.postings.head?.map (·.amount.currency)
  assert (total .debit input.postings = total .credit input.postings)
    ⟨422, "unbalanced_journal_entry", "Debit and credit totals must match exactly."⟩
  assert (input.postings.all fun p => some p.amount.currency = currency)
    ⟨422, "currency_mismatch", "All postings in a journal entry must share the same currency."⟩
  let ledgerAccounts ← Tx.send (.findLedgerAccounts (input.postings.map (·.ledgerAccountId)))
  assert (ledgerAccounts.length = input.postings.length)
    ⟨422, "missing_ledger_account", "At least one ledger account does not exist."⟩
  let journalEntry ← Tx.send (.createJournalEntry (journalEntryData input))
  let postings ← postPostings ledgerAccounts journalEntry input.postings
  return (journalEntry, postings)

/-- `LedgerService.findSystemLedgerAccount`. -/
def findSystemLedgerAccount (category : LedgerAccountCategory) (currency : String) :
    Transaction LedgerAccount := do
  let ledgerAccount ← Tx.send (.findFirstLedgerAccount category currency)
  orThrow ledgerAccount ⟨500, "system_ledger_account_missing",
    "Missing system ledger account for " ++ category.name ++ "/" ++ currency ++ "."⟩

end LedgerService

end LedgerCredit
