import LedgerCredit.Txn.Table

/-!
# The database schema

The tables of the ledger, of transfers and of batch runs, with the columns that
the services read or write.  Unique indexes are fields of the tables.  Foreign
keys and check constraints are checked by statements, in the next module.

UUIDs are strings, a `BIGINT` is an integer, and a time is a number.  A `uuid` column
matches an id in either letter case, and gives it back in lower case.  Here ids are
compared as strings, so all of them are in that canonical form, those of requests
included.
-/

namespace LedgerCredit

open Txn

/-- A `uuid` value in its canonical form, in lower case. -/
abbrev Uuid := String

abbrev Time := Nat

/-! ## Enumerations -/

inductive AccountStatus where
  | active | blocked | closed
  deriving DecidableEq, Repr

inductive LedgerAccountCategory where
  | customer | cash | clearing | externalSettlement | interestRevenue | internalSuspense
  deriving DecidableEq, Repr

/-- The name of a category, as it stands in error messages. -/
def LedgerAccountCategory.name : LedgerAccountCategory → String
  | .customer => "CUSTOMER"
  | .cash => "CASH"
  | .clearing => "CLEARING"
  | .externalSettlement => "EXTERNAL_SETTLEMENT"
  | .interestRevenue => "INTEREST_REVENUE"
  | .internalSuspense => "INTERNAL_SUSPENSE"

/-- `PostingDirection` and `NormalBalanceDirection`, which are compared with each other. -/
inductive Direction where
  | debit | credit
  deriving DecidableEq, Repr

inductive TransferType where
  | internal | interbank
  deriving DecidableEq, Repr

inductive TransferStatus where
  | received | validated | pendingLedger | pendingExternal | settled | failed | compensated
  | cancelled
  deriving DecidableEq, Repr

inductive IdempotencyStatus where
  | inProgress | succeeded | failed
  deriving DecidableEq, Repr

inductive ExternalTransferEventType where
  | submitted | acknowledged | settled | failed | compensated
  deriving DecidableEq, Repr

inductive BatchRunStatus where
  | scheduled | running | partiallyFailed | completed | failed | cancelled
  deriving DecidableEq, Repr

inductive BatchRunItemStatus where
  | pending | running | completed | failed
  deriving DecidableEq, Repr

inductive ActorType where
  | customer | ops | analyst | auditor | admin | system | apiClient
  deriving DecidableEq, Repr

/-! ## Rows -/

structure Account where
  id : Uuid
  customerId : Uuid
  currency : String
  status : AccountStatus
  deriving DecidableEq, Repr

structure LedgerAccount where
  id : Uuid
  accountId : Option Uuid
  category : LedgerAccountCategory
  currency : String
  normalBalanceDirection : Direction
  deriving DecidableEq, Repr

structure JournalEntry where
  id : Uuid
  transferRequestId : Option Uuid
  batchRunId : Option Uuid
  effectiveAt : Time
  sourceOperationType : String
  correlationId : Option String
  idempotencyKey : Option String
  description : Option String
  deriving DecidableEq, Repr

structure Posting where
  id : Uuid
  journalEntryId : Uuid
  ledgerAccountId : Uuid
  amountMinor : Int
  currency : String
  direction : Direction
  deriving DecidableEq, Repr

structure BalanceProjection where
  accountId : Uuid
  currency : String
  currentMinor : Int
  journalEntryId : Option Uuid
  deriving DecidableEq, Repr

structure AccountStatementProjection where
  id : Uuid
  accountId : Uuid
  journalEntryId : Uuid
  postingId : Uuid
  effectiveAt : Time
  amountMinor : Int
  currency : String
  direction : Direction
  runningBalanceMinor : Int
  deriving DecidableEq, Repr

structure TransferRequest where
  id : Uuid
  transferType : TransferType
  status : TransferStatus
  sourceAccountId : Uuid
  destinationAccountId : Option Uuid
  destinationExternalBankCode : Option String
  destinationExternalAccountNumber : Option String
  destinationExternalAccountName : Option String
  amountMinor : Int
  currency : String
  idempotencyKey : String
  requestHash : String
  correlationId : Option String
  externalRailProvider : Option String
  externalReference : Option String
  failureReason : Option String
  createdAt : Time
  settledAt : Option Time
  deriving DecidableEq, Repr

/-- A stored response body: `{ data: { transferRequestId, status, correlationId } }`. -/
inductive ResponseBody where
  | transfer (transferRequestId : Uuid) (status : TransferStatus) (correlationId : Option String)
  deriving DecidableEq, Repr

structure IdempotencyRecord where
  id : Uuid
  key : String
  operationType : String
  requestHash : String
  status : IdempotencyStatus
  responseStatusCode : Option Nat
  responseBody : Option ResponseBody
  resourceType : Option String
  resourceId : Option String
  deriving DecidableEq, Repr

structure ExternalTransferEvent where
  id : Uuid
  transferRequestId : Uuid
  provider : String
  providerEventId : Option String
  eventType : ExternalTransferEventType
  processedAt : Option Time
  deriving DecidableEq, Repr

structure AuditEvent where
  id : Uuid
  actorType : ActorType
  actorId : Option String
  actionType : String
  resourceType : String
  resourceId : String
  correlationId : Option String
  idempotencyKey : Option String
  deriving DecidableEq, Repr

structure BatchRun where
  id : Uuid
  batchType : String
  status : BatchRunStatus
  scheduledFor : Time
  startedAt : Option Time
  completedAt : Option Time
  processedCount : Nat
  successCount : Nat
  failureCount : Nat
  /-- `failureSummary.failedItems`. -/
  failureSummary : Option Nat
  correlationId : String
  deriving DecidableEq, Repr

structure BatchRunItem where
  id : Uuid
  batchRunId : Uuid
  resourceType : String
  resourceId : String
  shardKey : String
  status : BatchRunItemStatus
  attemptCount : Nat
  lastError : Option String
  deriving DecidableEq, Repr

/-- A published `external-transfer.submit` job. -/
structure SubmitJob where
  transferRequestId : Uuid
  deriving DecidableEq, Repr

/-! ## The store -/

/-- The committed contents of the database, and the published jobs. -/
structure Store where
  accounts : Table Account (·.id) fun _ => (none : Option Unit)
  ledgerAccounts : Table LedgerAccount (·.id) (·.accountId)
  journalEntries : Table JournalEntry (·.id) fun _ => (none : Option Unit)
  postings : Table Posting (·.id) fun _ => (none : Option Unit)
  balanceProjections : Table BalanceProjection (·.accountId) fun _ => (none : Option Unit)
  statementLines : Table AccountStatementProjection (·.id) fun l => some l.postingId
  transferRequests : Table TransferRequest (·.id) fun t => some t.idempotencyKey
  idempotencyRecords : Table IdempotencyRecord (·.id) fun r => some (r.operationType, r.key)
  externalEvents : Table ExternalTransferEvent (·.id)
    fun e => e.providerEventId.map fun x => (e.provider, x)
  auditEvents : Table AuditEvent (·.id) fun _ => (none : Option Unit)
  batchRuns : Table BatchRun (·.id) fun _ => (none : Option Unit)
  batchRunItems : Table BatchRunItem (·.id)
    fun i => some (i.batchRunId, i.resourceType, i.resourceId)
  jobs : List SubmitJob

namespace Store

/-- A store with accounts, their ledger accounts and balances, and nothing else. -/
def opening (accounts : Table Account (·.id) fun _ => (none : Option Unit))
    (ledgerAccounts : Table LedgerAccount (·.id) (·.accountId))
    (balanceProjections : Table BalanceProjection (·.accountId) fun _ => (none : Option Unit)) :
    Store where
  accounts := accounts
  ledgerAccounts := ledgerAccounts
  journalEntries := .empty
  postings := .empty
  balanceProjections := balanceProjections
  statementLines := .empty
  transferRequests := .empty
  idempotencyRecords := .empty
  externalEvents := .empty
  auditEvents := .empty
  batchRuns := .empty
  batchRunItems := .empty
  jobs := []

/-- The ledger account of an account (`include: { ledgerAccount: true }`). -/
def ledgerAccountOf (s : Store) (accountId : Uuid) : Option LedgerAccount :=
  s.ledgerAccounts.find? accountId

end Store

end LedgerCredit
