import LedgerCredit.Schema
import LedgerCredit.Txn.Database

/-!
# Writes

What a statement can change: rows are inserted, some are updated in some
columns, a balance projection is put in place of the one before, and a job is
published.  No write changes a journal entry or a posting, as the append-only
triggers demand, and no update touches a key.

A write locks the keys it adds and the row it changes.  `violation` is the first
constraint a write breaks: a taken key, a missing row, a number outside
`BIGINT`, or the check that an amount is positive.
-/

namespace LedgerCredit

open Txn

/-! ## Updates -/

/-- The `data` of a `transferRequest.update`; an absent column is left alone. -/
structure TransferRequestUpdate where
  status : Option TransferStatus := none
  externalRailProvider : Option String := none
  externalReference : Option String := none
  failureReason : Option String := none
  settledAt : Option Time := none
  deriving DecidableEq, Repr

def TransferRequestUpdate.apply (d : TransferRequestUpdate) (t : TransferRequest) :
    TransferRequest :=
  { t with
    status := d.status.getD t.status
    externalRailProvider := d.externalRailProvider.or t.externalRailProvider
    externalReference := d.externalReference.or t.externalReference
    failureReason := d.failureReason.or t.failureReason
    settledAt := d.settledAt.or t.settledAt }

@[simp] theorem TransferRequestUpdate.apply_id (d : TransferRequestUpdate) (t : TransferRequest) :
    (d.apply t).id = t.id := rfl

@[simp] theorem TransferRequestUpdate.apply_key (d : TransferRequestUpdate)
    (t : TransferRequest) : (d.apply t).idempotencyKey = t.idempotencyKey := rfl

@[simp] theorem TransferRequestUpdate.apply_status (d : TransferRequestUpdate)
    (t : TransferRequest) : (d.apply t).status = d.status.getD t.status := rfl

@[simp] theorem TransferRequestUpdate.apply_correlationId (d : TransferRequestUpdate)
    (t : TransferRequest) : (d.apply t).correlationId = t.correlationId := rfl

theorem TransferRequestUpdate.apply_uk (d : TransferRequestUpdate) (t : TransferRequest) :
    some (d.apply t).idempotencyKey = some t.idempotencyKey := rfl

/-- The `data` of an `idempotencyRecord.update`. -/
structure IdempotencyRecordUpdate where
  status : IdempotencyStatus
  responseStatusCode : Nat
  responseBody : ResponseBody
  resourceType : Option String := none
  resourceId : Option String := none
  deriving DecidableEq, Repr

def IdempotencyRecordUpdate.apply (d : IdempotencyRecordUpdate) (r : IdempotencyRecord) :
    IdempotencyRecord :=
  { r with
    status := d.status
    responseStatusCode := some d.responseStatusCode
    responseBody := some d.responseBody
    resourceType := d.resourceType.or r.resourceType
    resourceId := d.resourceId.or r.resourceId }

@[simp] theorem IdempotencyRecordUpdate.apply_id (d : IdempotencyRecordUpdate)
    (r : IdempotencyRecord) : (d.apply r).id = r.id := rfl

theorem IdempotencyRecordUpdate.apply_uk (d : IdempotencyRecordUpdate) (r : IdempotencyRecord) :
    some ((d.apply r).operationType, (d.apply r).key) = some (r.operationType, r.key) := rfl

/-- The `data` of the `batchRun.update` at the end of a run. -/
structure BatchRunUpdate where
  status : BatchRunStatus
  completedAt : Time
  processedCount : Nat
  successCount : Nat
  failureCount : Nat
  failureSummary : Option Nat := none
  deriving DecidableEq, Repr

def BatchRunUpdate.apply (d : BatchRunUpdate) (b : BatchRun) : BatchRun :=
  { b with
    status := d.status
    completedAt := some d.completedAt
    processedCount := d.processedCount
    successCount := d.successCount
    failureCount := d.failureCount
    failureSummary := d.failureSummary.or b.failureSummary }

@[simp] theorem BatchRunUpdate.apply_id (d : BatchRunUpdate) (b : BatchRun) :
    (d.apply b).id = b.id := rfl

/-- The `data` of a `batchRunItem` update; `lastError` may be set to null. -/
structure BatchRunItemUpdate where
  status : BatchRunItemStatus
  increment : Nat := 0
  lastError : Option (Option String) := none
  deriving DecidableEq, Repr

def BatchRunItemUpdate.apply (d : BatchRunItemUpdate) (i : BatchRunItem) : BatchRunItem :=
  { i with
    status := d.status
    attemptCount := i.attemptCount + d.increment
    lastError := d.lastError.getD i.lastError }

@[simp] theorem BatchRunItemUpdate.apply_id (d : BatchRunItemUpdate) (i : BatchRunItem) :
    (d.apply i).id = i.id := rfl

theorem BatchRunItemUpdate.apply_uk (d : BatchRunItemUpdate) (i : BatchRunItem) :
    some ((d.apply i).batchRunId, (d.apply i).resourceType, (d.apply i).resourceId) =
      some (i.batchRunId, i.resourceType, i.resourceId) := rfl

/-! ## Writes and what they do -/

inductive Write where
  | journalEntry (row : JournalEntry)
  | posting (row : Posting)
  | balanceProjection (row : BalanceProjection)
  | statementLine (row : AccountStatementProjection)
  | transferRequest (row : TransferRequest)
  | updateTransferRequest (id : Uuid) (data : TransferRequestUpdate)
  | idempotencyRecord (row : IdempotencyRecord)
  | updateIdempotencyRecord (id : Uuid) (data : IdempotencyRecordUpdate)
  | externalEvent (row : ExternalTransferEvent)
  | auditEvent (row : AuditEvent)
  | batchRun (row : BatchRun)
  | updateBatchRun (id : Uuid) (data : BatchRunUpdate)
  | batchRunItem (row : BatchRunItem)
  | updateBatchRunItem (id : Uuid) (data : BatchRunItemUpdate)
  | job (row : SubmitJob)
  deriving DecidableEq, Repr

/-- The store after a write. -/
def Write.apply (w : Write) (s : Store) : Store :=
  match w with
  | .journalEntry r => { s with journalEntries := s.journalEntries.insert r }
  | .posting r => { s with postings := s.postings.insert r }
  | .balanceProjection r =>
      { s with balanceProjections := s.balanceProjections.upsert r fun _ => rfl }
  | .statementLine r => { s with statementLines := s.statementLines.insert r }
  | .transferRequest r => { s with transferRequests := s.transferRequests.insert r }
  | .updateTransferRequest id d =>
      { s with transferRequests := s.transferRequests.modify id d.apply d.apply_id d.apply_uk }
  | .idempotencyRecord r => { s with idempotencyRecords := s.idempotencyRecords.insert r }
  | .updateIdempotencyRecord id d =>
      { s with
        idempotencyRecords := s.idempotencyRecords.modify id d.apply d.apply_id d.apply_uk }
  | .externalEvent r => { s with externalEvents := s.externalEvents.insert r }
  | .auditEvent r => { s with auditEvents := s.auditEvents.insert r }
  | .batchRun r => { s with batchRuns := s.batchRuns.insert r }
  | .updateBatchRun id d =>
      { s with batchRuns := s.batchRuns.modify id d.apply d.apply_id fun _ => rfl }
  | .batchRunItem r => { s with batchRunItems := s.batchRunItems.insert r }
  | .updateBatchRunItem id d =>
      { s with batchRunItems := s.batchRunItems.modify id d.apply d.apply_id d.apply_uk }
  | .job j => { s with jobs := s.jobs ++ [j] }

/-! ## Keys and constraints -/

inductive TableName where
  | account | ledgerAccount | journalEntry | posting | balanceProjection | statementLine
  | transferRequest | idempotencyRecord | externalEvent | auditEvent | batchRun | batchRunItem
  deriving DecidableEq, Repr

/-- Primary keys, and the other unique indexes that a write can touch. -/
inductive Key where
  | row (table : TableName) (id : Uuid)
  | statementLinePosting (postingId : Uuid)
  | transferIdempotencyKey (key : String)
  | idempotencyKey (operationType key : String)
  | providerEvent (provider providerEventId : String)
  | batchRunItem (batchRunId : Uuid) (resourceType resourceId : String)
  deriving DecidableEq, Repr

/-- The keys of a store. -/
def Store.present (s : Store) : Key → Bool
  | .row .account id => (s.accounts.get? id).isSome
  | .row .ledgerAccount id => (s.ledgerAccounts.get? id).isSome
  | .row .journalEntry id => (s.journalEntries.get? id).isSome
  | .row .posting id => (s.postings.get? id).isSome
  | .row .balanceProjection _ => true
  | .row .statementLine id => (s.statementLines.get? id).isSome
  | .row .transferRequest id => (s.transferRequests.get? id).isSome
  | .row .idempotencyRecord id => (s.idempotencyRecords.get? id).isSome
  | .row .externalEvent id => (s.externalEvents.get? id).isSome
  | .row .auditEvent id => (s.auditEvents.get? id).isSome
  | .row .batchRun id => (s.batchRuns.get? id).isSome
  | .row .batchRunItem id => (s.batchRunItems.get? id).isSome
  | .statementLinePosting p => (s.statementLines.find? p).isSome
  | .transferIdempotencyKey k => (s.transferRequests.find? k).isSome
  | .idempotencyKey o k => (s.idempotencyRecords.find? (o, k)).isSome
  | .providerEvent p e => (s.externalEvents.find? (p, e)).isSome
  | .batchRunItem b t r => (s.batchRunItems.find? (b, t, r)).isSome

namespace Write

/-- The unique keys a write adds.  An upsert adds none: it takes the row as it is. -/
def adds : Write → List Key
  | .journalEntry r => [.row .journalEntry r.id]
  | .posting r => [.row .posting r.id]
  | .balanceProjection _ => []
  | .statementLine r => [.row .statementLine r.id, .statementLinePosting r.postingId]
  | .transferRequest r => [.row .transferRequest r.id, .transferIdempotencyKey r.idempotencyKey]
  | .updateTransferRequest .. => []
  | .idempotencyRecord r => [.row .idempotencyRecord r.id, .idempotencyKey r.operationType r.key]
  | .updateIdempotencyRecord .. => []
  | .externalEvent r =>
      .row .externalEvent r.id :: (r.providerEventId.map (.providerEvent r.provider)).toList
  | .auditEvent r => [.row .auditEvent r.id]
  | .batchRun r => [.row .batchRun r.id]
  | .updateBatchRun .. => []
  | .batchRunItem r =>
      [.row .batchRunItem r.id, .batchRunItem r.batchRunId r.resourceType r.resourceId]
  | .updateBatchRunItem .. => []
  | .job _ => []

/-- The foreign keys of a write, and the row it updates. -/
def needs : Write → List Key
  | .journalEntry r =>
      (r.transferRequestId.map (.row .transferRequest)).toList ++
        (r.batchRunId.map (.row .batchRun)).toList
  | .posting r => [.row .journalEntry r.journalEntryId, .row .ledgerAccount r.ledgerAccountId]
  | .balanceProjection r => [.row .account r.accountId]
  | .statementLine r =>
      [.row .account r.accountId, .row .journalEntry r.journalEntryId, .row .posting r.postingId]
  | .transferRequest r =>
      .row .account r.sourceAccountId :: (r.destinationAccountId.map (.row .account)).toList
  | .updateTransferRequest id _ => [.row .transferRequest id]
  | .idempotencyRecord _ => []
  | .updateIdempotencyRecord id _ => [.row .idempotencyRecord id]
  | .externalEvent r => [.row .transferRequest r.transferRequestId]
  | .auditEvent _ => []
  | .batchRun _ => []
  | .updateBatchRun id _ => [.row .batchRun id]
  | .batchRunItem r => [.row .batchRun r.batchRunId]
  | .updateBatchRunItem id _ => [.row .batchRunItem id]
  | .job _ => []

/-- The keys a write locks until its transaction ends. -/
def locks : Write → List Key
  | .balanceProjection r => [.row .balanceProjection r.accountId]
  | .updateTransferRequest id _ => [.row .transferRequest id]
  | .updateIdempotencyRecord id _ => [.row .idempotencyRecord id]
  | .updateBatchRun id _ => [.row .batchRun id]
  | .updateBatchRunItem id _ => [.row .batchRunItem id]
  | w => w.adds

/-- The numbers a write stores in `BIGINT` columns. -/
def bigInts : Write → List Int
  | .posting r => [r.amountMinor]
  | .balanceProjection r => [r.currentMinor]
  | .statementLine r => [r.amountMinor, r.runningBalanceMinor]
  | .transferRequest r => [r.amountMinor]
  | _ => []

/-- `posting_amount_positive_check` and `transfer_request_amount_positive_check`. -/
def check : Write → Bool
  | .posting r => 0 < r.amountMinor
  | .transferRequest r => 0 < r.amountMinor
  | _ => true

end Write

/-- Why the database refuses a statement or ends a transaction. -/
inductive DatabaseError where
  | uniqueViolation | missingRow | outOfRange | checkViolation | cardinalityViolation | aborted
  deriving DecidableEq, Repr

/-- The range of `BIGINT`. -/
def inBigInt (n : Int) : Bool := -2 ^ 63 ≤ n && n < 2 ^ 63

namespace Store

/-- The first constraint a write breaks. -/
def violation (s : Store) (w : Write) : Option DatabaseError :=
  if w.adds.any s.present then some .uniqueViolation
  else if !w.needs.all s.present then some .missingRow
  else if !w.bigInts.all inBigInt then some .outOfRange
  else if !w.check then some .checkViolation
  else none

/-- The first constraint that some writes break, one after another. -/
def violations (s : Store) (ws : List Write) : Option DatabaseError :=
  Database.firstViolation violation Write.apply s ws

end Store

end LedgerCredit
