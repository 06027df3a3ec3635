import LedgerCredit.Txn.Schedule
import LedgerCredit.Transfers
import LedgerCredit.Batch

/-!
# Services

The processes behind the public methods of the services: what they do between
and around their transactions.  A Prisma call outside of a transaction commits
on its own, and is the transaction `Label.statement`.

`server` is the system of all of them.  A call to it may be started at any time,
also the calls that the job queue makes.
-/

namespace LedgerCredit

open Txn

/-- The transactions of the services. -/
inductive Label : Type → Type 1 where
  | createTransfer (args : CreateTransferArgs) : Label TransferMutationResult
  | applyNormalizedEvent (event : NormalizedExternalRailEvent) : Label TransferRequest
  | processBatchChunk (batchRunId : Uuid) (accounts : List BatchAccountSnapshot)
      (interestRevenueAccountIds : List (String × Uuid)) : Label Unit
  | processBatchItem (batchRunId accountId : Uuid) : Label Unit
  | statement {α : Type} (q : Stmt α) : Label α

/-- The body of a transaction. -/
def Label.body (env : Env) {α : Type} : Label α → Transaction α
  | .createTransfer args => TransfersService.createTransferTx env args
  | .applyNormalizedEvent event => ExternalRailService.applyNormalizedEventTx env event
  | .processBatchChunk batchRunId accounts interestRevenueAccountIds =>
      BatchService.processBatchChunkTx env batchRunId accounts interestRevenueAccountIds
  | .processBatchItem batchRunId accountId =>
      BatchService.processBatchItemTx env batchRunId accountId
  | .statement q => Tx.send q

/-- A process of the services; the items of its pools are account ids. -/
abbrev Process (α : Type) := Proc Label TxError Uuid α

/-- A Prisma call outside of a transaction. -/
def statement {α : Type} (q : Stmt α) : Process α := .transaction (.statement q)

/-- `crypto.randomUUID()`. -/
def randomUUID : Process Uuid := do
  let uuid ← statement .randomUUIDs
  return uuid 0

/-- An error thrown outside of a transaction. -/
def throwing {α : Type} (e : AppException) : Process α := .throw (.app e)

/-- The value of a computation that may throw an `AppException`. -/
def Process.ofExcept {α : Type} : Except AppException α → Process α
  | .ok a => .pure a
  | .error e => throwing e

/-- `AuditService.record`. -/
def auditRecord (context : RequestContext) (input : AuditRecordInput) : Process Unit :=
  statement (.createAuditEvent (auditData context input))

/-! ## External rails -/

namespace ExternalRailService

/-- `loadTransferOrThrow`, which fills in the provider. -/
def loadTransferOrThrow (env : Env) (transferRequestId : Uuid) :
    Process (TransferRequest × String) := do
  let transfer ← statement (.findTransferRequest transferRequestId)
  match transfer with
  | some found =>
      return (found.transfer,
        found.transfer.externalRailProvider.getD env.externalRailDefaultProvider)
  | none => throwing ⟨404, "transfer_not_found", "Transfer request was not found."⟩

/-- `applyNormalizedEvent`: the transaction, and then the audit event. -/
def applyNormalizedEvent (event : NormalizedExternalRailEvent) : Process TransferResponse := do
  let transfer ← Proc.transaction (.applyNormalizedEvent event)
  let correlationId ← match transfer.correlationId with
    | some correlationId => pure correlationId
    | none => randomUUID
  auditRecord
    { correlationId
      idempotencyKey := some transfer.idempotencyKey
      actor := some ⟨"external-rail:" ++ event.provider, .system⟩ }
    ⟨mapAuditAction event.eventType transfer.status, "transfer_request", transfer.id⟩
  return mapTransferResponse transfer

/-- The loop of `processQueuedSubmission` over the events of the adapter. -/
def applyEvents : List NormalizedExternalRailEvent → Process Unit
  | [] => return ()
  | event :: events => do
      let _ ← applyNormalizedEvent event
      applyEvents events

/-- `processQueuedSubmission`, the handler of `external-transfer.submit`. -/
def processQueuedSubmission (env : Env) (transferRequestId : Uuid) : Process Unit := do
  let (transfer, provider) ← loadTransferOrThrow env transferRequestId
  if transfer.status ≠ .pendingExternal then return ()
  else
    let adapter ← Process.ofExcept (ExternalRailRegistry.get provider)
    let forAdapter ← Process.ofExcept (mapTransferForAdapter transfer)
    applyEvents (adapter.submitTransfer forAdapter)

/-- `enqueueTransferSubmission`.  In test mode `JobsService.publish` runs the handler itself. -/
def enqueueTransferSubmission (env : Env) (transferRequestId : Uuid) : Process Unit :=
  if env.nodeEnv = .test then processQueuedSubmission env transferRequestId
  else statement (.publishJob ⟨transferRequestId⟩)

/-- `reconcileTransfer`. -/
def reconcileTransfer (env : Env) (transferRequestId : Uuid) (context : RequestContext) :
    Process TransferResponse := do
  let (transfer, provider) ← loadTransferOrThrow env transferRequestId
  let adapter ← Process.ofExcept (ExternalRailRegistry.get provider)
  let forAdapter ← Process.ofExcept (mapTransferForAdapter transfer)
  match adapter.reconcileTransfer forAdapter with
  | some event =>
      let _ ← applyNormalizedEvent event
  | none => pure ()
  auditRecord context ⟨"transfer.reconciled", "transfer_request", transferRequestId⟩
  let (updated, updatedProvider) ← loadTransferOrThrow env transferRequestId
  return mapTransferResponse { updated with externalRailProvider := some updatedProvider }

/-- `redriveTransfer`. -/
def redriveTransfer (env : Env) (transferRequestId : Uuid) (context : RequestContext) :
    Process Unit := do
  let (transfer, _) ← loadTransferOrThrow env transferRequestId
  if transfer.status ≠ .pendingExternal then
    throwing ⟨409, "transfer_not_redriveable",
      "Only transfers pending an external rail outcome may be re-driven."⟩
  else
    enqueueTransferSubmission env transferRequestId
    auditRecord context ⟨"transfer.redriven", "transfer_request", transferRequestId⟩

end ExternalRailService

/-! ## Transfers -/

namespace TransfersService

/-- What `createTransfer` checks and computes before its transaction. -/
def transferArgs (env : Env) (input : CreateTransferRequest) (context : RequestContext) :
    Except AppException CreateTransferArgs := do
  assertAuthenticated context
  let idempotencyKey ← match truthy context.idempotencyKey with
    | some key => .ok key
    | none => .error ⟨400, "missing_idempotency_key", "Idempotency-Key header is required."⟩
  if input.amount.currency ∉ env.supportedCurrencies then
    .error ⟨422, "unsupported_currency",
      "Unsupported currency " ++ input.amount.currency ++ "."⟩
  let externalRailProvider ← match input.destination with
    | .externalBank provider .. =>
        (ExternalRailRegistry.get (provider.getD env.externalRailDefaultProvider)).map
          fun adapter => some adapter.provider
    | .internalAccount _ => .ok none
  return { input, context, idempotencyKey
           requestHash := env.hashRequestPayload input
           externalRailProvider }

/-- `createTransfer`. -/
def createTransfer (env : Env) (input : CreateTransferRequest) (context : RequestContext) :
    Process Replay := do
  let args ← Process.ofExcept (transferArgs env input context)
  let transactionalResult ← Proc.transaction (.createTransfer args)
  match truthy transactionalResult.enqueueTransferId with
  | some id => ExternalRailService.enqueueTransferSubmission env id
  | none => pure ()
  return ⟨transactionalResult.statusCode, transactionalResult.body⟩

end TransfersService

/-! ## The interest batch -/

namespace BatchService

/-- `processBatchItem`, which marks the item as failed when its transaction throws. -/
def processBatchItem (env : Env) (batchRunId accountId : Uuid) : Process Unit :=
  (Proc.transaction (.processBatchItem batchRunId accountId)).orElse fun error =>
    statement (.updateBatchRunItemOf batchRunId "account" accountId
      { status := .failed, lastError := some (some (env.message error)) })

/-- `processBatchItems`: the worker pool.  Ids are never empty, so the test for a false id in the
loop of the workers does nothing. -/
def processBatchItems (env : Env) (batchRunId : Uuid) (accountIds : List Uuid) : Process Unit :=
  if accountIds.length = 0 then return ()
  else Proc.pool (getWorkerConcurrency env) accountIds (processBatchItem env batchRunId)

/-- The loop of `loadInterestRevenueAccounts` that looks for a missing currency. -/
def missingCurrency (entries : List (String × Uuid)) (currencies : List String) : Option String :=
  currencies.find? fun c => (mapGet entries c).isNone

/-- `loadInterestRevenueAccounts`, as the entries of the map it returns. -/
def loadInterestRevenueAccounts (currencies : List String) : Process (List (String × Uuid)) := do
  let ledgerAccounts ← statement
    (.findLedgerAccountsIn .interestRevenue (uniqueCurrencies currencies))
  let accountIdsByCurrency := ledgerAccounts.map fun l => (l.currency, l.id)
  match missingCurrency accountIdsByCurrency (uniqueCurrencies currencies) with
  | some currency => throwing (missingRevenueAccount currency)
  | none => return accountIdsByCurrency

/-- The loop of `processBatchRunAccounts` over the chunks. -/
def processChunks (env : Env) (batchRunId : Uuid) (interestRevenueAccountIds : List (String × Uuid)) :
    List (List BatchAccountSnapshot) → Process Unit
  | [] => return ()
  | chunk :: rest => do
      (Proc.transaction (.processBatchChunk batchRunId chunk interestRevenueAccountIds)).orElse
        fun _ => processBatchItems env batchRunId (chunk.map (·.id))
      processChunks env batchRunId interestRevenueAccountIds rest

/-- `processBatchRunAccounts`. -/
def processBatchRunAccounts (env : Env) (batchRunId : Uuid) (accounts : List BatchAccountSnapshot) :
    Process Unit := do
  let processableAccounts := accounts.filter fun account => account.ledgerAccountId.isSome
  let fallbackAccountIds :=
    (accounts.filter fun account => account.ledgerAccountId.isNone).map (·.id)
  processBatchItems env batchRunId fallbackAccountIds
  if processableAccounts.length = 0 then return ()
  else
    let interestRevenueAccountIds ←
      loadInterestRevenueAccounts (processableAccounts.map (·.currency))
    processChunks env batchRunId interestRevenueAccountIds
      (chunks (chunkSize env) processableAccounts.length processableAccounts)

/-- The final status of a run. -/
def finalStatus (successCount failureCount : Nat) : BatchRunStatus :=
  if failureCount = 0 then .completed else if 0 < successCount then .partiallyFailed else .failed

/-- `runBatch`.  The three counts are sent together; they are answered in the order in which
they are listed. -/
def runBatch (env : Env) (triggeredBy : String) : Process Uuid := do
  let correlationId ← randomUUID
  let scheduledFor ← statement .newDate
  let startedAt ← statement .newDate
  let batchRun ← statement (.createBatchRun fun id =>
    { id
      batchType := "end-of-day-interest-close"
      status := .running
      scheduledFor
      startedAt := some startedAt
      completedAt := none
      processedCount := 0
      successCount := 0
      failureCount := 0
      failureSummary := none
      correlationId })
  let accounts ← statement .findActiveAccounts
  statement (.createBatchRunItems (itemData env batchRun.id accounts))
  processBatchRunAccounts env batchRun.id accounts
  let processedCount ← statement (.countBatchRunItems batchRun.id none)
  let successCount ← statement (.countBatchRunItems batchRun.id (some .completed))
  let failureCount ← statement (.countBatchRunItems batchRun.id (some .failed))
  let completedAt ← statement .newDate
  statement (.updateBatchRun batchRun.id
    { status := finalStatus successCount failureCount
      completedAt, processedCount, successCount, failureCount
      failureSummary := if 0 < failureCount then some failureCount else none })
  auditRecord
    { correlationId, idempotencyKey := none, actor := some ⟨triggeredBy, .system⟩ }
    ⟨"batch.completed", "batch_run", batchRun.id⟩
  return batchRun.id

/-- `retryFailedItems`, with the number of items it retried. -/
def retryFailedItems (env : Env) (batchRunId : Uuid) (context : RequestContext) :
    Process Nat := do
  let failedItems ← statement (.findBatchRunItems batchRunId .failed)
  if failedItems.length = 0 then return 0
  else
    processBatchItems env batchRunId (failedItems.map (·.resourceId))
    auditRecord context ⟨"batch.retry_requested", "batch_run", batchRunId⟩
    return failedItems.length

end BatchService

/-! ## The system -/

/-- A call of a service, by a request or by the job queue. -/
inductive Call where
  | createTransfer (input : CreateTransferRequest) (context : RequestContext)
  | applyNormalizedEvent (event : NormalizedExternalRailEvent)
  | processQueuedSubmission (transferRequestId : Uuid)
  | reconcileTransfer (transferRequestId : Uuid) (context : RequestContext)
  | redriveTransfer (transferRequestId : Uuid) (context : RequestContext)
  | runBatch (triggeredBy : String)
  | retryFailedItems (batchRunId : Uuid) (context : RequestContext)

/-- What a call returns. -/
inductive Reply where
  | done
  | created (r : Replay)
  | transfer (r : TransferResponse)
  | batchRun (id : Uuid)
  | retried (count : Nat)
  deriving DecidableEq

/-- The process of a call. -/
def Call.program (env : Env) : Call → Process Reply
  | .createTransfer input context => do
      let r ← TransfersService.createTransfer env input context
      return .created r
  | .applyNormalizedEvent event => do
      let r ← ExternalRailService.applyNormalizedEvent event
      return .transfer r
  | .processQueuedSubmission transferRequestId => do
      ExternalRailService.processQueuedSubmission env transferRequestId
      return .done
  | .reconcileTransfer transferRequestId context => do
      let r ← ExternalRailService.reconcileTransfer env transferRequestId context
      return .transfer r
  | .redriveTransfer transferRequestId context => do
      ExternalRailService.redriveTransfer env transferRequestId context
      return .done
  | .runBatch triggeredBy => do
      let id ← BatchService.runBatch env triggeredBy
      return .batchRun id
  | .retryFailedItems batchRunId context => do
      let n ← BatchService.retryFailedItems env batchRunId context
      return .retried n

/-- The services over their database. -/
def server (env : Env) : System Stmt Label TxError Store Write Choice Key Uuid Call Reply where
  toDatabase := database
  body := Label.body env
  program := Call.program env
  idle := .done

/-- A configuration of the services. -/
abbrev ServerConfig := Config Stmt Label TxError Store Write Uuid Call Reply

/-- Any schedule is allowed. -/
def anySchedule : ServerConfig → Action Choice Call → Bool := fun _ _ => true

end LedgerCredit
