import LedgerCredit.ExternalRail

/-!
# Transfers

The transaction of `createTransfer`: the idempotency record, the checks on the
source account, the transfer, and then one of two endings.  An internal transfer
posts to the destination account and settles.  An external one posts to clearing,
waits for the rail and asks for its submission.
-/

namespace LedgerCredit

open Txn

structure TransferMutationResult where
  statusCode : Nat
  body : ResponseBody
  enqueueTransferId : Option Uuid := none
  deriving DecidableEq, Repr

/-- What `createTransfer` knows before its transaction. -/
structure CreateTransferArgs where
  input : CreateTransferRequest
  context : RequestContext
  idempotencyKey : String
  requestHash : String
  externalRailProvider : Option String

namespace TransfersService

/-- `provider.replace(/[^a-z0-9]+/g, "_")` on the characters of `provider`. -/
def referencePrefix : List Char → Bool → List Char
  | [], _ => []
  | c :: cs, replaced =>
      if c.isLower || c.isDigit then c :: referencePrefix cs false
      else if replaced then referencePrefix cs true
      else '_' :: referencePrefix cs true

/-- The external reference of a transfer. -/
def externalReference (provider : String) (transferId : Uuid) : String :=
  String.ofList (referencePrefix provider.toList false ++ '_' :: transferId.toList.take 8)

def transferType : Destination → TransferType
  | .internalAccount _ => .internal
  | .externalBank .. => .interbank

/-- The row that `transferRequest.create` gets. -/
def transferData (args : CreateTransferArgs) (sourceAccount : Account) (amount : Money)
    (id : Uuid) (createdAt : Time) : TransferRequest where
  id := id
  transferType := transferType args.input.destination
  status := .received
  sourceAccountId := sourceAccount.id
  destinationAccountId :=
    match args.input.destination with
    | .internalAccount accountId => some accountId
    | .externalBank .. => none
  destinationExternalBankCode :=
    match args.input.destination with
    | .internalAccount _ => none
    | .externalBank _ bankCode _ _ => some bankCode
  destinationExternalAccountNumber :=
    match args.input.destination with
    | .internalAccount _ => none
    | .externalBank _ _ accountNumber _ => some accountNumber
  destinationExternalAccountName :=
    match args.input.destination with
    | .internalAccount _ => none
    | .externalBank _ _ _ accountName => some accountName
  amountMinor := amount.minorUnits
  currency := amount.currency
  idempotencyKey := args.idempotencyKey
  requestHash := args.requestHash
  correlationId := some args.context.correlationId
  externalRailProvider :=
    match args.input.destination with
    -- the column has a default
    | .internalAccount _ => some "simulator"
    | .externalBank .. => args.externalRailProvider
  externalReference := none
  failureReason := none
  createdAt := createdAt
  settledAt := none

/-- The input of the journal entry of a new transfer. -/
def postingInput (args : CreateTransferArgs) (transferId : Uuid) (now : Time)
    (sourceOperationType : String) (source destination : Uuid) (amount : Money) :
    PostJournalEntryInput where
  transferRequestId := some transferId
  effectiveAt := now
  sourceOperationType := sourceOperationType
  description := args.input.purpose
  correlationId := some args.context.correlationId
  idempotencyKey := some args.idempotencyKey
  postings := [⟨source, .debit, amount⟩, ⟨destination, .credit, amount⟩]

/-- The update that leaves an external transfer to its rail. -/
def pendingExternalData (provider : String) (transferId : Uuid) : TransferRequestUpdate where
  status := some .pendingExternal
  externalRailProvider := some provider
  externalReference := some (externalReference provider transferId)

/-- The row of the submission event. -/
def submittedData (transferId : Uuid) (provider : String) (id : Uuid) : ExternalTransferEvent where
  id := id
  transferRequestId := transferId
  provider := provider
  providerEventId := some (transferId ++ ":submitted")
  eventType := .submitted
  processedAt := none

/-- The checks on the source account, up to the funds.  They yield the source account with its
ledger account, and the amount. -/
def checkSource (env : Env) (args : CreateTransferArgs) :
    Transaction (Account × LedgerAccount × Money) := do
  let found ← Tx.send (.findAccountWithBalance args.input.sourceAccountId)
  let (source, ledgerAccount) ← orThrow
    (found.bind fun source => source.ledgerAccount.map fun ledgerAccount => (source, ledgerAccount))
    ⟨404, "source_account_not_found", "Source account was not found."⟩
  ofExcept (assertCustomerOwnsResource args.context source.account.customerId)
  assert (source.account.status = .active)
    ⟨409, "source_account_inactive", "Source account is not active."⟩
  assert (source.account.currency = args.input.amount.currency)
    ⟨422, "currency_mismatch", "Transfer currency must match the source account currency."⟩
  let amount ← ofExcept
    (Money.fromMinorUnits env args.input.amount.currency (.number args.input.amount.minorUnits))
  assert (0 < amount.minorUnits)
    ⟨422, "invalid_amount", "Transfer amount must be positive."⟩
  let currentBalance := (source.balanceProjection.map (·.currentMinor)).getD 0
  assert (amount.minorUnits ≤ currentBalance)
    ⟨422, "insufficient_funds", "Source account does not have sufficient balance."⟩
  return (source.account, ledgerAccount, amount)

/-- The internal ending of `createTransfer`. -/
def createInternal (args : CreateTransferArgs) (recordId : Uuid) (sourceLedgerAccount : LedgerAccount)
    (amount : Money) (transfer : TransferRequest) (destinationId : Uuid) :
    Transaction TransferMutationResult := do
  let found ← Tx.send (.findAccountWithLedger destinationId)
  let (destination, ledgerAccount) ← orThrow
    (found.bind fun destination =>
      destination.ledgerAccount.map fun ledgerAccount => (destination.account, ledgerAccount))
    ⟨404, "destination_account_not_found", "Destination account was not found."⟩
  assert (destination.currency = amount.currency)
    ⟨422, "currency_mismatch", "Destination account currency must match the transfer currency."⟩
  let _ ← Tx.send (.updateTransferRequest transfer.id { status := some .pendingLedger })
  let effectiveAt ← Tx.send .newDate
  let _ ← LedgerService.postJournalEntry (postingInput args transfer.id effectiveAt
    "INTERNAL_TRANSFER" sourceLedgerAccount.id ledgerAccount.id amount)
  let settledAt ← Tx.send .newDate
  let settledTransfer ← Tx.send (.updateTransferRequest transfer.id
    { status := some .settled, settledAt := some settledAt })
  let responseBody :=
    .transfer settledTransfer.id settledTransfer.status settledTransfer.correlationId
  IdempotencyService.complete recordId 200 responseBody "transfer_request" settledTransfer.id
  recordInTransaction args.context ⟨"transfer.created", "transfer_request", settledTransfer.id⟩
  return { statusCode := 200, body := responseBody }

/-- The external ending of `createTransfer`. -/
def createExternal (env : Env) (args : CreateTransferArgs) (recordId : Uuid)
    (sourceLedgerAccount : LedgerAccount) (amount : Money) (transfer : TransferRequest) :
    Transaction TransferMutationResult := do
  let provider := args.externalRailProvider.getD env.externalRailDefaultProvider
  let clearing ← LedgerService.findSystemLedgerAccount .clearing amount.currency
  let _ ← Tx.send (.updateTransferRequest transfer.id (pendingExternalData provider transfer.id))
  let effectiveAt ← Tx.send .newDate
  let _ ← LedgerService.postJournalEntry (postingInput args transfer.id effectiveAt
    "INTERBANK_TRANSFER_INITIATED" sourceLedgerAccount.id clearing.id amount)
  Tx.send (.createExternalEvent (submittedData transfer.id provider))
  let responseBody := .transfer transfer.id .pendingExternal (some args.context.correlationId)
  IdempotencyService.complete recordId 202 responseBody "transfer_request" transfer.id
  recordInTransaction args.context ⟨"transfer.created", "transfer_request", transfer.id⟩
  return { statusCode := 202, body := responseBody, enqueueTransferId := some transfer.id }

/-- The transaction of `createTransfer` after the idempotency record. -/
def createNew (env : Env) (args : CreateTransferArgs) (recordId : Uuid) :
    Transaction TransferMutationResult := do
  let (sourceAccount, sourceLedgerAccount, amount) ← checkSource env args
  let transfer ← Tx.send (.createTransferRequest (transferData args sourceAccount amount))
  let _ ← Tx.send (.updateTransferRequest transfer.id { status := some .validated })
  match args.input.destination with
  | .internalAccount destinationId =>
      createInternal args recordId sourceLedgerAccount amount transfer destinationId
  | .externalBank .. => createExternal env args recordId sourceLedgerAccount amount transfer

/-- The transaction of `TransfersService.createTransfer`. -/
def createTransferTx (env : Env) (args : CreateTransferArgs) :
    Transaction TransferMutationResult := do
  match ← IdempotencyService.begin "transfer.create" args.idempotencyKey args.requestHash with
  | .replay r => return { statusCode := r.statusCode, body := r.body }
  | .recordId recordId => createNew env args recordId

end TransfersService

end LedgerCredit
