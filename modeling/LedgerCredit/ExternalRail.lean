import LedgerCredit.Ledger

/-!
# External rails

The adapters of the two providers build events from a transfer.  The body of
`applyNormalizedEvent` records an event once, and moves the transfer it is about:
a `SETTLED` event settles a pending transfer, and a `FAILED` event compensates it
with a journal entry that takes the amount back from clearing.
-/

namespace LedgerCredit

open Txn

inductive ExternalRailEventType where
  | acknowledged | settled | failed
  deriving DecidableEq, Repr

structure NormalizedExternalRailEvent where
  provider : String
  providerEventId : String
  transferRequestId : Option String := none
  externalReference : Option String := none
  eventType : ExternalRailEventType
  failureReason : Option String := none
  deriving DecidableEq, Repr

structure ExternalRailTransfer where
  transferRequestId : Uuid
  externalReference : String
  destinationExternalAccountNumber : Option String

/-! ## Adapters -/

/-- The adapters that `ExternalRailRegistry` knows. -/
inductive ExternalRailAdapter where
  | simulator | mockBank
  deriving DecidableEq, Repr

inductive TerminalReason where
  | submit | reconcile
  deriving DecidableEq, Repr

/-- The reason, as it stands in event ids. -/
def TerminalReason.name : TerminalReason → String
  | .submit => "submit"
  | .reconcile => "reconcile"

/-- `String.prototype.endsWith`. -/
def endsWith (s suffix : String) : Bool := suffix.toList.reverse.isPrefixOf s.toList.reverse

/-- The terminal event of an adapter: its provider, the prefix of its event ids, the
account numbers it rejects and the reason it gives. -/
def buildTerminalEvent (provider separator rejects failureReason : String)
    (transfer : ExternalRailTransfer) (reason : TerminalReason) : NormalizedExternalRailEvent :=
  let shouldFail := (transfer.destinationExternalAccountNumber.map (endsWith · rejects)).getD false
  { provider
    providerEventId := transfer.transferRequestId ++ separator ++ reason.name ++
      if shouldFail then ":failed" else ":settled"
    transferRequestId := some transfer.transferRequestId
    externalReference := some transfer.externalReference
    eventType := if shouldFail then .failed else .settled
    failureReason := if shouldFail then some failureReason else none }

/-- The acknowledgement of an adapter. -/
def buildAcknowledgement (provider suffix : String) (transfer : ExternalRailTransfer) :
    NormalizedExternalRailEvent where
  provider := provider
  providerEventId := transfer.transferRequestId ++ suffix
  transferRequestId := some transfer.transferRequestId
  externalReference := some transfer.externalReference
  eventType := .acknowledged

namespace ExternalRailSimulatorService

def provider : String := "simulator"

def terminalEvent : ExternalRailTransfer → TerminalReason → NormalizedExternalRailEvent :=
  buildTerminalEvent provider ":" "99" "Simulator rejected the transfer."

def submitTransfer (transfer : ExternalRailTransfer) : List NormalizedExternalRailEvent :=
  [buildAcknowledgement provider ":acknowledged" transfer, terminalEvent transfer .submit]

def reconcileTransfer (transfer : ExternalRailTransfer) : Option NormalizedExternalRailEvent :=
  some (terminalEvent transfer .reconcile)

end ExternalRailSimulatorService

namespace ExternalRailMockBankService

def provider : String := "mock-bank"

def terminalEvent : ExternalRailTransfer → TerminalReason → NormalizedExternalRailEvent :=
  buildTerminalEvent provider ":mock-bank:" "88" "Mock bank rejected the transfer."

def submitTransfer (transfer : ExternalRailTransfer) : List NormalizedExternalRailEvent :=
  [buildAcknowledgement provider ":mock-bank:accepted" transfer, terminalEvent transfer .submit]

def reconcileTransfer (transfer : ExternalRailTransfer) : Option NormalizedExternalRailEvent :=
  some (terminalEvent transfer .reconcile)

end ExternalRailMockBankService

namespace ExternalRailAdapter

def provider : ExternalRailAdapter → String
  | .simulator => ExternalRailSimulatorService.provider
  | .mockBank => ExternalRailMockBankService.provider

def submitTransfer : ExternalRailAdapter → ExternalRailTransfer → List NormalizedExternalRailEvent
  | .simulator => ExternalRailSimulatorService.submitTransfer
  | .mockBank => ExternalRailMockBankService.submitTransfer

def reconcileTransfer :
    ExternalRailAdapter → ExternalRailTransfer → Option NormalizedExternalRailEvent
  | .simulator => ExternalRailSimulatorService.reconcileTransfer
  | .mockBank => ExternalRailMockBankService.reconcileTransfer

end ExternalRailAdapter

/-- `ExternalRailRegistry.get`. -/
def ExternalRailRegistry.get (provider : String) : Except AppException ExternalRailAdapter :=
  match [ExternalRailAdapter.simulator, .mockBank].find? (·.provider = provider) with
  | some adapter => .ok adapter
  | none => .error ⟨422, "external_rail_provider_not_supported",
      "Unsupported external rail provider " ++ provider ++ "."⟩

/-! ## Provider events -/

/-- `Number` of a `bigint`: the nearest double, with ties to the even one. -/
def numberOfBigInt (n : Int) : Int :=
  let m := n.natAbs
  if m < 2 ^ 53 then n
  else
    let unit := 2 ^ (m.log2 - 52)
    let up := unit < 2 * (m % unit) ∨ unit = 2 * (m % unit) ∧ m / unit % 2 = 1
    n.sign * ((if up then m / unit + 1 else m / unit) * unit : Nat)

/-- The destination in a transfer response. -/
inductive TransferDestination where
  | internalAccount (accountId : Uuid)
  | externalBank (bankCode accountNumber accountName : Option String)
  deriving DecidableEq, Repr

structure TransferResponse where
  transferRequestId : Uuid
  status : TransferStatus
  currency : String
  minorUnits : Int
  sourceAccountId : Uuid
  destination : TransferDestination
  externalRailProvider : Option String
  externalReference : Option String
  failureReason : Option String
  createdAt : Time
  settledAt : Option Time
  deriving DecidableEq, Repr

namespace ExternalRailService

def mapTransferResponse (transfer : TransferRequest) : TransferResponse where
  transferRequestId := transfer.id
  status := transfer.status
  currency := transfer.currency
  minorUnits := numberOfBigInt transfer.amountMinor
  sourceAccountId := transfer.sourceAccountId
  destination :=
    match truthy transfer.destinationAccountId with
    | some accountId => .internalAccount accountId
    | none => .externalBank transfer.destinationExternalBankCode
        transfer.destinationExternalAccountNumber transfer.destinationExternalAccountName
  externalRailProvider := transfer.externalRailProvider
  externalReference := transfer.externalReference
  failureReason := transfer.failureReason
  createdAt := transfer.createdAt
  settledAt := transfer.settledAt

def mapTransferForAdapter (transfer : TransferRequest) :
    Except AppException ExternalRailTransfer :=
  match truthy transfer.externalReference with
  | some externalReference =>
      .ok ⟨transfer.id, externalReference, transfer.destinationExternalAccountNumber⟩
  | none => .error ⟨500, "external_reference_missing",
      "External transfer is missing an external reference."⟩

def mapAuditAction (eventType : ExternalRailEventType) (transferStatus : TransferStatus) : String :=
  match eventType with
  | .acknowledged => "transfer.external_acknowledged"
  | .settled => "transfer.settled"
  | .failed => if transferStatus = .compensated then "transfer.compensated" else "transfer.failed"

/-- The event type under which a provider event is recorded. -/
def recordedType : ExternalRailEventType → ExternalTransferEventType
  | .acknowledged => .acknowledged
  | .settled => .settled
  | .failed => .failed

/-- The row under which a provider event is recorded. -/
def eventData (transferRequestId : Uuid) (event : NormalizedExternalRailEvent) (now : Time)
    (id : Uuid) : ExternalTransferEvent where
  id := id
  transferRequestId := transferRequestId
  provider := event.provider
  providerEventId := some event.providerEventId
  eventType := recordedType event.eventType
  processedAt := some now

/-- The row that marks a compensation. -/
def compensatedData (transferRequestId : Uuid) (event : NormalizedExternalRailEvent) (now : Time)
    (id : Uuid) : ExternalTransferEvent where
  id := id
  transferRequestId := transferRequestId
  provider := event.provider
  providerEventId := some (event.providerEventId ++ ":compensated")
  eventType := .compensated
  processedAt := some now

/-- `event.failureReason ?? "External rail rejected the transfer."`. -/
def failureReason (event : NormalizedExternalRailEvent) : String :=
  event.failureReason.getD "External rail rejected the transfer."

/-- The input of the compensating journal entry. -/
def compensationInput (transfer : TransferRequest) (now : Time) (clearing source : Uuid)
    (amount : Money) : PostJournalEntryInput where
  transferRequestId := some transfer.id
  effectiveAt := now
  sourceOperationType := "INTERBANK_TRANSFER_COMPENSATION"
  description := some "Automatic compensation for failed external transfer"
  correlationId := transfer.correlationId
  idempotencyKey := some transfer.idempotencyKey
  postings := [⟨clearing, .debit, amount⟩, ⟨source, .credit, amount⟩]

/-- The `SETTLED` branch of `applyNormalizedEvent`. -/
def settle (transfer : TransferRequest) : Transaction TransferRequest :=
  if transfer.status = .pendingExternal then do
    let settledAt ← Tx.send .newDate
    let _ ← Tx.send (.updateTransferRequest transfer.id
      { status := some .settled, settledAt := some settledAt })
    let now ← Tx.send .newDate
    return { transfer with status := .settled, settledAt := some now }
  else return transfer

/-- The `FAILED` branch of `applyNormalizedEvent`, for a pending transfer whose source account
has a ledger account. -/
def compensate (env : Env) (event : NormalizedExternalRailEvent) (transfer : TransferRequest)
    (sourceLedgerAccount : LedgerAccount) : Transaction TransferRequest := do
  let clearingLedgerAccount ← LedgerService.findSystemLedgerAccount .clearing transfer.currency
  let amount ← ofExcept (Money.fromMinorUnits env transfer.currency (.bigint transfer.amountMinor))
  let _ ← Tx.send (.updateTransferRequest transfer.id
    { status := some .failed, failureReason := some (failureReason event) })
  let effectiveAt ← Tx.send .newDate
  let _ ← LedgerService.postJournalEntry
    (compensationInput transfer effectiveAt clearingLedgerAccount.id sourceLedgerAccount.id amount)
  let _ ← Tx.send (.updateTransferRequest transfer.id { status := some .compensated })
  let now ← Tx.send .newDate
  Tx.send (.createExternalEvent (compensatedData transfer.id event now))
  return { transfer with status := .compensated, failureReason := some (failureReason event) }

/-- The branches of `applyNormalizedEvent` on the type of a new event. -/
def applyEvent (env : Env) (event : NormalizedExternalRailEvent) (found : TransferWithSource) :
    Transaction TransferRequest :=
  match event.eventType with
  | .acknowledged => return found.transfer
  | .settled => settle found.transfer
  | .failed =>
      match found.sourceAccount.ledgerAccount with
      | some ledgerAccount =>
          if found.transfer.status = .pendingExternal then
            compensate env event found.transfer ledgerAccount
          else return found.transfer
      | none => return found.transfer

/-- The transaction of `ExternalRailService.applyNormalizedEvent`. -/
def applyNormalizedEventTx (env : Env) (event : NormalizedExternalRailEvent) :
    Transaction TransferRequest := do
  let existingEvent ← Tx.send (.findExternalEvent event.provider event.providerEventId)
  let transferRecord ← Tx.send (.findFirstTransferRequest (truthy event.transferRequestId)
    (truthy event.externalReference))
  let found ← orThrow transferRecord
    ⟨404, "transfer_not_found", "Transfer request was not found."⟩
  match existingEvent with
  | some _ => return found.transfer
  | none =>
      let now ← Tx.send .newDate
      Tx.send (.createExternalEvent (eventData found.transfer.id event now))
      applyEvent env event found

end ExternalRailService

end LedgerCredit
