import LedgerCredit.Credit.Schema

/-!
# Assessments and reads

`CreditService` with its scoring policy, `AccountsService`, and
`TransfersService.getTransferById`.  `createAssessment` is one transaction.  The
other calls are made of single statements, with a check of the actor between
them.
-/

namespace LedgerCredit.Credit

open Txn

/-- The configuration, and the functions that these services take from outside. -/
structure Env extends LedgerCredit.Env where
  scoreApproveThreshold : Nat
  scoreRejectThreshold : Nat
  /-- `hashRequestPayload` of an assessment request, from its `customerId` and `requestedBy`. -/
  hashAssessmentPayload : Uuid → String → String
  /-- `decodeCursor` on a text, which throws where `JSON.parse` or `new Date` does. -/
  decodeCursor : String → Except AppException CursorPayload
  encodeCursor : CursorPayload → String

/-- The body of a transaction. -/
abbrev Transaction (α : Type) := Tx Stmt TxError α

/-- Throw an `AppException` unless the condition holds. -/
def assert (c : Bool) (e : AppException) : Transaction Unit := Tx.ensure c (.app e)

/-- The value of an option, or an `AppException`. -/
def orThrow {α : Type} (o : Option α) (e : AppException) : Transaction α := Tx.require o (.app e)

/-- The value of a computation that may throw an `AppException`. -/
def ofExcept {α : Type} : Except AppException α → Transaction α
  | .ok a => .pure a
  | .error e => .throw (.app e)

/-! ## The scoring policy -/

structure CreditProfileInput where
  paymentHistoryPoints : Int
  averageBalanceMinor : Int
  transactionFrequency : Int
  deriving DecidableEq, Repr

structure CreditPolicyConfig where
  approveThreshold : Int
  rejectThreshold : Int
  deriving DecidableEq, Repr

structure CreditDecision where
  score : Int
  status : CreditAssessmentStatus
  rationaleSummary : String
  deriving DecidableEq, Repr

def baseScore : Int := 300

def maxDelta : Int := 550

def computeCreditDecision (input : CreditProfileInput) (policy : CreditPolicyConfig) :
    Except AppException CreditDecision :=
  if policy.approveThreshold ≤ policy.rejectThreshold then
    .error ⟨500, "invalid_credit_policy", "Approve threshold must be greater than reject threshold."⟩
  else
    let paymentComponent := max 0 (min 220 input.paymentHistoryPoints)
    let balanceComponent := numberOfBigInt (input.averageBalanceMinor.tdiv 5000)
    let boundedBalanceComponent := max 0 (min 180 balanceComponent)
    let activityComponent := max 0 (min 150 (input.transactionFrequency * 5))
    let score := max baseScore (min (baseScore + maxDelta)
      (baseScore + paymentComponent + boundedBalanceComponent + activityComponent))
    .ok {
      score
      status := if policy.approveThreshold ≤ score then .approved else .rejected
      rationaleSummary := "payment_history=" ++ toString paymentComponent ++
        "; average_balance=" ++ toString boundedBalanceComponent ++
        "; activity=" ++ toString activityComponent }

/-- The average of the balances, where `/` truncates. -/
def averageBalance (balanceValues : List Int) : Int :=
  if 0 < balanceValues.length then balanceValues.sum.tdiv balanceValues.length else 0

/-- The profile of a customer with these balances and numbers of transfers. -/
def profileInput (balanceValues : List Int) (settledTransferCount failedTransferCount : Nat) :
    CreditProfileInput where
  paymentHistoryPoints := max 0 (120 + settledTransferCount * 12 - failedTransferCount * 20)
  averageBalanceMinor := averageBalance balanceValues
  transactionFrequency := settledTransferCount

/-! ## Idempotency -/

structure Replay where
  statusCode : Nat
  body : AssessmentBody
  deriving DecidableEq, Repr

/-- The stored response, if its status code and body are set. -/
def IdempotencyRecord.replay? (r : IdempotencyRecord) : Option Replay :=
  match r.responseStatusCode, r.responseBody with
  | some statusCode, some body => if statusCode ≠ 0 then some ⟨statusCode, body⟩ else none
  | _, _ => none

inductive IdempotencyBeginResult where
  | recordId (id : Uuid)
  | replay (r : Replay)

namespace IdempotencyService

/-- The row that `idempotencyRecord.create` gets. -/
def recordData (operationType key requestHash : String) (id : Uuid) : IdempotencyRecord where
  id := id
  key := key
  operationType := operationType
  requestHash := requestHash
  status := .inProgress
  responseStatusCode := none
  responseBody := none
  resourceType := none
  resourceId := none

/-- `IdempotencyService.begin`, on the records of assessments. -/
def begin (operationType key requestHash : String) : Transaction IdempotencyBeginResult := do
  match ← Tx.send (.findIdempotencyRecord operationType key) with
  | some existing =>
      assert (existing.requestHash = requestHash)
        ⟨409, "idempotency_conflict", "Idempotency key was already used with a different payload."⟩
      let replay ← orThrow existing.replay?
        ⟨409, "idempotency_in_progress", "A request with this idempotency key is still in progress."⟩
      return .replay replay
  | none =>
      let created ← Tx.send (.createIdempotencyRecord (recordData operationType key requestHash))
      return .recordId created.id

/-- `IdempotencyService.complete`, on the records of assessments. -/
def complete (recordId : Uuid) (statusCode : Nat) (body : AssessmentBody)
    (resourceType resourceId : String) : Transaction Unit :=
  Tx.send (.updateIdempotencyRecord recordId
    { status := .succeeded
      responseStatusCode := statusCode
      responseBody := body
      resourceType := some resourceType
      resourceId := some resourceId })

end IdempotencyService

/-! ## The transaction of an assessment -/

/-- `createCreditAssessmentSchema`. -/
structure CreateCreditAssessmentRequest where
  customerId : Uuid
  requestedBy : String
  deriving DecidableEq

/-- What `createAssessment` knows before its transaction. -/
structure CreateAssessmentArgs where
  input : CreateCreditAssessmentRequest
  context : RequestContext
  idempotencyKey : String
  requestHash : String

namespace CreditService

/-- What `createAssessment` checks and computes before its transaction. -/
def assessmentArgs (env : Env) (input : CreateCreditAssessmentRequest) (context : RequestContext) :
    Except AppException CreateAssessmentArgs := do
  assertAuthenticated context
  let idempotencyKey ← match truthy context.idempotencyKey with
    | some key => .ok key
    | none => .error ⟨400, "missing_idempotency_key", "Idempotency-Key header is required."⟩
  return { input, context, idempotencyKey
           requestHash := env.hashAssessmentPayload input.customerId input.requestedBy }

/-- The row of a new snapshot. -/
def snapshotData (customerId : Uuid) (profile : CreditProfileInput)
    (settledTransferCount failedTransferCount : Nat) (id : Uuid) : CreditProfileSnapshot where
  id := id
  customerId := customerId
  paymentHistoryPoints := profile.paymentHistoryPoints
  averageBalanceMinor := profile.averageBalanceMinor
  transactionFrequency := profile.transactionFrequency
  snapshotVersion := "v1"
  settledTransferCount := settledTransferCount
  failedTransferCount := failedTransferCount

/-- The row of a new assessment. -/
def assessmentData (env : Env) (customerId snapshotId : Uuid) (requestedBy : String) (id : Uuid) :
    CreditAssessment where
  id := id
  customerId := customerId
  creditProfileSnapshotId := snapshotId
  status := .requested
  score := none
  rationaleSummary := none
  policyVersion := "v1"
  requestedBy := requestedBy
  reviewedByActorId := none
  reviewedByActorType := none
  reviewDecisionedAt := none
  reviewRationale := none
  approvedThreshold := env.scoreApproveThreshold
  rejectedThreshold := env.scoreRejectThreshold

/-- The history of a customer, and the decision on it. -/
def scoreCustomer (env : Env) (customerId : Uuid) (balances : List (Option BalanceProjection)) :
    Transaction (CreditProfileInput × Nat × Nat × CreditDecision) := do
  let settledTransferCount ← Tx.send (.countTransferRequests customerId [.settled])
  let failedTransferCount ← Tx.send (.countTransferRequests customerId [.failed, .compensated])
  let balanceValues := balances.map fun b => (b.map (·.currentMinor)).getD 0
  let profile := profileInput balanceValues settledTransferCount failedTransferCount
  let decision ← ofExcept (computeCreditDecision profile
    ⟨env.scoreApproveThreshold, env.scoreRejectThreshold⟩)
  return (profile, settledTransferCount, failedTransferCount, decision)

/-- The transaction of `createAssessment` after the checks on the customer. -/
def createScored (env : Env) (args : CreateAssessmentArgs) (recordId customerId : Uuid)
    (balances : List (Option BalanceProjection)) : Transaction Replay := do
  let (profile, settledTransferCount, failedTransferCount, decision) ←
    scoreCustomer env customerId balances
  let snapshot ← Tx.send (.createSnapshot
    (snapshotData customerId profile settledTransferCount failedTransferCount))
  let assessment ← Tx.send (.createAssessment
    (assessmentData env customerId snapshot.id args.input.requestedBy))
  let assessment ← Tx.send (.updateAssessment assessment.id { status := .dataCollected })
  let assessment ← Tx.send (.updateAssessment assessment.id
    { status := .scored
      score := some decision.score
      rationaleSummary := some decision.rationaleSummary })
  let assessment ← Tx.send (.updateAssessment assessment.id { status := .underReview })
  let responseBody : AssessmentBody :=
    ⟨assessment.id, assessment.status, assessment.score, assessment.rationaleSummary⟩
  IdempotencyService.complete recordId 202 responseBody "credit_assessment" assessment.id
  Tx.send (.createAuditEvent (auditData args.context
    ⟨"credit_assessment.created", "credit_assessment", assessment.id⟩))
  return ⟨202, responseBody⟩

/-- The transaction of `createAssessment` after the idempotency record. -/
def createNew (env : Env) (args : CreateAssessmentArgs) (recordId : Uuid) : Transaction Replay := do
  let found ← Tx.send (.findCustomer args.input.customerId)
  let (customer, balances) ← orThrow found
    ⟨404, "customer_not_found", "Customer was not found."⟩
  ofExcept (assertCustomerOwnsResource args.context customer.id)
  createScored env args recordId customer.id balances

/-- The transaction of `CreditService.createAssessment`. -/
def createAssessmentTx (env : Env) (args : CreateAssessmentArgs) : Transaction Replay := do
  match ← IdempotencyService.begin "credit-assessment.create" args.idempotencyKey
      args.requestHash with
  | .replay r => return r
  | .recordId recordId => createNew env args recordId

end CreditService

/-! ## Processes -/

/-- The transactions of these services. -/
inductive Label : Type → Type 1 where
  | createAssessment (args : CreateAssessmentArgs) : Label Replay
  | statement {α : Type} (q : Stmt α) : Label α

/-- The body of a transaction. -/
def Label.body (env : Env) {α : Type} : Label α → Transaction α
  | .createAssessment args => CreditService.createAssessmentTx env args
  | .statement q => Tx.send q

/-- A process of these services. -/
abbrev Process (α : Type) := Proc Label TxError Unit α

/-- A Prisma call outside of a transaction. -/
def statement {α : Type} (q : Stmt α) : Process α := .transaction (.statement q)

/-- The value of a computation that may throw an `AppException`. -/
def Process.ofExcept {α : Type} : Except AppException α → Process α
  | .ok a => .pure a
  | .error e => .throw (.app e)

/-- The value of an option, or an `AppException`. -/
def Process.orThrow {α : Type} (o : Option α) (e : AppException) : Process α :=
  match o with
  | some a => .pure a
  | none => .throw (.app e)

/-- `AuditService.record`. -/
def auditRecord (context : RequestContext) (input : AuditRecordInput) : Process Unit :=
  statement (.createAuditEvent (auditData context input))

/-! ## Transfers -/

namespace TransfersService

/-- The destination of a transfer in the response of `getTransferById`. -/
inductive DetailedDestination where
  | internalAccount (accountId : Option Uuid)
  | externalBank (provider : String) (bankCode accountNumber accountName : Option String)
  deriving DecidableEq, Repr

structure TransferDetails where
  transferRequestId : Uuid
  status : TransferStatus
  currency : String
  minorUnits : Int
  sourceAccountId : Uuid
  destination : DetailedDestination
  externalReference : Option String
  externalRailProvider : String
  failureReason : Option String
  createdAt : Time
  settledAt : Option Time
  deriving DecidableEq, Repr

/-- The response of `getTransferById`. -/
def transferDetails (env : Env) (transfer : TransferRequest) : TransferDetails where
  transferRequestId := transfer.id
  status := transfer.status
  currency := transfer.currency
  minorUnits := numberOfBigInt transfer.amountMinor
  sourceAccountId := transfer.sourceAccountId
  destination :=
    match transfer.transferType with
    | .internal => .internalAccount transfer.destinationAccountId
    | .interbank => .externalBank
        (transfer.externalRailProvider.getD env.externalRailDefaultProvider)
        transfer.destinationExternalBankCode transfer.destinationExternalAccountNumber
        transfer.destinationExternalAccountName
  externalReference := transfer.externalReference
  externalRailProvider := transfer.externalRailProvider.getD env.externalRailDefaultProvider
  failureReason := transfer.failureReason
  createdAt := transfer.createdAt
  settledAt := transfer.settledAt

/-- `TransfersService.getTransferById`. -/
def getTransferById (env : Env) (transferRequestId : Uuid) (context : RequestContext) :
    Process TransferDetails := do
  let found ← statement (.findTransferRequest transferRequestId)
  let (transfer, sourceAccount) ← Process.orThrow found
    ⟨404, "transfer_not_found", "Transfer request was not found."⟩
  Process.ofExcept (assertCustomerOwnsResource context sourceAccount.customerId)
  return transferDetails env transfer

end TransfersService

/-! ## Accounts -/

namespace AccountsService

def accountNotFound : AppException := ⟨404, "account_not_found", "Account was not found."⟩

structure BalanceResponse where
  accountId : Uuid
  currency : String
  minorUnits : Int
  status : AccountStatus
  deriving DecidableEq, Repr

/-- `getBalance`. -/
def getBalance (accountId : Uuid) (context : RequestContext) : Process BalanceResponse := do
  let found ← statement (.findAccount accountId)
  let (account, balanceProjection) ← Process.orThrow found accountNotFound
  Process.ofExcept (assertCustomerOwnsResource context account.customerId)
  auditRecord context ⟨"account.balance_viewed", "account", account.id⟩
  return {
    accountId := account.id
    currency := account.currency
    minorUnits := numberOfBigInt ((balanceProjection.map (·.currentMinor)).getD 0)
    status := account.status }

structure LedgerEntryItem where
  accountId : Uuid
  journalEntryId : Uuid
  postingId : Uuid
  effectiveAt : Time
  currency : String
  minorUnits : Int
  direction : Direction
  runningBalanceMinor : Int
  sourceOperationType : String
  deriving DecidableEq, Repr

structure LedgerEntriesResponse where
  items : List LedgerEntryItem
  nextCursor : Option String
  deriving DecidableEq, Repr

/-- The item of a statement line. -/
def ledgerEntryItem (line : AccountStatementProjection) (journalEntry : JournalEntry) :
    LedgerEntryItem where
  accountId := line.accountId
  journalEntryId := line.journalEntryId
  postingId := line.postingId
  effectiveAt := line.effectiveAt
  currency := line.currency
  minorUnits := numberOfBigInt line.amountMinor
  direction := line.direction
  runningBalanceMinor := numberOfBigInt line.runningBalanceMinor
  sourceOperationType := journalEntry.sourceOperationType

/-- `slice(0, limit)`: a negative limit counts from the end. -/
def sliceTo {α : Type} (limit : Int) (l : List α) : List α :=
  l.take (if 0 ≤ limit then limit.toNat else l.length - limit.natAbs)

/-- `lines[limit]`. -/
def lineAt {α : Type} (limit : Int) (l : List α) : Option α :=
  if 0 ≤ limit then l[limit.toNat]? else none

/-- The response to the lines that were found. -/
def ledgerEntries (env : Env) (limit : Int)
    (statementLines : List (AccountStatementProjection × JournalEntry)) : LedgerEntriesResponse where
  items := (sliceTo limit statementLines).map fun line => ledgerEntryItem line.1 line.2
  nextCursor :=
    if limit < statementLines.length then
      (lineAt limit statementLines).map fun next => env.encodeCursor ⟨next.1.effectiveAt, next.1.id⟩
    else none

/-- `decodeCursor`. -/
def decodeCursor (env : Env) (cursor : Option String) :
    Except AppException (Option CursorPayload) :=
  match truthy cursor with
  | some text => (env.decodeCursor text).map some
  | none => .ok none

/-- `getLedgerEntries`. -/
def getLedgerEntries (env : Env) (accountId : Uuid) (context : RequestContext)
    (cursor : Option String) (limit : Option Int) : Process LedgerEntriesResponse := do
  let found ← statement (.findAccount accountId)
  let (account, _) ← Process.orThrow found accountNotFound
  Process.ofExcept (assertCustomerOwnsResource context account.customerId)
  let decodedCursor ← Process.ofExcept (decodeCursor env cursor)
  let statementLines ← statement
    (.findStatementLines accountId decodedCursor (min (limit.getD 20) 100 + 1))
  auditRecord context ⟨"account.ledger_entries_viewed", "account", accountId⟩
  return ledgerEntries env (limit.getD 20) statementLines

end AccountsService

/-! ## Assessments -/

structure ReviewDecision where
  actorId : String
  actorType : ActorType
  reviewedAt : Time
  rationale : Option String
  deriving DecidableEq, Repr

structure AssessmentResponse where
  creditAssessmentId : Uuid
  customerId : Uuid
  status : CreditAssessmentStatus
  score : Option Int
  rationaleSummary : Option String
  requestedBy : String
  reviewDecision : Option ReviewDecision
  paymentHistoryPoints : Int
  averageBalanceMinor : Int
  transactionFrequency : Int
  snapshotVersion : String
  deriving DecidableEq, Repr

namespace CreditService

def mapAssessment (assessment : CreditAssessment) (snapshot : CreditProfileSnapshot) :
    AssessmentResponse where
  creditAssessmentId := assessment.id
  customerId := assessment.customerId
  status := assessment.status
  score := assessment.score
  rationaleSummary := assessment.rationaleSummary
  requestedBy := assessment.requestedBy
  reviewDecision :=
    match assessment.reviewDecisionedAt, truthy assessment.reviewedByActorId,
        assessment.reviewedByActorType with
    | some reviewedAt, some actorId, some actorType =>
        some ⟨actorId, actorType, reviewedAt, assessment.reviewRationale⟩
    | _, _, _ => none
  paymentHistoryPoints := snapshot.paymentHistoryPoints
  averageBalanceMinor := numberOfBigInt snapshot.averageBalanceMinor
  transactionFrequency := snapshot.transactionFrequency
  snapshotVersion := snapshot.snapshotVersion

def assessmentNotFound : AppException :=
  ⟨404, "credit_assessment_not_found", "Credit assessment was not found."⟩

/-- `createAssessment`. -/
def createAssessment (env : Env) (input : CreateCreditAssessmentRequest) (context : RequestContext) :
    Process Replay := do
  let args ← Process.ofExcept (assessmentArgs env input context)
  Proc.transaction (.createAssessment args)

/-- `getAssessmentById`. -/
def getAssessmentById (creditAssessmentId : Uuid) (context : RequestContext) :
    Process AssessmentResponse := do
  let found ← statement (.findAssessment creditAssessmentId)
  let (assessment, snapshot) ← Process.orThrow found assessmentNotFound
  Process.ofExcept (assertCustomerOwnsResource context assessment.customerId)
  return mapAssessment assessment snapshot

/-- The decision of a review. -/
inductive Decision where
  | approved | rejected
  deriving DecidableEq, Repr

def Decision.status : Decision → CreditAssessmentStatus
  | .approved => .approved
  | .rejected => .rejected

/-- `reviewAssessment`. -/
def reviewAssessment (creditAssessmentId : Uuid) (reviewRationale : String) (decision : Decision)
    (context : RequestContext) : Process AssessmentResponse := do
  Process.ofExcept (assertAuthenticated context)
  let found ← statement (.findAssessment creditAssessmentId)
  let (assessment, _) ← Process.orThrow found assessmentNotFound
  if assessment.status ≠ .underReview then
    .throw (.app ⟨409, "credit_assessment_not_reviewable",
      "Only assessments under review may be approved or rejected."⟩)
  else
    let now ← statement .newDate
    let (updated, snapshot) ← statement (.reviewAssessment creditAssessmentId
      { status := decision.status
        reviewedByActorId := some (context.actor.map (·.actorId))
        reviewedByActorType := some (context.actor.map (·.actorType))
        reviewDecisionedAt := some now
        reviewRationale := some reviewRationale })
    auditRecord context
      ⟨match decision with
        | .approved => "credit_assessment.approved"
        | .rejected => "credit_assessment.rejected", "credit_assessment", updated.id⟩
    return mapAssessment updated snapshot

end CreditService

/-! ## The system -/

inductive Call where
  | getTransferById (transferRequestId : Uuid) (context : RequestContext)
  | getBalance (accountId : Uuid) (context : RequestContext)
  | getLedgerEntries (accountId : Uuid) (context : RequestContext) (cursor : Option String)
      (limit : Option Int)
  | createAssessment (input : CreateCreditAssessmentRequest) (context : RequestContext)
  | getAssessmentById (creditAssessmentId : Uuid) (context : RequestContext)
  | reviewAssessment (creditAssessmentId : Uuid) (reviewRationale : String)
      (decision : CreditService.Decision) (context : RequestContext)

/-- What a call returns. -/
inductive Reply where
  | done
  | transfer (r : TransfersService.TransferDetails)
  | balance (r : AccountsService.BalanceResponse)
  | ledgerEntries (r : AccountsService.LedgerEntriesResponse)
  | assessmentCreated (r : Replay)
  | assessment (r : AssessmentResponse)
  deriving DecidableEq

/-- The process of a call. -/
def Call.program (env : Env) : Call → Process Reply
  | .getTransferById transferRequestId context => do
      let r ← TransfersService.getTransferById env transferRequestId context
      return .transfer r
  | .getBalance accountId context => do
      let r ← AccountsService.getBalance accountId context
      return .balance r
  | .getLedgerEntries accountId context cursor limit => do
      let r ← AccountsService.getLedgerEntries env accountId context cursor limit
      return .ledgerEntries r
  | .createAssessment input context => do
      let r ← CreditService.createAssessment env input context
      return .assessmentCreated r
  | .getAssessmentById creditAssessmentId context => do
      let r ← CreditService.getAssessmentById creditAssessmentId context
      return .assessment r
  | .reviewAssessment creditAssessmentId reviewRationale decision context => do
      let r ← CreditService.reviewAssessment creditAssessmentId reviewRationale decision context
      return .assessment r

/-- The services over their database. -/
def services (env : Env) : System Stmt Label TxError Store Write Choice Key Unit Call Reply where
  toDatabase := database
  body := Label.body env
  program := Call.program env
  idle := .done

end LedgerCredit.Credit
