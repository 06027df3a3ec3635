import LedgerCredit.Txn.Program
import LedgerCredit.Statements
import Mathlib.Data.Rat.Floor

/-!
# Common services

What the modules share: the configuration, the request context, money, the
idempotency records and the audit trail.

A body of `prisma.$transaction` is a `Transaction`.  A JavaScript number is an
optional rational, where `none` is `NaN` or an infinity.
-/

namespace LedgerCredit

open Txn

/-- The body of a `prisma.$transaction`. -/
abbrev Transaction (α : Type) := Tx Stmt TxError α

/-- A JavaScript number. -/
abbrev JsNumber := Option Rat

/-- Throw an `AppException` unless the condition holds. -/
def assert (c : Bool) (e : AppException) : Transaction Unit := Tx.ensure c (.app e)

/-- The value of an option, or an `AppException`. -/
def orThrow {α : Type} (o : Option α) (e : AppException) : Transaction α := Tx.require o (.app e)

/-- The value of a computation that may throw an `AppException`. -/
def ofExcept {α : Type} : Except AppException α → Transaction α
  | .ok a => .pure a
  | .error e => .throw (.app e)

/-- An optional string that is present and not empty, which is what JavaScript takes as true. -/
def truthy (o : Option String) : Option String := o.filter (· ≠ "")

/-- `new Map(entries).get(key)`: a later entry overrides an earlier one. -/
def mapGet {α : Type} (entries : List (String × α)) (key : String) : Option α :=
  (entries.reverse.find? (·.1 = key)).map (·.2)

/-! ## Requests -/

/-- `moneySchema`. -/
structure MoneyRequest where
  currency : String
  minorUnits : JsNumber
  deriving DecidableEq

/-- `internalDestinationSchema` and `externalDestinationSchema`. -/
inductive Destination where
  | internalAccount (accountId : Uuid)
  | externalBank (provider : Option String) (bankCode accountNumber accountName : String)
  deriving DecidableEq

/-- `createTransferSchema`. -/
structure CreateTransferRequest where
  sourceAccountId : Uuid
  destination : Destination
  amount : MoneyRequest
  purpose : Option String
  deriving DecidableEq

structure RequestActor where
  actorId : String
  actorType : ActorType
  deriving DecidableEq

structure RequestContext where
  correlationId : String
  idempotencyKey : Option String
  actor : Option RequestActor
  deriving DecidableEq

/-! ## Configuration -/

inductive NodeEnv where
  | development | test | production
  deriving DecidableEq, Repr

/-- `AppConfigService`, and the functions that the services take from outside. -/
structure Env where
  nodeEnv : NodeEnv
  supportedCurrencies : List String
  externalRailDefaultProvider : String
  batchShardSize : Nat
  batchWorkerConcurrency : JsNumber
  interestRateBps : Int
  /-- `String.prototype.toUpperCase`. -/
  toUpperCase : String → String
  /-- `hashRequestPayload`, the SHA-256 of the JSON of a request. -/
  hashRequestPayload : CreateTransferRequest → String
  /-- The message of an error that the database client throws. -/
  databaseMessage : DatabaseError → String

/-- `error.message`. -/
def Env.message (env : Env) : TxError → String
  | .app e => e.message
  | .database e => env.databaseMessage e

/-! ## Authorization -/

def assertAuthenticated (context : RequestContext) : Except AppException Unit :=
  if context.actor.isSome then .ok ()
  else .error ⟨401, "unauthenticated", "Authentication is required."⟩

def assertCustomerOwnsResource (context : RequestContext) (ownerCustomerId : Uuid) :
    Except AppException Unit :=
  match context.actor with
  | some actor =>
      if actor.actorType = .customer ∧ actor.actorId ≠ ownerCustomerId then
        .error ⟨403, "forbidden", "Customers may only access their own resources."⟩
      else .ok ()
  | none => .ok ()

/-! ## Money -/

inductive MoneyInput where
  | bigint (n : Int)
  | number (v : JsNumber)
  | string (s : String)

/-- The digits of a numeral, if it is one. -/
def digits? (cs : List Char) : Option Int :=
  if cs ≠ [] ∧ cs.all Char.isDigit then
    some (cs.foldl (fun n c => 10 * n + (c.toNat - '0'.toNat : Nat)) 0)
  else none

/-- `/^-?\d+$/`, and the integer that it matches. -/
def integerString? (s : String) : Option Int :=
  match s.toList with
  | '-' :: cs => (digits? cs).map (- ·)
  | cs => digits? cs

def toBigInt : MoneyInput → Except AppException Int
  | .bigint n => .ok n
  | .number v =>
      match v with
      | some q =>
          if q.den = 1 ∧ q.num.natAbs ≤ 2 ^ 53 - 1 then .ok q.num
          else .error ⟨422, "invalid_money_amount", "Money minor units must be a safe integer."⟩
      | none => .error ⟨422, "invalid_money_amount", "Money minor units must be a safe integer."⟩
  | .string s =>
      match integerString? s with
      | some n => .ok n
      | none =>
          .error ⟨422, "invalid_money_amount", "Money minor units must be an integer string."⟩

structure Money where
  currency : String
  minorUnits : Int
  deriving DecidableEq, Repr

/-- `Money.fromMinorUnits`. -/
def Money.fromMinorUnits (env : Env) (currency : String) (minorUnits : MoneyInput) :
    Except AppException Money :=
  (toBigInt minorUnits).map fun n => ⟨env.toUpperCase currency, n⟩

/-! ## Idempotency -/

structure Replay where
  statusCode : Nat
  body : ResponseBody
  deriving DecidableEq, Repr

inductive IdempotencyBeginResult where
  | recordId (id : Uuid)
  | replay (r : Replay)

/-- The stored response, if its status code and body are set. -/
def IdempotencyRecord.replay? (r : IdempotencyRecord) : Option Replay :=
  match r.responseStatusCode, r.responseBody with
  | some statusCode, some body => if statusCode ≠ 0 then some ⟨statusCode, body⟩ else none
  | _, _ => none

namespace IdempotencyService

/-- The row that `idempotencyRecord.create` gets. -/
def recordData (operationType key requestHash : String) (id : Uuid) : IdempotencyRecord where
  id := id
  key := key
  operationType := operationType
  requestHash := requestHash
  status := .inProgress
  responseStatusCode := none
  responseBody := none
  resourceType := none
  resourceId := none

/-- The columns that `complete` sets. -/
def completeData (statusCode : Nat) (body : ResponseBody) (resourceType resourceId : String) :
    IdempotencyRecordUpdate where
  status := .succeeded
  responseStatusCode := statusCode
  responseBody := body
  resourceType := some resourceType
  resourceId := some resourceId

/-- `IdempotencyService.begin`. -/
def begin (operationType key requestHash : String) : Transaction IdempotencyBeginResult := do
  match ← Tx.send (.findIdempotencyRecord operationType key) with
  | some existing =>
      assert (existing.requestHash = requestHash)
        ⟨409, "idempotency_conflict", "Idempotency key was already used with a different payload."⟩
      let replay ← orThrow existing.replay?
        ⟨409, "idempotency_in_progress", "A request with this idempotency key is still in progress."⟩
      return .replay replay
  | none =>
      let created ← Tx.send (.createIdempotencyRecord (recordData operationType key requestHash))
      return .recordId created.id

/-- `IdempotencyService.complete`. -/
def complete (recordId : Uuid) (statusCode : Nat) (body : ResponseBody)
    (resourceType resourceId : String) : Transaction Unit :=
  Tx.send (.updateIdempotencyRecord recordId (completeData statusCode body resourceType resourceId))

end IdempotencyService

/-! ## Audit -/

structure AuditRecordInput where
  actionType : String
  resourceType : String
  resourceId : String

/-- The row that `AuditService.record` and `recordInTransaction` create. -/
def auditData (context : RequestContext) (input : AuditRecordInput) (id : Uuid) : AuditEvent where
  id := id
  actorType := (context.actor.map (·.actorType)).getD .system
  actorId := context.actor.map (·.actorId)
  actionType := input.actionType
  resourceType := input.resourceType
  resourceId := input.resourceId
  correlationId := some context.correlationId
  idempotencyKey := context.idempotencyKey

/-- `AuditService.recordInTransaction`. -/
def recordInTransaction (context : RequestContext) (input : AuditRecordInput) : Transaction Unit :=
  Tx.send (.createAuditEvent (auditData context input))

end LedgerCredit
