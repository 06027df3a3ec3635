import LedgerCredit.Auth.Provisioning
import LedgerCredit.Auth.Actors
import LedgerCredit.Txn.Shared

/-!
# Requests and their guards

A request goes through `AuthGuard` and then through `RolesGuard` before its handler runs.  Which of
them has anything to do is told by the decorators of the handler, or of its controller where the
handler has none.

*Tables.*  The guards read the sessions with `AuthIdentityService`, and `AuthController` writes the
principals and their roles with `AuthProvisioningService`.  Both work on the same tables, so they
are one database here.  The handlers of the other services are left when they are entered.

*Requests.*  A request brings its headers and the time at which its token is verified.  A header
that is missing or comes more than once is absent.  The body is what the schema of the handler makes
of it.
-/

namespace LedgerCredit.Auth.Gateway

open Txn Provisioning

/-! ## Handlers -/

inductive Controller where
  | auth | accounts | transfers | creditAssessments | batchRuns | ops | externalRails | health
  deriving DecidableEq, Repr

/-- The handlers, with those of `OpsController` that others have as well under `ops`. -/
inductive Handler where
  | login | refresh | logout | provisionPrincipal | provisionRoleBinding | mapExternalIdentity
  | getBalance | getLedgerEntries
  | createTransfer | getTransfer
  | createAssessment | getAssessment
  | getBatchRun
  | opsGetTransfer | getTransferExternalEvents | getAuditEvents | retryBatch | redriveTransfer
  | reconcileTransfer | approveCreditAssessment | rejectCreditAssessment
  | ingestProviderEvent
  | live | ready
  deriving DecidableEq, Repr

/-- The class of a handler. -/
def Handler.controller : Handler → Controller
  | .login | .refresh | .logout | .provisionPrincipal | .provisionRoleBinding
  | .mapExternalIdentity => .auth
  | .getBalance | .getLedgerEntries => .accounts
  | .createTransfer | .getTransfer => .transfers
  | .createAssessment | .getAssessment => .creditAssessments
  | .getBatchRun => .batchRuns
  | .opsGetTransfer | .getTransferExternalEvents | .getAuditEvents | .retryBatch
  | .redriveTransfer | .reconcileTransfer | .approveCreditAssessment
  | .rejectCreditAssessment => .ops
  | .ingestProviderEvent => .externalRails
  | .live | .ready => .health

/-- `@Roles` of a class. -/
def Controller.roles : Controller → Option (List String)
  | .accounts => some ["CUSTOMER", "OPS", "AUDITOR", "ADMIN"]
  | .transfers => some ["CUSTOMER", "OPS", "ADMIN"]
  | .creditAssessments => some ["CUSTOMER", "ANALYST", "AUDITOR", "ADMIN"]
  | .batchRuns => some ["OPS", "AUDITOR", "ADMIN"]
  | .ops => some ["OPS", "AUDITOR", "ADMIN"]
  | .auth | .externalRails | .health => none

/-- `@Roles` of a handler. -/
def Handler.roles : Handler → Option (List String)
  | .provisionPrincipal | .provisionRoleBinding | .mapExternalIdentity => some ["ADMIN"]
  | .redriveTransfer | .reconcileTransfer => some ["OPS", "ADMIN"]
  | .approveCreditAssessment | .rejectCreditAssessment => some ["ANALYST", "ADMIN"]
  | _ => none

/-- `@Public` of a class. -/
def Controller.isPublic (_ : Controller) : Option Bool := none

/-- `@Public` of a handler. -/
def Handler.isPublic : Handler → Option Bool
  | .login | .refresh | .logout | .ingestProviderEvent | .live | .ready => some true
  | _ => none

/-- `Reflector.getAllAndOverride`. -/
def getAllAndOverride {α : Type} (handler class_ : Option α) : Option α := handler.or class_

def Handler.requiredRoles (h : Handler) : List String :=
  (getAllAndOverride h.roles h.controller.roles).getD []

def Handler.public (h : Handler) : Bool :=
  (getAllAndOverride h.isPublic h.controller.isPublic).getD false

/-! ## Requests -/

/-- The body of a request, as the schema of its handler parses it. -/
inductive Body where
  | login (input : AuthLoginRequest)
  | refreshToken (refreshToken : String)
  | provisionPrincipal (input : ProvisionPrincipalRequest)
  | provisionRoleBinding (input : ProvisionRoleBindingRequest)
  | mapExternalIdentity (input : MapExternalIdentityRequest)
  | other

structure Request where
  handler : Handler
  authorization : Option String
  correlationId : Option String
  idempotencyKey : Option String
  body : Body
  /-- What `crypto.randomUUID` gives to the hook. -/
  generated : String
  /-- The time at which the token is verified. -/
  now : Time

/-- The context that the hook `onRequest` makes. -/
def onRequest (request : Request) : RequestContext where
  correlationId := (truthy request.correlationId).getD request.generated
  idempotencyKey := request.idempotencyKey
  actor := none

def getRequestContext (request : Request) (context : RequestContext) : RequestContext :=
  { context with idempotencyKey := (truthy request.idempotencyKey).or context.idempotencyKey }

def validationError : AppException := ⟨422, "validation_error", "Request validation failed"⟩

/-! ## Tables -/

/-- The tables of both services. -/
structure Store where
  customers : List Uuid
  principals : Table Principal (·.id) fun _ => (none : Option Unit)
  credentials : List AuthCredential
  roleBindings : List RoleBinding
  externalIdentities : List ExternalIdentity
  sessions : Table AuthSession (·.id) fun _ => (none : Option Unit)
  refreshTokens : Table RefreshToken (·.id) fun t => some t.tokenHash
  auditEvents : Table AuditEvent (·.id) fun _ => (none : Option Unit)

/-- The tables as `AuthIdentityService` sees them.  The login ids are unique, so no principal is
left out. -/
def Store.identity (s : Store) : Auth.Store where
  principals := s.principals.rows.foldl (fun t p => t.insert p.toAuthPrincipal) .empty
  credentials := s.credentials
  roleBindings := s.roleBindings
  externalIdentities := s.externalIdentities
  sessions := s.sessions
  refreshTokens := s.refreshTokens
  auditEvents := s.auditEvents

/-- The tables as `AuthProvisioningService` sees them. -/
def Store.provisioning (s : Store) : Provisioning.Store where
  customers := s.customers
  principals := s.principals
  roleBindings := s.roleBindings
  externalIdentities := s.externalIdentities
  auditEvents := s.auditEvents

inductive Stmt : Type → Type where
  | identity {α : Type} (q : Auth.Stmt α) : Stmt α
  | provisioning {α : Type} (q : Provisioning.Stmt α) : Stmt α

inductive Write where
  | identity (w : Auth.Write)
  | provisioning (w : Provisioning.Write)
  deriving DecidableEq, Repr

/-- The store after a write. -/
def Write.apply (w : Write) (s : Store) : Store :=
  match w with
  | .identity w =>
      let after := w.apply s.identity
      { s with
        sessions := after.sessions
        refreshTokens := after.refreshTokens
        auditEvents := after.auditEvents }
  | .provisioning w =>
      let after := w.apply s.provisioning
      { s with
        principals := after.principals
        roleBindings := after.roleBindings
        externalIdentities := after.externalIdentities
        auditEvents := after.auditEvents }

/-- The keys of `AuthProvisioningService`, and those that only `AuthIdentityService` has. -/
inductive Key where
  | provisioning (key : Provisioning.Key)
  | session (id : Uuid)
  | refreshToken (id : Uuid)
  | tokenHash (hash : String)
  deriving DecidableEq, Repr

def Key.identity : Auth.Key → Key
  | .principal id => .provisioning (.principal id)
  | .auditEvent id => .provisioning (.auditEvent id)
  | .session id => .session id
  | .refreshToken id => .refreshToken id
  | .tokenHash hash => .tokenHash hash

def Store.present (s : Store) : Key → Bool
  | .provisioning key => s.provisioning.present key
  | .session id => s.identity.present (.session id)
  | .refreshToken id => s.identity.present (.refreshToken id)
  | .tokenHash hash => s.identity.present (.tokenHash hash)

namespace Write

def adds : Write → List Key
  | .identity w => w.adds.map Key.identity
  | .provisioning w => w.adds.map .provisioning

def needs : Write → List Key
  | .identity w => w.needs.map Key.identity
  | .provisioning w => w.needs.map .provisioning

def locks : Write → List Key
  | .identity w => w.locks.map Key.identity
  | .provisioning w => w.locks.map .provisioning

end Write

/-- Execute a statement of either service. -/
def Store.exec (s : Store) {β : Type} (q : Stmt β) (c : Choice) :
    Except TxError (β × List Write) :=
  match q with
  | .identity q => (s.identity.exec q c).map fun r => (r.1, r.2.map .identity)
  | .provisioning q => (s.provisioning.exec q c).map fun r => (r.1, r.2.map .provisioning)

/-- The database of both services. -/
def database : Database Stmt TxError Store Write Choice Key where
  exec := fun q c s => s.exec q c
  apply := Write.apply
  locks := Write.locks
  adds := Write.adds
  needs := Write.needs
  present := Store.present
  aborted := .database .aborted

/-! ## Laws -/

section Laws

variable {s : Store} {α : Type} {c : Choice} {r : α} {ws : List Write}

/-- The reply and the writes of a service are those of its statement. -/
theorem map_ok {β W' : Type} {x : Except TxError (β × List W')} {f : W' → Write} {r : β}
    {ws : List Write} (h : (x.map fun r => (r.1, r.2.map f)) = .ok (r, ws)) :
    ∃ ws', x = .ok (r, ws') ∧ ws = ws'.map f := by
  cases x with
  | error e => cases h
  | ok a =>
      cases h
      exact ⟨a.2, rfl, rfl⟩

theorem exec_identity {q : Auth.Stmt α} (h : s.exec (.identity q) c = .ok (r, ws)) :
    ∃ ws', s.identity.exec q c = .ok (r, ws') ∧ ws = ws'.map .identity := map_ok h

theorem exec_provisioning {q : Provisioning.Stmt α} (h : s.exec (.provisioning q) c = .ok (r, ws)) :
    ∃ ws', s.provisioning.exec q c = .ok (r, ws') ∧ ws = ws'.map .provisioning := map_ok h

/-- The principals that `AuthIdentityService` sees are there. -/
theorem mem_identity {p : AuthPrincipal} (h : p ∈ s.identity.principals.rows) :
    ∃ p' ∈ s.principals.rows, p'.toAuthPrincipal = p := by
  have hfold : ∀ (ps : List Principal) (t : Table AuthPrincipal (·.id) (·.loginId)),
      p ∈ (ps.foldl (fun t p => t.insert p.toAuthPrincipal) t).rows →
        p ∈ t.rows ∨ ∃ p' ∈ ps, p'.toAuthPrincipal = p := by
    intro ps
    induction ps with
    | nil => exact fun t h => Or.inl h
    | cons p' ps ih =>
        intro t h
        rcases ih _ h with hmem | ⟨p'', hp'', heq⟩
        · by_cases hfresh : t.Fresh p'.toAuthPrincipal
          · rw [Table.rows_insert hfresh, List.mem_append, List.mem_singleton] at hmem
            exact hmem.imp_right fun heq => ⟨p', List.mem_cons_self, heq.symm⟩
          · simp only [Table.insert, hfresh, dite_false] at hmem
            exact Or.inl hmem
        · exact Or.inr ⟨p'', List.mem_cons_of_mem _ hp'', heq⟩
  rcases hfold _ _ h with hempty | hmem
  · cases hempty
  · exact hmem

theorem identity_injective : Key.identity.Injective := by
  intro x y h
  cases x <;> cases y <;> simp_all [Key.identity]

theorem present_identity {x : Auth.Key} (h : s.identity.present x = true) :
    s.present (Key.identity x) = true := by
  cases x with
  | principal id =>
      obtain ⟨p, hp⟩ := Option.isSome_iff_exists.mp h
      obtain ⟨hmem, hid⟩ := Table.get?_eq_some.mp hp
      obtain ⟨p', hp', rfl⟩ := mem_identity hmem
      have hget : s.principals.get? id = some p' := Table.get?_eq_some.mpr ⟨hp', hid⟩
      simp [Store.present, Key.identity, Provisioning.Store.present, Store.provisioning, hget]
  | _ => exact h

/-- `AuthIdentityService` adds no principals. -/
theorem adds_identity {w : Auth.Write} {x : Auth.Key} (hx : x ∈ w.adds) :
    s.present (Key.identity x) = s.identity.present x ∧
      ((Write.identity w).apply s).present (Key.identity x) =
        (w.apply s.identity).present x := by
  cases w <;> simp only [Auth.Write.adds, List.mem_cons, List.not_mem_nil, or_false] at hx
  · subst hx
    exact ⟨rfl, rfl⟩
  · rcases hx with rfl | rfl <;> exact ⟨rfl, rfl⟩
  · subst hx
    exact ⟨rfl, rfl⟩

theorem present_apply (w : Write) (s : Store) (h : ∀ x ∈ w.adds, ¬ s.present x = true) (x : Key) :
    (w.apply s).present x = true ↔ s.present x = true ∨ x ∈ w.adds := by
  cases w with
  | identity w =>
      have habsent : ∀ y ∈ w.adds, ¬ s.identity.present y = true := fun y hy hpresent =>
        h _ (List.mem_map_of_mem hy) (present_identity hpresent)
      have hiff := Auth.present_apply w s.identity habsent
      have hmap : ∀ y, Key.identity y ∈ (Write.identity w).adds ↔ y ∈ w.adds := fun y =>
        List.mem_map_of_injective identity_injective
      cases x with
      | session id => exact (hiff (.session id)).trans (or_congr_right (hmap (.session id)).symm)
      | refreshToken id =>
          exact (hiff (.refreshToken id)).trans (or_congr_right (hmap (.refreshToken id)).symm)
      | tokenHash hash =>
          exact (hiff (.tokenHash hash)).trans (or_congr_right (hmap (.tokenHash hash)).symm)
      | provisioning key =>
          cases key with
          | auditEvent id =>
              exact (hiff (.auditEvent id)).trans (or_congr_right (hmap (.auditEvent id)).symm)
          | _ => cases w <;> simp [Write.adds, Auth.Write.adds, Key.identity] <;> rfl
  | provisioning w =>
      have habsent : ∀ y ∈ w.adds, ¬ s.provisioning.present y = true := fun y hy =>
        h _ (List.mem_map_of_mem hy)
      have hiff := Provisioning.present_apply w s.provisioning habsent
      cases x with
      | provisioning key =>
          have hsame : ((Write.provisioning w).apply s).present (.provisioning key) =
              (w.apply s.provisioning).present key := by
            cases w <;> cases key <;> rfl
          rw [hsame, hiff key]
          exact or_congr_right (by simp [Write.adds])
      | _ =>
          simp [Write.adds]
          rfl

theorem lawful_database : database.Lawful where
  present_apply := present_apply
  adds_locks := by
    intro w x hx
    cases w with
    | identity w =>
        obtain ⟨y, hy, rfl⟩ := List.mem_map.mp hx
        exact List.mem_map_of_mem (Auth.lawful_database.adds_locks w y hy)
    | provisioning w =>
        obtain ⟨y, hy, rfl⟩ := List.mem_map.mp hx
        exact List.mem_map_of_mem (Provisioning.lawful_database.adds_locks w y hy)
  exec_admissible := by
    intro β q c s r ws h
    cases q with
    | identity q =>
        obtain ⟨ws', hexec, rfl⟩ := exec_identity h
        refine (Auth.lawful_database.exec_admissible hexec).map identity_injective (fun _ => rfl)
          (fun _ => rfl) (fun x => present_identity) fun x hx hpresent => ?_
        obtain ⟨w, -, hw⟩ := List.mem_flatMap.mp hx
        exact (adds_identity hw).1.symm.trans hpresent
    | provisioning q =>
        obtain ⟨ws', hexec, rfl⟩ := exec_provisioning h
        exact (Provisioning.lawful_database.exec_admissible hexec).map
          (fun _ _ h => Key.provisioning.inj h) (fun _ => rfl) (fun _ => rfl) (fun x h => h)
          fun x _ h => h

end Laws

/-! ## Guards -/

/-- The transactions of both services. -/
inductive Label : Type → Type 1 where
  | identity {α : Type} (l : Auth.Label α) : Label α
  | provisioning {α : Type} (l : Provisioning.Label α) : Label α

def Label.body (env : Env) {α : Type} : Label α → Tx Stmt TxError α
  | .identity l => (l.body env).lift .identity
  | .provisioning l => l.body.lift .provisioning

abbrev Process (α : Type) := Proc Label TxError Empty α

def throwing {α : Type} (e : AppException) : Process α := .throw (.app e)

/-- `RolesGuard.canActivate`. -/
def rolesGuard (handler : Handler) (actor : Option AuthenticatedActor) :
    Except AppException Unit :=
  let requiredRoles := handler.requiredRoles
  if requiredRoles = [] then .ok ()
  else
    let actorRoles := (actor.map (·.roles)).getD []
    if requiredRoles.any fun role => role ∈ actorRoles then .ok ()
    else .error ⟨403, "forbidden",
      "The authenticated actor does not have permission for this action."⟩

/-! ## The system -/

inductive Reply where
  | done
  | identity (r : Auth.Reply)
  | provisioning (r : Provisioning.Reply)
  /-- The handler of another service is entered. -/
  | entered (handler : Handler) (context : RequestContext) (actor : Option AuthenticatedActor)
  deriving DecidableEq

/-- A call of `AuthIdentityService`. -/
def identityCall (env : Env) (call : Auth.Call) : Process Reply := do
  let r ← (call.program env).relabel .identity
  return .identity r

/-- A call of `AuthProvisioningService`. -/
def provisioningCall (call : Provisioning.Call) : Process Reply := do
  let r ← call.program.relabel .provisioning
  return .provisioning r

/-- What the handler does with the body, in the context that the guards left. -/
def handler (env : Env) (request : Request) (context : RequestContext)
    (actor : Option AuthenticatedActor) : Process Reply :=
  match request.handler, request.body with
  | .login, .login input => identityCall env (.login input context)
  | .refresh, .refreshToken refreshToken => identityCall env (.refresh refreshToken context)
  | .logout, .refreshToken refreshToken => identityCall env (.logout refreshToken context)
  | .provisionPrincipal, .provisionPrincipal input =>
      provisioningCall (.provisionPrincipal input context)
  | .provisionRoleBinding, .provisionRoleBinding input =>
      provisioningCall (.provisionRoleBinding input context)
  | .mapExternalIdentity, .mapExternalIdentity input =>
      provisioningCall (.mapExternalIdentity input context)
  | .login, _ | .refresh, _ | .logout, _ | .provisionPrincipal, _ | .provisionRoleBinding, _
  | .mapExternalIdentity, _ => throwing validationError
  | handler, _ => return .entered handler context actor

abbrev GatewayConfig := Config Stmt Label TxError Store Write Empty Request Reply

/-- All schedules. -/
def anySchedule (_ : GatewayConfig) (_ : Action Choice Request) : Bool := true

end LedgerCredit.Auth.Gateway
