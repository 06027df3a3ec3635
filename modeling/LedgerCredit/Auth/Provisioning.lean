import LedgerCredit.Auth.Identity

/-!
# `AuthProvisioningService`

The service that creates principals, binds roles to them and maps external
identities.  `provisionPrincipal` looks for a principal by the actor, by the
login id or by the customer id, and updates the one that it finds.  The update
sets the actor, and leaves the login id and the customer id alone where the input
has none.

The tables are those of a principal with its customer.  Its unique columns can
change, so `present` leaves them out.  A statement compares the rows instead,
and locks what it takes.
-/

namespace LedgerCredit.Auth.Provisioning

open Txn

/-! ## Requests -/

/-- `ctx.addIssue`. -/
structure Issue where
  path : String
  message : String
  deriving DecidableEq, Repr

/-- The fields of `provisionPrincipalSchema`, trimmed and with the roles in upper case. -/
structure ProvisionPrincipalInput where
  actorType : ActorType
  actorId : String
  loginId : Option String
  customerId : Option String
  roles : List String
  deriving DecidableEq, Repr

/-- The issues of `superRefine`. -/
def ProvisionPrincipalInput.issues (value : ProvisionPrincipalInput) : List Issue :=
  (if value.actorType = .customer then
    (if (truthy value.customerId).isNone then
      [⟨"customerId", "customerId is required when provisioning a customer principal."⟩] else []) ++
    (if (truthy value.customerId).any (· ≠ value.actorId) then
      [⟨"actorId", "Customer actorId must match customerId."⟩] else [])
  else []) ++
  (if value.actorType ≠ .customer ∧ (truthy value.customerId).isSome then
    [⟨"customerId", "customerId may only be provided for customer principals."⟩] else [])

/-- An input that the schema accepts.  The bounds on the lengths are left out. -/
structure ProvisionPrincipalRequest extends ProvisionPrincipalInput where
  accepted : toProvisionPrincipalInput.issues = []

structure ProvisionRoleBindingRequest where
  principalId : String
  role : String
  deriving DecidableEq, Repr

structure MapExternalIdentityRequest where
  principalId : String
  issuer : String
  subject : String
  deriving DecidableEq, Repr

/-! ## Tables -/

/-- A column of type `uuid` gives its value back in lower case. -/
def uuidOfText (text : String) : Uuid := String.ofList (text.toList.map Char.toLower)

/-- A principal with its customer. -/
structure Principal extends AuthPrincipal where
  customerId : Option Uuid
  deriving DecidableEq, Repr

/-- The `data` of an update of a principal; an absent column is left alone. -/
structure PrincipalUpdate where
  actorType : ActorType
  actorId : String
  status : AuthPrincipalStatus
  loginId : Option String
  customerId : Option Uuid
  deriving DecidableEq, Repr

def PrincipalUpdate.apply (d : PrincipalUpdate) (p : Principal) : Principal :=
  { p with
    actorType := d.actorType
    actorId := d.actorId
    status := d.status
    loginId := d.loginId.or p.loginId
    customerId := d.customerId.or p.customerId }

@[simp] theorem PrincipalUpdate.apply_id (d : PrincipalUpdate) (p : Principal) :
    (d.apply p).id = p.id := rfl

@[simp] theorem PrincipalUpdate.apply_actorType (d : PrincipalUpdate) (p : Principal) :
    (d.apply p).actorType = d.actorType := rfl

@[simp] theorem PrincipalUpdate.apply_actorId (d : PrincipalUpdate) (p : Principal) :
    (d.apply p).actorId = d.actorId := rfl

@[simp] theorem PrincipalUpdate.apply_customerId (d : PrincipalUpdate) (p : Principal) :
    (d.apply p).customerId = d.customerId.or p.customerId := rfl

structure Store where
  customers : List Uuid
  principals : Table Principal (·.id) fun _ => (none : Option Unit)
  roleBindings : List RoleBinding
  externalIdentities : List ExternalIdentity
  auditEvents : Table AuditEvent (·.id) fun _ => (none : Option Unit)

inductive Write where
  | principal (row : Principal)
  | updatePrincipal (id : Uuid) (data : PrincipalUpdate)
  | roleBinding (row : RoleBinding)
  | externalIdentity (row : ExternalIdentity)
  | auditEvent (row : AuditEvent)
  deriving DecidableEq, Repr

/-- `upsert` by the issuer and the subject. -/
def upsertIdentity (row : ExternalIdentity) (rows : List ExternalIdentity) :
    List ExternalIdentity :=
  if rows.any fun x => x.issuer = row.issuer && x.subject = row.subject then
    rows.map fun x => if x.issuer = row.issuer ∧ x.subject = row.subject then row else x
  else rows ++ [row]

/-- The store after a write. -/
def Write.apply (w : Write) (s : Store) : Store :=
  match w with
  | .principal r => { s with principals := s.principals.insert r }
  | .updatePrincipal id d =>
      { s with principals := s.principals.modify id d.apply d.apply_id fun _ => rfl }
  | .roleBinding r => { s with roleBindings := s.roleBindings ++ [r] }
  | .externalIdentity r => { s with externalIdentities := upsertIdentity r s.externalIdentities }
  | .auditEvent r => { s with auditEvents := s.auditEvents.insert r }

inductive Key where
  | customer (id : Uuid)
  | principal (id : Uuid)
  | loginId (loginId : String)
  | customerOf (id : Uuid)
  | roleBinding (principalId : Uuid) (role : String)
  | externalIdentity (issuer subject : String)
  | auditEvent (id : Uuid)
  deriving DecidableEq, Repr

def Store.present (s : Store) : Key → Bool
  | .customer id => s.customers.contains id
  | .principal id => (s.principals.get? id).isSome
  | .auditEvent id => (s.auditEvents.get? id).isSome
  | _ => false

namespace Write

/-- The primary keys a write adds. -/
def adds : Write → List Key
  | .principal r => [.principal r.id]
  | .auditEvent r => [.auditEvent r.id]
  | _ => []

/-- The foreign keys of a write, and the row it updates. -/
def needs : Write → List Key
  | .principal r => (r.customerId.map .customer).toList
  | .updatePrincipal id d => .principal id :: (d.customerId.map .customer).toList
  | .roleBinding r => [.principal r.principalId]
  | .externalIdentity r => [.principal r.principalId]
  | .auditEvent _ => []

/-- The keys a write locks until its transaction ends. -/
def locks : Write → List Key
  | .principal r =>
      .principal r.id :: (r.loginId.map .loginId).toList ++ (r.customerId.map .customerOf).toList
  | .updatePrincipal id d =>
      .principal id :: (d.loginId.map .loginId).toList ++ (d.customerId.map .customerOf).toList
  | .roleBinding r => [.roleBinding r.principalId r.role]
  | .externalIdentity r => [.externalIdentity r.issuer r.subject]
  | .auditEvent r => [.auditEvent r.id]

end Write

/-! ## Statements -/

/-- The `where` of the lookup: the actor, or the login id, or the customer id. -/
structure PrincipalWhere where
  actorType : ActorType
  actorId : String
  loginId : Option String
  customerId : Option Uuid
  deriving DecidableEq, Repr

def PrincipalWhere.matches (w : PrincipalWhere) (p : Principal) : Bool :=
  (p.actorType = w.actorType && p.actorId = w.actorId) ||
    (w.loginId.isSome && p.loginId = w.loginId) ||
    (w.customerId.isSome && p.customerId = w.customerId)

inductive Stmt : Type → Type where
  | findFirstPrincipal (filter : PrincipalWhere) : Stmt (Option Principal)
  | findPrincipal (id : Uuid) : Stmt (Option Principal)
  | createPrincipal (data : Uuid → Principal) : Stmt Principal
  | updatePrincipal (id : Uuid) (data : PrincipalUpdate) : Stmt Principal
  | createRoleBindings (data : List RoleBinding) : Stmt Unit
  | findRoles (principalId : Uuid) : Stmt (List String)
  | upsertExternalIdentity (row : ExternalIdentity) : Stmt ExternalIdentity
  | createAuditEvent (data : Uuid → AuditEvent) : Stmt Unit

namespace Store

/-- Another row has a unique column of the row. -/
def taken (s : Store) (row : Principal) : Bool :=
  s.principals.rows.any fun p => p.id ≠ row.id &&
    ((row.loginId.isSome && p.loginId = row.loginId) ||
      (row.customerId.isSome && p.customerId = row.customerId))

/-- The first constraint a write breaks. -/
def violation (s : Store) (w : Write) : Option DatabaseError :=
  if w.adds.any s.present then some .uniqueViolation
  else if !w.needs.all s.present then some .missingRow
  else none

/-- The reply, if the writes break no constraint. -/
def attempt {β : Type} (s : Store) (r : β) (ws : List Write) : Except TxError (β × List Write) :=
  match Database.firstViolation violation Write.apply s ws with
  | none => .ok (r, ws)
  | some e => .error (.database e)

/-- Write the row of a principal, whose unique columns must be free. -/
def writePrincipal (s : Store) (row : Principal) (w : Write) :
    Except TxError (Principal × List Write) :=
  if s.taken row then .error (.database .uniqueViolation) else s.attempt row [w]

/-- Execute a statement. -/
def exec (s : Store) {β : Type} (q : Stmt β) (c : Choice) : Except TxError (β × List Write) :=
  match q with
  | .findFirstPrincipal filter =>
      .ok ((arrange c.order (s.principals.rows.filter filter.matches)).head?, [])
  | .findPrincipal id => .ok (s.principals.get? id, [])
  | .createPrincipal data => s.writePrincipal (data c.uuid) (.principal (data c.uuid))
  | .updatePrincipal id data =>
      match s.principals.get? id with
      | some p => s.writePrincipal (data.apply p) (.updatePrincipal id data)
      | none => .error (.database .missingRow)
  | .createRoleBindings data =>
      -- `skipDuplicates`
      s.attempt () ((data.eraseDups.filter (· ∉ s.roleBindings)).map .roleBinding)
  | .findRoles principalId =>
      .ok (arrange c.order ((s.roleBindings.filter (·.principalId = principalId)).map (·.role)), [])
  | .upsertExternalIdentity row => s.attempt row [.externalIdentity row]
  | .createAuditEvent data => s.attempt () [.auditEvent (data c.uuid)]

end Store

/-- The database of the service. -/
def database : Database Stmt TxError Store Write Choice Key where
  exec := fun q c s => s.exec q c
  apply := Write.apply
  locks := Write.locks
  adds := Write.adds
  needs := Write.needs
  present := Store.present
  aborted := .database .aborted

/-! ## The service -/

abbrev Transaction (α : Type) := Tx Stmt TxError α

structure ProvisionedPrincipal where
  principalId : Uuid
  actorType : ActorType
  actorId : String
  loginId : Option String
  status : AuthPrincipalStatus
  roles : List String
  deriving DecidableEq, Repr

structure ExternalIdentityMapping where
  principalId : String
  issuer : String
  subject : String
  deriving DecidableEq, Repr

/-- The `where` of `findFirst`. -/
def ProvisionPrincipalInput.filter (input : ProvisionPrincipalInput) : PrincipalWhere where
  actorType := input.actorType
  actorId := input.actorId
  loginId := truthy input.loginId
  customerId := (truthy input.customerId).map uuidOfText

/-- The `data` of `update`. -/
def ProvisionPrincipalInput.update (input : ProvisionPrincipalInput) : PrincipalUpdate where
  actorType := input.actorType
  actorId := input.actorId
  status := .active
  loginId := truthy input.loginId
  customerId := (truthy input.customerId).map uuidOfText

/-- The `data` of `create`. -/
def ProvisionPrincipalInput.create (input : ProvisionPrincipalInput) (id : Uuid) : Principal where
  id := id
  actorType := input.actorType
  actorId := input.actorId
  status := .active
  loginId := truthy input.loginId
  customerId := (truthy input.customerId).map uuidOfText

/-- Update the principal that was found, or create one. -/
def upsertPrincipal (input : ProvisionPrincipalInput) : Option Principal → Transaction Principal
  | some existing => Tx.send (.updatePrincipal existing.id input.update)
  | none => Tx.send (.createPrincipal input.create)

def provisionPrincipalTx (input : ProvisionPrincipalInput) : Transaction ProvisionedPrincipal := do
  let existing ← Tx.send (.findFirstPrincipal input.filter)
  let principal ← upsertPrincipal input existing
  Tx.send (.createRoleBindings (input.roles.map fun role => ⟨principal.id, role⟩))
  let roles ← Tx.send (.findRoles principal.id)
  return {
    principalId := principal.id
    actorType := principal.actorType
    actorId := principal.actorId
    loginId := principal.loginId
    status := principal.status
    roles := sorted roles }

def mapExternalIdentityTx (input : MapExternalIdentityRequest) :
    Transaction ExternalIdentityMapping := do
  let principal ← Tx.send (.findPrincipal (uuidOfText input.principalId))
  let _ ← Tx.require principal
    (.app ⟨404, "auth_principal_not_found", "Auth principal was not found."⟩)
  let externalIdentity ← Tx.send
    (.upsertExternalIdentity ⟨uuidOfText input.principalId, input.issuer, input.subject⟩)
  return ⟨input.principalId, externalIdentity.issuer, externalIdentity.subject⟩

inductive Label : Type → Type 1 where
  | provisionPrincipal (input : ProvisionPrincipalRequest) : Label ProvisionedPrincipal
  | mapExternalIdentity (input : MapExternalIdentityRequest) : Label ExternalIdentityMapping
  | statement {α : Type} (q : Stmt α) : Label α

def Label.body {α : Type} : Label α → Transaction α
  | .provisionPrincipal input => provisionPrincipalTx input.toProvisionPrincipalInput
  | .mapExternalIdentity input => mapExternalIdentityTx input
  | .statement q => Tx.send q

abbrev Process (α : Type) := Proc Label TxError Empty α

def statement {α : Type} (q : Stmt α) : Process α := .transaction (.statement q)

def Process.ofExcept {α : Type} : Except AppException α → Process α
  | .ok a => .pure a
  | .error e => .throw (.app e)

/-- `AuditService.record`. -/
def auditRecord (context : RequestContext) (input : AuditRecordInput) : Process Unit :=
  statement (.createAuditEvent (auditData context input))

def provisionPrincipal (input : ProvisionPrincipalRequest) (context : RequestContext) :
    Process ProvisionedPrincipal := do
  Process.ofExcept (assertAuthenticated context)
  let provisioned ← Proc.transaction (.provisionPrincipal input)
  auditRecord context ⟨"auth.principal_provisioned", "auth_principal", provisioned.principalId⟩
  return provisioned

def provisionRoleBinding (input : ProvisionRoleBindingRequest) (context : RequestContext) :
    Process ProvisionRoleBindingRequest := do
  Process.ofExcept (assertAuthenticated context)
  statement (.createRoleBindings [⟨uuidOfText input.principalId, input.role⟩])
  auditRecord context ⟨"auth.role_bound", "auth_principal", input.principalId⟩
  return input

def mapExternalIdentity (input : MapExternalIdentityRequest) (context : RequestContext) :
    Process ExternalIdentityMapping := do
  Process.ofExcept (assertAuthenticated context)
  let mapping ← Proc.transaction (.mapExternalIdentity input)
  auditRecord context ⟨"auth.external_identity_mapped", "auth_principal", input.principalId⟩
  return mapping

/-! ## The system -/

inductive Call where
  | provisionPrincipal (input : ProvisionPrincipalRequest) (context : RequestContext)
  | provisionRoleBinding (input : ProvisionRoleBindingRequest) (context : RequestContext)
  | mapExternalIdentity (input : MapExternalIdentityRequest) (context : RequestContext)

inductive Reply where
  | done
  | provisioned (r : ProvisionedPrincipal)
  | bound (r : ProvisionRoleBindingRequest)
  | mapped (r : ExternalIdentityMapping)
  deriving DecidableEq, Repr

def Call.program : Call → Process Reply
  | .provisionPrincipal input context => do
      let r ← Provisioning.provisionPrincipal input context
      return .provisioned r
  | .provisionRoleBinding input context => do
      let r ← Provisioning.provisionRoleBinding input context
      return .bound r
  | .mapExternalIdentity input context => do
      let r ← Provisioning.mapExternalIdentity input context
      return .mapped r

/-- The service over its database. -/
def service : System Stmt Label TxError Store Write Choice Key Empty Call Reply where
  toDatabase := database
  body := Label.body
  program := Call.program
  idle := .done

abbrev ServiceConfig := Config Stmt Label TxError Store Write Empty Call Reply

end LedgerCredit.Auth.Provisioning
