import LedgerCredit.Common
import Mathlib.Data.List.Sort

/-!
# The tables of authentication

Principals, their sessions and refresh tokens, with the statements that
`AuthIdentityService` sends.  The tables are apart from those of the ledger, so
they make a database of their own.

A `updateMany` that waits for a row lock goes on with the rows that it saw when
it began to wait.  The `unseen` rows of a choice are the ones that were committed
in the meantime, which it leaves alone.
-/

namespace LedgerCredit.Auth

open Txn

/-! ## Rows -/

inductive AuthPrincipalStatus where
  | active | disabled
  deriving DecidableEq, Repr

inductive AuthCredentialType where
  | password
  deriving DecidableEq, Repr

inductive AuthSessionStatus where
  | active | revoked | expired
  deriving DecidableEq, Repr

structure AuthPrincipal where
  id : Uuid
  loginId : Option String
  actorType : ActorType
  actorId : String
  status : AuthPrincipalStatus
  deriving DecidableEq, Repr

structure AuthCredential where
  principalId : Uuid
  type : AuthCredentialType
  secretHash : String
  deriving DecidableEq, Repr

structure RoleBinding where
  principalId : Uuid
  role : String
  deriving DecidableEq, Repr

structure ExternalIdentity where
  principalId : Uuid
  issuer : String
  subject : String
  deriving DecidableEq, Repr

structure AuthSession where
  id : Uuid
  principalId : Uuid
  audience : String
  issuer : String
  status : AuthSessionStatus
  refreshExpiresAt : Time
  revokedAt : Option Time
  lastRefreshedAt : Option Time
  deriving DecidableEq, Repr

/-- The index on `replacedByTokenId` is left out: it only ever holds tokens that are created
in the same transaction. -/
structure RefreshToken where
  id : Uuid
  sessionId : Uuid
  tokenHash : String
  expiresAt : Time
  revokedAt : Option Time
  replacedByTokenId : Option Uuid
  deriving DecidableEq, Repr

structure Store where
  principals : Table AuthPrincipal (·.id) (·.loginId)
  credentials : List AuthCredential
  roleBindings : List RoleBinding
  externalIdentities : List ExternalIdentity
  sessions : Table AuthSession (·.id) fun _ => (none : Option Unit)
  refreshTokens : Table RefreshToken (·.id) fun t => some t.tokenHash
  auditEvents : Table AuditEvent (·.id) fun _ => (none : Option Unit)

/-! ## Writes -/

/-- The `data` of an update of sessions; an absent column is left alone. -/
structure AuthSessionUpdate where
  status : Option AuthSessionStatus := none
  revokedAt : Option Time := none
  lastRefreshedAt : Option Time := none
  deriving DecidableEq, Repr

def AuthSessionUpdate.apply (d : AuthSessionUpdate) (x : AuthSession) : AuthSession :=
  { x with
    status := d.status.getD x.status
    revokedAt := d.revokedAt.or x.revokedAt
    lastRefreshedAt := d.lastRefreshedAt.or x.lastRefreshedAt }

@[simp] theorem AuthSessionUpdate.apply_id (d : AuthSessionUpdate) (x : AuthSession) :
    (d.apply x).id = x.id := rfl

@[simp] theorem AuthSessionUpdate.apply_status (d : AuthSessionUpdate) (x : AuthSession) :
    (d.apply x).status = d.status.getD x.status := rfl

/-- The `data` of an update of refresh tokens. -/
structure RefreshTokenUpdate where
  revokedAt : Time
  replacedByTokenId : Option Uuid := none
  deriving DecidableEq, Repr

def RefreshTokenUpdate.apply (d : RefreshTokenUpdate) (x : RefreshToken) : RefreshToken :=
  { x with
    revokedAt := some d.revokedAt
    replacedByTokenId := d.replacedByTokenId.or x.replacedByTokenId }

@[simp] theorem RefreshTokenUpdate.apply_id (d : RefreshTokenUpdate) (x : RefreshToken) :
    (d.apply x).id = x.id := rfl

@[simp] theorem RefreshTokenUpdate.apply_sessionId (d : RefreshTokenUpdate) (x : RefreshToken) :
    (d.apply x).sessionId = x.sessionId := rfl

@[simp] theorem RefreshTokenUpdate.apply_tokenHash (d : RefreshTokenUpdate) (x : RefreshToken) :
    (d.apply x).tokenHash = x.tokenHash := rfl

@[simp] theorem RefreshTokenUpdate.apply_revokedAt (d : RefreshTokenUpdate) (x : RefreshToken) :
    (d.apply x).revokedAt = some d.revokedAt := rfl

@[simp] theorem RefreshTokenUpdate.apply_replaced (d : RefreshTokenUpdate) (x : RefreshToken) :
    (d.apply x).replacedByTokenId = d.replacedByTokenId.or x.replacedByTokenId := rfl

theorem RefreshTokenUpdate.apply_uk (d : RefreshTokenUpdate) (x : RefreshToken) :
    some (d.apply x).tokenHash = some x.tokenHash := rfl

inductive Write where
  | session (row : AuthSession)
  | updateSession (id : Uuid) (data : AuthSessionUpdate)
  | refreshToken (row : RefreshToken)
  | updateRefreshToken (id : Uuid) (data : RefreshTokenUpdate)
  | auditEvent (row : AuditEvent)
  deriving DecidableEq, Repr

/-- The store after a write. -/
def Write.apply (w : Write) (s : Store) : Store :=
  match w with
  | .session r => { s with sessions := s.sessions.insert r }
  | .updateSession id d =>
      { s with sessions := s.sessions.modify id d.apply d.apply_id fun _ => rfl }
  | .refreshToken r => { s with refreshTokens := s.refreshTokens.insert r }
  | .updateRefreshToken id d =>
      { s with refreshTokens := s.refreshTokens.modify id d.apply d.apply_id d.apply_uk }
  | .auditEvent r => { s with auditEvents := s.auditEvents.insert r }

inductive Key where
  | principal (id : Uuid)
  | session (id : Uuid)
  | refreshToken (id : Uuid)
  | tokenHash (hash : String)
  | auditEvent (id : Uuid)
  deriving DecidableEq, Repr

def Store.present (s : Store) : Key → Bool
  | .principal id => (s.principals.get? id).isSome
  | .session id => (s.sessions.get? id).isSome
  | .refreshToken id => (s.refreshTokens.get? id).isSome
  | .tokenHash hash => (s.refreshTokens.find? hash).isSome
  | .auditEvent id => (s.auditEvents.get? id).isSome

namespace Write

/-- The unique keys a write adds. -/
def adds : Write → List Key
  | .session r => [.session r.id]
  | .refreshToken r => [.refreshToken r.id, .tokenHash r.tokenHash]
  | .auditEvent r => [.auditEvent r.id]
  | .updateSession .. | .updateRefreshToken .. => []

/-- The foreign keys of a write, and the row it updates. -/
def needs : Write → List Key
  | .session r => [.principal r.principalId]
  | .updateSession id _ => [.session id]
  | .refreshToken r => [.session r.sessionId]
  | .updateRefreshToken id d =>
      .refreshToken id :: (d.replacedByTokenId.map (.refreshToken)).toList
  | .auditEvent _ => []

/-- The keys a write locks until its transaction ends. -/
def locks : Write → List Key
  | .updateSession id _ => [.session id]
  | .updateRefreshToken id _ => [.refreshToken id]
  | w => w.adds

end Write

namespace Store

/-- The first constraint a write breaks. -/
def violation (s : Store) (w : Write) : Option DatabaseError :=
  if w.adds.any s.present then some .uniqueViolation
  else if !w.needs.all s.present then some .missingRow
  else none

/-- The first constraint that some writes break, one after another. -/
def violations (s : Store) (ws : List Write) : Option DatabaseError :=
  Database.firstViolation violation Write.apply s ws

/-- The reply, if the writes break no constraint. -/
def attempt {β : Type} (s : Store) (r : β) (ws : List Write) : Except TxError (β × List Write) :=
  match s.violations ws with
  | none => .ok (r, ws)
  | some e => .error (.database e)

end Store

/-! ## Statements -/

/-- `JwtPayload`. -/
structure JwtPayload where
  sub : String
  pid : Uuid
  actorType : ActorType
  roles : List String
  aud : String
  iss : String
  sid : Uuid
  jti : Uuid
  deriving DecidableEq, Repr

/-- A principal with `include: { roleBindings: true }`. -/
structure LoadedPrincipal where
  principal : AuthPrincipal
  roles : List String
  deriving DecidableEq, Repr

/-- A principal with `include: { credentials: true, roleBindings: true }`. -/
structure PrincipalWithCredentials extends LoadedPrincipal where
  credentials : List AuthCredential
  deriving DecidableEq, Repr

/-- A session with `include: { principal: { include: { roleBindings: true } } }`. -/
structure SessionWithPrincipal where
  session : AuthSession
  principal : LoadedPrincipal
  deriving DecidableEq, Repr

/-- A refresh token with its session and the principal of it. -/
structure TokenWithSession where
  token : RefreshToken
  session : SessionWithPrincipal
  deriving DecidableEq, Repr

inductive Stmt : Type → Type where
  | newDate : Stmt Time
  | randomUUID : Stmt Uuid
  | createOpaqueToken : Stmt String
  | findPrincipalByLoginId (loginId : String) : Stmt (Option PrincipalWithCredentials)
  | findPrincipal (id : Uuid) : Stmt (Option LoadedPrincipal)
  | findExternalIdentity (issuer subject : String) : Stmt (Option LoadedPrincipal)
  | findRefreshToken (tokenHash : String) : Stmt (Option TokenWithSession)
  | findRefreshTokenSession (tokenHash : String) : Stmt (Option (RefreshToken × AuthSession))
  | findSession (id : Uuid) : Stmt (Option SessionWithPrincipal)
  | createSession (data : Uuid → AuthSession) : Stmt AuthSession
  | createRefreshToken (data : Uuid → RefreshToken) : Stmt RefreshToken
  | updateSession (id : Uuid) (data : AuthSessionUpdate) : Stmt Unit
  | updateActiveSessions (id : Uuid) (data : AuthSessionUpdate) : Stmt Unit
  | updateRefreshToken (id : Uuid) (data : RefreshTokenUpdate) : Stmt Unit
  | updateUnrevokedTokens (sessionId : Uuid) (data : RefreshTokenUpdate) : Stmt Unit
  | createAuditEvent (data : Uuid → AuditEvent) : Stmt Unit

/-- What a statement leaves open. -/
structure Choice where
  uuid : Uuid
  token : String
  now : Time
  order : List Nat
  /-- The rows that were committed while an `updateMany` waited. -/
  unseen : List Uuid

namespace Store

def loadPrincipal (s : Store) (c : Choice) (p : AuthPrincipal) : LoadedPrincipal :=
  ⟨p, arrange c.order ((s.roleBindings.filter (·.principalId = p.id)).map (·.role))⟩

/-- A session with its principal, which the foreign key promises to exist. -/
def loadSession (s : Store) (c : Choice) (x : AuthSession) :
    Except TxError SessionWithPrincipal :=
  match s.principals.get? x.principalId with
  | some p => .ok ⟨x, s.loadPrincipal c p⟩
  | none => .error (.database .missingRow)

/-- The session of a token, which the foreign key promises to exist. -/
def sessionOf (s : Store) (t : RefreshToken) : Except TxError AuthSession :=
  match s.sessions.get? t.sessionId with
  | some x => .ok x
  | none => .error (.database .missingRow)

/-- A token with its session. -/
def loadToken (s : Store) (c : Choice) (t : RefreshToken) : Except TxError TokenWithSession := do
  let x ← s.sessionOf t
  let session ← s.loadSession c x
  return ⟨t, session⟩

/-- What a query finds, loaded with its relations. -/
def found {α β : Type} (load : α → Except TxError β) :
    Option α → Except TxError (Option β × List Write)
  | none => .ok (none, [])
  | some a => (load a).map fun b => (some b, [])

/-- Execute a statement. -/
def exec (s : Store) {β : Type} (q : Stmt β) (c : Choice) : Except TxError (β × List Write) :=
  match q with
  | .newDate => .ok (c.now, [])
  | .randomUUID => .ok (c.uuid, [])
  | .createOpaqueToken => .ok (c.token, [])
  | .findPrincipalByLoginId loginId =>
      .ok ((s.principals.find? loginId).map fun p =>
        ⟨s.loadPrincipal c p, arrange c.order (s.credentials.filter (·.principalId = p.id))⟩, [])
  | .findPrincipal id => .ok ((s.principals.get? id).map (s.loadPrincipal c), [])
  | .findExternalIdentity issuer subject =>
      found (fun x => match s.principals.get? x.principalId with
        | some p => .ok (s.loadPrincipal c p)
        | none => .error (.database .missingRow))
        (s.externalIdentities.find? fun x => x.issuer = issuer && x.subject = subject)
  | .findRefreshToken hash => found (s.loadToken c) (s.refreshTokens.find? hash)
  | .findRefreshTokenSession hash =>
      found (fun t => (s.sessionOf t).map (Prod.mk t)) (s.refreshTokens.find? hash)
  | .findSession id => found (s.loadSession c) (s.sessions.get? id)
  | .createSession data => s.attempt (data c.uuid) [.session (data c.uuid)]
  | .createRefreshToken data => s.attempt (data c.uuid) [.refreshToken (data c.uuid)]
  | .updateSession id data => s.attempt () [.updateSession id data]
  | .updateActiveSessions id data =>
      s.attempt () ((s.sessions.rows.filter fun x =>
        x.id = id && x.status = .active && x.id ∉ c.unseen).map fun x => .updateSession x.id data)
  | .updateRefreshToken id data => s.attempt () [.updateRefreshToken id data]
  | .updateUnrevokedTokens sessionId data =>
      s.attempt () ((s.refreshTokens.rows.filter fun t =>
        t.sessionId = sessionId && t.revokedAt.isNone && t.id ∉ c.unseen).map fun t =>
          .updateRefreshToken t.id data)
  | .createAuditEvent data => s.attempt () [.auditEvent (data c.uuid)]

end Store

/-- The database of authentication. -/
def database : Database Stmt TxError Store Write Choice Key where
  exec := fun q c s => s.exec q c
  apply := Write.apply
  locks := Write.locks
  adds := Write.adds
  needs := Write.needs
  present := Store.present
  aborted := .database .aborted

/-! ## Laws -/

theorem attempt_ok {β : Type} {s : Store} {r r' : β} {ws ws' : List Write}
    (h : s.attempt r ws = .ok (r', ws')) : r' = r ∧ ws' = ws ∧ s.violations ws = none := by
  unfold Store.attempt at h
  cases hv : s.violations ws with
  | none =>
      simp only [hv, Except.ok.injEq, Prod.mk.injEq] at h
      exact ⟨h.1.symm, h.2.symm, rfl⟩
  | some e => simp [hv] at h

theorem found_ok {α β : Type} {load : α → Except TxError β} {o : Option α} {r : Option β}
    {ws : List Write} (h : Store.found load o = .ok (r, ws)) :
    ws = [] ∧ (o = none ∧ r = none ∨ ∃ a b, o = some a ∧ load a = .ok b ∧ r = some b) := by
  cases o with
  | none => cases h; exact ⟨rfl, Or.inl ⟨rfl, rfl⟩⟩
  | some a =>
      cases hload : load a with
      | error e => simp [Store.found, hload, Except.map] at h
      | ok b =>
          simp only [Store.found, hload, Except.map, Except.ok.injEq, Prod.mk.injEq] at h
          exact ⟨h.2.symm, Or.inr ⟨a, b, rfl, hload, h.1.symm⟩⟩

theorem violation_none {s : Store} {w : Write} (h : s.violation w = none) :
    (∀ x ∈ w.adds, ¬ s.present x = true) ∧ (∀ x ∈ w.needs, s.present x = true) := by
  unfold Store.violation at h
  split at h
  · cases h
  · split at h
    · cases h
    · rename_i hadds hneeds
      simp only [List.any_eq_true, not_exists, not_and] at hadds
      simp only [Bool.not_eq_true', Bool.not_eq_false, List.all_eq_true] at hneeds
      exact ⟨hadds, hneeds⟩

/-- A write adds the keys it says. -/
theorem present_apply (w : Write) (s : Store) (h : ∀ x ∈ w.adds, ¬ s.present x = true) (x : Key) :
    (w.apply s).present x = true ↔ s.present x = true ∨ x ∈ w.adds := by
  have absent : ∀ x ∈ w.adds, s.present x = false := fun x hx => by simpa using h x hx
  cases w with
  | session r =>
      have hf : s.sessions.Fresh r :=
        Table.fresh_of_pk (absent (.session r.id) (by simp [Write.adds])) rfl
      cases x <;> simp [Write.apply, Store.present, Write.adds, Table.isSome_get?_insert hf]
  | refreshToken r =>
      have hf : s.refreshTokens.Fresh r := by
        refine Table.fresh_of_absent (absent (.refreshToken r.id) (by simp [Write.adds])) ?_
        rintro u ⟨⟩
        exact absent (.tokenHash r.tokenHash) (by simp [Write.adds])
      cases x <;> simp [Write.apply, Store.present, Write.adds, Table.isSome_get?_insert hf,
        Table.isSome_find?_insert hf]
  | auditEvent r =>
      have hf : s.auditEvents.Fresh r :=
        Table.fresh_of_pk (absent (.auditEvent r.id) (by simp [Write.adds])) rfl
      cases x <;> simp [Write.apply, Store.present, Write.adds, Table.isSome_get?_insert hf]
  | updateSession id d => cases x <;> simp [Write.apply, Store.present, Write.adds]
  | updateRefreshToken id d => cases x <;> simp [Write.apply, Store.present, Write.adds]

theorem violations_none {ws : List Write} {s : Store} (h : s.violations ws = none) :
    database.Admissible s ws :=
  Database.admissible_of_violations (fun w s h x => present_apply w s h x)
    (fun _ _ h => violation_none h) h

/-- A statement that succeeds breaks no constraint. -/
theorem exec_violations {β : Type} {q : Stmt β} {c : Choice} {s : Store} {r : β}
    {ws : List Write} (h : s.exec q c = .ok (r, ws)) : s.violations ws = none := by
  have read : ∀ {r' : β}, Except.ok (r', ([] : List Write)) = (Except.ok (r, ws) : Except TxError _) →
      s.violations ws = none := by
    rintro r' ⟨⟩
    rfl
  cases q with
  | findExternalIdentity issuer subject => obtain ⟨rfl, -⟩ := found_ok h; rfl
  | findRefreshToken hash => obtain ⟨rfl, -⟩ := found_ok h; rfl
  | findRefreshTokenSession hash => obtain ⟨rfl, -⟩ := found_ok h; rfl
  | findSession id => obtain ⟨rfl, -⟩ := found_ok h; rfl
  | _ =>
      simp only [Store.exec] at h
      first
        | exact read h
        | obtain ⟨_, rfl, hv⟩ := attempt_ok h
          exact hv

theorem lawful_database : database.Lawful where
  present_apply := fun w s h x => present_apply w s h x
  adds_locks := by
    intro w x hx
    cases w <;> first | exact hx | exact absurd hx List.not_mem_nil
  exec_admissible := fun h => violations_none (exec_violations h)

end LedgerCredit.Auth
