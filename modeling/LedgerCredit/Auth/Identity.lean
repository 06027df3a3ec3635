import LedgerCredit.Txn.Schedule
import LedgerCredit.Auth.Schema

/-!
# `AuthIdentityService`

Login, refresh, logout and the check of an access token.  `refresh` looks the
token up and checks it before its transaction begins, and the transaction
updates the row by its id.

`authenticateAccessToken` gets the time at which the signature is verified,
which is before the call reads the database.
-/

namespace LedgerCredit.Auth

open Txn

/-! ## Requests and responses -/

/-- `authLoginSchema`. -/
inductive AuthLoginRequest where
  | password (audience loginId secret : String)
  | tokenExchange (audience subjectToken : String)
  deriving DecidableEq, Repr

structure PrincipalResponse where
  principalId : Uuid
  actorId : String
  actorType : ActorType
  roles : List String
  audience : String
  deriving DecidableEq, Repr

structure TokenResponse where
  accessToken : String
  refreshToken : String
  tokenType : String
  expiresInSeconds : Nat
  principal : PrincipalResponse
  deriving DecidableEq, Repr

/-- What `createTokensForSession` returns. -/
structure IssuedTokens where
  refreshTokenId : Uuid
  response : TokenResponse
  deriving DecidableEq, Repr

structure AuthenticatedActor where
  actorId : String
  actorType : ActorType
  roles : List String
  audience : String
  deriving DecidableEq, Repr

/-- `AppConfigService`, and the functions that the service takes from outside. -/
structure Env where
  authCustomerAudience : String
  authOperatorAudience : String
  authInternalIssuer : String
  authRefreshTtlSeconds : Nat
  authAccessTtlSeconds : Nat
  /-- `hashOpaqueToken`, the SHA-256 of a token. -/
  hashOpaqueToken : String → String
  /-- `PasswordHasher.verify`. -/
  verifySecret : String → String → Bool
  /-- `OidcIdentityVerifier.verifySubjectToken`: the issuer and the subject. -/
  verifySubjectToken : String → Except AppException (String × String)
  /-- `JwtService.signAsync`, at a time. -/
  signAsync : Time → JwtPayload → String
  /-- `JwtService.verifyAsync`, at a time. -/
  verifyAsync : Time → String → Option JwtPayload

/-! ## Transactions -/

abbrev Transaction (α : Type) := Tx Stmt TxError α

def invalidCredentials : AppException :=
  ⟨401, "invalid_credentials", "Invalid login credentials."⟩

def invalidRefreshToken : AppException :=
  ⟨401, "invalid_refresh_token", "Refresh token is invalid or expired."⟩

def invalidToken : AppException :=
  ⟨401, "invalid_token", "Bearer token is invalid or expired."⟩

def createTokensForSession (env : Env) (principal : LoadedPrincipal) (roles : List String)
    (sessionId : Uuid) (audience : String) (refreshExpiresAt : Time) :
    Transaction IssuedTokens := do
  let refreshToken ← Tx.send .createOpaqueToken
  let refreshRecord ← Tx.send (.createRefreshToken fun id =>
    { id
      sessionId
      tokenHash := env.hashOpaqueToken refreshToken
      expiresAt := refreshExpiresAt
      revokedAt := none
      replacedByTokenId := none })
  let jti ← Tx.send .randomUUID
  let now ← Tx.send .newDate
  let payload : JwtPayload :=
    { sub := principal.principal.actorId
      pid := principal.principal.id
      actorType := principal.principal.actorType
      roles
      aud := audience
      iss := env.authInternalIssuer
      sid := sessionId
      jti }
  return {
    refreshTokenId := refreshRecord.id
    response := {
      accessToken := env.signAsync now payload
      refreshToken
      tokenType := "Bearer"
      expiresInSeconds := env.authAccessTtlSeconds
      principal := {
        principalId := principal.principal.id
        actorId := principal.principal.actorId
        actorType := principal.principal.actorType
        roles
        audience } } }

def issueSessionTokensTx (env : Env) (principal : LoadedPrincipal) (roles : List String)
    (audience : String) : Transaction TokenResponse := do
  let now ← Tx.send .newDate
  let refreshExpiresAt := now + env.authRefreshTtlSeconds * 1000
  let session ← Tx.send (.createSession fun id =>
    { id
      principalId := principal.principal.id
      audience
      issuer := env.authInternalIssuer
      status := .active
      refreshExpiresAt
      revokedAt := none
      lastRefreshedAt := none })
  let issuedTokens ←
    createTokensForSession env principal roles session.id audience refreshExpiresAt
  return issuedTokens.response

/-- The transaction of `refresh`, on the row that was looked up before. -/
def rotateTx (env : Env) (existingToken : TokenWithSession) : Transaction TokenResponse := do
  let session := existingToken.session.session
  let found ← Tx.send (.findPrincipal session.principalId)
  let principal ← Tx.require found (.app invalidRefreshToken)
  let issuedTokens ← createTokensForSession env principal principal.roles
    existingToken.token.sessionId session.audience session.refreshExpiresAt
  let now ← Tx.send .newDate
  Tx.send (.updateRefreshToken existingToken.token.id
    { revokedAt := now, replacedByTokenId := some issuedTokens.refreshTokenId })
  let now ← Tx.send .newDate
  Tx.send (.updateSession existingToken.token.sessionId { lastRefreshedAt := some now })
  return issuedTokens.response

def revokeSessionTx (sessionId : Uuid) : Transaction Unit := do
  let now ← Tx.send .newDate
  Tx.send (.updateActiveSessions sessionId { status := some .revoked, revokedAt := some now })
  let now ← Tx.send .newDate
  Tx.send (.updateUnrevokedTokens sessionId { revokedAt := now })

/-! ## Processes -/

inductive Label : Type → Type 1 where
  | issueSessionTokens (principal : LoadedPrincipal) (roles : List String) (audience : String) :
      Label TokenResponse
  | rotate (existingToken : TokenWithSession) : Label TokenResponse
  | revokeSession (sessionId : Uuid) : Label Unit
  | statement {α : Type} (q : Stmt α) : Label α

def Label.body (env : Env) {α : Type} : Label α → Transaction α
  | .issueSessionTokens principal roles audience =>
      issueSessionTokensTx env principal roles audience
  | .rotate existingToken => rotateTx env existingToken
  | .revokeSession sessionId => revokeSessionTx sessionId
  | .statement q => Tx.send q

/-- A process of the service, which uses no worker pools. -/
abbrev Process (α : Type) := Proc Label TxError Empty α

def statement {α : Type} (q : Stmt α) : Process α := .transaction (.statement q)

def throwing {α : Type} (e : AppException) : Process α := .throw (.app e)

def Process.ofExcept {α : Type} : Except AppException α → Process α
  | .ok a => .pure a
  | .error e => throwing e

def auditRecord (context : RequestContext) (input : AuditRecordInput) : Process Unit :=
  statement (.createAuditEvent (auditData context input))

def assertActivePrincipal (principal : AuthPrincipal) : Except AppException Unit :=
  if principal.status ≠ .active then .error ⟨403, "principal_disabled", "Principal is disabled."⟩
  else .ok ()

def assertActiveSession (session : AuthSession) : Except AppException Unit :=
  if session.status ≠ .active ∨ session.revokedAt.isSome then .error invalidToken
  else .ok ()

def revokeSession (sessionId : Uuid) : Process Unit := .transaction (.revokeSession sessionId)

def expireSession (sessionId : Uuid) : Process Unit :=
  statement (.updateActiveSessions sessionId { status := some .expired })

/-- The tokens of a new session, and the audit event. -/
def loginAs (principal : LoadedPrincipal) (audience : String) (context : RequestContext) :
    Process TokenResponse := do
  let response ← Proc.transaction (.issueSessionTokens principal principal.roles audience)
  auditRecord context ⟨"auth.login", "auth_principal", principal.principal.id⟩
  return response

def login (env : Env) (input : AuthLoginRequest) (context : RequestContext) :
    Process TokenResponse :=
  match input with
  | .password audience loginId secret =>
      if audience ≠ env.authCustomerAudience then
        throwing ⟨422, "invalid_audience",
          "Password logins are only allowed for the customer audience."⟩
      else do
        let principal ← statement (.findPrincipalByLoginId loginId)
        match principal with
        | none => throwing invalidCredentials
        | some principal =>
            if principal.principal.actorType ≠ .customer then throwing invalidCredentials
            else
              Process.ofExcept (assertActivePrincipal principal.principal)
              match principal.credentials.find? (·.type = .password) with
              | none => throwing invalidCredentials
              | some passwordCredential =>
                  if env.verifySecret secret passwordCredential.secretHash then
                    loginAs principal.toLoadedPrincipal audience context
                  else throwing invalidCredentials
  | .tokenExchange audience subjectToken =>
      if audience ≠ env.authOperatorAudience then
        throwing ⟨422, "invalid_audience",
          "Token exchange is only allowed for the operator audience."⟩
      else do
        let (issuer, subject) ← Process.ofExcept (env.verifySubjectToken subjectToken)
        let mappedIdentity ← statement (.findExternalIdentity issuer subject)
        match mappedIdentity with
        | none =>
            throwing ⟨403, "external_identity_not_mapped",
              "External identity is not mapped to an operator principal."⟩
        | some principal =>
            Process.ofExcept (assertActivePrincipal principal.principal)
            loginAs principal audience context

/-- The transaction of `refresh`, and the audit event. -/
def rotate (existingToken : TokenWithSession) (context : RequestContext) :
    Process TokenResponse := do
  let result ← Proc.transaction (.rotate existingToken)
  auditRecord context ⟨"auth.refreshed", "auth_session", existingToken.token.sessionId⟩
  return result

/-- `refresh` of a token that was not used before, at a time. -/
def refreshUnused (existingToken : TokenWithSession) (context : RequestContext) (now : Time) :
    Process TokenResponse :=
  if existingToken.token.expiresAt ≤ now then do
    expireSession existingToken.token.sessionId
    throwing ⟨401, "refresh_token_expired", "Refresh token is invalid or expired."⟩
  else do
    Process.ofExcept (assertActiveSession existingToken.session.session)
    Process.ofExcept (assertActivePrincipal existingToken.session.principal.principal)
    rotate existingToken context

/-- `refresh` after its lookup. -/
def refreshFound (existingToken : TokenWithSession) (context : RequestContext) :
    Process TokenResponse :=
  let token := existingToken.token
  if token.revokedAt.isSome ∨ token.replacedByTokenId.isSome then do
    revokeSession token.sessionId
    throwing ⟨401, "refresh_token_replayed", "Refresh token has already been used."⟩
  else do
    let now ← statement .newDate
    refreshUnused existingToken context now

def refresh (env : Env) (refreshToken : String) (context : RequestContext) :
    Process TokenResponse := do
  let existingToken ← statement (.findRefreshToken (env.hashOpaqueToken refreshToken))
  match existingToken with
  | none => throwing invalidRefreshToken
  | some existingToken => refreshFound existingToken context

def logout (env : Env) (refreshToken : String) (context : RequestContext) : Process Unit := do
  let found ← statement (.findRefreshTokenSession (env.hashOpaqueToken refreshToken))
  match found with
  | none => return ()
  | some (token, _) =>
      revokeSession token.sessionId
      auditRecord context ⟨"auth.logout", "auth_session", token.sessionId⟩

/-- The UTF-16 code units of a character. -/
def codeUnits (ch : Char) : List Nat :=
  if ch.toNat < 0x10000 then [ch.toNat]
  else [0xd800 + (ch.toNat - 0x10000) / 0x400, 0xdc00 + (ch.toNat - 0x10000) % 0x400]

/-- The lexicographic order of code units. -/
def unitsLe : List Nat → List Nat → Bool
  | [], _ => true
  | _ :: _, [] => false
  | a :: l, b :: m => a < b || (a == b && unitsLe l m)

/-- `Array.prototype.sort` on strings, by UTF-16 code units. -/
def sorted (roles : List String) : List String :=
  roles.insertionSort fun a b =>
    unitsLe (a.toList.flatMap codeUnits) (b.toList.flatMap codeUnits) = true

/-- `authenticateAccessToken` after its lookup.  Two arrays of strings are equal if their JSON
is. -/
def authenticate (payload : JwtPayload) (found : SessionWithPrincipal) :
    Except AppException AuthenticatedActor := do
  let session := found.session
  let principal := found.principal.principal
  assertActiveSession session
  assertActivePrincipal principal
  let roles := sorted found.principal.roles
  if payload.pid ≠ session.principalId ∨ payload.sub ≠ principal.actorId ∨
      payload.actorType ≠ principal.actorType ∨ payload.aud ≠ session.audience ∨
      roles ≠ sorted payload.roles then
    .error ⟨403, "forbidden",
      "The authenticated actor does not have permission for this action."⟩
  else return ⟨principal.actorId, principal.actorType, roles, session.audience⟩

def authenticateAccessToken (env : Env) (token : String) (now : Time) :
    Process AuthenticatedActor :=
  match env.verifyAsync now token with
  | none => throwing invalidToken
  | some payload => do
      let session ← statement (.findSession payload.sid)
      match session with
      | none => throwing invalidToken
      | some found => Process.ofExcept (authenticate payload found)

/-! ## The system -/

/-- The calls of the service. -/
inductive Call where
  | login (input : AuthLoginRequest) (context : RequestContext)
  | refresh (refreshToken : String) (context : RequestContext)
  | logout (refreshToken : String) (context : RequestContext)
  | authenticateAccessToken (token : String) (now : Time)
  deriving DecidableEq

inductive Reply where
  | tokens (response : TokenResponse)
  | loggedOut
  | authenticated (actor : AuthenticatedActor)
  deriving DecidableEq, Repr

def Call.program (env : Env) : Call → Process Reply
  | .login input context => return .tokens (← Auth.login env input context)
  | .refresh refreshToken context => return .tokens (← Auth.refresh env refreshToken context)
  | .logout refreshToken context => do
      Auth.logout env refreshToken context
      return .loggedOut
  | .authenticateAccessToken token now =>
      return .authenticated (← Auth.authenticateAccessToken env token now)

/-- The service as a system. -/
def server (env : Env) : System Stmt Label TxError Store Write Choice Key Empty Call Reply where
  toDatabase := database
  body := Label.body env
  program := Call.program env
  idle := .loggedOut

abbrev ServerConfig := Config Stmt Label TxError Store Write Empty Call Reply

end LedgerCredit.Auth
