import LedgerCredit.Txn.Soundness
import LedgerCredit.Txn.Stages
import LedgerCredit.Auth.Identity

/-!
# Revocation is final

No transaction of the service makes a session active again, and every token
keeps its session and its hash.  So `Store.Extends` orders the committed stores,
and the rules below hold of all schedules.

A call that presents a token reads the session with its first statement.  If the
session had ended by then, all the ways on from there throw, whatever other
calls commit meanwhile.
-/

namespace LedgerCredit.Auth

open Txn

/-! ## Growth -/

/-- The token is the one that `t` was before. -/
structure RefreshToken.Succeeds (t' t : RefreshToken) : Prop where
  id : t'.id = t.id
  sessionId : t'.sessionId = t.sessionId
  tokenHash : t'.tokenHash = t.tokenHash
  replaced : t.replacedByTokenId.isSome → t'.replacedByTokenId.isSome

/-- The token has a row. -/
def Store.Has (s : Store) (t : RefreshToken) : Prop := ∃ t' ∈ s.refreshTokens.rows, t'.Succeeds t

/-- The session has ended. -/
def Store.Ended (s : Store) (sessionId : Uuid) : Prop :=
  ∃ x ∈ s.sessions.rows, x.id = sessionId ∧ x.status ≠ .active

/-- A later store: nothing is removed, and what has ended stays so. -/
structure Store.Extends (s s' : Store) : Prop where
  session : ∀ x ∈ s.sessions.rows, ∃ x' ∈ s'.sessions.rows,
    x'.id = x.id ∧ (x.status ≠ .active → x'.status ≠ .active)
  token : ∀ t ∈ s.refreshTokens.rows, s'.Has t

theorem RefreshToken.Succeeds.refl (t : RefreshToken) : t.Succeeds t :=
  ⟨rfl, rfl, rfl, fun h => h⟩

theorem RefreshToken.Succeeds.trans {t t' t'' : RefreshToken} (h : t''.Succeeds t')
    (h' : t'.Succeeds t) : t''.Succeeds t :=
  ⟨h.id.trans h'.id, h.sessionId.trans h'.sessionId, h.tokenHash.trans h'.tokenHash,
    fun hr => h.replaced (h'.replaced hr)⟩

theorem Store.Extends.refl (s : Store) : s.Extends s where
  session := fun x hx => ⟨x, hx, rfl, id⟩
  token := fun t ht => ⟨t, ht, .refl t⟩

section Growth

variable {s s' s'' : Store} {ws : List Write} {sid : Uuid}

theorem Store.Has.mono {t : RefreshToken} (h : s.Has t) (hext : s.Extends s') : s'.Has t := by
  obtain ⟨t', ht', hsucc⟩ := h
  obtain ⟨t'', ht'', hsucc'⟩ := hext.token t' ht'
  exact ⟨t'', ht'', hsucc'.trans hsucc⟩

theorem Store.Ended.mono (h : s.Ended sid) (hext : s.Extends s') : s'.Ended sid := by
  obtain ⟨x, hx, hid, hstatus⟩ := h
  obtain ⟨x', hx', hid', hkeeps⟩ := hext.session x hx
  exact ⟨x', hx', hid'.trans hid, hkeeps hstatus⟩

theorem Store.Extends.trans (h : s.Extends s') (h' : s'.Extends s'') : s.Extends s'' where
  session := by
    intro x hx
    obtain ⟨x', hx', hid, hstatus⟩ := h.session x hx
    obtain ⟨x'', hx'', hid', hstatus'⟩ := h'.session x' hx'
    exact ⟨x'', hx'', hid'.trans hid, fun hne => hstatus' (hstatus hne)⟩
  token := fun t ht => (h.token t ht).mono h'

/-- Of the sessions with one id there is one row. -/
theorem Store.Ended.status {x : AuthSession} (h : s.Ended sid) (hx : x ∈ s.sessions.rows)
    (hid : x.id = sid) : x.status ≠ .active := by
  obtain ⟨x', hx', hid', hstatus⟩ := h
  rwa [Table.eq_of_pk hx hx' (hid.trans hid'.symm)]

/-- The write makes no session active again. -/
def Write.fair : Write → Bool
  | .updateSession _ d => d.status ≠ some .active
  | _ => true

theorem fresh_session {x : AuthSession} (hadm : database.Admissible s [.session x]) :
    s.sessions.Fresh x := by
  have habsent : ¬ s.present (.session x.id) = true :=
    hadm.1 (.session x.id) (by simp [database, Write.adds])
  exact Table.fresh_of_absent (Bool.eq_false_iff.mpr habsent) (by simp)

theorem fresh_refreshToken {t : RefreshToken} (hadm : database.Admissible s [.refreshToken t]) :
    s.refreshTokens.Fresh t := by
  have habsent : ∀ x ∈ (Write.refreshToken t).adds, s.present x = false :=
    fun x hx => Bool.eq_false_iff.mpr (hadm.1 x hx)
  refine Table.fresh_of_absent (habsent (.refreshToken t.id) (by simp [Write.adds])) ?_
  rintro u ⟨⟩
  exact habsent (.tokenHash t.tokenHash) (by simp [Write.adds])

theorem extends_apply {w : Write} (hfair : w.fair = true) (hadm : database.Admissible s [w]) :
    s.Extends (w.apply s) := by
  have hrefl := Store.Extends.refl s
  cases w with
  | session x =>
      refine ⟨fun x' hx' => ⟨x', ?_, rfl, id⟩, hrefl.token⟩
      rw [Write.apply, Table.rows_insert (fresh_session hadm)]
      exact List.mem_append_left _ hx'
  | updateSession id d =>
      refine ⟨fun x hx => ⟨_, List.mem_map_of_mem hx, ?_, fun hne => ?_⟩, hrefl.token⟩
      · split <;> simp
      · split
        · cases hd : d.status with
          | none => simpa [hd] using hne
          | some st => simpa [hd, Write.fair] using hfair
        · exact hne
  | refreshToken t =>
      refine ⟨hrefl.session, fun t' ht' => ⟨t', ?_, .refl t'⟩⟩
      rw [Write.apply, Table.rows_insert (fresh_refreshToken hadm)]
      exact List.mem_append_left _ ht'
  | updateRefreshToken id d =>
      refine ⟨hrefl.session, fun t ht => ⟨_, List.mem_map_of_mem ht, ?_⟩⟩
      split
      · exact ⟨rfl, rfl, rfl, fun hr => by cases h : d.replacedByTokenId <;> simp [h, hr]⟩
      · exact .refl t
  | auditEvent r => exact ⟨hrefl.session, hrefl.token⟩

theorem extends_applyAll (hfair : ∀ w ∈ ws, w.fair = true) (hadm : database.Admissible s ws) :
    s.Extends (database.applyAll ws s) := by
  induction ws generalizing s with
  | nil => exact .refl s
  | cons w ws ih =>
      obtain ⟨hw, hrest⟩ := Database.Admissible.of_cons lawful_database hadm
      exact (extends_apply (hfair w (List.mem_cons_self ..)) hw).trans
        (ih (fun w hw => hfair w (List.mem_cons_of_mem _ hw)) hrest)

end Growth

/-! ## What the transactions write -/

/-- The event is the execution of its statement. -/
def Executed (e : Event Stmt Write) : Prop :=
  ∃ (s : Store) (ch : Choice), s.exec e.query ch = .ok (e.reply, e.writes)

/-- A token of the session that was just issued. -/
structure RefreshToken.Issued (t : RefreshToken) (sid : Uuid) : Prop where
  sessionId : t.sessionId = sid
  revokedAt : t.revokedAt = none
  replacedByTokenId : t.replacedByTokenId = none

/-- The write issues nothing, and makes no session active. -/
def Write.closes : Write → Bool
  | .updateSession _ d => d.status ≠ some .active
  | .updateRefreshToken _ d => d.replacedByTokenId.isNone
  | .auditEvent _ => true
  | _ => false

theorem fair_of_closes {w : Write} (h : w.closes = true) : w.fair = true := by
  cases w with
  | updateSession id d => exact h
  | _ => rfl

section Runs

variable {V : List Write → Event Stmt Write → Prop} {p ws : List Write} {env : Env}
  (hV : ∀ p e, V p e → Executed e)
include hV

theorem executed_read {α : Type} {q : Stmt α} {r : α} (hread : ∀ s ch r ws,
    Store.exec s q ch = .ok (r, ws) → ws = []) (h : V p ⟨q, r, ws⟩) : ws = [] := by
  obtain ⟨s, ch, hexec⟩ := hV _ _ h
  exact hread _ _ _ _ hexec

theorem executed_newDate {r : Time} (h : V p ⟨.newDate, r, ws⟩) : ws = [] :=
  executed_read hV (by rintro s ch r ws ⟨⟩; rfl) h

theorem createTokensForSession_runs {principal : LoadedPrincipal} {roles : List String}
    {sid : Uuid} {audience : String} {refreshExpiresAt : Time} {r : IssuedTokens}
    (h : Runs V p (createTokensForSession env principal roles sid audience refreshExpiresAt) ws r) :
    ∃ t : RefreshToken, ws = [.refreshToken t] ∧ t.Issued sid ∧ t.expiresAt = refreshExpiresAt ∧
      t.id = r.refreshTokenId := by
  simp only [createTokensForSession, runs_bind, runs_send, runs_return] at h
  obtain ⟨_, token, htoken, _, rfl, _, record, hrecord, _, rfl, _, jti, hjti, _, rfl, _, now, hnow,
    _, rfl, rfl, rfl⟩ := h
  obtain rfl := executed_read hV (by rintro s ch r ws ⟨⟩; rfl) htoken
  obtain rfl := executed_read hV (by rintro s ch r ws ⟨⟩; rfl) hjti
  obtain rfl := executed_newDate hV hnow
  obtain ⟨s, ch, hexec⟩ := hV _ _ hrecord
  obtain ⟨hrow, rfl, -⟩ := attempt_ok hexec
  simp only at hrow
  exact ⟨record, by rw [hrow]; rfl, by rw [hrow]; exact ⟨rfl, rfl, rfl⟩, by rw [hrow], rfl⟩

theorem issueSessionTokensTx_runs {principal : LoadedPrincipal} {roles : List String}
    {audience : String} {r : TokenResponse}
    (h : Runs V p (issueSessionTokensTx env principal roles audience) ws r) :
    ∃ (x : AuthSession) (t : RefreshToken),
      ws = [.session x, .refreshToken t] ∧ x.status = .active ∧ t.Issued x.id ∧
        t.expiresAt = x.refreshExpiresAt := by
  simp only [issueSessionTokensTx, runs_bind, runs_send, runs_return] at h
  obtain ⟨_, now, hnow, _, rfl, _, x, hx, _, rfl, _, issued, hissued, _, rfl, rfl, rfl⟩ := h
  obtain rfl := executed_newDate hV hnow
  obtain ⟨s, ch, hexec⟩ := hV _ _ hx
  obtain ⟨hrow, rfl, -⟩ := attempt_ok hexec
  obtain ⟨t, rfl, ht, hexpires, -⟩ := createTokensForSession_runs hV hissued
  simp only at hrow
  exact ⟨x, t, by rw [hrow]; rfl, by rw [hrow], ht, by rw [hexpires, hrow]⟩

/-- A rotation creates a token, puts it in the place of the one that was presented, and notes
the time in the session. -/
theorem rotateTx_runs {found : TokenWithSession} {r : TokenResponse}
    (h : Runs V p (rotateTx env found) ws r) :
    ∃ (t : RefreshToken) (d : RefreshTokenUpdate) (now : Time) (p' : List Write),
      ws = [.refreshToken t, .updateRefreshToken found.token.id d,
        .updateSession found.token.sessionId { lastRefreshedAt := some now }] ∧
      t.Issued found.token.sessionId ∧
      t.expiresAt = found.session.session.refreshExpiresAt ∧ d.replacedByTokenId = some t.id ∧
      V p' ⟨.updateRefreshToken found.token.id d, (), [.updateRefreshToken found.token.id d]⟩ := by
  simp only [rotateTx, runs_bind, runs_send, runs_require, runs_return] at h
  obtain ⟨_, found', hfound, _, rfl, _, principal, ⟨rfl, rfl⟩, _, rfl, _, issued, hissued, _, rfl,
    _, now, hnow, _, rfl, _, _, hupdate, _, rfl, _, now', hnow', _, rfl, _, _, hsession, _, rfl,
    rfl, rfl⟩ := h
  obtain rfl := executed_read hV (by rintro s ch r ws ⟨⟩; rfl) hfound
  obtain rfl := executed_newDate hV hnow
  obtain rfl := executed_newDate hV hnow'
  obtain ⟨t, rfl, ht, hexpires, hid⟩ := createTokensForSession_runs hV hissued
  obtain ⟨s, ch, hexec⟩ := hV _ _ hupdate
  obtain ⟨-, rfl, -⟩ := attempt_ok hexec
  obtain ⟨s', ch', hexec'⟩ := hV _ _ hsession
  obtain ⟨-, rfl, -⟩ := attempt_ok hexec'
  exact ⟨t, _, now', _, rfl, ht, hexpires, by rw [hid], hupdate⟩

theorem revokeSessionTx_runs {sid : Uuid} {r : Unit}
    (h : Runs V p (revokeSessionTx sid) ws r) : ∀ w ∈ ws, w.closes = true := by
  simp only [revokeSessionTx, runs_bind, runs_send] at h
  obtain ⟨_, now, hnow, _, rfl, _, _, hsession, _, rfl, _, now', hnow', _, rfl, htokens⟩ := h
  obtain rfl := executed_newDate hV hnow
  obtain rfl := executed_newDate hV hnow'
  obtain ⟨s, ch, hexec⟩ := hV _ _ hsession
  obtain ⟨-, rfl, -⟩ := attempt_ok hexec
  obtain ⟨s', ch', hexec'⟩ := hV _ _ htokens
  obtain ⟨-, rfl, -⟩ := attempt_ok hexec'
  simp only [List.nil_append, List.forall_mem_append, List.forall_mem_map]
  exact ⟨fun _ _ => rfl, fun _ _ => rfl⟩

end Runs

/-! ## Rules -/

/-- The statements outside of transactions. -/
def Outside {α : Type} : Stmt α → Prop
  | .updateActiveSessions _ d => d.status ≠ some .active
  | .createSession _ | .createRefreshToken _ | .updateSession .. | .updateRefreshToken ..
  | .updateUnrevokedTokens .. => False
  | _ => True

/-- What holds when a transaction commits: a rotation is of a token of the store. -/
def grounds (s : Store) : {α : Type} → Label α → Prop
  | _, .rotate found => s.Has found.token
  | _, .statement q => Outside q
  | _, _ => True

/-- What is known of the reply to a transaction: a token that was found has a row. -/
def learned (s : Store) : {α : Type} → Label α → α → Prop
  | _, .statement (.findRefreshToken _), some found => s.Has found.token
  | _, _, _ => True

/-- The rules, with an invariant of stores and what is kept of an open transaction. -/
def rules (env : Env) (Inv : Store → Prop) (Cur : Store → Event Stmt Write → Prop) :
    Rules (server env) Unit Empty where
  Inv := Inv
  le := Store.Extends
  born := fun _ => ∅
  rely := fun _ _ _ => True
  pre := fun s _ l => grounds s l
  post := fun _ _ l a s _ => learned s l a
  done := fun _ _ _ _ => True
  guard := fun _ => []
  Cur := fun s _ _ e => Cur s e

theorem outside_closes {α : Type} {q : Stmt α} (hq : Outside q) {s : Store} {ch : Choice} {r : α}
    {ws : List Write} (h : s.exec q ch = .ok (r, ws)) : ∀ w ∈ ws, w.closes = true := by
  cases q with
  | updateActiveSessions id d =>
      obtain ⟨-, rfl, -⟩ := attempt_ok h
      rw [List.forall_mem_map]
      exact fun _ _ => decide_eq_true hq
  | createAuditEvent data =>
      obtain ⟨-, rfl, -⟩ := attempt_ok h
      exact List.forall_mem_singleton.mpr rfl
  | createSession | createRefreshToken | updateSession | updateRefreshToken
  | updateUnrevokedTokens => exact False.elim hq
  | findExternalIdentity | findRefreshToken | findRefreshTokenSession | findSession =>
      obtain ⟨rfl, -⟩ := found_ok h
      exact List.forall_mem_nil _
  | _ =>
      cases h
      exact List.forall_mem_nil _

theorem loadSession_session {s : Store} {ch : Choice} {x : AuthSession}
    {found : SessionWithPrincipal} (h : s.loadSession ch x = .ok found) : found.session = x := by
  unfold Store.loadSession at h
  split at h
  · cases h
    rfl
  · cases h

theorem loadToken_ok {s : Store} {ch : Choice} {t : RefreshToken} {found : TokenWithSession}
    (h : s.loadToken ch t = .ok found) : found.token = t ∧
      found.session.session ∈ s.sessions.rows ∧ found.session.session.id = t.sessionId := by
  unfold Store.loadToken Store.sessionOf at h
  split at h
  · rename_i x hx
    cases hl : s.loadSession ch x with
    | error e => simp [hl, bind, Except.bind] at h
    | ok y =>
        simp only [hl, bind, Except.bind, pure, Except.pure, Except.ok.injEq] at h
        subst h
        rw [loadSession_session hl]
        exact ⟨rfl, Table.get?_eq_some.mp hx⟩
  · simp [bind, Except.bind] at h

/-- The lookup of a token finds the row with the hash, and the session of it. -/
theorem exec_findRefreshToken {s : Store} {ch : Choice} {hash : String} {found : TokenWithSession}
    {ws : List Write} (h : s.exec (.findRefreshToken hash) ch = .ok (some found, ws)) :
    (found.token ∈ s.refreshTokens.rows ∧ found.token.tokenHash = hash) ∧
      found.session.session ∈ s.sessions.rows ∧
      found.session.session.id = found.token.sessionId := by
  obtain ⟨-, ⟨-, hnone⟩ | ⟨t, b, hfind, hload, hb⟩⟩ := found_ok h
  · cases hnone
  · cases hb
    obtain ⟨hmem, hhash⟩ := Table.find?_mem hfind
    obtain ⟨rfl, hsession⟩ := loadToken_ok hload
    exact ⟨⟨hmem, Option.some.inj hhash⟩, hsession⟩

theorem exec_findSession {s : Store} {ch : Choice} {sid : Uuid} {found : SessionWithPrincipal}
    {ws : List Write} (h : s.exec (.findSession sid) ch = .ok (some found, ws)) :
    found.session ∈ s.sessions.rows ∧ found.session.id = sid := by
  obtain ⟨-, ⟨-, hnone⟩ | ⟨x, b, hget, hload, hb⟩⟩ := found_ok h
  · cases hnone
  · cases hb
    rw [loadSession_session hload]
    exact Table.get?_eq_some.mp hget

section Rules

variable {env : Env} {Inv : Store → Prop} {Cur : Store → Event Stmt Write → Prop}
  {ok : ServerConfig → Action Choice Call → Bool} {s : Store} {T : Set Empty} {α : Type}
  {l : Label α} {h : List (Event Stmt Write)} {a : α}

theorem executed_of_evidence {p : List Write} {e : Event Stmt Write}
    (h : (rules env Inv Cur).Evidence s l p e) : Executed e := by
  obtain ⟨⟨s₀, ch, -, -, hexec⟩, -⟩ := h
  exact ⟨_, ch, hexec⟩

/-- The run of a transaction that commits. -/
theorem commits_runs (hc : (rules env Inv Cur).Commits s T l h a) :
    Runs ((rules env Inv Cur).Evidence s l) [] (l.body env) (writes h) a :=
  runs_of_completes hc.path hc.evidence

theorem commits_fair (hc : (rules env Inv Cur).Commits s T l h a) :
    ∀ w ∈ writes h, w.fair = true := by
  have hrun := commits_runs hc
  have hV : ∀ p e, (rules env Inv Cur).Evidence s l p e → Executed e :=
    fun _ _ he => executed_of_evidence he
  cases l with
  | issueSessionTokens principal roles audience =>
      obtain ⟨x, t, hws, -, -, -⟩ := issueSessionTokensTx_runs hV hrun
      rw [hws]
      simp [Write.fair]
  | rotate found =>
      obtain ⟨t, d, now, _, hws, -, -, -, -⟩ := rotateTx_runs hV hrun
      rw [hws]
      simp [Write.fair]
  | revokeSession sid => exact fun w hw => fair_of_closes (revokeSessionTx_runs hV hrun w hw)
  | statement q =>
      obtain ⟨s₀, ch, hexec⟩ := hV _ _ (runs_send.mp hrun)
      exact fun w hw => fair_of_closes (outside_closes hc.pre hexec w hw)

theorem commits_extends (hc : (rules env Inv Cur).Commits s T l h a) :
    s.Extends (database.applyAll (writes h) s) :=
  extends_applyAll (commits_fair hc) hc.admissible

/-! ### Processes -/

theorem uses_ofExcept {p : {α : Type} → Label α → Prop} {β : Type} {x : Except AppException β} :
    (Process.ofExcept x).Uses p := by
  cases x with
  | ok a => exact .pure
  | error e => exact .throw

/-- The transactions that are allowed on every store, and the rotation of one token. -/
def allowed (found : Option TokenWithSession) : {α : Type} → Label α → Prop
  | _, .rotate found' => found = some found'
  | _, .statement q => Outside q
  | _, _ => True

theorem auditRecord_uses {found : Option TokenWithSession} (context : RequestContext)
    (input : AuditRecordInput) : (auditRecord context input).Uses (allowed found) :=
  .transaction (l := Label.statement _) trivial

theorem loginAs_uses (principal : LoadedPrincipal) (audience : String) (context : RequestContext) :
    (loginAs principal audience context).Uses (allowed none) :=
  .bind (.transaction trivial) fun _ => .bind (auditRecord_uses _ _) fun _ => .pure

theorem login_uses (input : AuthLoginRequest) (context : RequestContext) :
    (login env input context).Uses (allowed none) := by
  cases input with
  | password audience loginId secret =>
      simp only [login]
      split
      · exact .throw
      · refine .bind (.transaction (l := Label.statement _) trivial) fun principal => ?_
        cases principal with
        | none => exact .throw
        | some principal =>
            simp only
            split
            · exact .throw
            · refine .bind uses_ofExcept fun _ => ?_
              split
              · exact .throw
              · split
                · exact loginAs_uses _ _ _
                · exact .throw
  | tokenExchange audience subjectToken =>
      simp only [login]
      split
      · exact .throw
      · refine .bind uses_ofExcept fun x => ?_
        refine .bind (.transaction (l := Label.statement _) trivial) fun principal => ?_
        cases principal with
        | none => exact .throw
        | some principal => exact .bind uses_ofExcept fun _ => loginAs_uses _ _ _

theorem refreshFound_uses (found : TokenWithSession) (context : RequestContext) :
    (refreshFound found context).Uses (allowed (some found)) := by
  simp only [refreshFound]
  split
  · exact .bind (.transaction trivial) fun _ => .throw
  · refine .bind (.transaction (l := Label.statement _) trivial) fun now => ?_
    simp only [refreshUnused]
    split
    · exact .bind (.transaction (l := Label.statement _) nofun) fun _ => .throw
    · refine .bind uses_ofExcept fun _ => .bind uses_ofExcept fun _ => ?_
      exact .bind (.transaction rfl) fun _ => .bind (auditRecord_uses _ _) fun _ => .pure

theorem logout_uses (refreshToken : String) (context : RequestContext) :
    (logout env refreshToken context).Uses (allowed none) := by
  refine .bind (.transaction (l := Label.statement _) trivial) fun found => ?_
  cases found with
  | none => exact .pure
  | some found => exact .bind (.transaction trivial) fun _ => auditRecord_uses _ _

theorem authenticateAccessToken_uses (token : String) (now : Time) :
    (authenticateAccessToken env token now).Uses (allowed none) := by
  unfold authenticateAccessToken
  split
  · exact .throw
  · refine .bind (.transaction (l := Label.statement _) trivial) fun session => ?_
    cases session with
    | none => exact .throw
    | some found => exact uses_ofExcept

theorem grounds_of_allowed {β : Type} {l : Label β} {found : Option TokenWithSession}
    (hl : allowed found l) (hs : ∀ x ∈ found, s.Has x.token) : grounds s l := by
  cases l with
  | rotate found' => exact hs found' hl
  | statement q => exact hl
  | _ => trivial

theorem safe_of_uses {β : Type} {x : Process β} {found : Option TokenWithSession}
    (hx : x.Uses (allowed found)) (hs : ∀ y ∈ found, s.Has y.token) :
    (rules env Inv Cur).Safe x (fun _ _ _ => True) (fun _ _ _ => True) s T :=
  Rules.Safe.of_uses (P := fun s => ∀ y ∈ found, s.Has y.token) hx
    (fun _ _ hle hP y hy => (hP y hy).mono hle) (fun _ _ _ hl hP => grounds_of_allowed hl hP) hs

theorem refresh_safe (refreshToken : String) (context : RequestContext) :
    (rules env Inv Cur).Safe (refresh env refreshToken context) (fun _ _ _ => True)
      (fun _ _ _ => True) s T := by
  intro s' _
  refine ⟨trivial, fun _ => trivial, fun found s'' T'' _ _ hlearned => ?_⟩
  cases found with
  | none => trivial
  | some found =>
      have hfound : s''.Has found.token := hlearned
      refine safe_of_uses (refreshFound_uses found context) ?_
      rintro y ⟨⟩
      exact hfound

/-- Every call keeps to the rules. -/
theorem program_safe (call : Call) : (rules env Inv Cur).Safe (call.program env) (fun _ _ _ => True)
    (fun _ _ _ => True) s T := by
  have hreply : ∀ {β : Type} {x : Process β} {f : β → Reply},
      (rules env Inv Cur).Safe x (fun _ _ _ => True) (fun _ _ _ => True) s T →
      (rules env Inv Cur).Safe (x >>= fun b => pure (f b)) (fun _ _ _ => True)
        (fun _ _ _ => True) s T :=
    fun hx => Rules.Safe.bind (hx.mono (fun _ _ _ _ => trivial) fun _ _ _ h => h)
  have hnone : ∀ y ∈ (none : Option TokenWithSession), s.Has y.token := by simp
  cases call with
  | login input context => exact hreply (safe_of_uses (login_uses input context) hnone)
  | refresh refreshToken context => exact hreply (refresh_safe refreshToken context)
  | logout refreshToken context =>
      exact hreply (safe_of_uses (logout_uses refreshToken context) hnone)
  | authenticateAccessToken token now =>
      exact hreply (safe_of_uses (authenticateAccessToken_uses token now) hnone)

theorem rules_valid (hstatements : (rules env Inv Cur).Statements ok)
    (hinv : ∀ {β : Type} s T (l : Label β) h a, (rules env Inv Cur).Commits s T l h a →
      Inv (database.applyAll (writes h) s)) : (rules env Inv Cur).Valid ok where
  lawful := lawful_database
  le_refl := .refl
  le_trans := fun _ _ _ => .trans
  rely_refl := fun _ _ => trivial
  rely_trans := fun _ _ _ _ _ _ => trivial
  born_mono := fun _ _ _ => Set.Subset.refl _
  statements := hstatements
  commit := fun s T l h a hc => ⟨hinv s T l h a hc, commits_extends hc⟩
  guarantee := fun _ _ _ _ _ _ _ _ => trivial
  result := by
    intro β s T l h a hc
    refine ⟨∅, Set.empty_subset _, ?_⟩
    cases l with
    | statement q =>
        cases q with
        | findRefreshToken hash =>
            cases a with
            | none => trivial
            | some found =>
                obtain ⟨⟨s₀, ch, -, hle, hexec⟩, -⟩ := runs_send.mp (commits_runs hc)
                have hfind : s₀.exec (.findRefreshToken hash) ch = .ok (some found, writes h) := hexec
                have hmem := (exec_findRefreshToken hfind).1.1
                exact (hle.token _ hmem).mono (commits_extends hc)
        | _ => trivial
    | _ => trivial
  start := fun c call _ _ => Or.inl (program_safe call)
  done_le := fun _ _ _ _ _ _ _ _ => trivial
  done_idle := fun _ _ _ => trivial

end Rules

/-! ## Sessions that have ended -/

/-- All schedules. -/
def anySchedule (_ : ServerConfig) (_ : Action Choice Call) : Bool := true

/-- The call presents a token of the session: a refresh token with a row on the store `s`, or
an access token that is verified as one of the session. -/
def Call.Presents (env : Env) (s : Store) (sid : Uuid) : Call → Prop
  | .refresh refreshToken _ => ∃ t ∈ s.refreshTokens.rows,
      t.tokenHash = env.hashOpaqueToken refreshToken ∧ t.sessionId = sid
  | .authenticateAccessToken token _ => ∀ now payload,
      env.verifyAsync now token = some payload → payload.sid = sid
  | _ => False

section Ended

variable {env : Env} {s s' : Store} {sid : Uuid}

theorem assertActiveSession_error {session : AuthSession} (h : session.status ≠ .active) :
    assertActiveSession session = .error invalidToken := by
  simp [assertActiveSession, h]

theorem refreshFound_throws {found : TokenWithSession} {context : RequestContext}
    (h : found.session.session.status ≠ .active) : (refreshFound found context).Throws := by
  simp only [refreshFound]
  split
  · exact .transaction_bind fun _ => .throw
  · refine .transaction_bind fun now => ?_
    simp only [refreshUnused]
    split
    · exact .transaction_bind fun _ => .throw
    · rw [assertActiveSession_error h]
      exact .throw

theorem reads_refresh {refreshToken : String} {context : RequestContext} (hext : s.Extends s')
    (hended : s.Ended sid) (hpresents : (Call.refresh refreshToken context).Presents env s' sid) :
    Reads (server env) (.refresh refreshToken context) s Proc.Throws where
  single := nofun
  sends := by
    rintro β l k a ⟨⟩
    nofun
  fails := by
    rintro β l k ⟨⟩ e
    exact .throw
  reads := by
    rintro β α l k q k' ch r ws ⟨⟩ ⟨⟩ hexec h a hc
    obtain ⟨-, rfl⟩ := completes_pure.mp hc
    cases r with
    | none => exact .throw
    | some found =>
        have hfind : s.exec (.findRefreshToken (env.hashOpaqueToken refreshToken)) ch =
            .ok (some found, ws) := hexec
        obtain ⟨⟨hmem, hhash⟩, hsession, hid⟩ := exec_findRefreshToken hfind
        obtain ⟨t, ht, hthash, htsid⟩ := hpresents
        obtain ⟨t', ht', hsucc⟩ := hext.token _ hmem
        -- the row of then is the row of the session
        obtain rfl : t' = t :=
          Table.eq_of_uk ht' ht (congrArg some (hsucc.tokenHash.trans hhash)) (congrArg some hthash)
        have hstatus := hended.status hsession (hid.trans (hsucc.sessionId.symm.trans htsid))
        exact (refreshFound_throws hstatus).bind

theorem authenticate_error {payload : JwtPayload} {found : SessionWithPrincipal}
    (h : found.session.status ≠ .active) : authenticate payload found = .error invalidToken := by
  simp only [authenticate, assertActiveSession_error h]
  rfl

theorem reads_authenticateAccessToken {token : String} {now : Time} (hended : s.Ended sid)
    (hpresents : (Call.authenticateAccessToken token now).Presents env s' sid) :
    Reads (server env) (.authenticateAccessToken token now) s Proc.Throws := by
  have hprogram : (server env).program (.authenticateAccessToken token now) =
      authenticateAccessToken env token now >>= fun actor => pure (.authenticated actor) := rfl
  unfold authenticateAccessToken at hprogram
  cases hverify : env.verifyAsync now token with
  | none =>
      simp only [hverify] at hprogram
      constructor <;> rw [hprogram] <;> nofun
  | some payload =>
      simp only [hverify] at hprogram
      constructor
      · rw [hprogram]
        nofun
      · rw [hprogram]
        rintro β l k a ⟨⟩
        nofun
      · rw [hprogram]
        rintro β l k ⟨⟩ e
        exact .throw
      · rw [hprogram]
        rintro β α l k q k' ch r ws ⟨⟩ ⟨⟩ hexec h a hc
        obtain ⟨-, rfl⟩ := completes_pure.mp hc
        cases r with
        | none => exact .throw
        | some found =>
            have hfind : s.exec (.findSession payload.sid) ch = .ok (some found, ws) := hexec
            obtain ⟨hmem, hid⟩ := exec_findSession hfind
            have hstatus := hended.status hmem (hid.trans (hpresents now payload hverify))
            show (Process.ofExcept (authenticate payload found) >>= _).Throws
            rw [authenticate_error hstatus]
            exact .throw

/-- Once a session has ended it stays so, and each call that reads it for the first time from
then on throws. -/
theorem revocation_final {c₀ c : ServerConfig}
    (h₀ : Steps (server env) anySchedule (.initial s) c₀) (hended : c₀.store.Ended sid)
    (h : Steps (server env) anySchedule c₀ c) :
    c.store.Ended sid ∧ ∀ (i : Nat) th, c.threads[i]? = some th →
      (∀ th₀, c₀.threads[i]? = some th₀ → th₀.code.Unread (server env) th₀.call) →
      th.call.Presents env c.store sid → th.code.Since (server env) th.call Proc.Throws := by
  have hvalid : (rules env (fun _ => True) fun _ _ => True).Valid anySchedule :=
    rules_valid (Rules.unguarded_statements (fun _ => rfl) fun _ _ _ _ => trivial)
      fun _ _ _ _ _ _ => trivial
  have hextends : ∀ {c₁ c₂ : ServerConfig}, Steps (server env) anySchedule (.initial s) c₁ →
      Steps (server env) anySchedule c₁ c₂ → c₁.store.Extends c₂.store := fun h₁ h₂ => by
    obtain ⟨⟨own, hsound⟩, -⟩ := Rules.sound_of_steps hvalid trivial h₁
    exact (hsound.steps hvalid h₂).2
  refine ⟨hended.mono (hextends h₀ h), fun i th hth hunread hpresents => ?_⟩
  refine since_of_steps Proc.Throws.stages h (fun c₁ hbefore hafter => ?_)
    (fun th₀ hth₀ hcall => .unread (hcall ▸ hunread th₀ hth₀)) th hth rfl
  have hended₁ := hended.mono (hextends h₀ hbefore)
  have hext := hextends (h₀.trans hbefore) hafter
  generalize th.call = call at hpresents
  cases call with
  | refresh refreshToken context => exact reads_refresh hext hended₁ hpresents
  | authenticateAccessToken token now => exact reads_authenticateAccessToken hended₁ hpresents
  | login input context => exact False.elim hpresents
  | logout refreshToken context => exact False.elim hpresents

end Ended

/-! ### A run -/

/-- A service in which a token is its own hash. -/
def demoEnv : Env where
  authCustomerAudience := "customer"
  authOperatorAudience := "operator"
  authInternalIssuer := "ledger"
  authRefreshTtlSeconds := 60
  authAccessTtlSeconds := 10
  hashOpaqueToken := fun token => token
  verifySecret := fun _ _ => false
  verifySubjectToken := fun _ => .error invalidCredentials
  signAsync := fun _ payload => payload.jti
  verifyAsync := fun _ _ => none

/-- A customer with one session and its first token. -/
def demoStore : Store where
  principals := Table.empty.insert ⟨"principal", some "login", .customer, "customer", .active⟩
  credentials := []
  roleBindings := []
  externalIdentities := []
  sessions := Table.empty.insert
    ⟨"session", "principal", "customer", "ledger", .active, 60000, none, none⟩
  refreshTokens := Table.empty.insert ⟨"token-1", "session", "secret-1", 60000, none, none⟩
  auditEvents := .empty

def demoContext : RequestContext := ⟨"correlation", none, none⟩

/-- The choices of a step that creates what `n` numbers. -/
def demoChoice (n : Nat) : Choice where
  uuid := "token-" ++ toString n
  token := "secret-" ++ toString n
  now := n
  order := []
  unseen := []

/-- The steps of one thread. -/
def demoSteps (i n count : Nat) : List (Action Choice Call) :=
  List.replicate count (.advance i (demoChoice n))

/-- A refresh passes its checks, and then a logout with the same token commits. -/
def logoutSchedule : List (Action Choice Call) :=
  .start (.refresh "secret-1" demoContext) :: demoSteps 0 2 7 ++
    .start (.logout "secret-1" demoContext) :: demoSteps 1 3 9

/-- The refresh commits its rotation, and the new token is presented. -/
def inFlightSchedule : List (Action Choice Call) :=
  demoSteps 0 2 10 ++ .start (.refresh "secret-2" demoContext) :: demoSteps 2 4 6

theorem revocation_final_in_flight : ∃ c₀ c : ServerConfig,
    Steps (server demoEnv) anySchedule c₀ c ∧ c₀.store.Ended "session" ∧
      (∃ t ∈ c.store.refreshTokens.rows,
        t.tokenHash = "secret-2" ∧ t.sessionId = "session" ∧ t.revokedAt = none) ∧
      ∃ th, c.threads[2]? = some th ∧ th.call = .refresh "secret-2" demoContext ∧
        th.code.Since (server demoEnv) th.call Proc.Throws := by
  obtain ⟨c₀, hplay, hended, hlength⟩ := play_of_decide (server demoEnv) anySchedule
    (.initial demoStore) logoutSchedule
    (fun c => (∃ x ∈ c.store.sessions.rows, x.id = "session" ∧ x.status ≠ .active) ∧
      c.threads.length = 2) (by decide +kernel)
  obtain ⟨c, hwhole, htoken, hcall⟩ := play_of_decide (server demoEnv) anySchedule
    (.initial demoStore) (logoutSchedule ++ inFlightSchedule)
    (fun c => (∃ t ∈ c.store.refreshTokens.rows,
        t.tokenHash = "secret-2" ∧ t.sessionId = "session" ∧ t.revokedAt = none) ∧
      c.threads[2]?.map (·.call) = some (.refresh "secret-2" demoContext)) (by decide +kernel)
  have h : Steps (server demoEnv) anySchedule c₀ c := play_steps ((play_append hplay).symm.trans hwhole)
  obtain ⟨th, hth, hcall⟩ := Option.map_eq_some_iff.mp hcall
  refine ⟨c₀, c, h, hended, htoken, th, hth, hcall, ?_⟩
  refine (revocation_final (play_steps hplay) hended h).2 2 th hth (fun th₀ hth₀ => ?_) ?_
  · rw [List.getElem?_eq_none (by omega)] at hth₀
    cases hth₀
  · obtain ⟨t, ht, hhash, hsession, -⟩ := htoken
    rw [hcall]
    exact ⟨t, ht, hhash, hsession⟩

end LedgerCredit.Auth
