import LedgerCredit.Auth.Sessions

/-!
# Refresh tokens and overlapping calls

The checks of `refresh` are made on a row that was read before the transaction
begins, and the transaction updates the row by its id.  So two calls that
overlap both rotate one token.

As long as each rotation finds the row that it updates not replaced yet, the
tokens of a session are a chain with one end.  `Store.Chained` is that
invariant.  A rotation locks the row, so what the update found is still true
when its transaction commits.
-/

namespace LedgerCredit.Auth

open Txn

/-! ## The condition -/

/-- The token that a write replaces. -/
def Write.replaces? : Write → Option Uuid
  | .updateRefreshToken id d => if d.replacedByTokenId.isSome then some id else none
  | _ => none

/-- The token has a row, and no other token replaced it. -/
def Store.unreplaced (s : Store) (id : Uuid) : Bool :=
  (s.refreshTokens.get? id).any (·.replacedByTokenId.isNone)

/-- A rotation updates its token only while the committed row is not replaced. -/
def unreplacedOnly (env : Env) (c : ServerConfig) : Action Choice Call → Bool
  | .advance i ch => ((server env).nextEvent c i ch).all fun e =>
      (e.writes.filterMap Write.replaces?).all c.store.unreplaced
  | _ => true

/-- What is kept of a rotation: the token that it replaced has not been replaced. -/
def StillUnreplaced (s : Store) (e : Event Stmt Write) : Prop :=
  ∀ id ∈ e.writes.filterMap Write.replaces?, s.unreplaced id = true

/-! ## Chains -/

/-- Each session has at most one token that no other replaced.  A replaced token is revoked. -/
structure Store.Chained (s : Store) : Prop where
  revoked : ∀ t ∈ s.refreshTokens.rows, t.replacedByTokenId.isSome → t.revokedAt.isSome
  head : ∀ t ∈ s.refreshTokens.rows, ∀ t' ∈ s.refreshTokens.rows, t.sessionId = t'.sessionId →
    t.replacedByTokenId = none → t'.replacedByTokenId = none → t = t'
  session : ∀ t ∈ s.refreshTokens.rows, ∃ x ∈ s.sessions.rows, x.id = t.sessionId

section Chain

variable {s : Store} {ws : List Write} {id : Uuid}

/-- A row whose lock is free is left alone. -/
theorem get?_applyAll (hadm : database.Admissible s ws)
    (hlock : Key.refreshToken id ∉ database.locksOf ws) :
    (database.applyAll ws s).refreshTokens.get? id = s.refreshTokens.get? id := by
  induction ws generalizing s with
  | nil => rfl
  | cons w ws ih =>
      simp only [Database.locksOf, List.flatMap_cons, List.mem_append, not_or] at hlock
      obtain ⟨hw, hrest⟩ := Database.Admissible.of_cons lawful_database hadm
      rw [Database.applyAll_cons, ih hrest hlock.2]
      cases w with
      | refreshToken t =>
          have hne : t.id ≠ id := fun he => hlock.1 (by simp [database, Write.locks, Write.adds, he])
          exact (Table.get?_insert (fresh_refreshToken hw) id).trans (if_neg hne)
      | updateRefreshToken id' d =>
          have hne : id ≠ id' := fun he => hlock.1 (by simp [database, Write.locks, he])
          simp only [database, Write.apply, Table.get?_modify, if_neg hne, Option.map_id']
      | session x => rfl
      | updateSession id' d => rfl
      | auditEvent r => rfl

theorem chained_closes {w : Write} (h : s.Chained) (hw : w.closes = true) :
    (database.apply w s).Chained := by
  cases w with
  | session x => cases hw
  | refreshToken t => cases hw
  | auditEvent r => exact ⟨h.revoked, h.head, h.session⟩
  | updateSession id d =>
      refine ⟨h.revoked, h.head, fun t ht => ?_⟩
      obtain ⟨x, hx, hid⟩ := h.session t ht
      exact ⟨_, List.mem_map_of_mem hx, by split <;> simpa using hid⟩
  | updateRefreshToken id d =>
      have hnone : d.replacedByTokenId = none := Option.isNone_iff_eq_none.mp hw
      -- an updated row is revoked, and replaced as it was before
      have hrow : ∀ t ∈ (database.apply (.updateRefreshToken id d) s).refreshTokens.rows,
          ∃ t₀ ∈ s.refreshTokens.rows, t = (if t₀.id = id then d.apply t₀ else t₀) ∧
            t.sessionId = t₀.sessionId ∧ t.replacedByTokenId = t₀.replacedByTokenId ∧
            (t₀.revokedAt.isSome → t.revokedAt.isSome) := by
        intro t ht
        obtain ⟨t₀, ht₀, rfl⟩ := List.mem_map.mp ht
        refine ⟨t₀, ht₀, rfl, ?_⟩
        split
        · simp [hnone]
        · exact ⟨rfl, rfl, fun hr => hr⟩
      refine ⟨fun t ht hr => ?_, fun t ht t' ht' hsid hr hr' => ?_, fun t ht => ?_⟩
      · obtain ⟨t₀, ht₀, -, -, hreplaced, hrevoked⟩ := hrow t ht
        exact hrevoked (h.revoked t₀ ht₀ (hreplaced ▸ hr))
      · obtain ⟨t₀, ht₀, heq, hsid₀, hreplaced, -⟩ := hrow t ht
        obtain ⟨t₁, ht₁, heq', hsid₁, hreplaced', -⟩ := hrow t' ht'
        rw [heq, heq', h.head t₀ ht₀ t₁ ht₁ (hsid₀.symm.trans (hsid.trans hsid₁))
          (hreplaced.symm.trans hr) (hreplaced'.symm.trans hr')]
      · obtain ⟨t₀, ht₀, -, hsid₀, -⟩ := hrow t ht
        obtain ⟨x, hx, hid⟩ := h.session t₀ ht₀
        exact ⟨x, hx, hid.trans hsid₀.symm⟩

theorem chained_applyAll (h : s.Chained) (hws : ∀ w ∈ ws, w.closes = true) :
    (database.applyAll ws s).Chained := by
  induction ws generalizing s with
  | nil => exact h
  | cons w ws ih =>
      exact ih (chained_closes h (hws w (List.mem_cons_self ..)))
        fun w hw => hws w (List.mem_cons_of_mem _ hw)

/-- A new session begins a chain. -/
theorem chained_issued {x : AuthSession} {t : RefreshToken} (h : s.Chained) (ht : t.Issued x.id)
    (hadm : database.Admissible s [.session x, .refreshToken t]) :
    (database.applyAll [.session x, .refreshToken t] s).Chained := by
  obtain ⟨hx, htoken⟩ := Database.Admissible.of_cons lawful_database hadm
  have hsessions : (database.applyAll [.session x, .refreshToken t] s).sessions.rows =
      s.sessions.rows ++ [x] := Table.rows_insert (fresh_session hx)
  have htokens : (database.applyAll [.session x, .refreshToken t] s).refreshTokens.rows =
      s.refreshTokens.rows ++ [t] := Table.rows_insert (fresh_refreshToken htoken)
  -- no token is of the session yet
  have hnew : ∀ t' ∈ s.refreshTokens.rows, t'.sessionId ≠ t.sessionId := by
    intro t' ht' hsid
    obtain ⟨x', hx', hid⟩ := h.session t' ht'
    exact (fresh_session hx).1
      (List.mem_map.mpr ⟨x', hx', hid.trans (hsid.trans ht.sessionId)⟩)
  refine ⟨?_, ?_, ?_⟩ <;> rw [htokens]
  · refine List.forall_mem_append.mpr ⟨h.revoked, List.forall_mem_singleton.mpr fun hr => ?_⟩
    simp [ht.replacedByTokenId] at hr
  · intro t₁ ht₁ t₂ ht₂ hsid hr₁ hr₂
    rcases List.mem_append.mp ht₁ with ht₁ | ht₁ <;> rcases List.mem_append.mp ht₂ with ht₂ | ht₂
    · exact h.head t₁ ht₁ t₂ ht₂ hsid hr₁ hr₂
    · exact absurd (List.mem_singleton.mp ht₂ ▸ hsid) (hnew t₁ ht₁)
    · exact absurd (List.mem_singleton.mp ht₁ ▸ hsid.symm) (hnew t₂ ht₂)
    · rw [List.mem_singleton.mp ht₁, List.mem_singleton.mp ht₂]
  · rw [hsessions]
    refine List.forall_mem_append.mpr ⟨fun t' ht' => ?_, List.forall_mem_singleton.mpr
      ⟨x, by simp, ht.sessionId.symm⟩⟩
    obtain ⟨x', hx', hid⟩ := h.session t' ht'
    exact ⟨x', List.mem_append_left _ hx', hid⟩

/-- The writes of a rotation. -/
def rotation (old : RefreshToken) (t : RefreshToken) (d : RefreshTokenUpdate) (now : Time) :
    List Write :=
  [.refreshToken t, .updateRefreshToken old.id d,
    .updateSession old.sessionId { lastRefreshedAt := some now }]

/-- The token that is rotated has a row, which no other token replaced. -/
theorem row_of_unreplaced {old : RefreshToken} (hold : s.Has old)
    (hend : s.unreplaced old.id = true) :
    ∃ t ∈ s.refreshTokens.rows, t.Succeeds old ∧ t.replacedByTokenId = none := by
  obtain ⟨t, ht, hsucc⟩ := hold
  refine ⟨t, ht, hsucc, ?_⟩
  simpa [Store.unreplaced, Table.get?_eq_some.mpr ⟨ht, hsucc.id⟩] using hend

theorem rows_rotation {old t : RefreshToken} {d : RefreshTokenUpdate} {now : Time}
    (hold : s.Has old) (hadm : database.Admissible s (rotation old t d now)) :
    (database.applyAll (rotation old t d now) s).refreshTokens.rows =
      (s.refreshTokens.rows.map fun r => if r.id = old.id then d.apply r else r) ++ [t] := by
  obtain ⟨ht, -⟩ := Database.Admissible.of_cons lawful_database hadm
  have hfresh := fresh_refreshToken ht
  have hne : t.id ≠ old.id := fun he => by
    obtain ⟨t', ht', hsucc⟩ := hold
    exact hfresh.1 (List.mem_map.mpr ⟨t', ht', hsucc.id.trans he.symm⟩)
  have hrows : (database.applyAll (rotation old t d now) s).refreshTokens.rows =
      (s.refreshTokens.insert t).rows.map fun r => if r.id = old.id then d.apply r else r := rfl
  rw [hrows, Table.rows_insert hfresh, List.map_append, List.map_singleton, if_neg hne]

/-- A rotation of the end of a chain puts another end in its place. -/
theorem chained_rotation {old t : RefreshToken} {d : RefreshTokenUpdate} {now : Time}
    (h : s.Chained) (hold : s.Has old) (hend : s.unreplaced old.id = true)
    (ht : t.Issued old.sessionId) (hd : d.replacedByTokenId = some t.id)
    (hadm : database.Admissible s (rotation old t d now)) :
    (database.applyAll (rotation old t d now) s).Chained := by
  obtain ⟨o, ho, hsucc, hopen⟩ := row_of_unreplaced hold hend
  -- a row that was there is the one that is replaced now, or as it was
  have hrow : ∀ r ∈ s.refreshTokens.rows.map fun r => if r.id = old.id then d.apply r else r,
      r.sessionId ∈ s.refreshTokens.rows.map (·.sessionId) ∧
        (r.revokedAt.isSome ∧ r.replacedByTokenId.isSome ∨
          r ∈ s.refreshTokens.rows ∧ r.id ≠ old.id) := by
    intro r hr
    obtain ⟨r₀, hr₀, rfl⟩ := List.mem_map.mp hr
    split
    · exact ⟨List.mem_map.mpr ⟨r₀, hr₀, rfl⟩, Or.inl (by simp [hd])⟩
    · rename_i hne
      exact ⟨List.mem_map.mpr ⟨r₀, hr₀, rfl⟩, Or.inr ⟨hr₀, hne⟩⟩
  -- the session of the token has no other end
  have hother : ∀ r ∈ s.refreshTokens.rows.map fun r => if r.id = old.id then d.apply r else r,
      r.sessionId = old.sessionId → r.replacedByTokenId ≠ none := by
    intro r hr hsid hnone
    rcases (hrow r hr).2 with ⟨-, hsome⟩ | ⟨hmem, hne⟩
    · simp [hnone] at hsome
    · exact hne (h.head r hmem o ho (hsid.trans hsucc.sessionId.symm) hnone hopen ▸ hsucc.id)
  have hsession : ∀ sid ∈ s.refreshTokens.rows.map (·.sessionId),
      ∃ x ∈ (database.applyAll (rotation old t d now) s).sessions.rows, x.id = sid := by
    intro sid hsid
    obtain ⟨r, hr, rfl⟩ := List.mem_map.mp hsid
    obtain ⟨x, hx, hid⟩ := h.session r hr
    exact ⟨_, List.mem_map_of_mem hx, by split <;> simpa using hid⟩
  refine ⟨?_, ?_, ?_⟩ <;> rw [rows_rotation hold hadm]
  · refine List.forall_mem_append.mpr ⟨fun r hr hsome => ?_,
      List.forall_mem_singleton.mpr fun hsome => ?_⟩
    · rcases (hrow r hr).2 with ⟨hrevoked, -⟩ | ⟨hmem, -⟩
      · exact hrevoked
      · exact h.revoked r hmem hsome
    · simp [ht.replacedByTokenId] at hsome
  · intro t₁ ht₁ t₂ ht₂ hsid hr₁ hr₂
    rcases List.mem_append.mp ht₁ with hold₁ | hnew₁ <;>
      rcases List.mem_append.mp ht₂ with hold₂ | hnew₂
    · rcases (hrow t₁ hold₁).2 with ⟨-, hsome⟩ | ⟨hmem₁, -⟩
      · simp [hr₁] at hsome
      · rcases (hrow t₂ hold₂).2 with ⟨-, hsome⟩ | ⟨hmem₂, -⟩
        · simp [hr₂] at hsome
        · exact h.head t₁ hmem₁ t₂ hmem₂ hsid hr₁ hr₂
    · rw [List.mem_singleton.mp hnew₂] at hsid
      exact absurd hr₁ (hother t₁ hold₁ (hsid.trans ht.sessionId))
    · rw [List.mem_singleton.mp hnew₁] at hsid
      exact absurd hr₂ (hother t₂ hold₂ (hsid.symm.trans ht.sessionId))
    · rw [List.mem_singleton.mp hnew₁, List.mem_singleton.mp hnew₂]
  · refine List.forall_mem_append.mpr ⟨fun r hr => hsession _ (hrow r hr).1,
      List.forall_mem_singleton.mpr (hsession _ ?_)⟩
    exact List.mem_map.mpr ⟨o, ho, hsucc.sessionId.trans ht.sessionId.symm⟩

end Chain

/-! ## Rules of rotations -/

section Rules

variable {env : Env} {s : Store} {T : Set Empty}

/-- The rules under which tokens are chains. -/
abbrev chainRules (env : Env) : Rules (server env) Unit Empty :=
  rules env Store.Chained StillUnreplaced

theorem replaces?_locked {w : Write} {id : Uuid} (h : w.replaces? = some id) :
    Key.refreshToken id ∈ w.locks := by
  cases w with
  | updateRefreshToken id' d =>
      simp only [Write.replaces?, Option.ite_none_right_eq_some, Option.some.injEq] at h
      simp [Write.locks, h.2]
  | _ => cases h

theorem unreplaced_applyAll {ws : List Write} {id : Uuid} (hadm : database.Admissible s ws)
    (hlock : Key.refreshToken id ∉ database.locksOf ws) (h : s.unreplaced id = true) :
    (database.applyAll ws s).unreplaced id = true := by
  rwa [Store.unreplaced, get?_applyAll hadm hlock]

theorem chain_statements : (chainRules env).Statements (unreplacedOnly env) where
  guarded := by
    intro c i ch call pool β α l h q k' k r ws _ _ _ j th _ _
    exact List.disjoint_nil_right _
  current := by
    intro c i ch call pool β α l h q k' k r ws T hok hth hexec _ _
    simp only [unreplacedOnly, nextEvent_statement hth hexec, Option.all_some] at hok
    exact List.all_eq_true.mp hok
  frame := by
    intro β β' s T l h a T' l' p e hc _ _ hlocks _ hcur id hid
    obtain ⟨w, hw, hreplaces⟩ := List.mem_filterMap.mp hid
    refine unreplaced_applyAll hc.admissible (fun hlocked => ?_) (hcur id hid)
    exact hlocks hlocked
      (List.mem_flatMap.mpr ⟨w, List.mem_append_right _ hw, replaces?_locked hreplaces⟩)

/-- A rotation that commits replaces the end of a chain. -/
theorem commits_rotate {found : TokenWithSession} {h : List (Event Stmt Write)} {r : TokenResponse}
    (hc : (chainRules env).Commits s T (.rotate found) h r) :
    ∃ t d now, writes h = rotation found.token t d now ∧ t.Issued found.token.sessionId ∧
      d.replacedByTokenId = some t.id ∧ s.unreplaced found.token.id = true := by
  obtain ⟨t, d, now, p, hws, ht, -, hd, hupdate⟩ :=
    rotateTx_runs (fun _ _ he => executed_of_evidence he) (commits_runs hc)
  refine ⟨t, d, now, hws, ht, hd, hupdate.2 _ ?_⟩
  simp [Write.replaces?, hd]

theorem chained_commits {α : Type} {l : Label α} {h : List (Event Stmt Write)} {a : α}
    (hc : (chainRules env).Commits s T l h a) : (database.applyAll (writes h) s).Chained := by
  have hV : ∀ p e, (chainRules env).Evidence s l p e → Executed e :=
    fun _ _ he => executed_of_evidence he
  have hrun := commits_runs hc
  have hadm := hc.admissible
  cases l with
  | issueSessionTokens principal roles audience =>
      obtain ⟨x, t, hws, -, ht, -⟩ := issueSessionTokensTx_runs hV hrun
      rw [hws] at hadm ⊢
      exact chained_issued hc.inv ht hadm
  | rotate found =>
      obtain ⟨t, d, now, hws, ht, hd, hend⟩ := commits_rotate hc
      rw [hws] at hadm ⊢
      exact chained_rotation hc.inv hc.pre hend ht hd hadm
  | revokeSession sid => exact chained_applyAll hc.inv (revokeSessionTx_runs hV hrun)
  | statement q =>
      obtain ⟨s₀, ch, hexec⟩ := hV _ _ (runs_send.mp hrun)
      exact chained_applyAll hc.inv (outside_closes hc.pre hexec)

theorem chain_valid : (chainRules env).Valid (unreplacedOnly env) :=
  rules_valid chain_statements fun _ _ _ _ _ hc => chained_commits hc

end Rules

/-! ## What a refresh does after its lookup -/

section Stage

variable {env : Env} {refreshToken : String} {context : RequestContext}

/-- The call returns the tokens. -/
def tokens (p : Process TokenResponse) : Process Reply := p >>= fun r => pure (.tokens r)

/-- The transaction is the audit event of a call. -/
def Label.audits : {α : Type} → Label α → Bool
  | _, .statement (.createAuditEvent _) => true
  | _, _ => false

/-- The token that a rotation is of. -/
def Label.rotates : {α : Type} → Label α → Option TokenWithSession
  | _, .rotate found => some found
  | _, _ => none

/-- The rotation has committed. -/
def past : Process Reply → Bool
  | .call l _ => l.audits
  | .pure _ => true
  | _ => false

theorem past_refreshFound (found : TokenWithSession) (context : RequestContext) :
    past (tokens (refreshFound found context)) = false := by
  simp only [refreshFound]
  split <;> rfl

/-- The stages of a refresh that found a token with the hash `hash`. -/
inductive RefreshStage (hash : String) (context : RequestContext) : Process Reply → Prop where
  | found {found : TokenWithSession} : found.token.tokenHash = hash →
      RefreshStage hash context (tokens (refreshFound found context))
  | rotation {found : TokenWithSession} : found.token.tokenHash = hash →
      RefreshStage hash context (tokens (rotate found context))
  | audit (input : AuditRecordInput) (r : TokenResponse) :
      RefreshStage hash context (tokens (auditRecord context input >>= fun _ => pure r))
  | returned {r : Reply} : RefreshStage hash context (.pure r)
  | ending {α : Type} {l : Label α} {k : Except TxError α → Process Reply} : l.audits = false →
      (∀ r, ∃ e, k r = .throw e) → RefreshStage hash context (.call l k)
  | thrown {e : TxError} : RefreshStage hash context (.throw e)

/-- How a stage goes on.  The call returns after the audit event, which comes after the rotation
of the token that was found. -/
structure Leads (hash : String) (context : RequestContext) {α : Type} (l : Label α)
    (k : Except TxError α → Process Reply) : Prop where
  error : ∀ e, ∃ e', k (.error e) = .throw e'
  ok : ∀ a, RefreshStage hash context (k (.ok a))
  past : ∀ a, past (k (.ok a)) = true →
    l.audits = true ∨ ∃ found, l.rotates = some found ∧ found.token.tokenHash = hash

theorem leads_of_ending {α : Type} {l : Label α} {k : Except TxError α → Process Reply}
    {hash : String} (hk : ∀ r, ∃ e, k r = .throw e) : Leads hash context l k where
  error := fun e => hk _
  ok := by
    intro a
    obtain ⟨e, he⟩ := hk (.ok a)
    exact he ▸ .thrown
  past := by
    intro a hpast
    obtain ⟨e, he⟩ := hk (.ok a)
    rw [he] at hpast
    cases hpast

/-- The call throws after a transaction, however it ends. -/
theorem throws_after {α : Type} {e : AppException} (r : Except TxError α) :
    ∃ e', (tokens ((Proc.ofResult r : Process α) >>= fun _ => throwing e)) = .throw e' := by
  cases r with
  | error e' => exact ⟨e', rfl⟩
  | ok a => exact ⟨.app e, rfl⟩

theorem refreshFound_leads {found : TokenWithSession} {α : Type} {l : Label α}
    {k : Except TxError α → Process Reply}
    (hp : tokens (refreshFound found context) = .call l k) :
    Leads found.token.tokenHash context l k := by
  simp only [refreshFound] at hp
  split at hp
  · cases hp
    exact leads_of_ending throws_after
  · cases hp
    -- the token is expired, or refused, or rotated
    have hgoes : ∀ now, RefreshStage found.token.tokenHash context
        (tokens (refreshUnused found context now)) ∧
          past (tokens (refreshUnused found context now)) = false := by
      intro now
      simp only [refreshUnused]
      split
      · exact ⟨.ending rfl throws_after, rfl⟩
      · cases assertActiveSession found.session.session with
        | error e => exact ⟨.thrown, rfl⟩
        | ok _ =>
            cases assertActivePrincipal found.session.principal.principal with
            | error e => exact ⟨.thrown, rfl⟩
            | ok _ => exact ⟨.rotation rfl, rfl⟩
    refine ⟨fun e => ⟨e, rfl⟩, fun now => (hgoes now).1, fun now hpast => ?_⟩
    exact absurd ((hgoes now).2.symm.trans hpast) (by simp)

theorem RefreshStage.call {hash : String} {α : Type} {l : Label α}
    {k : Except TxError α → Process Reply} (hs : RefreshStage hash context (.call l k)) :
    Leads hash context l k := by
  generalize hp : Proc.call l k = p at hs
  cases hs with
  | found hhash =>
      subst hhash
      exact refreshFound_leads hp.symm
  | @rotation found hhash =>
      cases hp
      have haudit : ∀ r, RefreshStage hash context (tokens (auditRecord context
          ⟨"auth.refreshed", "auth_session", found.token.sessionId⟩ >>= fun _ => pure r)) :=
        fun r => .audit _ r
      exact ⟨fun e => ⟨e, rfl⟩, haudit, fun r _ => Or.inr ⟨found, rfl, hhash⟩⟩
  | audit input r =>
      cases hp
      exact ⟨fun e => ⟨e, rfl⟩, fun _ => .returned, fun _ _ => Or.inl rfl⟩
  | returned => cases hp
  | ending hl hk =>
      cases hp
      exact leads_of_ending hk
  | thrown => cases hp

theorem refresh_stages {hash : String} : Stages (RefreshStage hash context) where
  call := by
    intro α l k h r
    cases r with
    | error e =>
        obtain ⟨e', he⟩ := h.call.error e
        exact he ▸ .thrown
    | ok a => exact h.call.ok a
  single := by
    intro n ids body k h
    generalize hp : Proc.all n ids body k = p at h
    cases h with
    | @found found hhash =>
        simp only [refreshFound] at hp
        split at hp <;> cases hp
    | _ => cases hp

theorem reads_token {s : Store} : Reads (server env) (.refresh refreshToken context) s
    (RefreshStage (env.hashOpaqueToken refreshToken) context) where
  single := nofun
  sends := by
    rintro β l k a ⟨⟩
    nofun
  fails := by
    rintro β l k ⟨⟩ e
    exact .thrown
  reads := by
    rintro β α l k q k' ch r ws ⟨⟩ ⟨⟩ hexec h a hc
    obtain ⟨-, rfl⟩ := completes_pure.mp hc
    cases r with
    | none => exact .thrown
    | some found =>
        have hfind : s.exec (.findRefreshToken (env.hashOpaqueToken refreshToken)) ch =
            .ok (some found, ws) := hexec
        exact .found (exec_findRefreshToken hfind).1.2

end Stage

/-! ## Runs -/

section Run

variable {env : Env} {s : Store} {c c' : ServerConfig} {refreshToken : String}

abbrev ServerThread := Thread Stmt Label TxError Write Empty Call Reply

/-- The thread is between the commit of its rotation and its return, or has returned. -/
def rotated : Code Stmt Label TxError Write Empty Reply → Bool
  | .run p => past p
  | .opened l _ _ _ => l.audits
  | .await _ _ => false

/-- A refresh with the token, whose rotation has committed. -/
def Past (refreshToken : String) (th : ServerThread) : Prop :=
  (∃ context, th.call = .refresh refreshToken context) ∧ rotated th.code = true

/-- The thread `i` commits the rotation of a token with the hash. -/
def Rotates (c : ServerConfig) (i : Nat) (hash : String) : Prop :=
  ∃ call pool found h r k, found.token.tokenHash = hash ∧
    c.threads[i]? = some ⟨call, pool, .opened (.rotate found) h (.pure r) k⟩

/-- A step brings a refresh past its rotation by committing it. -/
theorem past_step {a : Action Choice Call} (hstep : (server env).step c a = some c')
    (hsince : ∀ (i : Nat) th context, c.threads[i]? = some th → th.call = .refresh refreshToken context →
      th.code.Since (server env) th.call (RefreshStage (env.hashOpaqueToken refreshToken) context)) :
    ∀ (i : Nat) th', c'.threads[i]? = some th' → Past refreshToken th' →
      (∃ th, c.threads[i]? = some th ∧ Past refreshToken th) ∨
        (∃ ch, a = .advance i ch) ∧ Rotates c i (env.hashOpaqueToken refreshToken) := by
  have hset : ∀ {j : Nat} {call : Call} {pool : Option Nat}
      {code code' : Code Stmt Label TxError Write Empty Reply},
      c.threads[j]? = some ⟨call, pool, code⟩ →
      (∀ context, call = .refresh refreshToken context →
        code.Since (server env) call (RefreshStage (env.hashOpaqueToken refreshToken) context) →
        rotated code' = true → rotated code = true ∨
          (∃ ch, a = .advance j ch) ∧ Rotates c j (env.hashOpaqueToken refreshToken)) →
      ∀ (i : Nat) th', (c.threads.set j ⟨call, pool, code'⟩)[i]? = some th' → Past refreshToken th' →
        (∃ th, c.threads[i]? = some th ∧ Past refreshToken th) ∨
          (∃ ch, a = .advance i ch) ∧ Rotates c i (env.hashOpaqueToken refreshToken) := by
    intro j call pool code code' hth hcode i th' hth' hpast
    by_cases hij : j = i
    · subst hij
      rw [List.getElem?_set_self (List.getElem?_eq_some_iff.mp hth).1] at hth'
      cases hth'
      obtain ⟨⟨context, hcall⟩, hrotated⟩ := hpast
      rcases hcode context hcall (hsince _ _ _ hth hcall) hrotated with hold | hnew
      · exact Or.inl ⟨_, hth, ⟨context, hcall⟩, hold⟩
      · exact Or.inr hnew
    · rw [List.getElem?_set_ne hij] at hth'
      exact Or.inl ⟨th', hth', hpast⟩
  cases step_cases hstep with
  | start call =>
      intro i th' hth' hpast
      rw [List.getElem?_append] at hth'
      split at hth'
      · exact Or.inl ⟨th', hth', hpast⟩
      · obtain rfl := List.mem_singleton.mp (List.mem_of_getElem? hth')
        obtain ⟨⟨context, rfl⟩, hrotated⟩ := hpast
        cases hrotated
  | crash => simp
  | begin hth => exact hset hth fun _ _ _ hrotated => Or.inl hrotated
  | statement hth _ _ => exact hset hth fun _ _ _ hrotated => Or.inl hrotated
  | @rollback _ _ _ _ _ _ _ _ k e hth _ =>
      refine hset hth fun context hcall hs hrotated => ?_
      rcases hs.of_opened with ⟨hprogram, -⟩ | hp
      · subst hcall
        cases hprogram
        cases hrotated
      · obtain ⟨e', he⟩ := hp.call.error e
        have hpast : past (k (.error e)) = true := hrotated
        rw [he] at hpast
        cases hpast
  | @commit i ch call pool _ l h b k hth =>
      refine hset hth fun context hcall hs hrotated => ?_
      rcases hs.of_opened with ⟨hprogram, hread⟩ | hp
      · subst hcall
        cases hprogram
        cases b with
        | none => cases hrotated
        | some found =>
            exact absurd ((past_refreshFound found context).symm.trans hrotated) (by simp)
      · rcases hp.call.past _ hrotated with haudit | ⟨found, hrotates, hhash⟩
        · exact Or.inl haudit
        · cases l with
          | rotate found' =>
              cases hrotates
              exact Or.inr ⟨⟨ch, rfl⟩, call, pool, found, h, b, k, hhash, hth⟩
          | _ => cases hrotates
  | @fork _ _ _ _ n ids body k hth =>
      obtain rfl : ids = [] := List.eq_nil_of_length_eq_zero
        (by cases ids with | nil => rfl | cons id _ => exact isEmptyElim id)
      simp only [List.length_nil, Nat.min_zero, List.replicate_zero, List.append_nil]
      exact hset hth fun _ _ _ hrotated => nomatch hrotated
  | @take _ _ _ _ _ id => exact isEmptyElim id
  | resume hth _ => exact hset hth fun _ _ hs => absurd hs Code.Since.not_await

/-- The calls with one token of which a rotation has committed: there is at most one, and then
the token is replaced. -/
structure Once (env : Env) (refreshToken : String) (c : ServerConfig) : Prop where
  replaced : ∀ (i : Nat) th, c.threads[i]? = some th → Past refreshToken th →
    ∃ t ∈ c.store.refreshTokens.rows, t.tokenHash = env.hashOpaqueToken refreshToken ∧
      t.replacedByTokenId.isSome
  unique : ∀ (i j : Nat) th th', c.threads[i]? = some th → c.threads[j]? = some th' →
    Past refreshToken th → Past refreshToken th' → i = j

theorem replaced_mono {s s' : Store} {hash : String} (hext : s.Extends s')
    (h : ∃ t ∈ s.refreshTokens.rows, t.tokenHash = hash ∧ t.replacedByTokenId.isSome) :
    ∃ t ∈ s'.refreshTokens.rows, t.tokenHash = hash ∧ t.replacedByTokenId.isSome := by
  obtain ⟨t, ht, hhash, hr⟩ := h
  obtain ⟨t', ht', hsucc⟩ := hext.token t ht
  exact ⟨t', ht', hsucc.tokenHash.trans hhash, hsucc.replaced hr⟩

/-- A rotation finds the token as the end of a chain, and leaves it replaced. -/
theorem rotates_replaces {own : Owner → Set Empty} (hsound : (chainRules env).Sound c own)
    {i : Nat} {hash : String} (hrotates : Rotates c i hash) :
    (∀ t ∈ c.store.refreshTokens.rows, t.tokenHash = hash → t.replacedByTokenId = none) ∧
      ∀ ch c', (server env).step c (.advance i ch) = some c' →
        ∃ t ∈ c'.store.refreshTokens.rows, t.tokenHash = hash ∧ t.replacedByTokenId.isSome := by
  obtain ⟨call, pool, found, h, r, k, rfl, hth⟩ := hrotates
  have hc := hsound.commits chain_valid hth
  obtain ⟨t, d, now, hws, -, hd, hend⟩ := commits_rotate hc
  have hhas : c.store.Has found.token := hc.pre
  obtain ⟨o, ho, hsucc, hopen⟩ := row_of_unreplaced hhas hend
  refine ⟨fun t' ht' hhash => ?_, fun ch c' hstep => ?_⟩
  · rwa [Table.eq_of_uk ht' ho (congrArg some hhash) (congrArg some hsucc.tokenHash)]
  · rw [step_commit hth ch] at hstep
    cases hstep
    have hadm := hc.admissible
    rw [hws] at hadm
    refine ⟨d.apply o, ?_, hsucc.tokenHash, by simp [hd]⟩
    show d.apply o ∈ (database.applyAll (writes h) c.store).refreshTokens.rows
    rw [hws, rows_rotation hhas hadm]
    exact List.mem_append_left _ (List.mem_map.mpr ⟨o, ho, by rw [if_pos hsucc.id]⟩)

/-- A step keeps the calls with one token to one rotation. -/
theorem once_step {own : Owner → Set Empty} (hsound : (chainRules env).Sound c own)
    {a : Action Choice Call} (hok : unreplacedOnly env c a = true)
    (hstep : (server env).step c a = some c')
    (hsince : ∀ (i : Nat) th context, c.threads[i]? = some th → th.call = .refresh refreshToken context →
      th.code.Since (server env) th.call (RefreshStage (env.hashOpaqueToken refreshToken) context))
    (h : Once env refreshToken c) : Once env refreshToken c' := by
  have hext : c.store.Extends c'.store := (hsound.step chain_valid hok hstep).2
  have hpast := past_step hstep hsince
  -- no call is past its rotation when another one is committed
  have hfirst : ∀ {i j : Nat} {th}, Rotates c i (env.hashOpaqueToken refreshToken) →
      c.threads[j]? = some th → ¬ Past refreshToken th := by
    intro i j th hrotates hth hth'
    obtain ⟨t, ht, hhash, hr⟩ := h.replaced j th hth hth'
    simp [(rotates_replaces hsound hrotates).1 t ht hhash] at hr
  refine ⟨fun i th' hth' hp => ?_, fun i j th₁ th₂ hth₁ hth₂ hp₁ hp₂ => ?_⟩
  · rcases hpast i th' hth' hp with ⟨th, hth, hold⟩ | ⟨⟨ch, rfl⟩, hrotates⟩
    · exact replaced_mono hext (h.replaced i th hth hold)
    · exact (rotates_replaces hsound hrotates).2 ch c' hstep
  · rcases hpast i th₁ hth₁ hp₁ with ⟨th, hth, hold⟩ | ⟨⟨ch, rfl⟩, hrotates⟩ <;>
      rcases hpast j th₂ hth₂ hp₂ with ⟨th', hth', hold'⟩ | ⟨⟨ch', hch'⟩, hrotates'⟩
    · exact h.unique i j th th' hth hth' hold hold'
    · exact absurd hold (hfirst hrotates' hth)
    · exact absurd hold' (hfirst hrotates hth')
    · cases hch'
      rfl

theorem once_of_steps (hs : s.Chained)
    (hrun : Steps (server env) (unreplacedOnly env) (.initial s) c) :
    Once env refreshToken c := by
  induction hrun with
  | refl => constructor <;> simp [Config.initial]
  | tail hrun hstep ih =>
      obtain ⟨a, hok, hstep⟩ := hstep
      obtain ⟨⟨own, hsound⟩, -⟩ := Rules.sound_of_steps chain_valid hs hrun
      refine once_step hsound hok hstep (fun i th context hth hcall => ?_) ih
      exact hcall ▸ since_of_steps refresh_stages hrun (fun _ _ _ => reads_token)
        (by simp [Config.initial]) th hth hcall

/-- The session has one token that is not revoked, at most. -/
def Store.SingleToken (s : Store) : Prop :=
  ∀ t ∈ s.refreshTokens.rows, ∀ t' ∈ s.refreshTokens.rows, t.sessionId = t'.sessionId →
    t.revokedAt = none → t'.revokedAt = none → t = t'

theorem singleToken_of_chained (h : s.Chained) : s.SingleToken := by
  have hopen : ∀ t ∈ s.refreshTokens.rows, t.revokedAt = none → t.replacedByTokenId = none := by
    intro t ht hrevoked
    cases hr : t.replacedByTokenId with
    | none => rfl
    | some id => simpa [hrevoked] using h.revoked t ht (by simp [hr])
  intro t ht t' ht' hsid hrevoked hrevoked'
  exact h.head t ht t' ht' hsid (hopen t ht hrevoked) (hopen t' ht' hrevoked')

/-- The token with which a refresh returned. -/
def returnedFor : ServerThread → Option String
  | ⟨.refresh refreshToken _, _, .run (.pure _)⟩ => some refreshToken
  | _ => none

theorem past_of_returnedFor {th : ServerThread} (h : returnedFor th = some refreshToken) :
    Past refreshToken th := by
  unfold returnedFor at h
  split at h
  · cases h
    exact ⟨⟨_, rfl⟩, rfl⟩
  · cases h

/-- A refresh token is used once, and a session has one token that is not revoked, as long as
each rotation updates a row that is not replaced yet. -/
theorem refresh_single_use (hs : s.Chained)
    (hrun : Steps (server env) (unreplacedOnly env) (.initial s) c) :
    c.store.SingleToken ∧ ∀ (refreshToken : String) (i j : Nat) th th',
      c.threads[i]? = some th → c.threads[j]? = some th' →
      returnedFor th = some refreshToken → returnedFor th' = some refreshToken → i = j := by
  obtain ⟨⟨own, hsound⟩, -⟩ := Rules.sound_of_steps chain_valid hs hrun
  exact ⟨singleToken_of_chained hsound.inv, fun refreshToken i j th th' hth hth' h h' =>
    (once_of_steps hs hrun).unique i j th th' hth hth' (past_of_returnedFor h)
      (past_of_returnedFor h')⟩

end Run

theorem chained_demoStore : demoStore.Chained := by
  constructor <;> simp [demoStore, Table.insert, Table.Fresh, Table.empty]

/-- A token is presented again after its rotation. -/
def replayedSchedule : List (Action Choice Call) :=
  .start (.refresh "secret-1" demoContext) :: demoSteps 0 2 20 ++
    .start (.refresh "secret-1" demoContext) :: demoSteps 1 3 9

theorem refresh_single_use_replayed : ∃ c : ServerConfig,
    (c.threads[0]?.bind returnedFor) = some "secret-1" ∧ c.threads.length = 2 ∧
      c.store.SingleToken ∧
      ∀ th, c.threads[1]? = some th → returnedFor th ≠ some "secret-1" := by
  obtain ⟨c, hrun, hreturned, hlength⟩ := exists_of_play (server demoEnv) (unreplacedOnly demoEnv)
    (.initial demoStore) replayedSchedule
    (fun c => (c.threads[0]?.bind returnedFor) = some "secret-1" ∧ c.threads.length = 2)
    (by decide +kernel)
  obtain ⟨hsingle, hunique⟩ := refresh_single_use chained_demoStore hrun
  obtain ⟨th₀, hth₀, hfirst⟩ := Option.bind_eq_some_iff.mp hreturned
  refine ⟨c, hreturned, hlength, hsingle, fun th hth hsecond => ?_⟩
  exact absurd (hunique _ 0 1 th₀ th hth₀ hth hfirst hsecond) (by decide)

/-- Two calls look the token up, and then both of them rotate it. -/
def overlappingSchedule : List (Action Choice Call) :=
  .start (.refresh "secret-1" demoContext) :: demoSteps 0 2 7 ++
    .start (.refresh "secret-1" demoContext) :: demoSteps 1 3 7 ++
    demoSteps 0 2 13 ++ demoSteps 1 3 13

theorem refresh_used_twice : ¬ ∀ (env : Env) (s : Store) (c : ServerConfig), s.Chained →
    Steps (server env) anySchedule (.initial s) c →
    c.store.SingleToken ∧ ∀ (refreshToken : String) (i j : Nat) th th',
      c.threads[i]? = some th → c.threads[j]? = some th' →
      returnedFor th = some refreshToken → returnedFor th' = some refreshToken → i = j := by
  intro hclaim
  obtain ⟨c, hrun, hfirst, hsecond⟩ := exists_of_play (server demoEnv) anySchedule
    (.initial demoStore) overlappingSchedule
    (fun c => (c.threads[0]?.bind returnedFor) = some "secret-1" ∧
      (c.threads[1]?.bind returnedFor) = some "secret-1") (by decide +kernel)
  obtain ⟨th, hth, hreturned⟩ := Option.bind_eq_some_iff.mp hfirst
  obtain ⟨th', hth', hreturned'⟩ := Option.bind_eq_some_iff.mp hsecond
  have hsame := (hclaim _ _ c chained_demoStore hrun).2 _ 0 1 th th' hth hth' hreturned hreturned'
  cases hsame

end LedgerCredit.Auth
