import LedgerCredit.Txn.Sequential
import LedgerCredit.Auth.Rotation
import Mathlib.Data.List.Chain

/-!
# The tokens of a session

When calls do not overlap, the refresh tokens of a session are a chain in the
order in which they were created: each of them but the last was revoked and
replaced by the next one, and all of them expire with the session.

`Store.Threaded` is the invariant.  A login begins a chain, a rotation appends
to it, and a revocation leaves the links alone.  `Store.Dated` is what no write
changes.
-/

namespace LedgerCredit.Auth

open Txn

/-! ## Chains -/

/-- The second token took the place of the first. -/
structure RefreshToken.ReplacedBy (t t' : RefreshToken) : Prop where
  replacedByTokenId : t.replacedByTokenId = some t'.id
  revokedAt : t.revokedAt.isSome

/-- The tokens are one chain, which ends when the session does. -/
structure ChainOf (x : AuthSession) (ts : List RefreshToken) : Prop where
  begun : ts ≠ []
  distinct : (ts.map (·.id)).Nodup
  links : ts.IsChain RefreshToken.ReplacedBy
  last : ∀ t ∈ ts.getLast?, t.replacedByTokenId = none
  expiresAt : ∀ t ∈ ts, t.expiresAt = x.refreshExpiresAt

/-- The refresh tokens of a session, in the order in which they were created. -/
def Store.tokensOf (s : Store) (sessionId : Uuid) : List RefreshToken :=
  s.refreshTokens.rows.filter (·.sessionId = sessionId)

/-- Every session has its principal, every token its session, and the tokens of each session are
a chain. -/
structure Store.Threaded (s : Store) : Prop where
  principal : ∀ x ∈ s.sessions.rows, (s.principals.get? x.principalId).isSome
  session : ∀ t ∈ s.refreshTokens.rows, ∃ x ∈ s.sessions.rows, x.id = t.sessionId
  chain : ∀ x ∈ s.sessions.rows, ChainOf x (s.tokensOf x.id)

/-- Sessions and tokens stay, and so do the times at which they expire. -/
structure Store.Dated (s s' : Store) : Prop where
  session : ∀ x ∈ s.sessions.rows, ∃ x' ∈ s'.sessions.rows,
    x'.id = x.id ∧ x'.refreshExpiresAt = x.refreshExpiresAt
  token : ∀ t ∈ s.refreshTokens.rows, ∃ t' ∈ s'.refreshTokens.rows, t'.id = t.id ∧
    t'.sessionId = t.sessionId ∧ t'.tokenHash = t.tokenHash ∧ t'.expiresAt = t.expiresAt

section Chains

variable {x x' : AuthSession} {ts : List RefreshToken} {old t : RefreshToken}

/-- A chain whose tokens are revoked perhaps, and otherwise as they were. -/
theorem ChainOf.map (h : ChainOf x ts) (hx : x'.refreshExpiresAt = x.refreshExpiresAt)
    {f : RefreshToken → RefreshToken} (hid : ∀ t, (f t).id = t.id)
    (hreplaced : ∀ t, (f t).replacedByTokenId = t.replacedByTokenId)
    (hexpires : ∀ t, (f t).expiresAt = t.expiresAt)
    (hrevoked : ∀ t, t.revokedAt.isSome → (f t).revokedAt.isSome) : ChainOf x' (ts.map f) where
  begun := by simpa using h.begun
  distinct := by
    rw [List.map_map]
    simpa [Function.comp_def, hid] using h.distinct
  links := List.isChain_map_of_isChain f (fun t t' ht =>
    ⟨by rw [hreplaced, hid, ht.replacedByTokenId], hrevoked t ht.revokedAt⟩) h.links
  last := by
    intro t ht
    rw [List.getLast?_map] at ht
    obtain ⟨t₀, ht₀, rfl⟩ := Option.map_eq_some_iff.mp ht
    rw [hreplaced]
    exact h.last t₀ ht₀
  expiresAt := by
    intro t ht
    obtain ⟨t₀, ht₀, rfl⟩ := List.mem_map.mp ht
    rw [hexpires, hx]
    exact h.expiresAt t₀ ht₀

theorem ChainOf.congr (h : ChainOf x ts) (hx : x'.refreshExpiresAt = x.refreshExpiresAt) :
    ChainOf x' ts :=
  ⟨h.begun, h.distinct, h.links, h.last, fun t ht => (h.expiresAt t ht).trans hx.symm⟩

/-- The token that no other replaced is the last one. -/
theorem ChainOf.eq_append (h : ChainOf x ts) (ht : t ∈ ts) (hopen : t.replacedByTokenId = none) :
    ∃ init, ts = init ++ [t] := by
  obtain ⟨init, rest, rfl⟩ := List.append_of_mem ht
  cases rest with
  | nil => exact ⟨init, rfl⟩
  | cons next rest =>
      have hlink := (List.isChain_append_cons_cons.mp h.links).2.1.replacedByTokenId
      rw [hopen] at hlink
      cases hlink

/-- Every token but the last was replaced. -/
theorem ChainOf.replaced (h : ChainOf x ts) (ht : t ∈ ts.dropLast) :
    ∃ t' ∈ ts, t.ReplacedBy t' := by
  obtain ⟨init, rest, hsplit⟩ := List.append_of_mem ht
  have hts : ts = init ++ t :: (rest ++ [ts.getLast h.begun]) := by
    rw [← List.cons_append, ← List.append_assoc, ← hsplit, List.dropLast_append_getLast]
  rw [hts]
  have hlinks := h.links
  rw [hts] at hlinks
  cases rest with
  | nil => exact ⟨ts.getLast h.begun, by simp, (List.isChain_append_cons_cons.mp hlinks).2.1⟩
  | cons next rest => exact ⟨next, by simp, (List.isChain_append_cons_cons.mp hlinks).2.1⟩

/-- A rotation of the last token makes the new one the last. -/
theorem ChainOf.rotated (h : ChainOf x (ts ++ [old])) {d : RefreshTokenUpdate}
    (hd : d.replacedByTokenId = some t.id) (ht : t.replacedByTokenId = none)
    (hexpires : t.expiresAt = x.refreshExpiresAt) (hnew : t.id ∉ (ts ++ [old]).map (·.id))
    (hx : x'.refreshExpiresAt = x.refreshExpiresAt) : ChainOf x' (ts ++ [d.apply old] ++ [t]) where
  begun := by simp
  distinct := by
    have hids : (ts ++ [d.apply old] ++ [t]).map (·.id) = (ts ++ [old]).map (·.id) ++ [t.id] := by
      simp
    rw [hids]
    exact h.distinct.append (List.nodup_singleton _)
      (List.disjoint_singleton.mpr hnew)
  links := by
    obtain ⟨hts, -, hlink⟩ := List.isChain_append.mp h.links
    refine List.isChain_append.mpr ⟨List.isChain_append.mpr ⟨hts, List.isChain_singleton _, ?_⟩,
      List.isChain_singleton _, ?_⟩
    · intro t₁ ht₁ t₂ ht₂
      obtain rfl : d.apply old = t₂ := by simpa using ht₂
      have hold := hlink t₁ ht₁ old (by simp)
      exact ⟨hold.replacedByTokenId, hold.revokedAt⟩
    · intro t₁ ht₁ t₂ ht₂
      obtain rfl : d.apply old = t₁ := by simpa using ht₁
      obtain rfl : t = t₂ := by simpa using ht₂
      exact ⟨by simp [hd], by simp⟩
  last := by simpa using ht
  expiresAt := by
    intro t' ht'
    rw [hx]
    simp only [List.mem_append, List.mem_singleton] at ht'
    rcases ht' with (ht' | rfl) | rfl
    · exact h.expiresAt t' (List.mem_append_left _ ht')
    · exact h.expiresAt old (by simp)
    · exact hexpires

end Chains

/-! ## Writes -/

section Writes

variable {s s' s'' : Store} {ws : List Write} {x : AuthSession} {t old : RefreshToken}

theorem Store.Dated.refl (s : Store) : s.Dated s :=
  ⟨fun x hx => ⟨x, hx, rfl, rfl⟩, fun t ht => ⟨t, ht, rfl, rfl, rfl, rfl⟩⟩

theorem Store.Dated.trans (h : s.Dated s') (h' : s'.Dated s'') : s.Dated s'' where
  session := by
    intro x hx
    obtain ⟨x', hx', hid, hexpires⟩ := h.session x hx
    obtain ⟨x'', hx'', hid', hexpires'⟩ := h'.session x' hx'
    exact ⟨x'', hx'', hid'.trans hid, hexpires'.trans hexpires⟩
  token := by
    intro t ht
    obtain ⟨t', ht', hid, hsid, hhash, hexpires⟩ := h.token t ht
    obtain ⟨t'', ht'', hid', hsid', hhash', hexpires'⟩ := h'.token t' ht'
    exact ⟨t'', ht'', hid'.trans hid, hsid'.trans hsid, hhash'.trans hhash,
      hexpires'.trans hexpires⟩

theorem dated_apply {w : Write} (hadm : database.Admissible s [w]) : s.Dated (w.apply s) := by
  have hrefl := Store.Dated.refl s
  cases w with
  | session x =>
      refine ⟨fun x' hx' => ⟨x', ?_, rfl, rfl⟩, hrefl.token⟩
      rw [Write.apply, Table.rows_insert (fresh_session hadm)]
      exact List.mem_append_left _ hx'
  | updateSession id d =>
      refine ⟨fun x hx => ⟨_, List.mem_map_of_mem hx, ?_⟩, hrefl.token⟩
      split <;> exact ⟨rfl, rfl⟩
  | refreshToken t =>
      refine ⟨hrefl.session, fun t' ht' => ⟨t', ?_, rfl, rfl, rfl, rfl⟩⟩
      rw [Write.apply, Table.rows_insert (fresh_refreshToken hadm)]
      exact List.mem_append_left _ ht'
  | updateRefreshToken id d =>
      refine ⟨hrefl.session, fun t ht => ⟨_, List.mem_map_of_mem ht, ?_⟩⟩
      split <;> exact ⟨rfl, rfl, rfl, rfl⟩
  | auditEvent r => exact ⟨hrefl.session, hrefl.token⟩

/-- No write changes when a session or a token expires. -/
theorem dated_applyAll (hadm : database.Admissible s ws) : s.Dated (database.applyAll ws s) := by
  induction ws generalizing s with
  | nil => exact .refl s
  | cons w ws ih =>
      obtain ⟨hw, hrest⟩ := Database.Admissible.of_cons lawful_database hadm
      exact (dated_apply hw).trans (ih hrest)

theorem tokensOf_map {f : RefreshToken → RefreshToken} (hf : ∀ t, (f t).sessionId = t.sessionId)
    (rows : List RefreshToken) (sid : Uuid) :
    (rows.map f).filter (·.sessionId = sid) = (rows.filter (·.sessionId = sid)).map f := by
  rw [List.filter_map]
  simp only [Function.comp_def, hf]

/-- A write that issues nothing leaves the links alone. -/
theorem threaded_closes {w : Write} (h : s.Threaded) (hw : w.closes = true) :
    (w.apply s).Threaded := by
  cases w with
  | session x => cases hw
  | refreshToken t => cases hw
  | auditEvent r => exact ⟨h.principal, h.session, h.chain⟩
  | updateSession id d =>
      have hrow : ∀ x ∈ s.sessions.rows.map fun x => if x.id = id then d.apply x else x,
          ∃ x₀ ∈ s.sessions.rows, x.id = x₀.id ∧ x.principalId = x₀.principalId ∧
            x.refreshExpiresAt = x₀.refreshExpiresAt := by
        intro x hx
        obtain ⟨x₀, hx₀, rfl⟩ := List.mem_map.mp hx
        exact ⟨x₀, hx₀, by split <;> exact ⟨rfl, rfl, rfl⟩⟩
      refine ⟨fun x hx => ?_, fun t ht => ?_, fun x hx => ?_⟩
      · obtain ⟨x₀, hx₀, -, hprincipal, -⟩ := hrow x hx
        rw [hprincipal]
        exact h.principal x₀ hx₀
      · obtain ⟨x, hx, hid⟩ := h.session t ht
        exact ⟨_, List.mem_map_of_mem hx, by split <;> simpa using hid⟩
      · obtain ⟨x₀, hx₀, hid, -, hexpires⟩ := hrow x hx
        rw [hid]
        exact (h.chain x₀ hx₀).congr hexpires
  | updateRefreshToken id d =>
      have hnone : d.replacedByTokenId = none := Option.isNone_iff_eq_none.mp hw
      refine ⟨h.principal, fun t ht => ?_, fun x hx => ?_⟩
      · obtain ⟨t₀, ht₀, rfl⟩ := List.mem_map.mp ht
        obtain ⟨x, hx, hid⟩ := h.session t₀ ht₀
        exact ⟨x, hx, by split <;> exact hid⟩
      · have htokens : ((Write.updateRefreshToken id d).apply s).tokensOf x.id =
            (s.tokensOf x.id).map fun t => if t.id = id then d.apply t else t :=
          tokensOf_map (fun t => by split <;> rfl) _ _
        rw [htokens]
        refine (h.chain x hx).map rfl (fun t => ?_) (fun t => ?_) (fun t => ?_) fun t hr => ?_
        · split <;> rfl
        · split <;> simp [hnone]
        · split <;> rfl
        · split <;> simp [hr]

theorem threaded_closesAll (h : s.Threaded) (hws : ∀ w ∈ ws, w.closes = true) :
    (database.applyAll ws s).Threaded := by
  induction ws generalizing s with
  | nil => exact h
  | cons w ws ih =>
      exact ih (threaded_closes h (hws w (List.mem_cons_self ..)))
        fun w hw => hws w (List.mem_cons_of_mem _ hw)

/-- A new session begins a chain. -/
theorem threaded_issued (h : s.Threaded) (ht : t.Issued x.id)
    (hexpires : t.expiresAt = x.refreshExpiresAt)
    (hadm : database.Admissible s [.session x, .refreshToken t]) :
    (database.applyAll [.session x, .refreshToken t] s).Threaded := by
  obtain ⟨hx, htoken⟩ := Database.Admissible.of_cons lawful_database hadm
  have hfresh := fresh_session hx
  have hsessions : (database.applyAll [.session x, .refreshToken t] s).sessions.rows =
      s.sessions.rows ++ [x] := Table.rows_insert hfresh
  have htokens : (database.applyAll [.session x, .refreshToken t] s).refreshTokens.rows =
      s.refreshTokens.rows ++ [t] := Table.rows_insert (fresh_refreshToken htoken)
  have hne : ∀ x' ∈ s.sessions.rows, x'.id ≠ x.id :=
    fun x' hx' hid => hfresh.1 (List.mem_map.mpr ⟨x', hx', hid⟩)
  have hof : ∀ sid, (database.applyAll [.session x, .refreshToken t] s).tokensOf sid =
      s.tokensOf sid ++ [t].filter (·.sessionId = sid) := by
    intro sid
    rw [Store.tokensOf, htokens, List.filter_append]
    rfl
  refine ⟨?_, ?_, ?_⟩ <;> rw [hsessions]
  · refine List.forall_mem_append.mpr ⟨h.principal, List.forall_mem_singleton.mpr ?_⟩
    exact hx.2.1 (.principal x.principalId) (by simp [database, Write.needs])
  · rw [htokens]
    refine List.forall_mem_append.mpr ⟨fun t' ht' => ?_, List.forall_mem_singleton.mpr
      ⟨x, by simp, ht.sessionId.symm⟩⟩
    obtain ⟨x', hx', hid⟩ := h.session t' ht'
    exact ⟨x', List.mem_append_left _ hx', hid⟩
  · refine List.forall_mem_append.mpr ⟨fun x' hx' => ?_, List.forall_mem_singleton.mpr ?_⟩
    · have hother : t.sessionId ≠ x'.id := fun heq => hne x' hx' (heq.symm.trans ht.sessionId)
      rw [hof, List.filter_singleton]
      simpa [hother] using h.chain x' hx'
    · -- the session had no token before
      have hnone : s.tokensOf x.id = [] := by
        refine List.filter_eq_nil_iff.mpr fun t' ht' hsid => ?_
        obtain ⟨x', hx', hid⟩ := h.session t' ht'
        exact hne x' hx' (hid.trans (of_decide_eq_true hsid))
      have hof' : (database.applyAll [.session x, .refreshToken t] s).tokensOf x.id = [t] := by
        rw [hof, hnone, List.nil_append, List.filter_singleton]
        simp [ht.sessionId]
      rw [hof']
      exact ⟨by simp, by simp, List.isChain_singleton _, by simpa using ht.replacedByTokenId,
        by simpa using hexpires⟩

/-- A rotation appends to the chain of its session. -/
theorem threaded_rotation {d : RefreshTokenUpdate} {now : Time} (h : s.Threaded)
    (hold : old ∈ s.refreshTokens.rows) (hopen : old.replacedByTokenId = none)
    (ht : t.Issued old.sessionId) (hx : x ∈ s.sessions.rows) (hid : x.id = old.sessionId)
    (hexpires : t.expiresAt = x.refreshExpiresAt) (hd : d.replacedByTokenId = some t.id)
    (hadm : database.Admissible s (rotation old t d now)) :
    (database.applyAll (rotation old t d now) s).Threaded := by
  have hrows := rows_rotation ⟨old, hold, .refl old⟩ hadm
  have hfresh := fresh_refreshToken (Database.Admissible.of_cons lawful_database hadm).1
  have hsessions : ∀ x' ∈ (database.applyAll (rotation old t d now) s).sessions.rows,
      ∃ x₀ ∈ s.sessions.rows, x'.id = x₀.id ∧ x'.principalId = x₀.principalId ∧
        x'.refreshExpiresAt = x₀.refreshExpiresAt := by
    intro x' hx'
    obtain ⟨x₀, hx₀, rfl⟩ := List.mem_map.mp hx'
    exact ⟨x₀, hx₀, by split <;> exact ⟨rfl, rfl, rfl⟩⟩
  have hkept : ∀ x₀ ∈ s.sessions.rows,
      ∃ x' ∈ (database.applyAll (rotation old t d now) s).sessions.rows, x'.id = x₀.id :=
    fun x₀ hx₀ => ⟨_, List.mem_map_of_mem hx₀, by split <;> rfl⟩
  have hof : ∀ sid, (database.applyAll (rotation old t d now) s).tokensOf sid =
      ((s.tokensOf sid).map fun r => if r.id = old.id then d.apply r else r) ++
        [t].filter (·.sessionId = sid) := by
    intro sid
    rw [Store.tokensOf, hrows, List.filter_append, tokensOf_map fun r => by split <;> rfl]
    rfl
  refine ⟨fun x' hx' => ?_, ?_, fun x' hx' => ?_⟩
  · obtain ⟨x₀, hx₀, -, hprincipal, -⟩ := hsessions x' hx'
    rw [hprincipal]
    exact h.principal x₀ hx₀
  · rw [hrows]
    refine List.forall_mem_append.mpr ⟨fun t' ht' => ?_, List.forall_mem_singleton.mpr ?_⟩
    · obtain ⟨t₀, ht₀, rfl⟩ := List.mem_map.mp ht'
      obtain ⟨x₀, hx₀, hsid⟩ := h.session t₀ ht₀
      obtain ⟨x', hx', hid'⟩ := hkept x₀ hx₀
      exact ⟨x', hx', hid'.trans (by split <;> exact hsid)⟩
    · obtain ⟨x', hx', hid'⟩ := hkept x hx
      exact ⟨x', hx', hid'.trans (hid.trans ht.sessionId.symm)⟩
  · obtain ⟨x₀, hx₀, hid', -, hexpires'⟩ := hsessions x' hx'
    have hchain := h.chain x₀ hx₀
    rw [hid', hof]
    by_cases heq : x₀.id = old.sessionId
    · obtain rfl : x₀ = x := Table.eq_of_pk hx₀ hx (heq.trans hid.symm)
      have hmem : old ∈ s.tokensOf x₀.id := List.mem_filter.mpr ⟨hold, by simp [heq]⟩
      obtain ⟨init, hinit⟩ := hchain.eq_append hmem hopen
      -- the tokens before the last one are left alone
      have hids : ∀ r ∈ init, r.id ≠ old.id := by
        intro r hr hrid
        have hnodup := hchain.distinct
        rw [hinit, List.map_append, List.nodup_append] at hnodup
        exact hnodup.2.2 r.id (List.mem_map_of_mem hr) old.id (by simp) hrid
      have hmap : init.map (fun r => if r.id = old.id then d.apply r else r) = init :=
        (List.map_congr_left fun r hr => if_neg (hids r hr)).trans (List.map_id _)
      rw [hinit] at hchain ⊢
      rw [List.map_append, hmap, List.map_singleton, if_pos rfl, List.filter_singleton,
        decide_eq_true (ht.sessionId.trans heq.symm)]
      refine hchain.rotated hd ht.replacedByTokenId hexpires (fun hnew => ?_) hexpires'
      rw [← hinit] at hnew
      obtain ⟨r, hr, hrid⟩ := List.mem_map.mp hnew
      exact hfresh.1 (List.mem_map.mpr ⟨r, (List.mem_filter.mp hr).1, hrid⟩)
    · have hother : t.sessionId ≠ x₀.id := fun hsid => heq (hsid.symm.trans ht.sessionId)
      have hmap : (s.tokensOf x₀.id).map (fun r => if r.id = old.id then d.apply r else r) =
          s.tokensOf x₀.id := by
        refine (List.map_congr_left fun r hr => if_neg fun hrid => ?_).trans (List.map_id _)
        obtain ⟨hmem, hsid⟩ := List.mem_filter.mp hr
        obtain rfl : r = old := Table.eq_of_pk hmem hold hrid
        exact heq (of_decide_eq_true hsid).symm
      rw [hmap, List.filter_singleton]
      simpa [hother] using hchain.congr hexpires'

end Writes

/-! ## Calls -/

/-- A choice while nothing else runs, so that no row was committed while a statement waited. -/
def Choice.undisturbed (ch : Choice) : Bool := ch.unseen.isEmpty

def Undisturbed (_ : Store) (ch : Choice) : Prop := ch.undisturbed = true

/-- The tokens still expire when they did, and still are chains. -/
structure Store.Threads (s s' : Store) : Prop where
  dated : s.Dated s'
  threaded : s.Threaded → s'.Threaded

section Calls

variable {env : Env} {s s' s'' : Store} {α β : Type}

theorem Store.Threads.refl (s : Store) : s.Threads s := ⟨.refl s, id⟩

theorem Store.Threads.trans (h : s.Threads s') (h' : s'.Threads s'') : s.Threads s'' :=
  ⟨h.dated.trans h'.dated, fun hs => h'.threaded (h.threaded hs)⟩

theorem threads_closes {ws : List Write} (hadm : database.Admissible s ws)
    (hws : ∀ w ∈ ws, w.closes = true) : s.Threads (database.applyAll ws s) :=
  ⟨dated_applyAll hadm, fun h => threaded_closesAll h hws⟩

/-- What a transaction that runs alone does, from what its statements wrote. -/
theorem always_executed {t : Transaction α} {A : α → Store → Prop}
    (hA : ∀ a ws, Runs (fun _ e => Executed e) [] t ws a → database.Admissible s ws →
      A a (database.applyAll ws s)) : Always database Undisturbed t s A fun _ => True :=
  Always.of_runs lawful_database (fun _ _ ch _ hexec => ⟨_, ch, hexec⟩) hA

abbrev KeepsChains (env : Env) (p : Process α) (s : Store) : Prop :=
  p.Keeps (server env) Undisturbed Store.Threads s

/-- A statement outside of a transaction leaves the links alone. -/
theorem always_outside {q : Stmt α} (hq : Outside q) {P : α → Store → Prop}
    (hP : ∀ ch r ws, s.exec q ch = .ok (r, ws) → P r (database.applyAll ws s)) :
    Always database Undisturbed (Tx.send q) s (fun r s' => s.Threads s' ∧ P r s')
      fun _ => True :=
  always_send.mpr fun ch _ => ⟨fun _ _ => trivial, fun r ws hexec =>
    ⟨threads_closes (lawful_database.exec_admissible hexec) (outside_closes hq hexec),
      hP ch r ws hexec⟩⟩

theorem keeps_statement {q : Stmt α} (hq : Outside q) {f : α → Process β}
    (hf : ∀ ch r ws, s.exec q ch = .ok (r, ws) →
      KeepsChains env (f r) (database.applyAll ws s)) : KeepsChains env (statement q >>= f) s :=
  .transaction_bind (always_outside hq hf)

theorem keeps_revokeSession {sid : Uuid} {f : Unit → Process β}
    (hf : ∀ s', KeepsChains env (f ()) s') : KeepsChains env (revokeSession sid >>= f) s := by
  refine .transaction_bind (always_executed fun _ ws hruns hadm => ⟨?_, hf _⟩)
  exact threads_closes hadm (revokeSessionTx_runs (fun _ _ he => he) hruns)

theorem keeps_ofExcept {x : Except AppException α} {f : α → Process β}
    (hf : ∀ a, x = .ok a → KeepsChains env (f a) s) :
    KeepsChains env (Process.ofExcept x >>= f) s := by
  cases x with
  | error e => trivial
  | ok a => exact hf a rfl

theorem keeps_auditRecord {context : RequestContext} {input : AuditRecordInput} :
    KeepsChains env (auditRecord context input) s :=
  ⟨fun _ => trivial, always_outside (q := .createAuditEvent (auditData context input)) trivial
    fun _ _ _ _ => trivial⟩

theorem keeps_loginAs {principal : LoadedPrincipal} {audience : String}
    {context : RequestContext} : KeepsChains env (loginAs principal audience context) s := by
  refine .transaction_bind (always_executed fun _ ws hruns hadm => ⟨?_, ?_⟩)
  · obtain ⟨x, t, rfl, -, ht, hexpires⟩ := issueSessionTokensTx_runs (fun _ _ he => he) hruns
    exact ⟨dated_applyAll hadm, fun h => threaded_issued h ht hexpires hadm⟩
  · exact keeps_auditRecord.bind fun _ _ => trivial

theorem keeps_login {input : AuthLoginRequest} {context : RequestContext} :
    KeepsChains env (login env input context) s := by
  cases input with
  | password audience loginId secret =>
      simp only [login]
      split
      · trivial
      · refine keeps_statement (by trivial) fun _ principal _ _ => ?_
        cases principal with
        | none => trivial
        | some principal =>
            simp only
            split
            · trivial
            · refine keeps_ofExcept fun _ _ => ?_
              split
              · trivial
              · split
                · exact keeps_loginAs
                · trivial
  | tokenExchange audience subjectToken =>
      simp only [login]
      split
      · trivial
      · refine keeps_ofExcept fun x _ => ?_
        refine keeps_statement (by trivial) fun _ principal _ _ => ?_
        cases principal with
        | none => trivial
        | some principal => exact keeps_ofExcept fun _ _ => keeps_loginAs

/-- A rotation of the row that the lookup found, while nothing else runs. -/
theorem keeps_rotate {found : TokenWithSession} {context : RequestContext}
    (hmem : found.token ∈ s.refreshTokens.rows) (hopen : found.token.replacedByTokenId = none)
    (hsession : found.session.session ∈ s.sessions.rows)
    (hid : found.session.session.id = found.token.sessionId) :
    KeepsChains env (rotate found context) s := by
  refine .transaction_bind (always_executed fun _ ws hruns hadm => ⟨?_, ?_⟩)
  · obtain ⟨t, d, now, -, rfl, ht, hexpires, hd, -⟩ := rotateTx_runs (fun _ _ he => he) hruns
    exact ⟨dated_applyAll hadm,
      fun h => threaded_rotation h hmem hopen ht hsession hid hexpires hd hadm⟩
  · exact keeps_auditRecord.bind fun _ _ => trivial

theorem keeps_refreshFound {found : TokenWithSession} {context : RequestContext}
    (hmem : found.token ∈ s.refreshTokens.rows)
    (hsession : found.session.session ∈ s.sessions.rows)
    (hid : found.session.session.id = found.token.sessionId) :
    KeepsChains env (refreshFound found context) s := by
  simp only [refreshFound]
  split
  · exact keeps_revokeSession fun _ => trivial
  · rename_i hunused
    have hopen : found.token.replacedByTokenId = none := by
      simpa using (not_or.mp hunused).2
    refine keeps_statement (by trivial) fun ch now ws hexec => ?_
    cases hexec
    simp only [refreshUnused]
    split
    · exact keeps_statement (by simp [Outside]) fun _ _ _ _ => trivial
    · refine keeps_ofExcept fun _ _ => keeps_ofExcept fun _ _ => ?_
      exact keeps_rotate hmem hopen hsession hid

theorem keeps_refresh {refreshToken : String} {context : RequestContext} :
    KeepsChains env (refresh env refreshToken context) s := by
  refine keeps_statement (by trivial) fun ch found ws hexec => ?_
  cases found with
  | none => trivial
  | some found =>
      obtain ⟨⟨hmem, -⟩, hsession, hid⟩ := exec_findRefreshToken hexec
      obtain ⟨rfl, -⟩ := found_ok hexec
      exact keeps_refreshFound hmem hsession hid

theorem keeps_logout {refreshToken : String} {context : RequestContext} :
    KeepsChains env (logout env refreshToken context) s := by
  refine keeps_statement (by trivial) fun ch found ws hexec => ?_
  cases found with
  | none => trivial
  | some found => exact keeps_revokeSession fun _ => keeps_auditRecord

theorem keeps_authenticateAccessToken {token : String} {now : Time} :
    KeepsChains env (authenticateAccessToken env token now) s := by
  unfold authenticateAccessToken
  split
  · trivial
  · refine keeps_statement (by trivial) fun ch found ws hexec => ?_
    cases found with
    | none => trivial
    | some found =>
        simp only
        cases authenticate _ found <;> trivial

/-- Every call keeps the chains when it runs alone. -/
theorem program_keeps (call : Call) (s : Store) : KeepsChains env (call.program env) s := by
  cases call with
  | login input context => exact keeps_login.bind fun _ _ => trivial
  | refresh refreshToken context => exact keeps_refresh.bind fun _ _ => trivial
  | logout refreshToken context => exact keeps_logout.bind fun _ _ => trivial
  | authenticateAccessToken token now =>
      exact keeps_authenticateAccessToken.bind fun _ _ => trivial

end Calls

/-! ## Replays -/

/-- The session has ended, and its tokens are revoked. -/
structure Store.Revoked (s : Store) (sid : Uuid) : Prop where
  session : s.Ended sid
  tokens : ∀ t ∈ s.tokensOf sid, t.revokedAt.isSome

section Replay

variable {env : Env} {s : Store} {ws : List Write} {sid : Uuid} {x : AuthSession} {t : RefreshToken}

theorem applyAll_keep {P : Store → Prop} (hkeep : ∀ w ∈ ws, ∀ s, P s → P (w.apply s)) (h : P s) :
    P (database.applyAll ws s) := by
  induction ws generalizing s with
  | nil => exact h
  | cons w ws ih =>
      exact ih (fun w' hw' => hkeep w' (List.mem_cons_of_mem _ hw'))
        (hkeep w (List.mem_cons_self ..) s h)

/-- What one of some writes sets, and none of them undoes, holds in the end. -/
theorem applyAll_of_mem {P : Store → Prop} {w : Write} (hw : w ∈ ws)
    (hset : ∀ s, P (w.apply s)) (hkeep : ∀ w' ∈ ws, ∀ s, P s → P (w'.apply s)) :
    P (database.applyAll ws s) := by
  obtain ⟨before, after, rfl⟩ := List.append_of_mem hw
  rw [Database.applyAll_append, Database.applyAll_cons]
  exact applyAll_keep (fun w' hw' => hkeep w' (by simp [hw'])) (hset _)

/-- Updates of rows that exist break no constraint. -/
theorem violations_updates
    (h : ∀ w ∈ ws, w.adds = [] ∧ ∀ k ∈ w.needs, s.present k = true) : s.violations ws = none := by
  induction ws generalizing s with
  | nil => rfl
  | cons w ws ih =>
      obtain ⟨⟨hadds, hneeds⟩, hrest⟩ := List.forall_mem_cons.mp h
      have hone : s.violation w = none := by
        simp only [Store.violation, hadds, List.any_nil, Bool.false_eq_true, if_false,
          List.all_eq_true.mpr hneeds, Bool.not_true]
      have hpresent : ∀ k, (w.apply s).present k = true ↔ s.present k = true ∨ k ∈ w.adds :=
        present_apply w s (by simp [hadds])
      exact Database.firstViolation_cons.mpr ⟨hone, ih fun w' hw' => ⟨(hrest w' hw').1, fun k hk =>
        (hpresent k).mpr (Or.inl ((hrest w' hw').2 k hk))⟩⟩

/-- A statement that updates rows that exist never fails. -/
theorem always_updates {q : Stmt Unit} {updates : Choice → List Write} {A : Unit → Store → Prop}
    (hq : ∀ ch, s.exec q ch = s.attempt () (updates ch))
    (hupdates : ∀ ch, ∀ w ∈ updates ch, w.adds = [] ∧ ∀ k ∈ w.needs, s.present k = true)
    (hA : ∀ ch, Undisturbed s ch → A () (database.applyAll (updates ch) s)) :
    Always database Undisturbed (Tx.send q) s A fun _ => False := by
  refine always_send.mpr fun ch hch => ?_
  have hexec : database.exec q ch s = .ok ((), updates ch) := by
    show s.exec q ch = _
    rw [hq, Store.attempt, violations_updates (hupdates ch)]
  rw [hexec]
  refine ⟨fun e he => ?_, fun r ws hr => ?_⟩
  · cases he
  · cases hr
    exact hA ch hch

/-- The updates of `updateActiveSessions`. -/
def Store.sessionUpdates (s : Store) (sid : Uuid) (d : AuthSessionUpdate) (ch : Choice) :
    List Write :=
  (s.sessions.rows.filter fun x => x.id = sid && x.status = .active && x.id ∉ ch.unseen).map
    fun x => .updateSession x.id d

/-- The updates of `updateUnrevokedTokens`. -/
def Store.tokenUpdates (s : Store) (sid : Uuid) (d : RefreshTokenUpdate) (ch : Choice) :
    List Write :=
  (s.refreshTokens.rows.filter fun t =>
    t.sessionId = sid && t.revokedAt.isNone && t.id ∉ ch.unseen).map
    fun t => .updateRefreshToken t.id d

/-- `updateActiveSessions` ends the session. -/
theorem always_updateActiveSessions {d : AuthSessionUpdate} (hd : d.status = some .revoked)
    (hx : ∃ x ∈ s.sessions.rows, x.id = sid) :
    Always database Undisturbed (Tx.send (.updateActiveSessions sid d)) s
      (fun _ s' => s'.Ended sid) fun _ => False := by
  have hupdates : ∀ ch, ∀ w ∈ s.sessionUpdates sid d ch,
      w.adds = [] ∧ ∀ k ∈ w.needs, s.present k = true := by
    intro ch w hw
    obtain ⟨x, hx, rfl⟩ := List.mem_map.mp hw
    refine ⟨rfl, fun k hk => ?_⟩
    obtain rfl := List.mem_singleton.mp hk
    exact Option.isSome_iff_exists.mpr
      ⟨x, Table.get?_eq_some.mpr ⟨(List.mem_filter.mp hx).1, rfl⟩⟩
  refine always_updates (fun _ => rfl) hupdates fun ch hch => ?_
  obtain ⟨x, hx, hid⟩ := hx
  have hext : s.Extends (database.applyAll (s.sessionUpdates sid d ch) s) := by
    refine extends_applyAll (fun w hw => ?_) (violations_none (violations_updates (hupdates ch)))
    obtain ⟨x, -, rfl⟩ := List.mem_map.mp hw
    simp [Write.fair, hd]
  by_cases hactive : x.status = .active
  · obtain ⟨x', hx', hid', -⟩ := hext.session x hx
    refine ⟨x', hx', hid'.trans hid, ?_⟩
    -- the row is among those that the statement saw
    have hmem : .updateSession sid d ∈ s.sessionUpdates sid d ch :=
      List.mem_map.mpr ⟨x, List.mem_filter.mpr
        ⟨hx, by simp [hid, hactive, List.isEmpty_iff.mp hch]⟩, by rw [hid]⟩
    refine applyAll_of_mem (P := fun s => ∀ x ∈ s.sessions.rows, x.id = sid → x.status ≠ .active)
      hmem (fun s x hx hid => ?_) (fun w hw s h x hx hid => ?_) x' hx' (hid'.trans hid)
    · obtain ⟨x₀, -, rfl⟩ := List.mem_map.mp hx
      split at hid
      · rename_i heq
        simp [heq, hd]
      · rename_i hne
        exact absurd hid hne
    · obtain ⟨y, -, rfl⟩ := List.mem_map.mp hw
      obtain ⟨x₀, hx₀, rfl⟩ := List.mem_map.mp hx
      split
      · simp [hd]
      · rename_i hne
        rw [if_neg hne] at hid
        exact h x₀ hx₀ hid
  · exact Store.Ended.mono ⟨x, hx, hid, hactive⟩ hext

/-- `updateUnrevokedTokens` revokes the tokens of the session. -/
theorem always_updateUnrevokedTokens {d : RefreshTokenUpdate} (hd : d.replacedByTokenId = none)
    (hended : s.Ended sid) :
    Always database Undisturbed (Tx.send (.updateUnrevokedTokens sid d)) s
      (fun _ s' => s'.Revoked sid) fun _ => False := by
  have hupdates : ∀ ch, ∀ w ∈ s.tokenUpdates sid d ch,
      w.adds = [] ∧ ∀ k ∈ w.needs, s.present k = true := by
    intro ch w hw
    obtain ⟨t, ht, rfl⟩ := List.mem_map.mp hw
    refine ⟨rfl, fun k hk => ?_⟩
    obtain rfl : k = .refreshToken t.id := by simpa [Write.needs, hd] using hk
    exact Option.isSome_iff_exists.mpr
      ⟨t, Table.get?_eq_some.mpr ⟨(List.mem_filter.mp ht).1, rfl⟩⟩
  refine always_updates (fun _ => rfl) hupdates fun ch hch => ?_
  have hext : s.Extends (database.applyAll (s.tokenUpdates sid d ch) s) := by
    refine extends_applyAll (fun w hw => ?_) (violations_none (violations_updates (hupdates ch)))
    obtain ⟨t, -, rfl⟩ := List.mem_map.mp hw
    rfl
  -- the tokens were there, since the statement creates none
  have hold : ∀ t' ∈ (database.applyAll (s.tokenUpdates sid d ch) s).refreshTokens.rows,
      ∃ t ∈ s.refreshTokens.rows, t'.id = t.id ∧ t'.sessionId = t.sessionId ∧
        (t.revokedAt.isSome → t'.revokedAt.isSome) := by
    refine applyAll_keep (P := fun s' => ∀ t' ∈ s'.refreshTokens.rows, ∃ t ∈ s.refreshTokens.rows,
      t'.id = t.id ∧ t'.sessionId = t.sessionId ∧ (t.revokedAt.isSome → t'.revokedAt.isSome))
      (fun w hw s' h t' ht' => ?_) fun t ht => ⟨t, ht, rfl, rfl, fun hr => hr⟩
    obtain ⟨y, -, rfl⟩ := List.mem_map.mp hw
    obtain ⟨t₁, ht₁, rfl⟩ := List.mem_map.mp ht'
    obtain ⟨t, ht, hid, hsid, hrevoked⟩ := h t₁ ht₁
    refine ⟨t, ht, ?_⟩
    split
    · exact ⟨hid, hsid, fun _ => rfl⟩
    · exact ⟨hid, hsid, hrevoked⟩
  refine ⟨hended.mono hext, fun t' ht' => ?_⟩
  obtain ⟨hmem, hsid⟩ := List.mem_filter.mp ht'
  obtain ⟨t, ht, hid, hsid', hrevoked⟩ := hold t' hmem
  by_cases hopen : t.revokedAt.isSome
  · exact hrevoked hopen
  · have hw : .updateRefreshToken t.id d ∈ s.tokenUpdates sid d ch := by
      refine List.mem_map.mpr ⟨t, List.mem_filter.mpr ⟨ht, ?_⟩, rfl⟩
      rw [List.isEmpty_iff.mp hch, ← hsid', of_decide_eq_true hsid]
      simpa using hopen
    refine applyAll_of_mem (P := fun s => ∀ t' ∈ s.refreshTokens.rows, t'.id = t.id →
      t'.revokedAt.isSome) hw (fun s t' ht' hid => ?_) (fun w hw s h t' ht' hid => ?_) t' hmem hid
    · obtain ⟨t₀, -, rfl⟩ := List.mem_map.mp ht'
      split at hid
      · rename_i heq
        simp [heq]
      · rename_i hne
        exact absurd hid hne
    · obtain ⟨y, -, rfl⟩ := List.mem_map.mp hw
      obtain ⟨t₀, ht₀, rfl⟩ := List.mem_map.mp ht'
      split
      · rfl
      · rename_i hne
        rw [if_neg hne] at hid
        exact h t₀ ht₀ hid

/-- `revokeSession`, which never fails when it runs alone. -/
theorem always_revokeSession (hx : ∃ x ∈ s.sessions.rows, x.id = sid) :
    Always database Undisturbed (revokeSessionTx sid) s (fun _ s' => s'.Revoked sid)
      fun _ => False := by
  have hnow : ∀ {A : Time → Store → Prop} {s : Store}, (∀ now, A now s) →
      Always database Undisturbed (Tx.send .newDate) s A fun _ => False := by
    intro A s hA
    refine always_send.mpr fun ch _ => ⟨fun e he => ?_, fun r ws hr => ?_⟩
    · cases he
    · cases hr
      exact hA _
  refine Always.bind (hnow fun _ => rfl) ?_ fun _ h => h
  rintro now _ rfl
  refine Always.bind (always_updateActiveSessions rfl hx) ?_ fun _ h => h
  rintro - s₁ hended
  refine Always.bind (hnow (A := fun _ s => s.Ended sid) fun _ => hended) ?_ fun _ h => h
  rintro now' s₂ hended
  exact always_updateUnrevokedTokens rfl hended

/-- The lookup of a token, when each token has its session and each session its principal. -/
theorem exec_findRefreshToken_of_threaded {hash : String} (h : s.Threaded)
    (ht : t ∈ s.refreshTokens.rows) (hhash : t.tokenHash = hash) (ch : Choice) :
    ∃ found : TokenWithSession,
      s.exec (.findRefreshToken hash) ch = .ok (some found, []) ∧ found.token = t := by
  obtain ⟨x, hx, hid⟩ := h.session t ht
  obtain ⟨p, hp⟩ := Option.isSome_iff_exists.mp (h.principal x hx)
  have hfind : s.refreshTokens.find? hash = some t :=
    Table.find?_eq_some.mpr ⟨ht, congrArg some hhash⟩
  have hload : s.loadToken ch t = .ok ⟨t, x, s.loadPrincipal ch p⟩ := by
    simp [Store.loadToken, Store.sessionOf, Store.loadSession, Table.get?_eq_some.mpr ⟨hx, hid⟩, hp,
      bind, Except.bind, pure, Except.pure]
  exact ⟨⟨t, x, s.loadPrincipal ch p⟩, by simp [Store.exec, hfind, Store.found, hload, Except.map],
    rfl⟩

/-- A refresh with a token that was replaced, alone, throws and revokes the session. -/
theorem replay_concludes {refreshToken : String} {context : RequestContext} (h : s.Threaded)
    (hx : x ∈ s.sessions.rows) (ht : t ∈ (s.tokensOf x.id).dropLast)
    (hhash : env.hashOpaqueToken refreshToken = t.tokenHash) :
    Concludes (server env) Undisturbed ((Call.refresh refreshToken context).program env) s
      fun o s' => (∃ e, o = .error e) ∧ s'.Revoked x.id := by
  obtain ⟨hmem, hsid⟩ := List.mem_filter.mp (List.dropLast_subset _ ht)
  obtain ⟨t', -, hreplaced⟩ := (h.chain x hx).replaced ht
  refine Concludes.map (Concludes.transaction_bind ?_)
  refine always_send.mpr fun ch _ => ?_
  obtain ⟨found, hexec, rfl⟩ := exec_findRefreshToken_of_threaded h hmem hhash.symm ch
  refine ⟨fun e he => ?_, fun r ws hr => ?_⟩
  · cases hexec.symm.trans he
  · cases hexec.symm.trans hr
    simp only [refreshFound, hreplaced.revokedAt, true_or, if_true]
    refine Concludes.transaction_bind ((always_revokeSession ?_).mono (fun _ s' hs' => ?_)
      fun _ h => h.elim)
    · exact h.session found.token hmem
    · rw [of_decide_eq_true hsid] at hs'
      exact ⟨⟨_, rfl⟩, hs'⟩

end Replay

/-! ## Expiry -/

/-- The statement outside of transactions that reads the clock. -/
def Label.readsClock : {α : Type} → Label α → Bool
  | _, .statement .newDate => true
  | _, _ => false

/-- The next step of the process reads the clock. -/
def Process.readsClock {α : Type} : Process α → Bool
  | .call l _ => l.readsClock
  | _ => false

/-- The process throws if it reads the clock at or after the time. -/
inductive Late (expiresAt : Time) : {α : Type} → Process α → Prop
  | pure {α : Type} {a : α} : Late expiresAt (.pure a)
  | throw {α : Type} {e : TxError} : Late expiresAt (.throw e : Process α)
  | check {α : Type} {k : Except TxError Time → Process α} : (∀ r, Late expiresAt (k r)) →
      (∀ now, expiresAt ≤ now → (k (.ok now)).Throws) → Late expiresAt (.call (.statement .newDate) k)
  | call {α β : Type} {l : Label β} {k : Except TxError β → Process α} : l.readsClock = false →
      (∀ r, Late expiresAt (k r)) → Late expiresAt (.call l k)

/-- The thread has read the clock outside of transactions, at `now`, and goes on with `p`. -/
inductive ChecksExpiry (now : Time) : Code Stmt Label TxError Write Empty Reply →
    Process Reply → Prop
  | read {h : List (Event Stmt Write)} {k : Except TxError Time → Process Reply} :
      ChecksExpiry now (.opened (.statement .newDate) h (.pure now) k) (k (.ok now))

section Expiry

variable {env : Env} {T : Time} {α β : Type} {refreshToken : String} {context : RequestContext}

theorem Late.bind {p : Process α} {f : α → Process β} (hp : Late T p) (hf : ∀ a, Late T (f a)) :
    Late T (p >>= f) := by
  induction hp with
  | pure => exact hf _
  | throw => exact .throw
  | check _ hthrows ih => exact .check ih fun now hle => (hthrows now hle).bind
  | call hl _ ih => exact .call hl ih

theorem Late.transaction {l : Label α} (hl : l.readsClock = false) :
    Late T (Proc.transaction l) := by
  refine .call hl fun r => ?_
  cases r with
  | error e => exact .throw
  | ok a => exact .pure

theorem late_stages : Stages (Late T : Process Reply → Prop) where
  call := by
    intro β l k h
    cases h with
    | check hk _ => exact hk
    | call _ hk => exact hk
  single := by
    intro n ids body k h
    cases h

theorem late_ofExcept {x : Except AppException α} : Late T (Process.ofExcept x) := by
  cases x with
  | error e => exact .throw
  | ok a => exact .pure

/-- A refresh of a token that expires at the time. -/
theorem late_refreshFound {found : TokenWithSession} (hT : found.token.expiresAt = T) :
    Late T (refreshFound found context) := by
  simp only [refreshFound]
  split
  · exact .bind (.transaction rfl) fun _ => .throw
  · refine .check (fun r => ?_) fun now hle => ?_
    · cases r with
      | error e => exact .throw
      | ok now =>
          show Late T (refreshUnused found context now)
          simp only [refreshUnused]
          split
          · exact .bind (.transaction rfl) fun _ => .throw
          · refine .bind late_ofExcept fun _ => .bind late_ofExcept fun _ => ?_
            exact .bind (.transaction rfl) fun _ => .bind (.transaction rfl) fun _ => .pure
    · show (refreshUnused found context now).Throws
      rw [refreshUnused, if_pos (hT.trans_le hle)]
      exact .transaction_bind fun _ => .throw

/-- A refresh goes on late if the token that it finds expires at the time. -/
theorem reads_late {s : Store} (hT : ∀ t ∈ s.refreshTokens.rows,
      t.tokenHash = env.hashOpaqueToken refreshToken → t.expiresAt = T) :
    Reads (server env) (.refresh refreshToken context) s (Late T) where
  single := nofun
  sends := by
    rintro β l k a ⟨⟩
    nofun
  fails := by
    rintro β l k ⟨⟩ e
    exact .throw
  reads := by
    rintro β α l k q k' ch r ws ⟨⟩ ⟨⟩ hexec h a hc
    obtain ⟨-, rfl⟩ := completes_pure.mp hc
    cases r with
    | none => exact .throw
    | some found =>
        have hfind : s.exec (.findRefreshToken (env.hashOpaqueToken refreshToken)) ch =
            .ok (some found, ws) := hexec
        obtain ⟨⟨hmem, hhash⟩, -⟩ := exec_findRefreshToken hfind
        exact (late_refreshFound (hT _ hmem hhash)).bind fun _ => .pure

/-- A refresh that reads the clock late throws. -/
theorem throws_of_late {call : Call} {code : Code Stmt Label TxError Write Empty Reply}
    {p : Process Reply} {now : Time} (hcall : call = .refresh refreshToken context)
    (h : code.Since (server env) call (Late T)) (hcheck : ChecksExpiry now code p)
    (hle : T ≤ now) : p.Throws := by
  subst hcall
  cases hcheck with
  | read =>
      rcases h.of_opened with ⟨hprogram, -⟩ | hlate
      · cases congrArg Process.readsClock hprogram
      · cases hlate with
        | check _ hthrows => exact hthrows now hle
        | call hl _ => cases hl

end Expiry

/-! ## Runs -/

/-- The call, started now and run alone, comes to an end, and whenever it does it has thrown and
the session is revoked. -/
structure Revokes (env : Env) (c : ServerConfig) (call : Call) (sid : Uuid) : Prop where
  ends : ∃ c' o, Solo (server env) Undisturbed c.threads.length (c.started (server env) call) c' ∧
    c'.outcome c.threads.length = some o
  throws : ∀ c' o, Solo (server env) Undisturbed c.threads.length
      (c.started (server env) call) c' →
    c'.outcome c.threads.length = some o → (∃ e, o = .error e) ∧ c'.store.Revoked sid

section Run

variable {env : Env} {s : Store} {c c' : ServerConfig}

theorem orderly_of_steps (hrun : Steps (server env) (Sequential Choice.undisturbed) c c')
    (hc : Orderly (server env) Undisturbed Store.Threads c) :
    Orderly (server env) Undisturbed Store.Threads c' ∧ c.store.Threads c'.store :=
  hc.steps (fun _ => True) .refl (fun _ _ _ => .trans) (fun _ _ h => h)
    (fun _ _ _ _ => trivial) (fun call s _ => program_keeps call s) trivial hrun

/-- When calls do not overlap, the tokens of every session are one chain, and expire when the
session did from its login on.  A refresh that checks the expiry at or after that time throws,
and one with a token that is not the last throws and revokes the session. -/
theorem refresh_tokens_chain (hs : s.Threaded)
    (hrun : Steps (server env) (Sequential Choice.undisturbed) (.initial s) c) :
    (∀ x ∈ c.store.sessions.rows, ChainOf x (c.store.tokensOf x.id)) ∧
    (∀ c', Steps (server env) (Sequential Choice.undisturbed) c c' → c.store.Dated c'.store) ∧
    (∀ (i : Nat) th refreshToken context now p, c.threads[i]? = some th →
      th.call = .refresh refreshToken context → ChecksExpiry now th.code p →
      ∀ t ∈ c.store.refreshTokens.rows, t.tokenHash = env.hashOpaqueToken refreshToken →
      ∀ x ∈ c.store.sessions.rows, x.id = t.sessionId → x.refreshExpiresAt ≤ now → p.Throws) ∧
    (c.atRest = true → ∀ x ∈ c.store.sessions.rows, ∀ t ∈ (c.store.tokensOf x.id).dropLast,
      ∀ refreshToken context, env.hashOpaqueToken refreshToken = t.tokenHash →
      Revokes env c (.refresh refreshToken context) x.id) := by
  obtain ⟨horderly, hthreads⟩ := orderly_of_steps hrun (orderly_initial s)
  have hthreaded : c.store.Threaded := hthreads.threaded hs
  refine ⟨hthreaded.chain, fun c' hrun' => (orderly_of_steps hrun' horderly).2.dated, ?_, ?_⟩
  · intro i th refreshToken context now p hth hcall hcheck t ht hhash x hx hid hle
    refine throws_of_late hcall (?_ : th.code.Since (server env) th.call (Late _)) hcheck hle
    refine hcall ▸ since_of_steps late_stages hrun (fun c₁ hbefore hafter => reads_late ?_)
      (by simp [Config.initial]) th hth hcall
    intro t₁ ht₁ hhash₁
    obtain ⟨horderly₁, hthreads₁⟩ := orderly_of_steps hbefore (orderly_initial s)
    have hthreaded₁ : c₁.store.Threaded := hthreads₁.threaded hs
    have hdated := (orderly_of_steps hafter horderly₁).2.dated
    -- the token and the session of then are the ones of now
    obtain ⟨x₁, hx₁, hid₁⟩ := hthreaded₁.session t₁ ht₁
    obtain ⟨t', ht', -, hsid', hhash', -⟩ := hdated.token t₁ ht₁
    obtain ⟨x', hx', hid', hexpires'⟩ := hdated.session x₁ hx₁
    obtain rfl : t' = t :=
      Table.eq_of_uk ht' ht (congrArg some (hhash'.trans hhash₁)) (congrArg some hhash)
    obtain rfl : x' = x := Table.eq_of_pk hx' hx (by rw [hid', hid₁, hid, hsid'])
    rw [hexpires']
    exact (hthreaded₁.chain x₁ hx₁).expiresAt t₁ (List.mem_filter.mpr ⟨ht₁, by simp [hid₁]⟩)
  · intro hrest x hx t ht refreshToken context hhash
    have hconcludes : Concludes (server env) Undisturbed
        ((Call.refresh refreshToken context).program env) c.store _ :=
      replay_concludes hthreaded hx ht hhash
    have hchoice : ∀ s : Store, ∃ ch, Undisturbed s ch :=
      fun _ => ⟨⟨"", "", 0, [], []⟩, rfl⟩
    exact ⟨exists_outcome hchoice (started_alone hrest) started_thread hconcludes,
      fun c' o hsolo ho => solo_concludes started_thread hconcludes hsolo ho⟩

end Run

theorem threaded_demoStore : demoStore.Threaded where
  principal := by decide +kernel
  session := by decide +kernel
  chain := by
    intro x hx
    obtain rfl := List.mem_singleton.mp hx
    have htokens : demoStore.tokensOf "session" =
        [⟨"token-1", "session", "secret-1", 60000, none, none⟩] := by decide +kernel
    rw [htokens]
    exact ⟨by simp, by simp, List.isChain_singleton _, by simp, by simp⟩

/-- A refresh of the first token. -/
def rotatedSchedule : List (Action Choice Call) :=
  .start (.refresh "secret-1" demoContext) :: demoSteps 0 2 20

theorem refresh_tokens_chain_rotated : ∃ c : ServerConfig,
    Steps (server demoEnv) (Sequential Choice.undisturbed) (.initial demoStore) c ∧
      (∀ x ∈ c.store.sessions.rows, ChainOf x (c.store.tokensOf x.id)) ∧
      (c.store.tokensOf "session").length = 2 ∧
      Revokes demoEnv c (.refresh "secret-1" demoContext) "session" := by
  obtain ⟨c, hrun, hrest, ⟨x, hx, hid⟩, hlength, t, ht, hhash⟩ := exists_of_play (server demoEnv)
    (Sequential Choice.undisturbed) (.initial demoStore) rotatedSchedule
    (fun c => c.atRest = true ∧ (∃ x ∈ c.store.sessions.rows, x.id = "session") ∧
      (c.store.tokensOf "session").length = 2 ∧
      ∃ t ∈ (c.store.tokensOf "session").dropLast, t.tokenHash = "secret-1") (by decide +kernel)
  obtain ⟨hchains, -, -, hreplay⟩ := refresh_tokens_chain threaded_demoStore hrun
  have hrevokes := hreplay hrest x hx t (hid ▸ ht) "secret-1" demoContext hhash.symm
  exact ⟨c, hrun, hchains, hlength, hid ▸ hrevokes⟩

end LedgerCredit.Auth
