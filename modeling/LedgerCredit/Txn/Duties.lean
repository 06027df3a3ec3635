import LedgerCredit.Txn.Rules

/-!
# Duties

A commit may leave something to do for its own process: to record it, or to tell
somebody.  `Duties` says which commits bring such a duty, which transactions
discharge it, and when it is met.  A process *follows* its duties if what a
commit brings is done next.

*Failures.*  A duty is lost if the process stops, or if the transaction that would
discharge it fails, unless another thread has the duty as well.  A schedule is
`undisturbed` for a duty if no failure meets the last thread that has it while it is
not met.

*Runs.*  In runs that are undisturbed for a duty, the duty stays met, or a thread has
it (`kept_of_steps`).  So what only commits with the duty can bring about is
accounted for (`kept_of_arises`).
-/

namespace Txn

variable {Q : Type → Type} {L : Type → Type 1} {ε S W C κ ι K ρ δ : Type}

/-- Duties that commits bring and later transactions discharge. -/
structure Duties (L : Type → Type 1) (S δ : Type) where
  /-- The transactions that are run. -/
  runs : {β : Type} → L β → Prop
  /-- The duty that a commit brings. -/
  brings : {β : Type} → L β → β → Option δ
  /-- The duty that a transaction discharges. -/
  discharges : {β : Type} → L β → Option δ
  /-- A reply of a transaction that may stand between the two. -/
  between : {β : Type} → L β → Option β
  /-- The duty is met. -/
  met : S → δ → Bool

/-- The process begins with a transaction. -/
def Proc.opens {α : Type} : Proc L ε ι α → Bool
  | .call _ _ => true
  | _ => false

/-- The next step of the thread is a failure. -/
def System.fails (sys : System Q L ε S W C κ ι K ρ) (c : Config Q L ε S W ι K ρ)
    (th : Thread Q L ε W ι K ρ) (ch : C) : Bool :=
  match th.code with
  | .opened _ _ (.throw _) _ => true
  | .opened _ h (.query q _) _ =>
      match sys.exec q ch (sys.applyAll (writes h) c.store) with
      | .error _ => true
      | .ok _ => false
  | _ => false

namespace Duties

variable (D : Duties L S δ)

/-- The duty that the first transaction discharges. -/
def first {α : Type} : Proc L ε ι α → Option δ
  | .call l _ => D.discharges l
  | _ => none

/-- The duty that the process is about to discharge. -/
def due {α : Type} : Proc L ε ι α → Option δ
  | .call l k => (D.discharges l).or ((D.between l).bind fun b => D.first (k (.ok b)))
  | _ => none

/-- The duty that a thread has. -/
def dueOf : Code Q L ε W ι ρ → Option δ
  | .run p => D.due p
  | .opened l _ _ k => D.due (.call l k)
  | .await _ _ => none

/-- What a commit brings is due next, and what is due stays due. -/
def Follows : {α : Type} → Proc L ε ι α → Prop
  | _, .pure _ => True
  | _, .throw _ => True
  | _, .call l k => D.runs l ∧ (∀ r, Follows (k r)) ∧
      (∀ b d, D.brings l b = some d → D.due (k (.ok b)) = some d) ∧
      ∀ b₀, D.between l = some b₀ → ∀ b, (k (.ok b)).opens = true ∧
        D.first (k (.ok b)) = D.first (k (.ok b₀))
  | _, .all _ _ body k => (∀ id, Follows (body id)) ∧ ∀ r, Follows (k r)

/-- The thread has the duty. -/
def has [DecidableEq δ] (d : δ) (th : Thread Q L ε W ι K ρ) : Bool := D.dueOf th.code = some d

/-- A failure of thread `i` does not lose the duty: it is met, or others have it. -/
def spares [DecidableEq δ] (d : δ) (c : Config Q L ε S W ι K ρ) (i : Nat) : Bool :=
  D.met c.store d || !c.threads[i]?.any (D.has d) || (c.threads.eraseIdx i).any (D.has d)

/-- No failure meets the last thread that has the duty while it is not met. -/
def undisturbed [DecidableEq δ] (sys : System Q L ε S W C κ ι K ρ) (d : δ)
    (c : Config Q L ε S W ι K ρ) : Action C K → Bool
  | .start _ => true
  | .crash => D.met c.store d || !c.threads.any (D.has d)
  | .abort i => D.spares d c i
  | .advance i ch => D.spares d c i || c.threads[i]?.all fun th => !sys.fails c th ch

/-- The duty is met, or a thread has it. -/
def Kept (c : Config Q L ε S W ι K ρ) (d : δ) : Prop :=
  D.met c.store d = true ∨ ∃ th ∈ c.threads, D.dueOf th.code = some d

/-- What a commit does to the duties that there are. -/
structure Respects (s s' : S) {β : Type} (l : L β) : Prop where
  met : ∀ d, D.met s d = true → D.met s' d = true
  discharged : ∀ d, D.discharges l = some d → D.met s' d = true

/-! ## Processes -/

section Processes

variable {D} {α β : Type}

theorem due_of_first {p : Proc L ε ι α} {d : δ} (h : D.first p = some d) : D.due p = some d := by
  cases p with
  | call l k =>
      have hfirst : D.discharges l = some d := h
      simp [due, hfirst]
  | _ => cases h

/-- What is due after a transaction that does not discharge it. -/
theorem Follows.due_ok {l : L β} {k : Except ε β → Proc L ε ι α} (h : D.Follows (.call l k)) {d : δ}
    (hdue : D.due (.call l k) = some d) (hdischarges : D.discharges l = none) (b : β) :
    D.due (k (.ok b)) = some d := by
  rw [due, hdischarges, Option.none_or] at hdue
  obtain ⟨b₀, hbetween, hfirst⟩ := Option.bind_eq_some_iff.mp hdue
  exact due_of_first (((h.2.2.2 b₀ hbetween b).2).trans hfirst)

theorem first_bind {p : Proc L ε ι α} (h : p.opens = true) (f : α → Proc L ε ι β) :
    (p >>= f).opens = true ∧ D.first (p >>= f) = D.first p := by
  cases p with
  | call l k => exact ⟨rfl, rfl⟩
  | _ => cases h

theorem opens_of_first {p : Proc L ε ι α} {d : δ} (h : D.first p = some d) : p.opens = true := by
  cases p with
  | call l k => rfl
  | _ => cases h

/-- What is due stays due when more is to be done. -/
theorem due_bind {p : Proc L ε ι α} {d : δ} (h : D.due p = some d) (f : α → Proc L ε ι β) :
    D.due (p >>= f) = some d := by
  cases p with
  | call l k =>
      rw [Proc.call_bind, due]
      cases hdischarges : D.discharges l with
      | some d' =>
          rw [due, hdischarges] at h
          exact h
      | none =>
          rw [due, hdischarges, Option.none_or] at h
          obtain ⟨b, hb, hfirst⟩ := Option.bind_eq_some_iff.mp h
          rw [Option.none_or, hb]
          exact (first_bind (opens_of_first hfirst) f).2.trans hfirst
  | _ => cases h

theorem Follows.bind {p : Proc L ε ι α} {f : α → Proc L ε ι β} (hp : D.Follows p)
    (hf : ∀ a, D.Follows (f a)) : D.Follows (p >>= f) := by
  induction p with
  | pure a => exact hf a
  | throw e => trivial
  | call l k ih =>
      obtain ⟨hruns, hk, hbrings, hbetween⟩ := hp
      refine ⟨hruns, fun r => ih r (hk r) hf, fun b d hb => due_bind (hbrings b d hb) f,
        fun b₀ hb₀ b => ?_⟩
      obtain ⟨hopens, hfirst⟩ := hbetween b₀ hb₀ b
      obtain ⟨hopens', hfirst'⟩ := first_bind (D := D) hopens f
      exact ⟨hopens', hfirst'.trans (hfirst.trans
        (first_bind (hbetween b₀ hb₀ b₀).1 f).2.symm)⟩
  | all n ids body k _ ih => exact ⟨hp.1, fun r => ih r (hp.2 r) hf⟩

theorem Follows.discard {p : Proc L ε ι Unit} (hp : D.Follows p) (a : α) :
    D.Follows (p.discard a) := hp.bind fun _ => trivial

/-- A transaction that brings no duty. -/
theorem Follows.transaction {l : L α} (hruns : D.runs l) (hbrings : ∀ a, D.brings l a = none)
    (hbetween : D.between l = none) : D.Follows (Proc.transaction l : Proc L ε ι α) := by
  refine ⟨hruns, fun r => ?_, fun b d hb => ?_, fun b₀ hb₀ => ?_⟩
  · cases r with
    | error e => trivial
    | ok a => trivial
  · cases (hbrings b).symm.trans hb
  · cases hbetween.symm.trans hb₀

/-- A transaction with something to do when it fails. -/
theorem Follows.orElse {l : L α} (hl : D.Follows (Proc.transaction l : Proc L ε ι α))
    {f : ε → Proc L ε ι α} (hf : ∀ e, D.Follows (f e)) :
    D.Follows ((Proc.transaction l).orElse f) := by
  obtain ⟨hruns, -, hbrings, hbetween⟩ := hl
  refine ⟨hruns, fun r => ?_, fun b d hb => ?_, fun b₀ hb₀ => ?_⟩
  · cases r with
    | error e => exact hf e
    | ok a => trivial
  · cases hbrings b d hb
  · cases (hbetween b₀ hb₀ b₀).1

theorem Follows.pool {n : Nat} {ids : List ι} {body : ι → Proc L ε ι Unit}
    (hbody : ∀ id, D.Follows (body id)) : D.Follows (Proc.pool n ids body) := by
  refine ⟨hbody, fun r => ?_⟩
  cases r with
  | error e => trivial
  | ok u => trivial

end Processes

/-! ## Steps -/

/-- What is left of a thread follows its duties. -/
def FollowsCode : Code Q L ε W ι ρ → Prop
  | .run p => D.Follows p
  | .opened l _ _ k => D.Follows (.call l k)
  | .await _ k => ∀ r, D.Follows (k r)

/-- The threads and the pools follow their duties. -/
structure Followed (c : Config Q L ε S W ι K ρ) : Prop where
  thread : ∀ th ∈ c.threads, D.FollowsCode th.code
  pool : ∀ pl ∈ c.pools, ∀ id, D.Follows (pl.body id)

section Steps

variable {D} [DecidableEq κ] {sys : System Q L ε S W C κ ι K ρ} {c c' c'' : Config Q L ε S W ι K ρ}
  {d : δ}

omit [DecidableEq κ] in
theorem Followed.set (h : D.Followed c) {i : Nat} {th : Thread Q L ε W ι K ρ}
    (hth : D.FollowsCode th.code) : ∀ x ∈ c.threads.set i th, D.FollowsCode x.code := fun x hx => by
  rcases List.mem_or_eq_of_mem_set hx with hx | rfl
  · exact h.thread x hx
  · exact hth

/-- A step keeps to the duties. -/
theorem followed_step (hprogram : ∀ call, D.Follows (sys.program call)) {a : Action C K}
    (h : D.Followed c) (hstep : sys.step c a = some c') : D.Followed c' := by
  cases step_cases hstep with
  | start call =>
      exact ⟨List.forall_mem_append.mpr
        ⟨h.thread, List.forall_mem_singleton.mpr (hprogram call)⟩, h.pool⟩
  | crash => exact ⟨by simp, by simp⟩
  | begin hth =>
      have hcode := h.thread _ (List.mem_of_getElem? hth)
      exact ⟨h.set hcode, h.pool⟩
  | statement hth _ _ =>
      have hcode := h.thread _ (List.mem_of_getElem? hth)
      exact ⟨h.set hcode, h.pool⟩
  | rollback hth _ =>
      have hcode := h.thread _ (List.mem_of_getElem? hth)
      exact ⟨h.set (hcode.2.1 _), h.pool⟩
  | commit hth =>
      have hcode := h.thread _ (List.mem_of_getElem? hth)
      exact ⟨h.set (hcode.2.1 _), h.pool⟩
  | fork hth =>
      have hcode := h.thread _ (List.mem_of_getElem? hth)
      refine ⟨List.forall_mem_append.mpr ⟨h.set hcode.2, fun x hx => ?_⟩,
        List.forall_mem_append.mpr ⟨h.pool, List.forall_mem_singleton.mpr hcode.1⟩⟩
      obtain ⟨-, rfl⟩ := List.mem_replicate.mp hx
      trivial
  | take hth hpool =>
      have hbody := h.pool _ (List.mem_of_getElem? hpool)
      refine ⟨h.set ((hbody _).discard _), fun pl hpl => ?_⟩
      rcases List.mem_or_eq_of_mem_set hpl with hpl | rfl
      · exact h.pool pl hpl
      · exact hbody
  | resume hth _ =>
      have hcode := h.thread _ (List.mem_of_getElem? hth)
      exact ⟨h.set (hcode _), h.pool⟩

theorem followed_of_steps (hprogram : ∀ call, D.Follows (sys.program call))
    {ok : Config Q L ε S W ι K ρ → Action C K → Bool} {s : S}
    (h : Steps sys ok (.initial s) c) : D.Followed c := by
  induction h with
  | refl => exact ⟨by simp [Config.initial], by simp [Config.initial]⟩
  | tail _ hstep ih =>
      obtain ⟨a, -, hs⟩ := hstep
      exact followed_step hprogram ih hs

omit [DecidableEq κ] in
/-- What a step of thread `i` leaves: what others have, and what the thread keeps. -/
theorem Kept.other (h : D.Kept c d) {i : Nat} {th th' : Thread Q L ε W ι K ρ}
    (hth : c.threads[i]? = some th) (hmet : D.met c.store d = true → D.met c'.store d = true)
    (hthreads : c.threads.set i th' ⊆ c'.threads)
    (hkept : D.dueOf th.code = some d → D.met c'.store d = true ∨ D.dueOf th'.code = some d) :
    D.Kept c' d := by
  rcases h with h | ⟨x, hx, hdue⟩
  · exact Or.inl (hmet h)
  · obtain ⟨j, hj⟩ := List.mem_iff_getElem?.mp hx
    by_cases hij : i = j
    · subst hij
      obtain rfl := Option.some.inj (hth.symm.trans hj)
      rcases hkept hdue with hmet' | hdue'
      · exact Or.inl hmet'
      · refine Or.inr ⟨th', hthreads ?_, hdue'⟩
        exact List.mem_of_getElem? (List.getElem?_set_self (List.getElem?_eq_some_iff.mp hth).1)
    · refine Or.inr ⟨x, hthreads ?_, hdue⟩
      exact List.mem_of_getElem? ((List.getElem?_set_ne hij).trans hj)

omit [DecidableEq κ] in
theorem has_iff [DecidableEq δ] {th : Thread Q L ε W ι K ρ} :
    D.has d th = true ↔ D.dueOf th.code = some d := decide_eq_true_iff

omit [DecidableEq κ] in
/-- A duty that is kept is kept without a thread that spares it. -/
theorem Kept.without [DecidableEq δ] (h : D.Kept c d) {i : Nat} (hspares : D.spares d c i = true) :
    D.met c.store d = true ∨
      ∃ j th, j ≠ i ∧ c.threads[j]? = some th ∧ D.dueOf th.code = some d := by
  rcases h with h | ⟨th, hth, hdue⟩
  · exact Or.inl h
  · obtain ⟨j, hj⟩ := List.mem_iff_getElem?.mp hth
    by_cases hij : j = i
    · subst hij
      rcases Bool.or_eq_true_iff.mp hspares with hmet | hothers
      · refine Or.inl ((Bool.or_eq_true_iff.mp hmet).resolve_right ?_)
        simp [hj, has_iff.mpr hdue]
      · obtain ⟨x, hx, hhas⟩ := List.any_eq_true.mp hothers
        obtain ⟨j', hne, hj'⟩ := List.mem_eraseIdx_iff_getElem?.mp hx
        exact Or.inr ⟨j', x, hne, hj', has_iff.mp hhas⟩
    · exact Or.inr ⟨j, th, hij, hj, hdue⟩

omit [DecidableEq κ] in
/-- A failure that is allowed spares the duty. -/
theorem spares_of_fails [DecidableEq δ] {i : Nat} {call : K} {pool : Option Nat} {β : Type}
    {l : L β} {h : List (Event Q W)} {t : Tx Q ε β} {k : Except ε β → Proc L ε ι ρ}
    {a : Action C K} {e : ε}
    (hth : c.threads[i]? = some ⟨call, pool, .opened l h t k⟩) (hfails : Fails sys c i h t a e)
    (hok : D.undisturbed sys d c a = true) : D.spares d c i = true := by
  cases hfails with
  | abort => exact hok
  | throw ht => simpa [undisturbed, hth, System.fails, ht] using hok
  | statement ht hexec => simpa [undisturbed, hth, System.fails, ht, hexec] using hok

/-- What is known of the commits that may come next. -/
def Commits (D : Duties L S δ) (sys : System Q L ε S W C κ ι K ρ) (c : Config Q L ε S W ι K ρ)
    (P : ∀ {β : Type}, S → S → L β → β → Prop) : Prop :=
  ∀ (i : Nat) (call : K) (pool : Option Nat) {β : Type} (l : L β) (h : List (Event Q W)) (b : β)
    (k : Except ε β → Proc L ε ι ρ), c.threads[i]? = some ⟨call, pool, .opened l h (.pure b) k⟩ →
    D.runs l → P c.store (sys.applyAll (writes h) c.store) l b

/-- An undisturbed step keeps a duty. -/
theorem kept_step [DecidableEq δ] (hfollowed : D.Followed c)
    (hcommits : D.Commits sys c fun s s' l _ => D.Respects s s' l) {a : Action C K}
    (hok : D.undisturbed sys d c a = true) (hstep : sys.step c a = some c') (h : D.Kept c d) :
    D.Kept c' d := by
  cases step_cases hstep with
  | start call => exact h.imp_right fun ⟨th, hth, hdue⟩ => ⟨th, List.mem_append_left _ hth, hdue⟩
  | crash =>
      rcases Bool.or_eq_true_iff.mp hok with hmet | hnone
      · exact Or.inl hmet
      · refine h.imp_right ?_
        rintro ⟨th, hth, hdue⟩
        have hsome : c.threads.any (D.has d) = true :=
          List.any_eq_true.mpr ⟨th, hth, has_iff.mpr hdue⟩
        simp [hsome] at hnone
  | begin hth => exact h.other hth id (List.Subset.refl _) fun hdue => Or.inr hdue
  | statement hth _ _ => exact h.other hth id (List.Subset.refl _) fun hdue => Or.inr hdue
  | rollback hth hfails =>
      rcases h.without (spares_of_fails hth hfails hok) with hmet | ⟨j, th, hne, hj, hdue⟩
      · exact Or.inl hmet
      · refine Or.inr ⟨th, List.mem_of_getElem? (i := j) ?_, hdue⟩
        exact (List.getElem?_set_ne hne.symm).trans hj
  | @commit i _ call pool _ l _ b k hth =>
      have hfollows : D.Follows (.call l k) := hfollowed.thread _ (List.mem_of_getElem? hth)
      have hrespects := hcommits i call pool l _ b k hth hfollows.1
      refine h.other hth (hrespects.met d) (List.Subset.refl _) fun hdue => ?_
      cases hdischarges : D.discharges l with
      | none => exact Or.inr (hfollows.due_ok hdue hdischarges b)
      | some d' =>
          have hsome : D.due (.call l k) = some d' := by simp [due, hdischarges]
          obtain rfl := Option.some.inj (hsome.symm.trans hdue)
          exact Or.inl (hrespects.discharged d' hdischarges)
  | fork hth =>
      refine h.other hth id (List.subset_append_left ..) fun hdue => ?_
      cases hdue
  | take hth _ =>
      refine h.other hth id (List.Subset.refl _) fun hdue => ?_
      cases hdue
  | resume hth _ =>
      refine h.other hth id (List.Subset.refl _) fun hdue => ?_
      cases hdue

/-- A duty that nobody has when nothing is left to do is met. -/
theorem Kept.met_of_quiet (h : D.Kept c d) (hquiet : c.quiet = true) : D.met c.store d = true := by
  refine h.resolve_right ?_
  rintro ⟨⟨call, pool, code⟩, hth, hdue⟩
  have hrest := List.all_eq_true.mp hquiet _ hth
  cases code with
  | run p =>
      cases p with
      | call l k => cases hrest
      | _ => cases hdue
  | opened l h t k => cases hrest
  | await n k => cases hdue

/-! ## Runs -/

section Runs

variable [DecidableEq δ] {ok : Config Q L ε S W ι K ρ → Action C K → Bool} {s : S}

/-- In undisturbed runs a duty is kept. -/
theorem kept_of_steps (hprogram : ∀ call, D.Follows (sys.program call))
    (hbefore : Steps sys ok (.initial s) c)
    (hany : ∀ c a, D.undisturbed sys d c a = true → ok c a = true)
    (hcommits : ∀ c, Steps sys ok (.initial s) c →
      D.Commits sys c fun s s' l _ => D.Respects s s' l)
    (h : Steps sys (D.undisturbed sys d) c c')
    (hkept : D.Kept c d) : D.Kept c' d := by
  induction h with
  | refl => exact hkept
  | tail hrun hstep ih =>
      obtain ⟨a, ha, hs⟩ := hstep
      have hreach := hbefore.trans (Steps.mono hrun hany)
      exact kept_step (followed_of_steps hprogram hreach) (hcommits _ hreach) ha hs ih

/-- In undisturbed runs a duty is kept if something came about that only commits with the duty
bring about. -/
theorem kept_of_arises (A : S → Prop) (hprogram : ∀ call, D.Follows (sys.program call))
    (hbefore : Steps sys ok (.initial s) c)
    (hany : ∀ c a, D.undisturbed sys d c a = true → ok c a = true)
    (hcommits : ∀ c, Steps sys ok (.initial s) c →
      D.Commits sys c fun s s' l _ => D.Respects s s' l)
    (h : Steps sys (D.undisturbed sys d) c c')
    (harises : ∀ c₁, Steps sys ok c c₁ → D.Commits sys c₁ fun s s' l b =>
      A s' → A s ∨ D.brings l b = some d)
    (hnot : ¬ A c.store) (hA : A c'.store) : D.Kept c' d := by
  induction h with
  | refl => exact absurd hA hnot
  | @tail c₁ c₂ hrun hstep ih =>
      obtain ⟨a, ha, hs⟩ := hstep
      have hreach := hbefore.trans (Steps.mono hrun hany)
      have hfollowed := followed_of_steps hprogram hreach
      by_cases hold : A c₁.store
      · exact kept_step hfollowed (hcommits _ hreach) ha hs (ih hold)
      · cases step_cases hs with
        | @commit i _ call pool _ l _ b k hth =>
            have hfollows : D.Follows (.call l k) := hfollowed.thread _ (List.mem_of_getElem? hth)
            have hbrings :=
              (harises _ (Steps.mono hrun hany) i call pool l _ b k hth hfollows.1 hA).resolve_left hold
            refine Or.inr ⟨_, List.mem_of_getElem? (List.getElem?_set_self
              (List.getElem?_eq_some_iff.mp hth).1), hfollows.2.2.1 b d hbrings⟩
        | _ => exact absurd hA hold

end Runs

end Steps

end Duties

end Txn
