import LedgerCredit.Txn.Soundness

/-!
# The log of a run

`Logged` is a run with the writes that its commits made, oldest first.  A step
leaves the store that the writes it commits lead to (`store_of_step`).

`Rules.Sound.logged` is the run lemma for what holds of a store together with
the log: it is enough to look at one commit.  `Rules.Sound.kept` is the one for
schedules that allow some commits only (`CommitsOnly`).

`Traced` is a run with its *commits*, oldest first: the label of each transaction
that committed, with its history.  `Rules.Sound.traced` is the run lemma for a store
together with the commits that led to it, in such schedules.
-/

namespace Txn

variable {Q : Type → Type} {L : Type → Type 1} {ε S W C κ ι K ρ γ τ : Type}

/-- The writes that an action commits. -/
def Config.committed (c : Config Q L ε S W ι K ρ) : Action C K → List W
  | .advance i _ =>
      match c.threads[i]? with
      | some ⟨_, _, .opened _ h (.pure _) _⟩ => writes h
      | _ => []
  | _ => []

/-- Only some transactions commit, by the store, the label and the history. -/
def CommitsOnly (P : {β : Type} → S → L β → List (Event Q W) → Bool) (c : Config Q L ε S W ι K ρ) :
    Action C K → Bool
  | .advance i _ =>
      match c.threads[i]? with
      | some ⟨_, _, .opened l h (.pure _) _⟩ => P c.store l h
      | _ => true
  | _ => true

/-- A transaction that committed. -/
structure Commit (Q : Type → Type) (L : Type → Type 1) (W : Type) where
  {result : Type}
  label : L result
  history : List (Event Q W)

/-- The transaction that an action commits. -/
def Config.commit? (c : Config Q L ε S W ι K ρ) : Action C K → Option (Commit Q L W)
  | .advance i _ =>
      match c.threads[i]? with
      | some ⟨_, _, .opened l h (.pure _) _⟩ => some ⟨l, h⟩
      | _ => none
  | _ => none

section Logged

variable [DecidableEq κ] (sys : System Q L ε S W C κ ι K ρ)
  (ok : Config Q L ε S W ι K ρ → Action C K → Bool)

/-- A run with the writes that it committed. -/
inductive Logged (c : Config Q L ε S W ι K ρ) :
    List W → Config Q L ε S W ι K ρ → Prop where
  | refl : Logged c [] c
  | tail {ws : List W} {c' c'' : Config Q L ε S W ι K ρ} {a : Action C K} : Logged c ws c' →
      ok c' a = true → sys.step c' a = some c'' → Logged c (ws ++ c'.committed a) c''

/-- A run with its commits. -/
inductive Traced (c : Config Q L ε S W ι K ρ) :
    List (Commit Q L W) → Config Q L ε S W ι K ρ → Prop where
  | refl : Traced c [] c
  | tail {cs : List (Commit Q L W)} {c' c'' : Config Q L ε S W ι K ρ} {a : Action C K} :
      Traced c cs c' → ok c' a = true → sys.step c' a = some c'' →
      Traced c (cs ++ (c'.commit? a).toList) c''

/-- The commits of a list of actions. -/
def System.traceOf (c : Config Q L ε S W ι K ρ) : List (Action C K) → List (Commit Q L W)
  | [] => []
  | a :: as => (c.commit? a).toList ++ ((sys.step c a).map fun c' => traceOf c' as).getD []

/-- The writes that a list of actions commits. -/
def System.logOf (c : Config Q L ε S W ι K ρ) : List (Action C K) → List W
  | [] => []
  | a :: as => c.committed a ++ ((sys.step c a).map fun c' => logOf c' as).getD []

variable {sys ok} {c c' : Config Q L ε S W ι K ρ} {ws : List W}

theorem Logged.steps (h : Logged sys ok c ws c') : Steps sys ok c c' := by
  induction h with
  | refl => exact .refl
  | tail _ hok hstep ih => exact ih.tail ⟨_, hok, hstep⟩

theorem Logged.head {c₁ : Config Q L ε S W ι K ρ} {a : Action C K} (hok : ok c a = true)
    (hstep : sys.step c a = some c₁) (h : Logged sys ok c₁ ws c') :
    Logged sys ok c (c.committed a ++ ws) c' := by
  induction h with
  | refl => simpa using Logged.tail .refl hok hstep
  | tail _ hok' hstep' ih =>
      rw [← List.append_assoc]
      exact ih.tail hok' hstep'

/-- Playing actions is a run with their log. -/
theorem logged_of_play {as : List (Action C K)} (h : sys.play ok c as = some c') :
    Logged sys ok c (sys.logOf c as) c' := by
  induction as generalizing c with
  | nil => cases h; exact .refl
  | cons a as ih =>
      simp only [System.play] at h
      split at h
      · rename_i hok
        obtain ⟨c₁, hstep, hrest⟩ := Option.bind_eq_some_iff.mp h
        rw [System.logOf, hstep]
        exact .head hok hstep (ih hrest)
      · cases h

theorem Traced.steps {cs : List (Commit Q L W)} (h : Traced sys ok c cs c') : Steps sys ok c c' := by
  induction h with
  | refl => exact .refl
  | tail _ hok hstep ih => exact ih.tail ⟨_, hok, hstep⟩

theorem Traced.mono {ok' : Config Q L ε S W ι K ρ → Action C K → Bool} {cs : List (Commit Q L W)}
    (h : Traced sys ok c cs c') (himp : ∀ c a, ok c a = true → ok' c a = true) :
    Traced sys ok' c cs c' := by
  induction h with
  | refl => exact .refl
  | tail _ hok hstep ih => exact ih.tail (himp _ _ hok) hstep

theorem Traced.head {cs : List (Commit Q L W)} {c₁ : Config Q L ε S W ι K ρ} {a : Action C K}
    (hok : ok c a = true) (hstep : sys.step c a = some c₁) (h : Traced sys ok c₁ cs c') :
    Traced sys ok c ((c.commit? a).toList ++ cs) c' := by
  induction h with
  | refl => simpa using Traced.tail .refl hok hstep
  | tail _ hok' hstep' ih =>
      rw [← List.append_assoc]
      exact ih.tail hok' hstep'

/-- Playing actions is a run with their commits. -/
theorem traced_of_play {as : List (Action C K)} (h : sys.play ok c as = some c') :
    Traced sys ok c (sys.traceOf c as) c' := by
  induction as generalizing c with
  | nil => cases h; exact .refl
  | cons a as ih =>
      simp only [System.play] at h
      split at h
      · rename_i hok
        obtain ⟨c₁, hstep, hrest⟩ := Option.bind_eq_some_iff.mp h
        rw [System.traceOf, hstep]
        exact .head hok hstep (ih hrest)
      · cases h

/-- What an action commits is what happens to the store. -/
theorem store_of_step {a : Action C K} (hstep : sys.step c a = some c') :
    c'.store = sys.applyAll (c.committed a) c.store := by
  cases step_cases hstep with
  | start call => rfl
  | crash => rfl
  | begin hth => simp [Config.committed, hth, Config.goto]
  | statement hth _ _ => simp [Config.committed, hth, Config.goto]
  | rollback hth hfails =>
      cases hfails with
      | abort => simp [Config.committed, Config.goto]
      | throw ht => subst ht; simp [Config.committed, hth, Config.goto]
      | statement ht _ => subst ht; simp [Config.committed, hth, Config.goto]
  | commit hth => simp [Config.committed, hth]
  | fork hth => simp [Config.committed, hth]
  | take hth _ => simp [Config.committed, hth]
  | resume hth _ => simp [Config.committed, hth, Config.goto]

end Logged

namespace Rules

variable [DecidableEq κ] {sys : System Q L ε S W C κ ι K ρ} {R : Rules sys γ τ}
  {ok : Config Q L ε S W ι K ρ → Action C K → Bool} {c c' : Config Q L ε S W ι K ρ}
  {own : Owner → Set τ} {ws : List W}

/-- An action commits nothing, or it commits a transaction. -/
theorem Sound.committed (hR : R.Valid ok) (hc : R.Sound c own) (a : Action C K) :
    c.committed a = [] ∨ ∃ (T : Set τ) (β : Type) (l : L β) (h : List (Event Q W)) (r : β),
      R.Commits c.store T l h r ∧ c.committed a = writes h := by
  cases a with
  | advance i ch =>
      simp only [Config.committed]
      split
      · rename_i hth
        exact Or.inr ⟨_, _, _, _, _, hc.commits hR hth, rfl⟩
      · exact Or.inl rfl
  | _ => exact Or.inl rfl

/-- What every commit keeps holds of the store and the log of a run. -/
theorem Sound.logged (hR : R.Valid ok) {J : S → List W → Prop} (hc : R.Sound c own)
    (hstart : J c.store [])
    (hstep : ∀ {β : Type} (s : S) (ws : List W) (T : Set τ) (l : L β) (h : List (Event Q W)) (r : β),
      J s ws → R.Commits s T l h r → J (sys.applyAll (writes h) s) (ws ++ writes h))
    (h : Logged sys ok c ws c') : J c'.store ws := by
  induction h with
  | refl => exact hstart
  | @tail ws c₁ c₂ a hrun hok hstep' ih =>
      obtain ⟨⟨own', hsound⟩, -⟩ := hc.steps hR hrun.steps
      rw [store_of_step hstep']
      rcases hsound.committed hR a with hnil | ⟨T, β, l, hist, r, hcommits, heq⟩
      · rw [hnil, List.append_nil]
        exact ih
      · rw [heq]
        exact hstep _ _ _ _ _ _ ih hcommits

/-- What the commits that are allowed keep holds of every store that is reached. -/
theorem Sound.kept (hR : R.Valid ok) {P : {β : Type} → S → L β → List (Event Q W) → Bool}
    {J : S → Prop} (hc : R.Sound c own) (hstart : J c.store)
    (hstep : ∀ {β : Type} (s : S) (T : Set τ) (l : L β) (h : List (Event Q W)) (r : β), J s →
      R.Commits s T l h r → P s l h = true → J (sys.applyAll (writes h) s))
    (h : Steps sys (fun c a => ok c a && CommitsOnly P c a) c c') : J c'.store := by
  induction h with
  | refl => exact hstart
  | @tail c₁ c₂ hrun hlast ih =>
      obtain ⟨a, hallowed, hstep'⟩ := hlast
      have hrun' : Steps sys ok c c₁ := Steps.mono hrun fun _ _ h => (Bool.and_eq_true_iff.mp h).1
      obtain ⟨⟨own', hsound⟩, -⟩ := hc.steps hR hrun'
      rw [store_of_step hstep']
      cases a with
      | advance i ch =>
          have honly := (Bool.and_eq_true_iff.mp hallowed).2
          simp only [Config.committed]
          split
          · rename_i hth
            exact hstep _ _ _ _ _ ih (hsound.commits hR hth) (by simpa [CommitsOnly, hth] using honly)
          · exact ih
      | _ => exact ih

/-- What the commits that are allowed keep holds of the store and the commits of a run. -/
theorem Sound.traced (hR : R.Valid ok) {P : {β : Type} → S → L β → List (Event Q W) → Bool}
    {J : S → List (Commit Q L W) → Prop} {cs : List (Commit Q L W)} (hc : R.Sound c own)
    (hstart : J c.store [])
    (hstep : ∀ {β : Type} (s : S) (cs : List (Commit Q L W)) (T : Set τ) (l : L β)
      (h : List (Event Q W)) (r : β), J s cs → R.Commits s T l h r → P s l h = true →
        J (sys.applyAll (writes h) s) (cs ++ [⟨l, h⟩]))
    (h : Traced sys (fun c a => ok c a && CommitsOnly P c a) c cs c') : J c'.store cs := by
  induction h with
  | refl => exact hstart
  | @tail cs c₁ c₂ a hrun hallowed hlast ih =>
      obtain ⟨hok, honly⟩ := Bool.and_eq_true_iff.mp hallowed
      have hrun' : Steps sys ok c c₁ :=
        Steps.mono hrun.steps fun _ _ h => (Bool.and_eq_true_iff.mp h).1
      obtain ⟨⟨own', hsound⟩, -⟩ := hc.steps hR hrun'
      rw [store_of_step hlast]
      cases a with
      | advance i ch =>
          simp only [Config.committed, Config.commit?]
          split
          · rename_i hth
            exact hstep _ _ _ _ _ _ ih (hsound.commits hR hth) (by simpa [CommitsOnly, hth] using honly)
          · simpa using ih
      | _ => simpa [Config.committed, Config.commit?] using ih

end Rules

end Txn
