import LedgerCredit.Txn.Soundness

/-!
# Changes from outside

The store may also be changed by somebody else than the clients of the system.
`StepsWith` is the runs in which it is, at moments when no open transaction has
executed a statement, so that every transaction still sees one store.

`sound_of_stepsWith` carries valid rules through such runs, if the changes are
moves of the rules.
-/

namespace Txn

variable {Q : Type → Type} {L : Type → Type 1} {ε S W C κ ι K ρ γ τ : Type}

/-- No open transaction has executed a statement. -/
def Config.between (c : Config Q L ε S W ι K ρ) : Prop :=
  ∀ (i : Nat) (th : Thread Q L ε W ι K ρ), c.threads[i]? = some th → th.code.history = []

section StepsWith

variable [DecidableEq κ] (sys : System Q L ε S W C κ ι K ρ)

/-- The runs whose actions are all allowed, where the store may change by `out` between
transactions. -/
def StepsWith (ok : Config Q L ε S W ι K ρ → Action C K → Bool) (out : S → S → Prop) :
    Config Q L ε S W ι K ρ → Config Q L ε S W ι K ρ → Prop :=
  Relation.ReflTransGen fun c c' => (∃ a, ok c a = true ∧ sys.step c a = some c') ∨
    c.between ∧ ∃ s, out c.store s ∧ c' = { c with store := s }

variable {sys} {ok : Config Q L ε S W ι K ρ → Action C K → Bool} {out : S → S → Prop}
  {c c' c'' : Config Q L ε S W ι K ρ}

theorem Steps.withOutside (h : Steps sys ok c c') : StepsWith sys ok out c c' :=
  Relation.ReflTransGen.mono (fun _ _ hstep => Or.inl hstep) _ _ h

theorem StepsWith.outside (h : StepsWith sys ok out c c') (hbetween : c'.between) {s : S}
    (hout : out c'.store s) : StepsWith sys ok out c { c' with store := s } :=
  .tail h (Or.inr ⟨hbetween, s, hout, rfl⟩)

theorem StepsWith.trans (h : StepsWith sys ok out c c') (h' : StepsWith sys ok out c' c'') :
    StepsWith sys ok out c c'' := Relation.ReflTransGen.trans h h'

end StepsWith

namespace Rules

variable [DecidableEq κ] {sys : System Q L ε S W C κ ι K ρ} {R : Rules sys γ τ}
  {ok : Config Q L ε S W ι K ρ → Action C K → Bool} {own : Owner → Set τ}

/-- A change from outside keeps soundness if it is a move of every thread. -/
theorem Sound.outside (hR : R.Valid ok) {c : Config Q L ε S W ι K ρ} (hc : R.Sound c own)
    (hbetween : c.between) {s : S} (hmove : ∀ T, R.Move T c.store s) :
    R.Sound { c with store := s } own where
  inv := (hmove ∅).inv
  born := fun o => (hc.born o).trans (hR.born_mono _ _ (hmove ∅).le)
  disjoint := hc.disjoint
  thread := by
    intro i th hth
    have hthread := hc.thread i th hth
    have hnil := hbetween i th hth
    obtain ⟨call, pool, code⟩ := th
    cases code with
    | run p => exact Good.move hR hthread (hmove _)
    | await n k => exact fun r => (hthread r).move hR (hmove _)
    | opened l h rest k =>
        -- there is no statement yet whose evidence could be lost
        obtain rfl : h = [] := hnil
        exact ⟨⟨hthread.1.good.move hR (hmove _), trivial, trivial⟩, hthread.2⟩
  bound := hc.bound
  pool := fun n pl i th hpl hth hn hdead done id rest hqueue =>
    (hc.pool n pl i th hpl hth hn hdead done id rest hqueue).move hR (hmove _)
  apart := hc.apart
  unowned := hc.unowned

/-- The run lemma, with changes from outside. -/
theorem sound_of_stepsWith (hR : R.Valid ok) {out : S → S → Prop}
    (hout : ∀ s s', R.Inv s → out s s' → ∀ T, R.Move T s s') {s : S} (hs : R.Inv s)
    {c : Config Q L ε S W ι K ρ} (hrun : StepsWith sys ok out (.initial s) c) :
    ∃ own, R.Sound c own := by
  induction hrun with
  | refl => exact ⟨_, sound_initial hs⟩
  | tail _ hstep ih =>
      obtain ⟨own, hsound⟩ := ih
      rcases hstep with ⟨a, hok, hs'⟩ | ⟨hbetween, s', hs', rfl⟩
      · exact (hsound.step hR hok hs').1
      · exact ⟨own, hsound.outside hR hbetween (hout _ _ hsound.inv hs')⟩

end Rules

end Txn
