import Mathlib.Algebra.BigOperators.Ring.Finset
import Mathlib.Algebra.Order.BigOperators.Group.Finset
import Mathlib.Tactic.Ring

/-!
# A bank

What a bank is for, without keys, journals, records or messages.  It owes its customers money,
and sends some of it to other banks.

*Flows.*  Money moves between two accounts, is sent out, arrives, comes back, or is credited.  A
transfer to another bank is sent once and then ends in one of two ways, as its `Stage` tells.  All
the flows of one transfer can be read off its stage (`Run.history`).

*Conservation.*  In every currency, what is owed to the customers and what is sent and did not come
back grow by what is credited, and by nothing else (`Run.worth`).
-/

namespace Bank

variable {α τ κ : Type}

/-- How far a transfer to another bank has come. -/
inductive Stage (α : Type) where
  | absent
  | underway (a : α) (n : Int)
  | arrived (a : α) (n : Int)
  | returned (a : α) (n : Int)
  deriving DecidableEq

structure State (α τ : Type) where
  owed : α → Int
  stage : τ → Stage α

inductive Flow (α τ : Type) where
  | moved (a b : α) (n : Int)
  | sent (t : τ) (a : α) (n : Int)
  | arrived (t : τ) (a : α) (n : Int)
  | returned (t : τ) (a : α) (n : Int)
  | credited (a : α) (n : Int)
  deriving DecidableEq

namespace Flow

def amount : Flow α τ → Int
  | .moved _ _ n | .sent _ _ n | .arrived _ _ n | .returned _ _ n | .credited _ n => n

/-- The transfer that a flow is about. -/
def transfer? : Flow α τ → Option τ
  | .sent t _ _ | .arrived t _ _ | .returned t _ _ => some t
  | .moved .. | .credited .. => none

/-- What a flow adds to what is owed to the account. -/
def effect [DecidableEq α] (x : α) : Flow α τ → Int
  | .moved a b n => (if b = x then n else 0) - if a = x then n else 0
  | .sent _ a n => if a = x then -n else 0
  | .arrived .. => 0
  | .returned _ a n => if a = x then n else 0
  | .credited a n => if a = x then n else 0

/-- The accounts that a flow touches. -/
def accounts : Flow α τ → List α
  | .moved a b _ => [a, b]
  | .sent _ a _ | .arrived _ a _ | .returned _ a _ | .credited a _ => [a]

/-- What a flow adds to the money in a currency. -/
def credit [DecidableEq κ] (currency : α → κ) (k : κ) : Flow α τ → Int
  | .credited a n => if currency a = k then n else 0
  | _ => 0

end Flow

/-- The stages before and after the flow of a transfer. -/
def Flow.stages : Flow α τ → Stage α × Stage α
  | .sent _ a n => (.absent, .underway a n)
  | .arrived _ a n => (.underway a n, .arrived a n)
  | .returned _ a n => (.underway a n, .returned a n)
  | .moved .. | .credited .. => (.absent, .absent)

/-- One flow.  Money moves within a currency, and the transfer takes its next stage. -/
structure Step [DecidableEq α] [DecidableEq τ] (currency : α → κ) (s : State α τ) (f : Flow α τ)
    (s' : State α τ) : Prop where
  positive : 0 < f.amount
  within : ∀ a ∈ f.accounts, ∀ b ∈ f.accounts, currency a = currency b
  owed : ∀ x, s'.owed x = s.owed x + f.effect x
  before : ∀ t, f.transfer? = some t → s.stage t = f.stages.1
  after : ∀ t, s'.stage t = if f.transfer? = some t then f.stages.2 else s.stage t

/-- Flows, one after another. -/
inductive Run [DecidableEq α] [DecidableEq τ] (currency : α → κ) :
    State α τ → List (Flow α τ) → State α τ → Prop where
  | nil {s : State α τ} : Run currency s [] s
  | cons {s s' s'' : State α τ} {f : Flow α τ} {fs : List (Flow α τ)} :
      Step currency s f s' → Run currency s' fs s'' → Run currency s (f :: fs) s''

section Run

variable [DecidableEq α] [DecidableEq τ] {currency : α → κ} {s s' s'' : State α τ}
  {f : Flow α τ} {fs fs' : List (Flow α τ)}

theorem Run.append (h : Run currency s fs s') (h' : Run currency s' fs' s'') :
    Run currency s (fs ++ fs') s'' := by
  induction h with
  | nil => exact h'
  | cons hstep _ ih => exact .cons hstep (ih h')

theorem Run.one (h : Step currency s f s') : Run currency s [f] s' := .cons h .nil

/-- Credits, one after another. -/
theorem Run.credits {credits : List (α × Int)} (hpos : ∀ c ∈ credits, 0 < c.2)
    (howed : ∀ x, s'.owed x = s.owed x + (credits.map fun c => if c.1 = x then c.2 else 0).sum)
    (hstage : ∀ t, s'.stage t = s.stage t) :
    Run currency s (credits.map fun c => .credited c.1 c.2) s' := by
  induction credits generalizing s with
  | nil =>
      obtain rfl : s' = s := by
        cases s'
        cases s
        simp_all [funext_iff]
      exact .nil
  | cons c credits ih =>
      obtain ⟨hc, hcredits⟩ := List.forall_mem_cons.mp hpos
      let next : State α τ := ⟨fun x => s.owed x + if c.1 = x then c.2 else 0, s.stage⟩
      have hstep : Step currency s (.credited c.1 c.2) next :=
        ⟨hc, by simp [Flow.accounts], fun _ => rfl, nofun, fun t => by simp [Flow.transfer?, next]⟩
      refine .cons hstep (ih hcredits (fun x => ?_) hstage)
      rw [howed x, List.map_cons, List.sum_cons, ← add_assoc]

/-! ## Histories -/

/-- The flows that brought a transfer to its stage. -/
def Stage.history (t : τ) : Stage α → List (Flow α τ)
  | .absent => []
  | .underway a n => [.sent t a n]
  | .arrived a n => [.sent t a n, .arrived t a n]
  | .returned a n => [.sent t a n, .returned t a n]

theorem Step.history (h : Step currency s f s') (t : τ) :
    (s'.stage t).history t =
      (s.stage t).history t ++ [f].filter fun f => f.transfer? = some t := by
  rw [h.after t]
  by_cases ht : f.transfer? = some t
  · rw [if_pos ht, h.before t ht]
    cases f with
    | moved | credited => cases ht
    | sent | arrived | returned =>
        cases ht
        simp [Flow.stages, Stage.history, Flow.transfer?]
  · simp [ht]

/-- The flows of a transfer are those that its stage tells. -/
theorem Run.history (h : Run currency s fs s') (t : τ) :
    (s'.stage t).history t =
      (s.stage t).history t ++ fs.filter fun f => f.transfer? = some t := by
  induction h with
  | nil => simp
  | @cons s s₁ s' f fs hstep _ ih =>
      have hcons : f :: fs = [f] ++ fs := rfl
      rw [ih, hstep.history t, hcons, List.filter_append, List.append_assoc]

/-! ## Conservation -/

/-- What is sent in the currency and did not come back. -/
def Stage.held [DecidableEq κ] (currency : α → κ) (k : κ) : Stage α → Int
  | .underway a n | .arrived a n => if currency a = k then n else 0
  | .absent | .returned .. => 0

/-- The money in a currency: what is owed to some accounts, and what some transfers hold. -/
def State.worth [DecidableEq κ] (currency : α → κ) (accounts : Finset α) (transfers : Finset τ)
    (k : κ) (s : State α τ) : Int :=
  (∑ a ∈ accounts with currency a = k, s.owed a) +
    ∑ t ∈ transfers, (s.stage t).held currency k

/-- The flow touches these accounts and transfers only. -/
structure Flow.Inside (accounts : Finset α) (transfers : Finset τ) (f : Flow α τ) : Prop where
  account : ∀ a ∈ f.accounts, a ∈ accounts
  transfer : ∀ t, f.transfer? = some t → t ∈ transfers

variable [DecidableEq κ] {accounts : Finset α} {transfers : Finset τ} {k : κ}

theorem sum_within {a : α} (ha : a ∈ accounts) (n : Int) :
    (∑ x ∈ accounts with currency x = k, if a = x then n else 0) =
      if currency a = k then n else 0 := by
  rw [Finset.sum_ite_eq]
  simp [ha]

/-- What a flow adds to what is owed in a currency. -/
theorem Step.sum_effect (h : Step currency s f s') (hin : f.Inside accounts transfers) :
    (∑ x ∈ accounts with currency x = k, f.effect x) =
      f.credit currency k + f.stages.1.held currency k - f.stages.2.held currency k := by
  have hacc := hin.account
  cases f with
  | moved a b n =>
      have ha := hacc a (by simp [Flow.accounts])
      have hb := hacc b (by simp [Flow.accounts])
      have hsame : currency a = currency b := h.within a (by simp [Flow.accounts]) b
        (by simp [Flow.accounts])
      simp only [Flow.effect, Finset.sum_sub_distrib, sum_within hb, sum_within ha, hsame]
      simp [Flow.credit, Flow.stages, Stage.held]
  | sent t a n =>
      simp only [Flow.effect, sum_within (hacc a (by simp [Flow.accounts]))]
      simp only [Flow.credit, Flow.stages, Stage.held]
      split <;> simp
  | arrived t a n =>
      simp [Flow.effect, Flow.credit, Flow.stages, Stage.held]
  | returned t a n | credited a n =>
      simp only [Flow.effect, sum_within (hacc a (by simp [Flow.accounts]))]
      simp [Flow.credit, Flow.stages, Stage.held]

/-- What a flow adds to what the transfers hold. -/
theorem Step.sum_held (h : Step currency s f s') (hin : f.Inside accounts transfers) :
    (∑ t ∈ transfers, (s'.stage t).held currency k) =
      (∑ t ∈ transfers, (s.stage t).held currency k) +
        (f.stages.2.held currency k - f.stages.1.held currency k) := by
  have hone : ∀ t, (s'.stage t).held currency k = (s.stage t).held currency k +
      if f.transfer? = some t then f.stages.2.held currency k - f.stages.1.held currency k
      else 0 := by
    intro t
    rw [h.after t]
    split
    · rename_i ht
      rw [h.before t ht]
      ring
    · simp
  rw [Finset.sum_congr rfl fun t _ => hone t, Finset.sum_add_distrib]
  congr 1
  cases hf : f.transfer? with
  | none => cases f <;> simp_all [Flow.transfer?, Flow.stages]
  | some t =>
      simp only [Option.some.injEq]
      rw [Finset.sum_ite_eq, if_pos (hin.transfer t hf)]

theorem Step.worth (h : Step currency s f s') (hin : f.Inside accounts transfers) :
    s'.worth currency accounts transfers k =
      s.worth currency accounts transfers k + f.credit currency k := by
  simp only [State.worth, h.owed, Finset.sum_add_distrib, h.sum_effect hin, h.sum_held hin]
  ring

/-- In every currency, the money grows by what is credited. -/
theorem Run.worth (h : Run currency s fs s') (hin : ∀ f ∈ fs, f.Inside accounts transfers) :
    s'.worth currency accounts transfers k =
      s.worth currency accounts transfers k + (fs.map (·.credit currency k)).sum := by
  induction h with
  | nil => simp
  | cons hstep _ ih =>
      rw [ih fun f hf => hin f (List.mem_cons_of_mem _ hf), hstep.worth (hin _ List.mem_cons_self),
        List.map_cons, List.sum_cons, add_assoc]

end Run

end Bank
