import Mathlib.Data.List.Basic

/-!
# Transaction programs

A transaction body is a tree of statements.  `Tx.query q k` sends the statement
`q` and goes on with `k r` when the reply is `r`.  `Tx.throw e` rolls back with
the error `e`, and `Tx.pure a` commits with the result `a`.  The tree says
nothing about a database: `Q β` is any family of statements with replies in
`β`, and the programs below are checked against the code statement by
statement.

What a program did so far is a list of *events*, one per statement, each with
the reply it got and the writes it made.  `Path t h u` says that answering the
first statements of `t` as `h` says leaves the program `u`.  A history is read
from left to right: `Holds V p h` asks the property `V` of every event of `h`,
each at the writes made before it, starting from the writes `p`.

`Completes t h a` is a path to a commit.  `Runs V p t ws a` forgets its history
and keeps the writes `ws`.  `runs_bind` cuts a run of a sequential composition
in two, so that a specification of a function is used where the function is
called, and its body is not opened again.
-/

namespace Txn

/-- The body of a transaction over the statements `Q`, with errors in `ε`. -/
inductive Tx (Q : Type → Type) (ε : Type) (α : Type) : Type 1 where
  | pure (a : α)
  | throw (e : ε)
  | query {β : Type} (q : Q β) (k : β → Tx Q ε α)

variable {Q : Type → Type} {ε W α β : Type}

namespace Tx

/-- Run `t`, then `f` on its result. -/
def bind : Tx Q ε α → (α → Tx Q ε β) → Tx Q ε β
  | .pure a, f => f a
  | .throw e, _ => .throw e
  | .query q k, f => .query q fun r => (k r).bind f

instance : Monad (Tx Q ε) where
  pure := Tx.pure
  bind := Tx.bind

/-- Send one statement and return its reply. -/
def send (q : Q α) : Tx Q ε α := .query q .pure

/-- Go on if `c` holds, throw otherwise. -/
def ensure (c : Bool) (e : ε) : Tx Q ε Unit := if c then .pure () else .throw e

/-- The value of an option, or an error. -/
def require (o : Option α) (e : ε) : Tx Q ε α :=
  match o with
  | some a => .pure a
  | none => .throw e

@[simp] theorem pure_bind (a : α) (f : α → Tx Q ε β) : (Tx.pure a >>= f) = f a := rfl

@[simp] theorem throw_bind (e : ε) (f : α → Tx Q ε β) :
    ((Tx.throw e : Tx Q ε α) >>= f) = .throw e := rfl

@[simp] theorem query_bind {γ : Type} (q : Q γ) (k : γ → Tx Q ε α) (f : α → Tx Q ε β) :
    (Tx.query q k >>= f) = .query q fun r => k r >>= f := rfl

end Tx

/-! ## Events -/

/-- One executed statement: its reply and the writes it made. -/
structure Event (Q : Type → Type) (W : Type) : Type 1 where
  {Reply : Type}
  query : Q Reply
  reply : Reply
  writes : List W

/-- The writes of a history, oldest first. -/
def writes (h : List (Event Q W)) : List W := h.flatMap Event.writes

@[simp] theorem writes_nil : writes ([] : List (Event Q W)) = [] := rfl

@[simp] theorem writes_cons (e : Event Q W) (h : List (Event Q W)) :
    writes (e :: h) = e.writes ++ writes h := rfl

@[simp] theorem writes_append (h h' : List (Event Q W)) :
    writes (h ++ h') = writes h ++ writes h' := by
  simp [writes]

/-- Every event of the history has `V` at the writes made before it. -/
def Holds (V : List W → Event Q W → Prop) : List W → List (Event Q W) → Prop
  | _, [] => True
  | p, e :: h => V p e ∧ Holds V (p ++ e.writes) h

section Holds

variable {V V' : List W → Event Q W → Prop}

@[simp] theorem holds_nil (p : List W) : Holds V p [] := trivial

@[simp] theorem holds_cons (p : List W) (e : Event Q W) (h : List (Event Q W)) :
    Holds V p (e :: h) ↔ V p e ∧ Holds V (p ++ e.writes) h := Iff.rfl

theorem holds_append {p : List W} {h h' : List (Event Q W)} :
    Holds V p (h ++ h') ↔ Holds V p h ∧ Holds V (p ++ writes h) h' := by
  induction h generalizing p with
  | nil => simp
  | cons e h ih => simp [ih, and_assoc]

theorem Holds.mono {p : List W} {h : List (Event Q W)} (hv : Holds V p h)
    (himp : ∀ p e, e ∈ h → V p e → V' p e) : Holds V' p h := by
  induction h generalizing p with
  | nil => trivial
  | cons e h ih =>
      exact ⟨himp p e (List.mem_cons_self ..) hv.1,
        ih hv.2 fun p e he => himp p e (List.mem_cons_of_mem _ he)⟩

theorem Holds.and {p : List W} {h : List (Event Q W)} (hv : Holds V p h) (hv' : Holds V' p h) :
    Holds (fun p e => V p e ∧ V' p e) p h := by
  induction h generalizing p with
  | nil => trivial
  | cons e h ih => exact ⟨⟨hv.1, hv'.1⟩, ih hv.2 hv'.2⟩

/-- A history holds with the knowledge that its events are its own. -/
theorem Holds.mem {p : List W} {h : List (Event Q W)} (hv : Holds V p h) :
    Holds (fun p e => V p e ∧ e ∈ h) p h :=
  hv.mono fun _ _ he hve => ⟨hve, he⟩

/-- A history holds with the knowledge that earlier writes are its own. -/
theorem Holds.within {p : List W} {h : List (Event Q W)} (hv : Holds V p h) :
    Holds (fun p' e => V p' e ∧ p' ⊆ p ++ writes h) p h := by
  induction h generalizing p with
  | nil => trivial
  | cons e h ih =>
      refine ⟨⟨hv.1, List.subset_append_left ..⟩, ?_⟩
      simpa [List.append_assoc] using ih hv.2

/-- Every event of a history holds at some writes. -/
theorem Holds.of_mem {p : List W} {h : List (Event Q W)} (hv : Holds V p h)
    {e : Event Q W} (he : e ∈ h) : ∃ p', V p' e := by
  induction h generalizing p with
  | nil => cases he
  | cons e' h ih =>
      cases List.mem_cons.mp he with
      | inl heq => exact ⟨p, heq ▸ hv.1⟩
      | inr hmem => exact ih hv.2 hmem

end Holds

/-! ## Paths -/

/-- `Path t h u`: `h` is a history of the first statements of `t`, and leaves `u`. -/
inductive Path : Tx Q ε α → List (Event Q W) → Tx Q ε α → Prop where
  | nil {t : Tx Q ε α} : Path t [] t
  | cons {β : Type} {q : Q β} {k : β → Tx Q ε α} {r : β} {ws : List W}
      {h : List (Event Q W)} {u : Tx Q ε α} :
      Path (k r) h u → Path (.query q k) (⟨q, r, ws⟩ :: h) u

/-- One more statement at the end of a path. -/
theorem Path.snoc {t : Tx Q ε α} {h : List (Event Q W)} {u : Tx Q ε α} (hp : Path t h u) :
    ∀ {β : Type} {q : Q β} {k : β → Tx Q ε α}, u = .query q k → ∀ (r : β) (ws : List W),
      Path t (h ++ [⟨q, r, ws⟩]) (k r) := by
  induction hp with
  | nil =>
      intro β q k hu r ws
      subst hu
      exact .cons .nil
  | cons _ ih => exact fun hu r ws => .cons (ih hu r ws)

/-- The history `h` runs `t` to a commit with the result `a`. -/
def Completes (t : Tx Q ε α) (h : List (Event Q W)) (a : α) : Prop := Path t h (.pure a)

theorem completes_pure {a b : α} {h : List (Event Q W)} :
    Completes (.pure a : Tx Q ε α) h b ↔ h = [] ∧ a = b := by
  constructor
  · intro hc
    cases hc
    exact ⟨rfl, rfl⟩
  · rintro ⟨rfl, rfl⟩
    exact .nil

theorem completes_query {q : Q β} {k : β → Tx Q ε α} {h : List (Event Q W)} {a : α} :
    Completes (.query q k) h a ↔ ∃ r ws h', h = ⟨q, r, ws⟩ :: h' ∧ Completes (k r) h' a := by
  constructor
  · intro hc
    cases hc with
    | cons hp => exact ⟨_, _, _, rfl, hp⟩
  · rintro ⟨r, ws, h', rfl, hc⟩
    exact .cons hc

/-- A complete history of `t >>= f` is one of `t` followed by one of `f`. -/
theorem completes_bind {t : Tx Q ε α} {f : α → Tx Q ε β} {h : List (Event Q W)} {b : β} :
    Completes (t >>= f) h b ↔
      ∃ h₁ a h₂, h = h₁ ++ h₂ ∧ Completes t h₁ a ∧ Completes (f a) h₂ b := by
  induction t generalizing h with
  | pure a => simp [completes_pure]
  | throw e =>
      constructor
      · exact nofun
      · rintro ⟨_, _, _, _, hc, _⟩
        cases hc
  | query q k ih =>
      simp only [Tx.query_bind, completes_query, ih]
      constructor
      · rintro ⟨r, ws, h', rfl, h₁, a, h₂, rfl, ht, hf⟩
        exact ⟨⟨q, r, ws⟩ :: h₁, a, h₂, rfl, ⟨r, ws, h₁, rfl, ht⟩, hf⟩
      · rintro ⟨_, a, h₂, rfl, ⟨r, ws, h₁, rfl, ht⟩, hf⟩
        exact ⟨r, ws, h₁ ++ h₂, rfl, h₁, a, h₂, rfl, ht, hf⟩

/-! ## Runs -/

/-- After the writes `p`, the program `t` can commit with the result `a` and the writes `ws`,
in a history that has `V`. -/
def Runs (V : List W → Event Q W → Prop) (p : List W) (t : Tx Q ε α) (ws : List W) (a : α) :
    Prop := ∃ h, Completes t h a ∧ Holds V p h ∧ writes h = ws

section Runs

variable {V : List W → Event Q W → Prop} {p ws : List W}

theorem runs_of_completes {t : Tx Q ε α} {h : List (Event Q W)} {a : α} (hc : Completes t h a)
    (hh : Holds V p h) : Runs V p t (writes h) a := ⟨h, hc, hh, rfl⟩

@[simp] theorem runs_pure {a b : α} :
    Runs V p (.pure a : Tx Q ε α) ws b ↔ ws = [] ∧ a = b := by
  constructor
  · rintro ⟨h, hc, -, rfl⟩
    obtain ⟨rfl, rfl⟩ := completes_pure.mp hc
    exact ⟨rfl, rfl⟩
  · rintro ⟨rfl, rfl⟩
    exact ⟨[], .nil, trivial, rfl⟩

@[simp] theorem runs_return {a b : α} :
    Runs V p (pure a : Tx Q ε α) ws b ↔ ws = [] ∧ a = b := runs_pure

@[simp] theorem runs_throw {e : ε} {a : α} : ¬ Runs V p (.throw e : Tx Q ε α) ws a := by
  rintro ⟨h, hc, -, -⟩
  cases hc

@[simp] theorem runs_send {q : Q α} {a : α} :
    Runs V p (Tx.send q : Tx Q ε α) ws a ↔ V p ⟨q, a, ws⟩ := by
  constructor
  · rintro ⟨h, hc, hh, rfl⟩
    obtain ⟨r, ws, h', rfl, hpure⟩ := completes_query.mp hc
    obtain ⟨rfl, rfl⟩ := completes_pure.mp hpure
    simpa using hh
  · intro hv
    exact ⟨[⟨q, a, ws⟩], .cons .nil, by simpa using hv, by simp⟩

@[simp] theorem runs_ensure {c : Bool} {e : ε} {u : Unit} :
    Runs V p (Tx.ensure c e : Tx Q ε Unit) ws u ↔ ws = [] ∧ c = true := by
  cases c <;> simp [Tx.ensure]

@[simp] theorem runs_require {o : Option α} {e : ε} {a : α} :
    Runs V p (Tx.require o e : Tx Q ε α) ws a ↔ ws = [] ∧ o = some a := by
  cases o <;> simp [Tx.require]

/-- `t >>= f` runs `t`, and then `f` after the writes of `t`. -/
theorem runs_bind {t : Tx Q ε α} {f : α → Tx Q ε β} {b : β} :
    Runs V p (t >>= f) ws b ↔
      ∃ ws₁ a, Runs V p t ws₁ a ∧ ∃ ws₂, ws = ws₁ ++ ws₂ ∧ Runs V (p ++ ws₁) (f a) ws₂ b := by
  constructor
  · rintro ⟨h, hc, hh, rfl⟩
    obtain ⟨h₁, a, h₂, rfl, hc₁, hc₂⟩ := completes_bind.mp hc
    obtain ⟨hh₁, hh₂⟩ := holds_append.mp hh
    exact ⟨writes h₁, a, ⟨h₁, hc₁, hh₁, rfl⟩, writes h₂, writes_append .., ⟨h₂, hc₂, hh₂, rfl⟩⟩
  · rintro ⟨_, a, ⟨h₁, hc₁, hh₁, rfl⟩, _, rfl, ⟨h₂, hc₂, hh₂, rfl⟩⟩
    exact ⟨h₁ ++ h₂, completes_bind.mpr ⟨h₁, a, h₂, rfl, hc₁, hc₂⟩, holds_append.mpr ⟨hh₁, hh₂⟩,
      writes_append ..⟩

end Runs

end Txn
