import LedgerCredit.Txn.Database

/-!
# Processes

A process is what a service call does between its transactions.  `Proc.call l k`
runs the transaction named by the label `l` and goes on with its result, which
may be an error.  A single statement outside a transaction is a label of its
own.  `Proc.all` is a worker pool: at most `limit` workers take the identifiers
in order, run the body on each, and the process goes on when all of them ended
or one of them failed.

Labels name transactions, so that what is known of the transactions of a process
is a property of labels.
-/

namespace Txn

/-- A process over transactions `L`, with errors in `ε` and pool items in `ι`. -/
inductive Proc (L : Type → Type 1) (ε ι : Type) : Type → Type 1 where
  | pure {α : Type} (a : α) : Proc L ε ι α
  | throw {α : Type} (e : ε) : Proc L ε ι α
  | call {α β : Type} (l : L β) (k : Except ε β → Proc L ε ι α) : Proc L ε ι α
  | all {α : Type} (limit : Nat) (ids : List ι) (body : ι → Proc L ε ι Unit)
      (k : Except ε Unit → Proc L ε ι α) : Proc L ε ι α

variable {L : Type → Type 1} {ε ι α β : Type}

namespace Proc

/-- Run `p`, then `f` on its result. -/
def bind : Proc L ε ι α → (α → Proc L ε ι β) → Proc L ε ι β
  | .pure a, f => f a
  | .throw e, _ => .throw e
  | .call l k, f => .call l fun r => (k r).bind f
  | .all n ids body k, f => .all n ids body fun r => (k r).bind f

instance : Monad (Proc L ε ι) where
  pure := Proc.pure
  bind := Proc.bind

/-- Run `p`, and `f` on the error if it throws. -/
def orElse : Proc L ε ι α → (ε → Proc L ε ι α) → Proc L ε ι α
  | .pure a, _ => .pure a
  | .throw e, f => f e
  | .call l k, f => .call l fun r => (k r).orElse f
  | .all n ids body k, f => .all n ids body fun r => (k r).orElse f

/-- The result of a transaction, thrown if it is an error. -/
def ofResult : Except ε α → Proc L ε ι α
  | .ok a => .pure a
  | .error e => .throw e

/-- Run a transaction. -/
def transaction (l : L α) : Proc L ε ι α := .call l ofResult

/-- Run the body on every identifier, with at most `limit` at a time. -/
def pool (limit : Nat) (ids : List ι) (body : ι → Proc L ε ι Unit) : Proc L ε ι Unit :=
  .all limit ids body ofResult

/-- Run `p` for its effect. -/
def discard (p : Proc L ε ι Unit) (a : α) : Proc L ε ι α := p.bind fun _ => .pure a

@[simp] theorem pure_bind (a : α) (f : α → Proc L ε ι β) : (Proc.pure a >>= f) = f a := rfl

@[simp] theorem throw_bind (e : ε) (f : α → Proc L ε ι β) :
    ((Proc.throw e : Proc L ε ι α) >>= f) = .throw e := rfl

@[simp] theorem call_bind {γ : Type} (l : L γ) (k : Except ε γ → Proc L ε ι α)
    (f : α → Proc L ε ι β) : (Proc.call l k >>= f) = .call l fun r => k r >>= f := rfl

@[simp] theorem all_bind (n : Nat) (ids : List ι) (body : ι → Proc L ε ι Unit)
    (k : Except ε Unit → Proc L ε ι α) (f : α → Proc L ε ι β) :
    (Proc.all n ids body k >>= f) = .all n ids body fun r => k r >>= f := rfl

theorem bind_assoc {γ : Type} (p : Proc L ε ι α) (f : α → Proc L ε ι β) (g : β → Proc L ε ι γ) :
    p >>= f >>= g = p >>= fun a => f a >>= g := by
  induction p with
  | pure a => rfl
  | throw e => rfl
  | call l k ih => exact congrArg (Proc.call l) (funext fun r => ih r f)
  | all n ids body k _ ih => exact congrArg (Proc.all n ids body) (funext fun r => ih r f)

end Proc

/-! ## What a process runs -/

/-- The process runs transactions in `p` only, and no pools. -/
inductive Proc.Uses (p : ∀ {β : Type}, L β → Prop) : {α : Type} → Proc L ε ι α → Prop where
  | pure {α : Type} {a : α} : Uses p (.pure a)
  | throw {α : Type} {e : ε} : Uses p (.throw e : Proc L ε ι α)
  | call {α β : Type} {l : L β} {k : Except ε β → Proc L ε ι α} :
      p l → (∀ r, Uses p (k r)) → Uses p (.call l k)

namespace Proc.Uses

variable {p p' : ∀ {β : Type}, L β → Prop}

theorem bind {x : Proc L ε ι α} {f : α → Proc L ε ι β} (hx : Uses p x) (hf : ∀ a, Uses p (f a)) :
    Uses p (x >>= f) := by
  induction hx with
  | pure => exact hf _
  | throw => exact .throw
  | call hl _ ih => exact .call hl ih

theorem transaction {l : L α} (hl : p l) : Uses p (Proc.transaction l : Proc L ε ι α) := by
  refine .call hl fun r => ?_
  cases r with
  | error e => exact .throw
  | ok a => exact .pure

theorem mono {x : Proc L ε ι α} (hx : Uses p x) (himp : ∀ {β : Type} (l : L β), p l → p' l) :
    Uses p' x := by
  induction hx with
  | pure => exact .pure
  | throw => exact .throw
  | call hl _ ih => exact .call (himp _ hl) ih

end Proc.Uses

/-- The process `p` goes on as `q` after some of its transactions. -/
inductive Proc.Reaches (p : Proc L ε ι α) : Proc L ε ι α → Prop where
  | refl : Reaches p p
  | call {β : Type} {l : L β} {k : Except ε β → Proc L ε ι α} :
      Reaches p (.call l k) → ∀ r, Reaches p (k r)

end Txn
