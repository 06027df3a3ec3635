import LedgerCredit.Txn.Rules

/-!
# Families of systems

A configuration that may change between two calls is a parameter that each call brings
with it.  `Family.system` runs the calls of all members of a family over one database.
Its transactions carry the parameter of the call that they belong to.
-/

namespace Txn

variable {Q : Type → Type} {L L' : Type → Type 1} {ε S W C κ ι K ρ E α β : Type}

/-- The process with other names for its transactions. -/
def Proc.relabel (f : ∀ {β : Type}, L β → L' β) : {α : Type} → Proc L ε ι α → Proc L' ε ι α
  | _, .pure a => .pure a
  | _, .throw e => .throw e
  | _, .call l k => .call (f l) fun r => (k r).relabel f
  | _, .all n ids body k => .all n ids (fun id => (body id).relabel f) fun r => (k r).relabel f

theorem Proc.Uses.relabel {p : ∀ {β : Type}, L β → Prop} {p' : ∀ {β : Type}, L' β → Prop}
    {f : ∀ {β : Type}, L β → L' β} {x : Proc L ε ι α} (hx : x.Uses p)
    (hf : ∀ {β : Type} (l : L β), p l → p' (f l)) : (x.relabel f).Uses p' := by
  induction hx with
  | pure => exact .pure
  | throw => exact .throw
  | call hl _ ih => exact .call (hf _ hl) ih

/-- Systems over one database. -/
structure Family (E : Type) (Q : Type → Type) (L : Type → Type 1) (ε S W C κ ι K ρ : Type) where
  database : Database Q ε S W C κ
  body : E → {β : Type} → L β → Tx Q ε β
  program : E → K → Proc L ε ι ρ
  idle : ρ

/-- The system in which every call brings its parameter. -/
def Family.system (F : Family E Q L ε S W C κ ι K ρ) :
    System Q (fun β => E × L β) ε S W C κ ι (E × K) ρ where
  toDatabase := F.database
  body := fun l => F.body l.1 l.2
  program := fun call => (F.program call.1 call.2).relabel fun l => (call.1, l)
  idle := F.idle

end Txn
