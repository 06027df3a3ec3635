import LedgerCredit.Txn.Soundness
import LedgerCredit.Txn.Isolated

/-!
# Resources with one owner

A resource is made by one transaction, worked on by the call that made it and by the
workers of that call, and closed by another transaction of that call.  What the owner
commits to the closed record should still be so when everybody else goes on.

*Joins.*  A call that waits for a pool goes on without an error only when every worker
of the pool has ended (`Dead`).  So when the owner acts, no worker of it does, and between
two of its steps the resource stays the same (`Resource.Same`).  An error of the pool ends
the owner, and its workers may go on alone.

*Phases.*  The resource is absent, owned, orphaned after a crash or an error of the
owner, or closed.  `Phase` is kept by every step, whatever else runs.
-/

namespace Txn

variable {Q : Type → Type} {L : Type → Type 1} {ε S W C κ ι K ρ α β : Type}

/-! ## Properties of code that steps keep -/

section Each

variable (sys : System Q L ε S W C κ ι K ρ) (X : Code Q L ε W ι ρ → Prop) (Y : Proc L ε ι Unit → Prop)

/-- `X` is kept by the steps that lead into a transaction, a pool or an error, and `Y` is what
the workers of a pool run. -/
structure Steady : Prop where
  pure : ∀ a, X (.run (.pure a))
  begin : ∀ {β : Type} (l : L β) k, X (.run (.call l k)) → X (.opened l [] (sys.body l) k)
  error : ∀ {β : Type} (l : L β) h t k e, X (.opened l h t k) → X (.run (k (.error e)))
  fork : ∀ n ids body k, X (.run (.all n ids body k)) →
    (∀ m, X (.await m k)) ∧ ∀ id ∈ ids, Y (body id)
  resume : ∀ n k r, X (.await n k) → X (.run (k r))
  take : ∀ p a, Y p → X (.run (p.discard a))

/-- Every thread of a pool has `X`, and every pool runs `Y`. -/
structure Config.Each (X : Option Nat → Code Q L ε W ι ρ → Prop) (c : Config Q L ε S W ι K ρ) :
    Prop where
  thread : ∀ (i : Nat) (th : Thread Q L ε W ι K ρ), c.threads[i]? = some th → X th.pool th.code
  pool : ∀ (n : Nat) (pl : Pool L ε ι), c.pools[n]? = some pl → ∀ id ∈ pl.queue, Y (pl.body id)

variable {sys X Y} {X' : Code Q L ε W ι ρ → Prop} {Y' : Proc L ε ι Unit → Prop}

theorem Steady.or (h : Steady sys X Y) (h' : Steady sys X' Y') :
    Steady sys (fun code => X code ∨ X' code) (fun p => Y p ∨ Y' p) where
  pure := fun a => Or.inl (h.pure a)
  begin := fun l k hx => hx.imp (h.begin l k) (h'.begin l k)
  error := fun l hist t k e hx => hx.imp (h.error l hist t k e) (h'.error l hist t k e)
  fork := by
    rintro n ids body k (hx | hx)
    · obtain ⟨hawait, hbody⟩ := h.fork n ids body k hx
      exact ⟨fun m => Or.inl (hawait m), fun id hid => Or.inl (hbody id hid)⟩
    · obtain ⟨hawait, hbody⟩ := h'.fork n ids body k hx
      exact ⟨fun m => Or.inr (hawait m), fun id hid => Or.inr (hbody id hid)⟩
  resume := fun n k r hx => hx.imp (h.resume n k r) (h'.resume n k r)
  take := fun p a hy => hy.imp (h.take p a) (h'.take p a)

variable [DecidableEq κ] {c c' : Config Q L ε S W ι K ρ} {a : Action C K}
  {X : Option Nat → Code Q L ε W ι ρ → Prop}

/-- A step keeps what every thread has, if a statement and a commit do. -/
theorem Config.Each.step (h : c.Each Y X) (hX : ∀ pool, Steady sys (X pool) Y)
    (hstep : sys.step c a = some c')
    (hstart : ∀ call, a = .start call → X none (.run (sys.program call)))
    (hstatement : ∀ {β γ : Type} (i : Nat) (ch : C) (call : K) (pool : Option Nat) (l : L β)
      (hist : List (Event Q W)) (q : Q γ) (k' : γ → Tx Q ε β) (k : Except ε β → Proc L ε ι ρ)
      (r : γ) (ws : List W), c.threads[i]? = some ⟨call, pool, .opened l hist (.query q k') k⟩ →
      sys.exec q ch (sys.applyAll (writes hist) c.store) = .ok (r, ws) →
      X pool (.opened l hist (.query q k') k) → X pool (.opened l (hist ++ [⟨q, r, ws⟩]) (k' r) k))
    (hcommit : ∀ {β : Type} (i : Nat) (ch : C) (call : K) (pool : Option Nat) (l : L β)
      (hist : List (Event Q W)) (x : β) (k : Except ε β → Proc L ε ι ρ), a = .advance i ch →
      c.threads[i]? = some ⟨call, pool, .opened l hist (.pure x) k⟩ →
      X pool (.opened l hist (.pure x) k) → X pool (.run (k (.ok x)))) : c'.Each Y X := by
  have hset : ∀ {i : Nat} {th' : Thread Q L ε W ι K ρ}, X th'.pool th'.code →
      ∀ (j : Nat) (th : Thread Q L ε W ι K ρ), (c.threads.set i th')[j]? = some th →
      X th.pool th.code := by
    intro i th' hx j th hth
    rcases Rules.getElem?_set_cases hth with ⟨-, rfl⟩ | ⟨-, hold⟩
    · exact hx
    · exact h.thread j th hold
  cases step_cases hstep with
  | start call =>
      refine ⟨fun j th hth => ?_, h.pool⟩
      rcases Rules.getElem?_append_cases hth with ⟨-, hold⟩ | ⟨-, hmem⟩
      · exact h.thread j th hold
      · obtain rfl := List.mem_singleton.mp hmem
        exact hstart call rfl
  | crash => exact ⟨by simp, by simp⟩
  | begin hth => exact ⟨hset ((hX _).begin _ _ (h.thread _ _ hth)), h.pool⟩
  | statement hth hexec _ =>
      exact ⟨hset (hstatement _ _ _ _ _ _ _ _ _ _ _ hth hexec (h.thread _ _ hth)), h.pool⟩
  | rollback hth _ => exact ⟨hset ((hX _).error _ _ _ _ _ (h.thread _ _ hth)), h.pool⟩
  | commit hth => exact ⟨hset (hcommit _ _ _ _ _ _ _ _ rfl hth (h.thread _ _ hth)), h.pool⟩
  | fork hth =>
      obtain ⟨hawait, hbody⟩ := (hX _).fork _ _ _ _ (h.thread _ _ hth)
      refine ⟨fun j th hj => ?_, fun n pl hpl => ?_⟩
      · rcases Rules.getElem?_append_cases hj with ⟨-, hold⟩ | ⟨-, hmem⟩
        · exact hset (hawait _) j th hold
        · obtain ⟨-, rfl⟩ := List.mem_replicate.mp hmem
          exact (hX _).pure _
      · rcases Rules.getElem?_append_cases hpl with ⟨-, hold⟩ | ⟨-, hmem⟩
        · exact h.pool n pl hold
        · obtain rfl := List.mem_singleton.mp hmem
          exact hbody
  | take hth hpool =>
      have hqueue := h.pool _ _ hpool
      refine ⟨hset ((hX _).take _ _ (hqueue _ (List.mem_cons_self ..))), fun n pl hpl => ?_⟩
      rcases Rules.getElem?_set_cases hpl with ⟨-, rfl⟩ | ⟨-, hold⟩
      · exact fun id hid => hqueue id (List.mem_cons_of_mem _ hid)
      · exact h.pool n pl hold
  | resume hth _ => exact ⟨hset ((hX _).resume _ _ _ (h.thread _ _ hth)), h.pool⟩

end Each

/-! ## Resources -/

/-- A resource, and what the transactions do to it. -/
structure Resource (L : Type → Type 1) (S W : Type) where
  /-- The resource is as it was. -/
  Same : S → S → Prop
  Absent : S → Prop
  Open : S → Prop
  Closed : S → Prop
  /-- What may be committed on a store. -/
  May : {β : Type} → S → L β → β → List W → Prop
  /-- A transaction that leaves the resource alone, unless it makes it. -/
  aside : {β : Type} → L β → Prop
  /-- A commit that makes the resource. -/
  makes : {β : Type} → L β → β → Prop
  /-- A transaction of a worker, which leaves an open resource open. -/
  works : {β : Type} → L β → Prop
  /-- A transaction that may come when the resource was closed on the store. -/
  later : {β : Type} → S → L β → Prop
  /-- The writes of such a transaction leave the resource alone. -/
  spares : {β : Type} → L β → List W → Prop

namespace Resource

section Processes

variable (R : Resource L S W) (sys : System Q L ε S W C κ ι K ρ)

/-- The statement was executed on a store with the same resource. -/
def SameSeen (s : S) (p : List W) (e : Event Q W) : Prop :=
  ∃ s₁ ch, R.Same s₁ s ∧ sys.exec e.query ch (sys.applyAll p s₁) = .ok (e.reply, e.writes)

/-- The process neither makes the resource nor touches it. -/
def Aside : {α : Type} → Proc L ε ι α → Prop
  | _, .pure _ => True
  | _, .throw _ => True
  | _, .call l k => R.aside l ∧ (∀ a, ¬ R.makes l a) ∧ ∀ r, Aside (k r)
  | _, .all _ _ body k => (∀ id, Aside (body id)) ∧ ∀ r, Aside (k r)

/-- The process is one of a worker of the owner. -/
def Works : {α : Type} → Proc L ε ι α → Prop
  | _, .pure _ => True
  | _, .throw _ => True
  | _, .call l k => R.works l ∧ ∀ r, Works (k r)
  | _, .all .. => False

/-- The process of the owner keeps the resource open. -/
def Tends : {α : Type} → Proc L ε ι α → Prop
  | _, .pure _ => True
  | _, .throw _ => True
  | _, .call l k => R.works l ∧ ∀ r, Tends (k r)
  | _, .all _ _ body k => (∀ id, R.Works (body id)) ∧ (∀ e, ∃ e', k (.error e) = .throw e') ∧
      Tends (k (.ok ()))

/-- The process of the owner keeps the resource open from `s` on, or closes it. -/
def Owns : {α : Type} → Proc L ε ι α → S → Prop
  | _, .pure _, _ => True
  | _, .throw _, _ => True
  | _, .call l k, s => ∀ s', R.Same s s' → (∀ e, Owns (k (.error e)) s') ∧
      ∀ a ws, Runs (R.SameSeen sys s') [] (sys.body l) ws a → R.May s' l a ws →
        (R.Open (sys.applyAll ws s') ∧ Owns (k (.ok a)) (sys.applyAll ws s')) ∨
        (R.Closed (sys.applyAll ws s') ∧ R.Aside (k (.ok a)))
  | _, .all _ _ body k, _ => (∀ id, R.Works (body id)) ∧ (∀ e, ∃ e', k (.error e) = .throw e') ∧
      ∀ s, R.Open s → Owns (k (.ok ())) s

/-- The process of a thread of a pool leaves the resource alone, or makes it and owns it.  No
worker makes it. -/
def Clear (pool : Option Nat) : {α : Type} → Proc L ε ι α → Prop
  | _, .pure _ => True
  | _, .throw _ => True
  | _, .call l k => R.aside l ∧ (∀ e, Clear pool (k (.error e))) ∧
      ∀ a, (¬ R.makes l a → Clear pool (k (.ok a))) ∧
        (R.makes l a → pool = none ∧ ∀ s, R.Open s → R.Owns sys (k (.ok a)) s)
  | _, .all _ _ body k => (∀ id, R.Aside (body id)) ∧ ∀ r, Clear pool (k r)

/-- The process may come after the resource was closed on `s₀`. -/
def Later (s₀ : S) : {α : Type} → Proc L ε ι α → Prop
  | _, .pure _ => True
  | _, .throw _ => True
  | _, .call l k => R.later s₀ l ∧ (∀ e, Later s₀ (k (.error e))) ∧
      ∀ a ws, Runs (R.SameSeen sys s₀) [] (sys.body l) ws a → Later s₀ (k (.ok a))
  | _, .all _ ids body k => (∀ id ∈ ids, Later s₀ (body id)) ∧ ∀ r, Later s₀ (k r)

/-- The statements of the transaction were executed on stores with the same resource. -/
def Tracked (s : S) : Code Q L ε W ι ρ → Prop
  | .opened l h t _ => Path (sys.body l) h t ∧ Holds (R.SameSeen sys s) [] h
  | _ => True

/-- The code of a thread that leaves the resource alone. -/
def ClearCode (pool : Option Nat) : Code Q L ε W ι ρ → Prop
  | .run p => R.Clear sys pool p
  | .opened l _ _ k => R.Clear sys pool (.call l k)
  | .await _ k => ∀ r, R.Clear sys pool (k r)

/-- The code of a worker of the owner. -/
def WorksCode : Code Q L ε W ι ρ → Prop
  | .run p => R.Works p
  | .opened l _ _ k => R.Works (.call l k)
  | .await _ _ => False

/-- The code of a thread that came after the resource was closed on `s₀`. -/
def LaterCode (s₀ : S) (code : Code Q L ε W ι ρ) : Prop :=
  R.Tracked sys s₀ code ∧ match code with
    | .run p => R.Later sys s₀ p
    | .opened l _ _ k => R.Later sys s₀ (.call l k)
    | .await _ k => ∀ r, R.Later sys s₀ (k r)

end Processes

section Bind

variable {R : Resource L S W} {sys : System Q L ε S W C κ ι K ρ}

theorem Aside.bind {p : Proc L ε ι α} {f : α → Proc L ε ι β} (hp : R.Aside p)
    (hf : ∀ a, R.Aside (f a)) : R.Aside (p >>= f) := by
  induction p with
  | pure a => exact hf a
  | throw e => trivial
  | call l k ih => exact ⟨hp.1, hp.2.1, fun r => ih r (hp.2.2 r) hf⟩
  | all n ids body k _ ih => exact ⟨hp.1, fun r => ih r (hp.2 r) hf⟩

theorem Aside.transaction {l : L α} (hl : R.aside l) (hmakes : ∀ a, ¬ R.makes l a) :
    R.Aside (Proc.transaction l : Proc L ε ι α) := by
  refine ⟨hl, hmakes, fun r => ?_⟩
  cases r with
  | ok a => trivial
  | error e => trivial

/-- A transaction with a handler for its failure. -/
theorem Aside.orElse {l : L α} {f : ε → Proc L ε ι α} (hl : R.aside l) (hmakes : ∀ a, ¬ R.makes l a)
    (hf : ∀ e, R.Aside (f e)) : R.Aside ((Proc.transaction l).orElse f) := by
  refine ⟨hl, hmakes, fun r => ?_⟩
  cases r with
  | ok a => trivial
  | error e => exact hf e

theorem Aside.pool {n : Nat} {ids : List ι} {body : ι → Proc L ε ι Unit}
    (hbody : ∀ id, R.Aside (body id)) : R.Aside (Proc.pool n ids body) := by
  refine ⟨hbody, fun r => ?_⟩
  cases r with
  | ok u => trivial
  | error e => trivial

/-- A transaction that may make the resource, and the rest. -/
theorem Clear.transaction_bind {pool : Option Nat} {l : L α} {f : α → Proc L ε ι β} (hl : R.aside l)
    (hf : ∀ a, (¬ R.makes l a → R.Clear sys pool (f a)) ∧
      (R.makes l a → pool = none ∧ ∀ s, R.Open s → R.Owns sys (f a) s)) :
    R.Clear sys pool (Proc.transaction l >>= f) := ⟨hl, fun _ => trivial, hf⟩

theorem Aside.clear {pool : Option Nat} {p : Proc L ε ι α} (hp : R.Aside p) :
    R.Clear sys pool p := by
  induction p with
  | pure a => trivial
  | throw e => trivial
  | call l k ih =>
      obtain ⟨hl, hmakes, hk⟩ := hp
      exact ⟨hl, fun e => ih _ (hk _), fun a => ⟨fun _ => ih _ (hk _), fun hm => (hmakes a hm).elim⟩⟩
  | all n ids body k _ ih => exact ⟨hp.1, fun r => ih r (hp.2 r)⟩

theorem Works.bind {p : Proc L ε ι α} {f : α → Proc L ε ι β} (hp : R.Works p)
    (hf : ∀ a, R.Works (f a)) : R.Works (p >>= f) := by
  induction p with
  | pure a => exact hf a
  | throw e => trivial
  | call l k ih => exact ⟨hp.1, fun r => ih r (hp.2 r) hf⟩
  | all n ids body k _ _ => exact hp.elim

/-- A process that ends with the error of a pool still does when more follows. -/
theorem throws_bind {k : Except ε Unit → Proc L ε ι α} {f : α → Proc L ε ι β}
    (h : ∀ e, ∃ e', k (.error e) = .throw e') (e : ε) : ∃ e', (k (.error e)).bind f = .throw e' := by
  obtain ⟨e', he'⟩ := h e
  exact ⟨e', by rw [he']; rfl⟩

theorem Tends.bind {p : Proc L ε ι α} {f : α → Proc L ε ι β} (hp : R.Tends p)
    (hf : ∀ a, R.Tends (f a)) : R.Tends (p >>= f) := by
  induction p with
  | pure a => exact hf a
  | throw e => trivial
  | call l k ih => exact ⟨hp.1, fun r => ih r (hp.2 r) hf⟩
  | all n ids body k _ ih =>
      obtain ⟨hbody, herror, hk⟩ := hp
      exact ⟨hbody, throws_bind herror, ih (.ok ()) hk hf⟩

theorem Tends.transaction {l : L α} (hl : R.works l) : R.Tends (Proc.transaction l : Proc L ε ι α) := by
  refine ⟨hl, fun r => ?_⟩
  cases r with
  | ok a => trivial
  | error e => trivial

theorem Tends.orElse {l : L α} {f : ε → Proc L ε ι α} (hl : R.works l) (hf : ∀ e, R.Tends (f e)) :
    R.Tends ((Proc.transaction l).orElse f) := by
  refine ⟨hl, fun r => ?_⟩
  cases r with
  | ok a => trivial
  | error e => exact hf e

theorem Tends.pool {n : Nat} {ids : List ι} {body : ι → Proc L ε ι Unit}
    (hbody : ∀ id, R.Works (body id)) : R.Tends (Proc.pool n ids body) :=
  ⟨hbody, fun e => ⟨e, rfl⟩, trivial⟩

/-- Keep the resource open, and then go on as its owner. -/
theorem Tends.owns (hopen : ∀ {s s'}, R.Same s s' → R.Open s → R.Open s')
    (hworks : ∀ {β : Type} {s} {l : L β} {a ws}, R.May s l a ws → R.works l → R.Open s →
      R.Open (sys.applyAll ws s)) {p : Proc L ε ι α} {f : α → Proc L ε ι β} (hp : R.Tends p)
    (hf : ∀ a s, R.Open s → R.Owns sys (f a) s) : ∀ s, R.Open s → R.Owns sys (p >>= f) s := by
  induction p with
  | pure a => exact hf a
  | throw e => exact fun _ _ => trivial
  | call l k ih =>
      intro s hs s' hsame
      have hs' := hopen hsame hs
      refine ⟨fun e => ih _ (hp.2 _) hf s' hs', fun a ws _ hmay => Or.inl ?_⟩
      have hafter := hworks hmay hp.1 hs'
      exact ⟨hafter, ih _ (hp.2 _) hf _ hafter⟩
  | all n ids body k _ ih =>
      obtain ⟨hbody, herror, hk⟩ := hp
      exact fun s _ => ⟨hbody, throws_bind herror, ih (.ok ()) hk hf⟩

theorem Later.bind {s₀ : S} {p : Proc L ε ι α} {f : α → Proc L ε ι β} (hp : R.Later sys s₀ p)
    (hf : ∀ a, R.Later sys s₀ (f a)) : R.Later sys s₀ (p >>= f) := by
  induction p with
  | pure a => exact hf a
  | throw e => trivial
  | call l k ih =>
      exact ⟨hp.1, fun e => ih _ (hp.2.1 e) hf, fun a ws hr => ih _ (hp.2.2 a ws hr) hf⟩
  | all n ids body k _ ih => exact ⟨hp.1, fun r => ih r (hp.2 r) hf⟩

theorem Later.transaction_bind {s₀ : S} {l : L α} {f : α → Proc L ε ι β} (hl : R.later s₀ l)
    (hf : ∀ a ws, Runs (R.SameSeen sys s₀) [] (sys.body l) ws a → R.Later sys s₀ (f a)) :
    R.Later sys s₀ (Proc.transaction l >>= f) := ⟨hl, fun _ => trivial, hf⟩

theorem Later.pool {s₀ : S} {n : Nat} {ids : List ι} {body : ι → Proc L ε ι Unit}
    (hbody : ∀ id ∈ ids, R.Later sys s₀ (body id)) : R.Later sys s₀ (Proc.pool n ids body) := by
  refine ⟨hbody, fun r => ?_⟩
  cases r with
  | ok u => trivial
  | error e => trivial

theorem Clear.discard {pool : Option Nat} {p : Proc L ε ι Unit} (hp : R.Aside p) (a : α) :
    R.Clear sys pool (p.discard a) :=
  Aside.clear (Aside.bind (f := fun _ => .pure a) hp fun _ => trivial)

/-! ## Code -/

theorem steady_clear {pool : Option Nat} : Steady sys (R.ClearCode sys pool) R.Aside where
  pure := fun _ => trivial
  begin := fun _ _ hx => hx
  error := fun _ _ _ _ e hx => hx.2.1 e
  fork := fun _ _ _ _ hx => ⟨fun _ => hx.2, fun id _ => hx.1 id⟩
  resume := fun _ _ r hx => hx r
  take := fun _ a hy => Clear.discard hy a

theorem steady_works (sys : System Q L ε S W C κ ι K ρ) : Steady sys (R.WorksCode (Q := Q)) R.Works where
  pure := fun _ => trivial
  begin := fun _ _ hx => hx
  error := fun _ _ _ _ e hx => hx.2 (.error e)
  fork := fun _ _ _ _ hx => hx.elim
  resume := fun _ _ _ hx => hx.elim
  take := fun _ _ hy => Works.bind (f := fun _ => .pure _) hy fun _ => trivial

theorem steady_later {s₀ : S} : Steady sys (R.LaterCode sys s₀) (R.Later sys s₀) where
  pure := fun _ => ⟨trivial, trivial⟩
  begin := fun _ _ hx => ⟨⟨.nil, trivial⟩, hx.2⟩
  error := fun _ _ _ _ e hx => ⟨trivial, hx.2.2.1 e⟩
  fork := fun _ _ _ _ hx => ⟨fun _ => ⟨trivial, hx.2.2⟩, hx.2.1⟩
  resume := fun _ _ r hx => ⟨trivial, hx.2 r⟩
  take := fun _ _ hy => ⟨trivial, Later.bind (f := fun _ => .pure _) hy fun _ => trivial⟩

theorem Tracked.statement {s : S} {l : L β} {h : List (Event Q W)} {q : Q α} {k' : α → Tx Q ε β}
    {k : Except ε β → Proc L ε ι ρ} {r : α} {ws : List W}
    (ht : R.Tracked sys s (.opened l h (.query q k') k)) (hev : R.SameSeen sys s (writes h) ⟨q, r, ws⟩) :
    R.Tracked sys s (.opened l (h ++ [⟨q, r, ws⟩]) (k' r) k) :=
  ⟨ht.1.snoc rfl r ws, holds_append.mpr ⟨ht.2, by simpa using hev⟩⟩

theorem Tracked.runs {s : S} {l : L β} {h : List (Event Q W)} {a : β} {k : Except ε β → Proc L ε ι ρ}
    (ht : R.Tracked sys s (.opened l h (.pure a) k)) :
    Runs (R.SameSeen sys s) [] (sys.body l) (writes h) a := runs_of_completes ht.1 ht.2

theorem Tracked.same {s s' : S} (htrans : ∀ {s₁ s₂ s₃}, R.Same s₁ s₂ → R.Same s₂ s₃ → R.Same s₁ s₃)
    (hsame : R.Same s s') {code : Code Q L ε W ι ρ} (ht : R.Tracked sys s code) :
    R.Tracked sys s' code := by
  cases code with
  | opened l h t k =>
      refine ⟨ht.1, ht.2.mono fun p e _ hseen => ?_⟩
      obtain ⟨s₁, ch, hs₁, hexec⟩ := hseen
      exact ⟨s₁, ch, htrans hs₁ hsame, hexec⟩
  | _ => trivial

end Bind

/-! ## Phases -/

section Phases

variable (R : Resource L S W) (sys : System Q L ε S W C κ ι K ρ)

/-- What has to be shown of a resource, for schedules restricted by `ok`. -/
structure Lawful [DecidableEq κ] (ok : Config Q L ε S W ι K ρ → Action C K → Bool) : Prop where
  same : Equivalence R.Same
  same_absent : ∀ {s s'}, R.Same s s' → R.Absent s → R.Absent s'
  same_open : ∀ {s s'}, R.Same s s' → R.Open s → R.Open s'
  same_closed : ∀ {s s'}, R.Same s s' → R.Closed s → R.Closed s'
  aside : ∀ {β : Type} {s} {l : L β} {a ws}, R.May s l a ws → R.aside l → ¬ R.makes l a →
    R.Same s (sys.applyAll ws s)
  absent_of_makes : ∀ {β : Type} {s} {l : L β} {a ws}, R.May s l a ws → R.aside l → R.makes l a →
    R.Absent s ∧ R.Open (sys.applyAll ws s)
  works : ∀ {β : Type} {s} {l : L β} {a ws}, R.May s l a ws → R.works l → R.Open s →
    R.Open (sys.applyAll ws s)
  later : ∀ {β : Type} {s₀ s} {l : L β} {a ws}, R.May s l a ws → R.Closed s₀ → R.Same s₀ s →
    R.later s₀ l → R.spares l ws → R.Same s (sys.applyAll ws s)
  not_absent : ∀ {s}, R.Open s ∨ R.Closed s → ¬ R.Absent s
  start : ∀ c call, ok c (.start call) = true → R.Clear sys none (sys.program call) ∨
    (¬ R.Absent c.store ∧ ¬ R.Open c.store ∧
      ∀ s₀, R.Closed s₀ → R.Same s₀ c.store → R.Later sys s₀ (sys.program call))
  spared : ∀ (c : Config Q L ε S W ι K ρ) i ch call pool {β : Type} (l : L β) h a k,
    ok c (.advance i ch) = true → c.threads[i]? = some ⟨call, pool, .opened l h (.pure a) k⟩ →
    R.Closed c.store → R.spares l (writes h)

/-- The workers of pool `n` ended, and no item is left. -/
def Dead (c : Config Q L ε S W ι K ρ) (n : Nat) : Prop :=
  (∀ (i : Nat) (th : Thread Q L ε W ι K ρ), c.threads[i]? = some th → th.pool = some n →
    ∃ a, th.code = .run (.pure a)) ∧
  ∀ pl : Pool L ε ι, c.pools[n]? = some pl → pl.queue = []

/-- The code of the owner of the resource, whose pools are `N`. -/
def OwnerCode (N : Nat → Prop) (s : S) : Code Q L ε W ι ρ → Prop
  | .run p => R.Owns sys p s
  | .opened l _ _ k => R.Owns sys (.call l k) s
  | .await n k => N n ∧ (∀ e, ∃ e', k (.error e) = .throw e') ∧
      ∀ s, R.Open s → R.Owns sys (k (.ok ())) s

/-- The thread is a worker of one of the pools `N`. -/
def Member (N : Nat → Prop) (th : Thread Q L ε W ι K ρ) : Prop := ∃ n, th.pool = some n ∧ N n

/-- The thread `i` owns the resource, and its pools are `N`. -/
structure Owned (i : Nat) (N : Nat → Prop) (c : Config Q L ε S W ι K ρ) : Prop where
  open_ : R.Open c.store
  owner : ∃ call code, c.threads[i]? = some ⟨call, none, code⟩ ∧ R.OwnerCode sys N c.store code ∧
    R.Tracked sys c.store code ∧ ∀ n, N n → Dead c n ∨ ∃ k, code = .await n k
  worker : ∀ (j : Nat) (th : Thread Q L ε W ι K ρ), c.threads[j]? = some th → j ≠ i →
    Member N th → R.WorksCode th.code
  other : ∀ (j : Nat) (th : Thread Q L ε W ι K ρ), c.threads[j]? = some th → j ≠ i →
    ¬ Member N th → R.ClearCode sys th.pool th.code
  works : ∀ (n : Nat) (pl : Pool L ε ι), c.pools[n]? = some pl → N n →
    ∀ id ∈ pl.queue, R.Works (pl.body id)
  aside : ∀ (n : Nat) (pl : Pool L ε ι), c.pools[n]? = some pl → ¬ N n →
    ∀ id ∈ pl.queue, R.Aside (pl.body id)
  bound : ∀ n, N n → n < c.pools.length

/-- Where the resource is in its life. -/
inductive Phase (c : Config Q L ε S W ι K ρ) : Prop where
  | absent : R.Absent c.store → c.Each R.Aside (R.ClearCode sys) → Phase c
  | owned {i : Nat} {N : Nat → Prop} : R.Owned sys i N c → Phase c
  | orphaned : R.Open c.store → c.Each (fun p => R.Aside p ∨ R.Works p)
      (fun pool code => R.ClearCode sys pool code ∨ R.WorksCode code) → Phase c
  | closed {s₀ : S} : R.Closed s₀ → R.Same s₀ c.store →
      c.Each (fun p => R.Aside p ∨ R.Later sys s₀ p)
        (fun pool code => R.ClearCode sys pool code ∨ R.LaterCode sys s₀ code) → Phase c

end Phases

/-! ## Steps -/

section Steps

variable [DecidableEq κ] {R : Resource L S W} {sys : System Q L ε S W C κ ι K ρ}
  {ok : Config Q L ε S W ι K ρ → Action C K → Bool} {c c' : Config Q L ε S W ι K ρ} {a : Action C K}

/-- A step leaves the store, or commits a transaction. -/
theorem store_cases (hstep : sys.step c a = some c') : c'.store = c.store ∨
    ∃ (i : Nat) (ch : C) (call : K) (pool : Option Nat) (β : Type) (l : L β)
      (h : List (Event Q W)) (x : β) (k : Except ε β → Proc L ε ι ρ), a = .advance i ch ∧
      c.threads[i]? = some ⟨call, pool, .opened l h (.pure x) k⟩ ∧
      c'.store = sys.applyAll (writes h) c.store := by
  cases step_cases hstep with
  | commit hth => exact Or.inr ⟨_, _, _, _, _, _, _, _, _, rfl, hth, rfl⟩
  | _ => exact Or.inl rfl

/-- Every commit of the configuration is one that may be made. -/
def Mays (R : Resource L S W) (c : Config Q L ε S W ι K ρ) : Prop :=
  ∀ (i : Nat) (call : K) (pool : Option Nat) (β : Type) (l : L β) (h : List (Event Q W)) (x : β)
    (k : Except ε β → Proc L ε ι ρ), c.threads[i]? = some ⟨call, pool, .opened l h (.pure x) k⟩ →
    R.May c.store l x (writes h)

variable (hR : R.Lawful sys ok) (hmay : R.Mays c) (hok : ok c a = true)

include hR hmay

/-- A thread that leaves the resource alone does so when it commits, while the resource is there. -/
theorem Lawful.clear_commit {i : Nat} {call : K} {pool : Option Nat} {l : L β}
    {h : List (Event Q W)} {x : β} {k : Except ε β → Proc L ε ι ρ}
    (hth : c.threads[i]? = some ⟨call, pool, .opened l h (.pure x) k⟩)
    (hclear : R.Clear sys pool (.call l k)) (hpresent : ¬ R.Absent c.store) :
    R.Same c.store (sys.applyAll (writes h) c.store) ∧
      R.Clear sys pool (k (.ok x)) := by
  have hm := hmay i call pool β l h x k hth
  have hmakes : ¬ R.makes l x := fun hmade => hpresent (hR.absent_of_makes hm hclear.1 hmade).1
  exact ⟨hR.aside hm hclear.1 hmakes, (hclear.2.2 x).1 hmakes⟩

include hok

theorem Lawful.absent_step (habsent : R.Absent c.store) (heach : c.Each R.Aside (R.ClearCode sys))
    (hstep : sys.step c a = some c') : R.Phase sys c' := by
  by_cases hmade : ∃ (i : Nat) (ch : C) (call : K) (pool : Option Nat) (β : Type) (l : L β)
      (h : List (Event Q W)) (x : β) (k : Except ε β → Proc L ε ι ρ), a = .advance i ch ∧
      c.threads[i]? = some ⟨call, pool, .opened l h (.pure x) k⟩ ∧ R.makes l x
  · obtain ⟨i, ch, call, pool, β, l, h, x, k, rfl, hth, hmakes⟩ := hmade
    have hclear : R.Clear sys pool (.call l k) := heach.thread i _ hth
    obtain ⟨rfl, howns⟩ := (hclear.2.2 x).2 hmakes
    have hopen := (hR.absent_of_makes (hmay _ _ _ _ _ _ _ _ hth) hclear.1 hmakes).2
    rw [step_commit hth] at hstep
    obtain rfl := Option.some.inj hstep
    refine .owned (i := i) (N := fun _ => False) ⟨hopen, ⟨call, .run (k (.ok x)), ?_, howns _ hopen,
      trivial, fun _ hn => hn.elim⟩, fun j th _ _ hm => ?_, fun j th hj hne _ => ?_,
      fun _ _ _ hn => hn.elim, fun n pl hpl _ => heach.pool n pl hpl, fun _ hn => hn.elim⟩
    · exact List.getElem?_set_self (List.getElem?_eq_some_iff.mp hth).1
    · obtain ⟨n, -, hn⟩ := hm
      exact hn.elim
    · rcases Rules.getElem?_set_cases hj with ⟨rfl, -⟩ | ⟨-, hold⟩
      · exact absurd rfl hne
      · exact heach.thread j th hold
  · have hnot : ∀ {β : Type} (i : Nat) (ch : C) (call : K) (pool : Option Nat) (l : L β)
        (h : List (Event Q W)) (x : β) (k : Except ε β → Proc L ε ι ρ), a = .advance i ch →
        c.threads[i]? = some ⟨call, pool, .opened l h (.pure x) k⟩ → ¬ R.makes l x :=
      fun i ch call pool l h x k ha hth hm =>
        hmade ⟨i, ch, call, pool, _, l, h, x, k, ha, hth, hm⟩
    refine .absent ?_ (heach.step (fun _ => steady_clear) hstep (fun call hcall => ?_) ?_ ?_)
    · rcases store_cases hstep with hsame | ⟨i, ch, call, pool, β, l, h, x, k, ha, hth, hstore⟩
      · rw [hsame]
        exact habsent
      · have hclear : R.Clear sys pool (.call l k) := heach.thread i _ hth
        rw [hstore]
        exact hR.same_absent (hR.aside (hmay _ _ _ _ _ _ _ _ hth) hclear.1
          (hnot i ch call pool l h x k ha hth)) habsent
    · subst hcall
      rcases hR.start c call hok with hclear | ⟨hpresent, -, -⟩
      · exact hclear
      · exact absurd habsent hpresent
    · intro β γ i ch call pool l h q k' k r ws _ _ hx
      exact hx
    · intro β i ch call pool l h x k ha hth hx
      exact (hx.2.2 x).1 (hnot i ch call pool l h x k ha hth)

theorem Lawful.orphaned_step (hopen : R.Open c.store)
    (heach : c.Each (fun p => R.Aside p ∨ R.Works p)
      (fun pool code => R.ClearCode sys pool code ∨ R.WorksCode code))
    (hstep : sys.step c a = some c') : R.Phase sys c' := by
  have hpresent := hR.not_absent (Or.inl hopen)
  refine .orphaned ?_
    (heach.step (fun _ => steady_clear.or (steady_works sys)) hstep (fun call hcall => ?_) ?_ ?_)
  · rcases store_cases hstep with hsame | ⟨i, ch, call, pool, β, l, h, x, k, ha, hth, hstore⟩
    · rw [hsame]
      exact hopen
    · rw [hstore]
      cases heach.thread i _ hth with
      | inl hclear => exact hR.same_open (hR.clear_commit hmay hth hclear hpresent).1 hopen
      | inr hworks => exact hR.works (hmay _ _ _ _ _ _ _ _ hth) hworks.1 hopen
  · subst hcall
    rcases hR.start c call hok with hclear | ⟨-, hnot, -⟩
    · exact Or.inl hclear
    · exact absurd hopen hnot
  · intro β γ i ch call pool l h q k' k r ws _ _ hx
    exact hx
  · intro β i ch call pool l h x k ha hth hx
    cases hx with
    | inl hclear => exact Or.inl (hR.clear_commit hmay hth hclear hpresent).2
    | inr hworks => exact Or.inr (hworks.2 _)

theorem Lawful.closed_step {s₀ : S} (hclosed : R.Closed s₀) (hsame : R.Same s₀ c.store)
    (heach : c.Each (fun p => R.Aside p ∨ R.Later sys s₀ p)
      (fun pool code => R.ClearCode sys pool code ∨ R.LaterCode sys s₀ code))
    (hstep : sys.step c a = some c') : R.Phase sys c' := by
  have hnow := hR.same_closed hsame hclosed
  have hpresent := hR.not_absent (Or.inr hnow)
  refine .closed hclosed ?_
    (heach.step (fun _ => steady_clear.or steady_later) hstep (fun call hcall => ?_) ?_ ?_)
  · rcases store_cases hstep with heq | ⟨i, ch, call, pool, β, l, h, x, k, ha, hth, hstore⟩
    · rw [heq]
      exact hsame
    · rw [hstore]
      subst ha
      refine hR.same.trans hsame ?_
      cases heach.thread i _ hth with
      | inl hclear => exact (hR.clear_commit hmay hth hclear hpresent).1
      | inr hlater =>
          exact hR.later (hmay _ _ _ _ _ _ _ _ hth) hclosed hsame hlater.2.1
            (hR.spared c i ch call pool l h x k hok hth hnow)
  · subst hcall
    rcases hR.start c call hok with hclear | ⟨-, -, hlater⟩
    · exact Or.inl hclear
    · exact Or.inr ⟨trivial, hlater s₀ hclosed hsame⟩
  · intro β γ i ch call pool l h q k' k r ws hth hexec hx
    refine hx.imp id fun hlater => ⟨hlater.1.statement ?_, hlater.2⟩
    exact ⟨c.store, ch, hR.same.symm hsame, hexec⟩
  · intro β i ch call pool l h x k ha hth hx
    cases hx with
    | inl hclear => exact Or.inl (hR.clear_commit hmay hth hclear hpresent).2
    | inr hlater => exact Or.inr ⟨trivial, hlater.2.2.2 x _ hlater.1.runs⟩

end Steps

/-! ## Steps while the resource is owned -/

section Owned

variable [DecidableEq κ] {R : Resource L S W} {sys : System Q L ε S W C κ ι K ρ}
  {c c' : Config Q L ε S W ι K ρ} {i j : Nat} {N : Nat → Prop} {call : K} {pool : Option Nat}
  {code code' : Code Q L ε W ι ρ}

omit [DecidableEq κ] in
theorem Dead.put {n : Nat} (h : Dead c n) (hth : c.threads[j]? = some ⟨call, pool, code⟩)
    (hlive : ∀ a, code ≠ .run (.pure a)) (s' : S) :
    Dead (c.put j ⟨call, pool, code'⟩ s') n := by
  refine ⟨fun j' th hj' hpool => ?_, h.2⟩
  rcases Rules.getElem?_set_cases hj' with ⟨-, rfl⟩ | ⟨-, hold⟩
  · obtain ⟨a, ha⟩ := h.1 j _ hth hpool
    exact absurd ha (hlive a)
  · exact h.1 j' th hold hpool

omit [DecidableEq κ] in
/-- Another thread goes on. -/
theorem Owned.put_other (h : R.Owned sys i N c) (hth : c.threads[j]? = some ⟨call, pool, code⟩)
    (hj : j ≠ i) (hlive : ∀ a, code ≠ .run (.pure a)) {s' : S} (hopen : R.Open s')
    (howner : ∀ owned : Code Q L ε W ι ρ, R.OwnerCode sys N c.store owned → R.Tracked sys c.store owned →
      (∀ n, N n → Dead c n ∨ ∃ k, owned = .await n k) →
      R.OwnerCode sys N s' owned ∧ R.Tracked sys s' owned)
    (hworks : (∃ n, pool = some n ∧ N n) → R.WorksCode code')
    (hclear : (¬ ∃ n, pool = some n ∧ N n) → R.ClearCode sys pool code') :
    R.Owned sys i N (c.put j ⟨call, pool, code'⟩ s') := by
  obtain ⟨call₁, owned, hi, howns, htracked, hjoined⟩ := h.owner
  obtain ⟨howns', htracked'⟩ := howner owned howns htracked hjoined
  refine ⟨hopen, ⟨call₁, owned, ?_, howns', htracked', fun n hn => ?_⟩, fun j' th hj' hne hm => ?_,
    fun j' th hj' hne hm => ?_, h.works, h.aside, h.bound⟩
  · simp only [Config.put, List.getElem?_set_ne hj]
    exact hi
  · exact (hjoined n hn).imp (fun hdead => hdead.put hth hlive s') id
  · rcases Rules.getElem?_set_cases hj' with ⟨rfl, rfl⟩ | ⟨-, hold⟩
    · exact hworks hm
    · exact h.worker j' th hold hne hm
  · rcases Rules.getElem?_set_cases hj' with ⟨rfl, rfl⟩ | ⟨-, hold⟩
    · exact hclear hm
    · exact h.other j' th hold hne hm

omit [DecidableEq κ] in
/-- The owner goes on. -/
theorem Owned.put_owner (h : R.Owned sys i N c) (hth : c.threads[i]? = some ⟨call, none, code⟩)
    {s' : S} (hopen : R.Open s') (howns : R.OwnerCode sys N s' code') (htracked : R.Tracked sys s' code')
    (hdead : ∀ n, N n → Dead c n) : R.Owned sys i N (c.put i ⟨call, none, code'⟩ s') := by
  refine ⟨hopen, ⟨call, code', ?_, howns, htracked, fun n hn => Or.inl ⟨fun j th hj hpool => ?_, ?_⟩⟩,
    fun j th hj hne hm => ?_, fun j th hj hne hm => ?_, h.works, h.aside, h.bound⟩
  · exact List.getElem?_set_self (List.getElem?_eq_some_iff.mp hth).1
  · rcases Rules.getElem?_set_cases hj with ⟨-, rfl⟩ | ⟨-, hold⟩
    · cases hpool
    · exact (hdead n hn).1 j th hold hpool
  · exact (hdead n hn).2
  · rcases Rules.getElem?_set_cases hj with ⟨rfl, -⟩ | ⟨-, hold⟩
    · exact absurd rfl hne
    · exact h.worker j th hold hne hm
  · rcases Rules.getElem?_set_cases hj with ⟨rfl, -⟩ | ⟨-, hold⟩
    · exact absurd rfl hne
    · exact h.other j th hold hne hm

omit [DecidableEq κ] in
theorem Owns.same (htrans : ∀ {s₁ s₂ s₃}, R.Same s₁ s₂ → R.Same s₂ s₃ → R.Same s₁ s₃) {s s' : S}
    (hsame : R.Same s s') {p : Proc L ε ι α} (h : R.Owns sys p s) : R.Owns sys p s' := by
  cases p with
  | call l k => exact fun s'' hs'' => h s'' (htrans hsame hs'')
  | all n ids body k => exact h
  | _ => trivial

omit [DecidableEq κ] in
theorem OwnerCode.same (htrans : ∀ {s₁ s₂ s₃}, R.Same s₁ s₂ → R.Same s₂ s₃ → R.Same s₁ s₃) {s s' : S}
    (hsame : R.Same s s') (h : R.OwnerCode sys N s code) : R.OwnerCode sys N s' code := by
  cases code with
  | await n k => exact h
  | _ => exact Owns.same htrans hsame h

omit [DecidableEq κ] in
/-- The pool that a thread waits for ended. -/
theorem dead_of_poolResult {n : Nat} (h : c.poolResult n = some (.ok ())) : Dead c n := by
  unfold Config.poolResult at h
  dsimp only at h
  split at h
  · cases h
  · split at h
    · rename_i hrest
      obtain ⟨hworkers, hqueue⟩ := Bool.and_eq_true_iff.mp hrest
      refine ⟨fun j th hj hpool => ?_, fun pl hpl => ?_⟩
      · have hrun := List.all_eq_true.mp hworkers th
          (List.mem_filter.mpr ⟨List.mem_of_getElem? hj, by simp [hpool]⟩)
        cases hcode : th.code with
        | run p =>
            cases p with
            | pure a => exact ⟨a, rfl⟩
            | _ => simp [hcode] at hrun
        | _ => simp [hcode] at hrun
      · rw [hpl] at hqueue
        simpa using hqueue
    · cases h

omit [DecidableEq κ] in
/-- A worker takes an item. -/
theorem Owned.take (h : R.Owned sys i N c) {n : Nat} {a : ρ} {id : ι} {queue : List ι}
    {body : ι → Proc L ε ι Unit} (hth : c.threads[j]? = some ⟨call, some n, .run (.pure a)⟩)
    (hpool : c.pools[n]? = some ⟨id :: queue, body⟩) : R.Owned sys i N
      { c with
        threads := c.threads.set j ⟨call, some n, .run ((body id).discard sys.idle)⟩
        pools := c.pools.set n ⟨queue, body⟩ } := by
  obtain ⟨call₁, owned, hi, howns, htracked, hjoined⟩ := h.owner
  have hne : j ≠ i := by
    rintro rfl
    cases Option.some.inj (hth.symm.trans hi)
  have hold : ∀ {m : Nat} {pl : Pool L ε ι}, (c.pools.set n ⟨queue, body⟩)[m]? = some pl →
      ∃ pl', c.pools[m]? = some pl' ∧ pl'.body = pl.body ∧ ∀ x ∈ pl.queue, x ∈ pl'.queue := by
    intro m pl hpl
    rcases Rules.getElem?_set_cases hpl with ⟨rfl, rfl⟩ | ⟨-, hold⟩
    · exact ⟨_, hpool, rfl, fun x hx => List.mem_cons_of_mem _ hx⟩
    · exact ⟨pl, hold, rfl, fun x hx => hx⟩
  refine ⟨h.open_, ⟨call₁, owned, ?_, howns, htracked, fun m hm => ?_⟩, fun j' th hj' hne' hm => ?_,
    fun j' th hj' hne' hm => ?_, fun m pl hpl hm => ?_, fun m pl hpl hm => ?_, fun m hm => ?_⟩
  · simp only [List.getElem?_set_ne hne]
    exact hi
  · refine (hjoined m hm).imp (fun hdead => ?_) fun hwait => hwait
    have hmn : m ≠ n := by
      rintro rfl
      cases hdead.2 _ hpool
    refine ⟨fun j' th hj' hp => ?_, fun pl hpl => ?_⟩
    · rcases Rules.getElem?_set_cases hj' with ⟨-, rfl⟩ | ⟨-, hold⟩
      · exact absurd (Option.some.inj hp).symm hmn
      · exact hdead.1 j' th hold hp
    · rcases Rules.getElem?_set_cases hpl with ⟨rfl, -⟩ | ⟨-, hold⟩
      · exact absurd rfl hmn
      · exact hdead.2 pl hold
  · rcases Rules.getElem?_set_cases hj' with ⟨rfl, rfl⟩ | ⟨-, hold'⟩
    · obtain ⟨m, hm, hN⟩ := hm
      obtain rfl := Option.some.inj hm
      exact (steady_works sys).take _ _ (h.works n _ hpool hN id (List.mem_cons_self ..))
    · exact h.worker j' th hold' hne' hm
  · rcases Rules.getElem?_set_cases hj' with ⟨rfl, rfl⟩ | ⟨-, hold'⟩
    · exact Clear.discard (h.aside n _ hpool (fun hN => hm ⟨n, rfl, hN⟩) id (List.mem_cons_self ..)) _
    · exact h.other j' th hold' hne' hm
  · obtain ⟨pl', hpl', hbody, hqueue⟩ := hold hpl
    exact fun x hx => hbody ▸ h.works m pl' hpl' hm x (hqueue x hx)
  · obtain ⟨pl', hpl', hbody, hqueue⟩ := hold hpl
    exact fun x hx => hbody ▸ h.aside m pl' hpl' hm x (hqueue x hx)
  · simpa using h.bound m hm

/-- The configuration after thread `j` forked a pool. -/
def forked (sys : System Q L ε S W C κ ι K ρ) (c : Config Q L ε S W ι K ρ) (j : Nat) (call : K)
    (pool : Option Nat) (n : Nat) (ids : List ι) (body : ι → Proc L ε ι Unit)
    (k : Except ε Unit → Proc L ε ι ρ) : Config Q L ε S W ι K ρ :=
  { c with
    threads := c.threads.set j ⟨call, pool, .await c.pools.length k⟩ ++
      List.replicate (min n ids.length) ⟨call, some c.pools.length, .run (.pure sys.idle)⟩
    pools := c.pools ++ [⟨ids, body⟩] }

section Fork

variable {n : Nat} {ids : List ι} {body : ι → Proc L ε ι Unit} {k : Except ε Unit → Proc L ε ι ρ}

omit [DecidableEq κ] in
/-- A thread of the configuration after a fork. -/
theorem thread_of_forked {j' : Nat} {th : Thread Q L ε W ι K ρ}
    (h : (forked sys c j call pool n ids body k).threads[j']? = some th) :
    (j' = j ∧ th = ⟨call, pool, .await c.pools.length k⟩) ∨
      (j' ≠ j ∧ j' < c.threads.length ∧ c.threads[j']? = some th) ∨
      (c.threads.length ≤ j' ∧ th = ⟨call, some c.pools.length, .run (.pure sys.idle)⟩) := by
  rcases Rules.getElem?_append_cases h with ⟨hlt, hold⟩ | ⟨hle, hmem⟩
  · rcases Rules.getElem?_set_cases hold with hj | ⟨hne, hold⟩
    · exact Or.inl hj
    · exact Or.inr (Or.inl ⟨hne, by simpa using hlt, hold⟩)
  · exact Or.inr (Or.inr ⟨by simpa using hle, (List.mem_replicate.mp hmem).2⟩)

omit [DecidableEq κ] in
theorem pool_of_forked {m : Nat} {pl : Pool L ε ι}
    (h : (forked sys c j call pool n ids body k).pools[m]? = some pl) :
    (m < c.pools.length ∧ c.pools[m]? = some pl) ∨ (m = c.pools.length ∧ pl = ⟨ids, body⟩) := by
  rcases Rules.getElem?_append_cases h with hold | ⟨hle, hmem⟩
  · exact Or.inl hold
  · have hlt := (List.getElem?_eq_some_iff.mp h).1
    simp only [forked, List.length_append, List.length_singleton] at hlt
    exact Or.inr ⟨by omega, List.mem_singleton.mp hmem⟩

omit [DecidableEq κ] in
theorem Dead.forked {m : Nat} (h : Dead c m) (hm : m < c.pools.length)
    (hth : c.threads[j]? = some ⟨call, pool, .run (.all n ids body k)⟩) :
    Dead (forked sys c j call pool n ids body k) m := by
  refine ⟨fun j' th hj' hpool => ?_, fun pl hpl => ?_⟩
  · rcases thread_of_forked hj' with ⟨-, rfl⟩ | ⟨-, -, hold⟩ | ⟨-, rfl⟩
    · obtain ⟨a, ha⟩ := h.1 j _ hth hpool
      cases ha
    · exact h.1 j' th hold hpool
    · exact ⟨_, rfl⟩
  · rcases pool_of_forked hpl with ⟨-, hold⟩ | ⟨hlen, -⟩
    · exact h.2 pl hold
    · exact absurd hm hlen.not_lt

omit [DecidableEq κ] in
/-- A thread that leaves the resource alone forks a pool. -/
theorem Owned.fork_other (h : R.Owned sys i N c)
    (hth : c.threads[j]? = some ⟨call, pool, .run (.all n ids body k)⟩) (hj : j ≠ i) :
    R.Owned sys i N (forked sys c j call pool n ids body k) := by
  obtain ⟨call₁, owned, hi, howns, htracked, hjoined⟩ := h.owner
  have hmember : ¬ Member N (⟨call, pool, .run (.all n ids body k)⟩ : Thread Q L ε W ι K ρ) :=
    fun hm => h.worker j _ hth hj hm
  have hclear : R.ClearCode sys pool (.run (.all n ids body k) : Code Q L ε W ι ρ) :=
    h.other j _ hth hj hmember
  have hnew : ¬ N c.pools.length := fun hN => Nat.lt_irrefl _ (h.bound _ hN)
  refine ⟨h.open_, ⟨call₁, owned, ?_, howns, htracked, fun m hm => ?_⟩, fun j' th hj' hne hm => ?_,
    fun j' th hj' hne hm => ?_, fun m pl hpl hm => ?_, fun m pl hpl hm => ?_, fun m hm => ?_⟩
  · rw [forked, List.getElem?_append_left (by simpa using (List.getElem?_eq_some_iff.mp hi).1),
      List.getElem?_set_ne hj]
    exact hi
  · exact (hjoined m hm).imp (fun hdead => hdead.forked (h.bound m hm) hth) fun hwait => hwait
  · rcases thread_of_forked hj' with ⟨-, rfl⟩ | ⟨-, -, hold⟩ | ⟨-, rfl⟩
    · exact absurd hm hmember
    · exact h.worker j' th hold hne hm
    · trivial
  · rcases thread_of_forked hj' with ⟨-, rfl⟩ | ⟨-, -, hold⟩ | ⟨-, rfl⟩
    · exact hclear.2
    · exact h.other j' th hold hne hm
    · trivial
  · rcases pool_of_forked hpl with ⟨-, hold⟩ | ⟨hlen, -⟩
    · exact h.works m pl hold hm
    · exact absurd (h.bound m hm) hlen.not_lt
  · rcases pool_of_forked hpl with ⟨-, hold⟩ | ⟨-, rfl⟩
    · exact h.aside m pl hold hm
    · exact fun x _ => hclear.1 x
  · simpa [forked] using (h.bound m hm).trans (Nat.lt_succ_self _)

omit [DecidableEq κ] in
/-- The owner forks a pool, and waits for it. -/
theorem Owned.fork_owner (h : R.Owned sys i N c)
    (hth : c.threads[i]? = some ⟨call, none, .run (.all n ids body k)⟩)
    (hpools : ∀ (j : Nat) (th : Thread Q L ε W ι K ρ) (m : Nat), c.threads[j]? = some th →
      th.pool = some m → m < c.pools.length) :
    R.Owned sys i (fun m => N m ∨ m = c.pools.length) (forked sys c i call none n ids body k) := by
  obtain ⟨call₁, owned, hi, howns, htracked, hjoined⟩ := h.owner
  cases Option.some.inj (hth.symm.trans hi)
  obtain ⟨hworks, hthrow, hgo⟩ : R.Owns sys (.all n ids body k) c.store := howns
  have hlen := (List.getElem?_eq_some_iff.mp hi).1
  refine ⟨h.open_, ⟨call, .await c.pools.length k, ?_, ⟨Or.inr rfl, hthrow, hgo⟩, trivial,
    fun m hm => ?_⟩, fun j th hj hne hm => ?_, fun j th hj hne hm => ?_, fun m pl hpl hm => ?_,
    fun m pl hpl hm => ?_, fun m hm => ?_⟩
  · rw [forked, List.getElem?_append_left (by simpa using hlen)]
    exact List.getElem?_set_self hlen
  · rcases hm with hm | rfl
    · rcases hjoined m hm with hdead | ⟨k', hk'⟩
      · exact Or.inl (hdead.forked (h.bound m hm) hth)
      · cases hk'
    · exact Or.inr ⟨k, rfl⟩
  · rcases thread_of_forked hj with ⟨rfl, -⟩ | ⟨-, -, hold⟩ | ⟨-, rfl⟩
    · exact absurd rfl hne
    · obtain ⟨m, hpool, hm | rfl⟩ := hm
      · exact h.worker j th hold hne ⟨m, hpool, hm⟩
      · exact absurd (hpools j th _ hold hpool) (Nat.lt_irrefl _)
    · trivial
  · rcases thread_of_forked hj with ⟨rfl, -⟩ | ⟨-, -, hold⟩ | ⟨-, rfl⟩
    · exact absurd rfl hne
    · refine h.other j th hold hne fun hold' => hm ?_
      obtain ⟨m, hpool, hN⟩ := hold'
      exact ⟨m, hpool, Or.inl hN⟩
    · trivial
  · rcases pool_of_forked hpl with ⟨-, hold⟩ | ⟨-, rfl⟩
    · rcases hm with hm | rfl
      · exact h.works m pl hold hm
      · exact absurd (List.getElem?_eq_some_iff.mp hold).1 (Nat.lt_irrefl _)
    · exact fun x _ => hworks x
  · rcases pool_of_forked hpl with ⟨-, hold⟩ | ⟨hnew, -⟩
    · exact h.aside m pl hold fun hN => hm (Or.inl hN)
    · exact absurd (Or.inr hnew) hm
  · rcases hm with hm | rfl
    · simpa [forked] using (h.bound m hm).trans (Nat.lt_succ_self _)
    · simp [forked]

end Fork

variable {ok : Config Q L ε S W ι K ρ → Action C K → Bool} (hR : R.Lawful sys ok) (hmay : R.Mays c)

omit [DecidableEq κ] in
/-- The owner has no live worker while it is not waiting. -/
theorem Owned.dead (h : R.Owned sys i N c) (hth : c.threads[i]? = some ⟨call, pool, code⟩)
    (hcode : ∀ n k, code ≠ .await n k) : ∀ n, N n → Dead c n := by
  obtain ⟨call₁, owned, hi, -, -, hjoined⟩ := h.owner
  cases Option.some.inj (hth.symm.trans hi)
  intro n hn
  rcases hjoined n hn with hdead | ⟨k, hk⟩
  · exact hdead
  · exact absurd hk (hcode n k)

omit [DecidableEq κ] in
/-- Without the owner, its workers go on alone. -/
theorem Owned.orphaned (h : R.Owned sys i N c) {e : ε} :
    R.Phase sys (c.goto i ⟨call, none, .run (.throw e)⟩) := by
  classical
  refine .orphaned h.open_ ⟨fun j th hj => ?_, fun n pl hpl id hid => ?_⟩
  · rcases Rules.getElem?_set_cases hj with ⟨-, rfl⟩ | ⟨hne, hold⟩
    · exact Or.inl trivial
    · by_cases hm : Member N th
      · exact Or.inr (h.worker j th hold hne hm)
      · exact Or.inl (h.other j th hold hne hm)
  · by_cases hN : N n
    · exact Or.inr (h.works n pl hpl hN id hid)
    · exact Or.inl (h.aside n pl hpl hN id hid)

include hR hmay

/-- A commit of the owner keeps the resource open, or closes it. -/
theorem Lawful.owner_commit (h : R.Owned sys i N c) {l : L β} {hist : List (Event Q W)} {x : β}
    {k : Except ε β → Proc L ε ι ρ}
    (hth : c.threads[i]? = some ⟨call, pool, .opened l hist (.pure x) k⟩) :
    R.Phase sys (c.put i ⟨call, pool, .run (k (.ok x))⟩ (sys.applyAll (writes hist) c.store)) := by
  classical
  have hdead := h.dead hth fun _ _ => by simp
  obtain ⟨call₁, owned, hi, howns, htracked, -⟩ := h.owner
  cases Option.some.inj (hth.symm.trans hi)
  obtain ⟨-, hok⟩ := howns c.store (hR.same.refl _)
  rcases hok x _ htracked.runs (hmay _ _ _ _ _ _ _ _ hth) with ⟨hopen, howns'⟩ | ⟨hclosed, haside⟩
  · exact .owned (h.put_owner hth hopen howns' trivial hdead)
  · refine .closed hclosed (hR.same.refl _) ⟨fun j th hj => ?_, fun n pl hpl id hid => ?_⟩
    · refine Or.inl ?_
      rcases Rules.getElem?_set_cases hj with ⟨-, rfl⟩ | ⟨hne, hold⟩
      · exact haside.clear
      · by_cases hm : Member N th
        · obtain ⟨n, hpool, hN⟩ := hm
          obtain ⟨a, ha⟩ := (hdead n hN).1 j th hold hpool
          rw [ha]
          trivial
        · exact h.other j th hold hne hm
    · by_cases hN : N n
      · rw [(hdead n hN).2 pl hpl] at hid
        cases hid
      · exact Or.inl (h.aside n pl hpl hN id hid)

/-- A commit of another thread leaves an open resource to its owner. -/
theorem Lawful.other_commit (h : R.Owned sys i N c) (hj : j ≠ i) {l : L β} {hist : List (Event Q W)}
    {x : β} {k : Except ε β → Proc L ε ι ρ}
    (hth : c.threads[j]? = some ⟨call, pool, .opened l hist (.pure x) k⟩) :
    R.Owned sys i N (c.put j ⟨call, pool, .run (k (.ok x))⟩ (sys.applyAll (writes hist) c.store)) := by
  have hm := hmay _ _ _ _ _ _ _ _ hth
  by_cases hmember : ∃ n, pool = some n ∧ N n
  · have hworks : R.WorksCode (.opened l hist (.pure x) k) := h.worker j _ hth hj hmember
    refine h.put_other hth hj (by simp) (hR.works hm hworks.1 h.open_)
      (fun owned howns htracked hjoined => ?_) (fun _ => hworks.2 _) fun hnot => absurd hmember hnot
    -- the owner waits for the pool of the worker
    obtain ⟨n, rfl, hN⟩ := hmember
    rcases hjoined n hN with hdead | ⟨k', rfl⟩
    · obtain ⟨a, ha⟩ := hdead.1 j _ hth rfl
      cases ha
    · exact ⟨howns, trivial⟩
  · have hclear : R.ClearCode sys pool (.opened l hist (.pure x) k) := h.other j _ hth hj hmember
    obtain ⟨hsame, hclear'⟩ := hR.clear_commit hmay hth hclear (hR.not_absent (Or.inl h.open_))
    refine h.put_other hth hj (by simp) (hR.same_open hsame h.open_)
      (fun owned howns htracked _ => ⟨howns.same hR.same.trans hsame,
        htracked.same hR.same.trans hsame⟩) (fun hyes => absurd hyes hmember) fun _ => hclear'

variable {a : Action C K} (hok : ok c a = true)

include hok

theorem Lawful.owned_step (h : R.Owned sys i N c)
    (hpools : ∀ (j : Nat) (th : Thread Q L ε W ι K ρ) (m : Nat), c.threads[j]? = some th →
      th.pool = some m → m < c.pools.length) (hstep : sys.step c a = some c') : R.Phase sys c' := by
  obtain ⟨call₁, owned, hi, howns, htracked, hjoined⟩ := h.owner
  -- another thread goes on, with what its code keeps
  have hother : ∀ {j : Nat} {call : K} {pool : Option Nat} {code code' : Code Q L ε W ι ρ},
      c.threads[j]? = some ⟨call, pool, code⟩ → j ≠ i → (∀ x, code ≠ .run (.pure x)) →
      (R.WorksCode code → R.WorksCode code') →
      (R.ClearCode sys pool code → R.ClearCode sys pool code') →
      R.Owned sys i N (c.goto j ⟨call, pool, code'⟩) := fun hth hj hlive hworks hclear =>
    h.put_other hth hj hlive h.open_ (fun _ ho ht _ => ⟨ho, ht⟩)
      (fun hm => hworks (h.worker _ _ hth hj hm)) fun hm => hclear (h.other _ _ hth hj hm)
  cases step_cases hstep with
  | start call =>
      rcases hR.start c call hok with hclear | ⟨-, hnot, -⟩
      · refine .owned (i := i) (N := N) ⟨h.open_, ⟨call₁, owned, ?_, howns, htracked, fun n hn => ?_⟩,
          fun j th hj hne hm => ?_, fun j th hj hne hm => ?_, h.works, h.aside, h.bound⟩
        · rw [List.getElem?_append_left (List.getElem?_eq_some_iff.mp hi).1]
          exact hi
        · refine (hjoined n hn).imp (fun hdead => ⟨fun j th hj hpool => ?_, hdead.2⟩) fun hwait => hwait
          rcases Rules.getElem?_append_cases hj with ⟨-, hold⟩ | ⟨-, hmem⟩
          · exact hdead.1 j th hold hpool
          · obtain rfl := List.mem_singleton.mp hmem
            cases hpool
        · rcases Rules.getElem?_append_cases hj with ⟨-, hold⟩ | ⟨-, hmem⟩
          · exact h.worker j th hold hne hm
          · obtain rfl := List.mem_singleton.mp hmem
            obtain ⟨n, hn, -⟩ := hm
            cases hn
        · rcases Rules.getElem?_append_cases hj with ⟨-, hold⟩ | ⟨-, hmem⟩
          · exact h.other j th hold hne hm
          · obtain rfl := List.mem_singleton.mp hmem
            exact hclear
      · exact absurd h.open_ hnot
  | crash => exact .orphaned h.open_ ⟨by simp, by simp⟩
  | @begin j _ call pool _ l k hth =>
      by_cases hj : j = i
      · subst hj
        have hdead := h.dead hth fun _ _ => by simp
        cases Option.some.inj (hth.symm.trans hi)
        exact .owned (h.put_owner hth h.open_ howns ⟨.nil, trivial⟩ hdead)
      · exact .owned (hother hth hj (by simp) ((steady_works sys).begin l k) (steady_clear.begin l k))
  | @statement j ch call pool _ _ l hist q k' k r ws hth hexec hfree =>
      by_cases hj : j = i
      · subst hj
        have hdead := h.dead hth fun _ _ => by simp
        cases Option.some.inj (hth.symm.trans hi)
        exact .owned (h.put_owner hth h.open_ howns
          (htracked.statement ⟨c.store, ch, hR.same.refl _, hexec⟩) hdead)
      · exact .owned (hother hth hj (by simp) (fun hx => hx) fun hx => hx)
  | @rollback j _ call pool _ l hist t k e hth hfails =>
      by_cases hj : j = i
      · subst hj
        have hdead := h.dead hth fun _ _ => by simp
        cases Option.some.inj (hth.symm.trans hi)
        exact .owned (h.put_owner hth h.open_ ((howns c.store (hR.same.refl _)).1 e) trivial hdead)
      · exact .owned (hother hth hj (by simp) ((steady_works sys).error l hist t k e)
          (steady_clear.error l hist t k e))
  | @commit j _ call pool _ l hist x k hth =>
      by_cases hj : j = i
      · subst hj
        exact hR.owner_commit hmay h hth
      · exact .owned (hR.other_commit hmay h hj hth)
  | @fork j _ call pool n ids body k hth =>
      by_cases hj : j = i
      · subst hj
        cases Option.some.inj (hth.symm.trans hi)
        exact .owned (h.fork_owner hth hpools)
      · exact .owned (h.fork_other hth hj)
  | take hth hpool => exact .owned (h.take hth hpool)
  | @resume j _ call pool n k r hth hresult =>
      by_cases hj : j = i
      · subst hj
        cases Option.some.inj (hth.symm.trans hi)
        obtain ⟨-, hthrow, hgo⟩ : R.OwnerCode sys N c.store (.await n k) := howns
        cases r with
        | error e =>
            obtain ⟨e', he'⟩ := hthrow e
            rw [he']
            exact h.orphaned
        | ok u =>
            refine .owned (h.put_owner hth h.open_ (hgo c.store h.open_) trivial fun m hm => ?_)
            rcases hjoined m hm with hdead | ⟨k', hk'⟩
            · exact hdead
            · cases hk'
              exact dead_of_poolResult hresult
      · exact .owned (hother hth hj (by simp) (fun hx => hx.elim) (steady_clear.resume n k r))

end Owned

/-! ## Runs -/

section Runs

variable [DecidableEq κ] {R : Resource L S W} {sys : System Q L ε S W C κ ι K ρ}
  {ok : Config Q L ε S W ι K ρ → Action C K → Bool} {c c' : Config Q L ε S W ι K ρ} {s : S}

/-- The pool of a worker exists. -/
theorem pool_lt_of_steps (hrun : Steps sys ok (.initial s) c) {j m : Nat}
    {th : Thread Q L ε W ι K ρ} (hth : c.threads[j]? = some th) (hpool : th.pool = some m) :
    m < c.pools.length := by
  induction hrun generalizing j m th with
  | refl => simp [Config.initial] at hth
  | @tail c₁ c₂ _ hstep ih =>
      obtain ⟨a, -, hstep⟩ := hstep
      have hset : ∀ {i : Nat} {call : K} {pool : Option Nat} {code code' : Code Q L ε W ι ρ},
          c₁.threads[i]? = some ⟨call, pool, code⟩ →
          (c₁.threads.set i ⟨call, pool, code'⟩)[j]? = some th → m < c₁.pools.length := by
        intro i call pool code code' hold hset
        rcases Rules.getElem?_set_cases hset with ⟨-, rfl⟩ | ⟨-, hth'⟩
        · exact ih hold hpool
        · exact ih hth' hpool
      cases step_cases hstep with
      | start call =>
          rcases Rules.getElem?_append_cases hth with ⟨-, hold⟩ | ⟨-, hmem⟩
          · exact ih hold hpool
          · obtain rfl := List.mem_singleton.mp hmem
            cases hpool
      | crash => simp at hth
      | begin hold => exact hset hold hth
      | statement hold _ _ => exact hset hold hth
      | rollback hold _ => exact hset hold hth
      | commit hold => exact hset hold hth
      | fork hold =>
          rw [List.length_append, List.length_singleton]
          rcases Rules.getElem?_append_cases hth with ⟨-, hth'⟩ | ⟨-, hmem⟩
          · exact (hset hold hth').trans (Nat.lt_succ_self _)
          · obtain ⟨-, rfl⟩ := List.mem_replicate.mp hmem
            cases hpool
            exact Nat.lt_succ_self _
      | take hold _ =>
          rw [List.length_set]
          exact hset hold hth
      | resume hold _ => exact hset hold hth

/-- A resource that is absent at the beginning is always in one of its phases. -/
theorem Lawful.phase_of_steps (hR : R.Lawful sys ok) (hs : R.Absent s)
    (hmays : ∀ c, Steps sys ok (.initial s) c → R.Mays c) (hrun : Steps sys ok (.initial s) c) :
    R.Phase sys c := by
  induction hrun with
  | refl => exact .absent hs ⟨by simp [Config.initial], by simp [Config.initial]⟩
  | tail hrun hstep ih =>
      obtain ⟨a, hok, hstep⟩ := hstep
      have hmay := hmays _ hrun
      cases ih with
      | absent habsent heach => exact hR.absent_step hmay hok habsent heach hstep
      | owned howned =>
          exact hR.owned_step hmay hok howned (fun _ _ _ => pool_lt_of_steps hrun) hstep
      | orphaned hopen heach => exact hR.orphaned_step hmay hok hopen heach hstep
      | closed hclosed hsame heach => exact hR.closed_step hmay hok hclosed hsame heach hstep

end Runs

end Resource

end Txn
