import LedgerCredit.Txn.Schedule

/-!
# Stages

A set of processes that is closed under going on, and that forks no pool, holds
the process of a call at every moment of a run once it holds its beginning.  So
what a thread does next is read off the stage it is at.
-/

namespace Txn

variable {Q : Type → Type} {L : Type → Type 1} {ε S W C κ ι K ρ : Type}

/-- A set of processes that is closed under going on, without pools. -/
structure Stages (P : Proc L ε ι ρ → Prop) : Prop where
  call : ∀ {β : Type} {l : L β} {k : Except ε β → Proc L ε ι ρ}, P (.call l k) → ∀ r, P (k r)
  single : ∀ {n : Nat} {ids : List ι} {body : ι → Proc L ε ι Unit}
    {k : Except ε Unit → Proc L ε ι ρ}, ¬ P (.all n ids body k)

theorem stages_uses {p : ∀ {β : Type}, L β → Prop} :
    Stages (Proc.Uses p : Proc L ε ι ρ → Prop) where
  call := by
    intro β l k h
    cases h with
    | call _ hk => exact hk
  single := by
    intro n ids body k h
    cases h

/-- The process of a thread is in the set. -/
def Code.At (P : Proc L ε ι ρ → Prop) : Code Q L ε W ι ρ → Prop
  | .run p => P p
  | .opened l _ _ k => P (.call l k)
  | .await _ _ => False

/-- A thread of one of the calls `sel` is at a stage of its call. -/
def Thread.At (sel : K → Prop) (P : K → Proc L ε ι ρ → Prop) (th : Thread Q L ε W ι K ρ) : Prop :=
  sel th.call → th.pool = none ∧ th.code.At (P th.call)

variable [DecidableEq κ] {sys : System Q L ε S W C κ ι K ρ} {sel : K → Prop}

omit [DecidableEq κ] in
/-- Sets of processes, for each store and each call.  The calls begin in their sets, and what the
threads of the configuration may do next leaves them there. -/
structure Staged (sys : System Q L ε S W C κ ι K ρ) (sel : K → Prop)
    (P : S → K → Proc L ε ι ρ → Prop) (c : Config Q L ε S W ι K ρ) : Prop where
  start : ∀ call, sel call → P c.store call (sys.program call)
  fails : ∀ {call : K} {β : Type} {l : L β} {k : Except ε β → Proc L ε ι ρ}, sel call →
    P c.store call (.call l k) → ∀ e, P c.store call (k (.error e))
  commits : ∀ {i : Nat} {call : K} {pool : Option Nat} {β : Type} {l : L β}
    {h : List (Event Q W)} {b : β} {k : Except ε β → Proc L ε ι ρ},
    c.threads[i]? = some ⟨call, pool, .opened l h (.pure b) k⟩ → sel call →
    P c.store call (.call l k) → P (sys.applyAll (writes h) c.store) call (k (.ok b))
  keeps : ∀ {i : Nat} {call : K} {pool : Option Nat} {β : Type} {l : L β}
    {h : List (Event Q W)} {b : β} {k : Except ε β → Proc L ε ι ρ},
    c.threads[i]? = some ⟨call, pool, .opened l h (.pure b) k⟩ → ∀ {call' : K} {p}, sel call' →
    P c.store call' p → P (sys.applyAll (writes h) c.store) call' p
  single : ∀ {call : K} {n : Nat} {ids : List ι} {body : ι → Proc L ε ι Unit}
    {k : Except ε Unit → Proc L ε ι ρ}, sel call → ¬ P c.store call (.all n ids body k)

/-- A step keeps the threads at their stages. -/
theorem at_step {P : S → K → Proc L ε ι ρ → Prop} {c c' : Config Q L ε S W ι K ρ} {a : Action C K}
    (hP : Staged sys sel P c) (hc : ∀ th ∈ c.threads, th.At sel (P c.store))
    (hstep : sys.step c a = some c') : ∀ th ∈ c'.threads, th.At sel (P c'.store) := by
  have hat : ∀ {i : Nat} {call : K} {pool : Option Nat} {code : Code Q L ε W ι ρ},
      c.threads[i]? = some ⟨call, pool, code⟩ → sel call →
      pool = none ∧ code.At (P c.store call) := fun hth => hc _ (List.mem_of_getElem? hth)
  have hset : ∀ {s : S} {i : Nat} {call : K} {pool : Option Nat} {code : Code Q L ε W ι ρ},
      (∀ th ∈ c.threads, th.At sel (P s)) →
      (sel call → pool = none ∧ code.At (P s call)) →
      ∀ x ∈ c.threads.set i ⟨call, pool, code⟩, x.At sel (P s) := fun hold hth x hx => by
    rcases List.mem_or_eq_of_mem_set hx with hx | rfl
    · exact hold x hx
    · exact hth
  cases step_cases hstep with
  | start call =>
      exact List.forall_mem_append.mpr
        ⟨hc, List.forall_mem_singleton.mpr fun hcall => ⟨rfl, hP.start call hcall⟩⟩
  | crash => simp
  | begin hth =>
      have hcode := hat hth
      exact hset hc hcode
  | statement hth _ _ =>
      have hcode := hat hth
      exact hset hc hcode
  | rollback hth _ =>
      exact hset hc fun hcall => ⟨(hat hth hcall).1, hP.fails hcall (hat hth hcall).2 _⟩
  | commit hth =>
      refine hset (fun th hmem hcall => ?_) fun hcall =>
        ⟨(hat hth hcall).1, hP.commits hth hcall (hat hth hcall).2⟩
      obtain ⟨hpool, hcode⟩ := hc th hmem hcall
      refine ⟨hpool, ?_⟩
      generalize th.code = code at hcode
      cases code with
      | run p => exact hP.keeps hth hcall hcode
      | opened l h t k => exact hP.keeps hth hcall hcode
      | await n k => exact hcode
  | take hth _ =>
      refine hset hc fun hcall => ?_
      cases (hat hth hcall).1
  | resume hth _ => exact hset hc fun hcall => False.elim (hat hth hcall).2
  | @fork _ _ call _ _ _ _ _ hth =>
      have hnone : ¬ sel call := fun hcall => hP.single hcall (hat hth hcall).2
      refine List.forall_mem_append.mpr ⟨hset hc fun hcall => absurd hcall hnone, fun x hx => ?_⟩
      obtain ⟨-, rfl⟩ := List.mem_replicate.mp hx
      exact fun hcall => absurd hcall hnone

/-- In every run the threads are at their stages. -/
theorem at_of_staged {P : S → K → Proc L ε ι ρ → Prop}
    {ok : Config Q L ε S W ι K ρ → Action C K → Bool} {s : S} {c : Config Q L ε S W ι K ρ}
    (hP : ∀ c, Steps sys ok (.initial s) c → Staged sys sel P c)
    (h : Steps sys ok (.initial s) c) : ∀ th ∈ c.threads, th.At sel (P c.store) := by
  induction h with
  | refl => simp [Config.initial]
  | tail hrun hstep ih =>
      obtain ⟨a, -, hs⟩ := hstep
      exact at_step (hP _ hrun) ih hs

variable {P : K → Proc L ε ι ρ → Prop}

/-- In every run the threads are at stages that no store has a say in. -/
theorem at_of_steps (hP : ∀ call, sel call → Stages (P call) ∧ P call (sys.program call))
    {ok : Config Q L ε S W ι K ρ → Action C K → Bool} {s : S} {c : Config Q L ε S W ι K ρ}
    (h : Steps sys ok (.initial s) c) : ∀ th ∈ c.threads, th.At sel P :=
  at_of_staged (P := fun _ => P) (fun _ _ =>
    { start := fun call hcall => (hP call hcall).2
      fails := fun hcall hp _ => (hP _ hcall).1.call hp _
      commits := fun _ hcall hp => (hP _ hcall).1.call hp _
      keeps := fun _ _ _ _ hp => hp
      single := fun hcall => (hP _ hcall).1.single }) h

/-! ## After the first statement -/

/-- The process throws in the end, however its transactions end. -/
inductive Proc.Throws : {α : Type} → Proc L ε ι α → Prop where
  | throw {α : Type} {e : ε} : Throws (.throw e : Proc L ε ι α)
  | call {α β : Type} {l : L β} {k : Except ε β → Proc L ε ι α} :
      (∀ r, Throws (k r)) → Throws (.call l k)

namespace Proc.Throws

theorem bind {α β : Type} {x : Proc L ε ι α} {f : α → Proc L ε ι β} (hx : x.Throws) :
    (x >>= f).Throws := by
  induction hx with
  | throw => exact .throw
  | call _ ih => exact .call ih

/-- A transaction before a process that throws. -/
theorem transaction_bind {α β : Type} {l : L β} {f : β → Proc L ε ι α} (hf : ∀ b, (f b).Throws) :
    (Proc.transaction l >>= f : Proc L ε ι α).Throws := by
  refine .call fun r => ?_
  cases r with
  | error e => exact .throw
  | ok b => exact hf b

theorem stages : Stages (Proc.Throws : Proc L ε ι ρ → Prop) where
  call := by
    intro β l k h
    cases h with
    | call hk => exact hk
  single := by
    intro n ids body k h
    cases h

end Proc.Throws

omit [DecidableEq κ] in
/-- The call has not had the reply of its first statement. -/
inductive Code.Unread (sys : System Q L ε S W C κ ι K ρ) (call : K) : Code Q L ε W ι ρ → Prop where
  | start : Unread sys call (.run (sys.program call))
  | first {β : Type} {l : L β} {k : Except ε β → Proc L ε ι ρ} : sys.program call = .call l k →
      Unread sys call (.opened l [] (sys.body l) k)

omit [DecidableEq κ] in
/-- The call has not had the reply of its first statement, or the reply leads to `P`, or it is
at a stage in `P`. -/
inductive Code.Since (sys : System Q L ε S W C κ ι K ρ) (call : K) (P : Proc L ε ι ρ → Prop) :
    Code Q L ε W ι ρ → Prop where
  | unread {code : Code Q L ε W ι ρ} : code.Unread sys call → Since sys call P code
  | read {β : Type} {l : L β} {h : List (Event Q W)} {t : Tx Q ε β}
      {k : Except ε β → Proc L ε ι ρ} : sys.program call = .call l k →
      (∀ (h' : List (Event Q W)) a, Completes t h' a → P (k (.ok a))) →
      Since sys call P (.opened l h t k)
  | stage {p : Proc L ε ι ρ} : P p → Since sys call P (.run p)
  | opened {β : Type} {l : L β} {h : List (Event Q W)} {t : Tx Q ε β}
      {k : Except ε β → Proc L ε ι ρ} : P (.call l k) → Since sys call P (.opened l h t k)

omit [DecidableEq κ] in
/-- The call begins with a transaction that sends a statement.  Whatever this statement replies
on the store, the call goes on in `P`. -/
structure Reads (sys : System Q L ε S W C κ ι K ρ) (call : K) (s : S) (P : Proc L ε ι ρ → Prop) :
    Prop where
  single : ∀ {n : Nat} {ids : List ι} {body : ι → Proc L ε ι Unit}
    {k : Except ε Unit → Proc L ε ι ρ}, sys.program call ≠ .all n ids body k
  sends : ∀ {β : Type} {l : L β} {k : Except ε β → Proc L ε ι ρ} {a : β},
    sys.program call = .call l k → sys.body l ≠ .pure a
  fails : ∀ {β : Type} {l : L β} {k : Except ε β → Proc L ε ι ρ},
    sys.program call = .call l k → ∀ e, P (k (.error e))
  reads : ∀ {β α : Type} {l : L β} {k : Except ε β → Proc L ε ι ρ} {q : Q α} {k' : α → Tx Q ε β}
    {ch : C} {r : α} {ws : List W}, sys.program call = .call l k → sys.body l = .query q k' →
    sys.exec q ch s = .ok (r, ws) →
    ∀ (h : List (Event Q W)) a, Completes (k' r) h a → P (k (.ok a))

section Inversion

omit [DecidableEq κ]

variable {call : K} {Pr : Proc L ε ι ρ → Prop}

theorem Code.Since.of_run {p : Proc L ε ι ρ}
    (hs : Code.Since (W := W) sys call Pr (.run p)) : p = sys.program call ∨ Pr p := by
  generalize hcode : (Code.run p : Code Q L ε W ι ρ) = code at hs
  cases hs with
  | unread hun =>
      cases hun with
      | start => exact Or.inl (by injection hcode)
      | first _ => cases hcode
  | read _ _ => cases hcode
  | stage hp =>
      injection hcode with hcode
      exact Or.inr (hcode ▸ hp)
  | opened _ => cases hcode

theorem Code.Since.of_opened {β : Type} {l : L β} {h : List (Event Q W)} {t : Tx Q ε β}
    {k : Except ε β → Proc L ε ι ρ} (hs : Code.Since sys call Pr (.opened l h t k)) :
    (sys.program call = .call l k ∧ (h = [] ∧ t = sys.body l ∨
      ∀ (h' : List (Event Q W)) a, Completes t h' a → Pr (k (.ok a)))) ∨ Pr (.call l k) := by
  generalize hcode : (Code.opened l h t k : Code Q L ε W ι ρ) = code at hs
  cases hs with
  | unread hun =>
      cases hun with
      | start => cases hcode
      | first hprogram =>
          cases hcode
          exact Or.inl ⟨hprogram, Or.inl ⟨rfl, rfl⟩⟩
  | read hprogram hok =>
      cases hcode
      exact Or.inl ⟨hprogram, Or.inr hok⟩
  | stage _ => cases hcode
  | opened hp =>
      cases hcode
      exact Or.inr hp

theorem Code.Since.not_await {n : Nat} {k : Except ε Unit → Proc L ε ι ρ} :
    ¬ Code.Since (W := W) sys call Pr (.await n k) := by
  intro hs
  generalize hcode : (Code.await n k : Code Q L ε W ι ρ) = code at hs
  cases hs with
  | unread hun => cases hun <;> cases hcode
  | read _ _ => cases hcode
  | stage _ => cases hcode
  | opened _ => cases hcode

end Inversion

variable [IsEmpty ι] {c c' : Config Q L ε S W ι K ρ} {P : Proc L ε ι ρ → Prop} {call : K} {i : Nat}

/-- A step keeps a thread at the stages that its first statement led to. -/
theorem since_step (hP : Stages P) (hreads : Reads sys call c.store P) {a : Action C K}
    (hstep : sys.step c a = some c')
    (hc : ∀ th, c.threads[i]? = some th → th.call = call → th.code.Since sys call P) :
    ∀ th, c'.threads[i]? = some th → th.call = call → th.code.Since sys call P := by
  have hset : ∀ {j : Nat} {th₀ : Thread Q L ε W ι K ρ} {code : Code Q L ε W ι ρ},
      c.threads[j]? = some th₀ →
      (th₀.call = call → th₀.code.Since sys call P → code.Since sys call P) →
      ∀ th, (c.threads.set j ⟨th₀.call, th₀.pool, code⟩)[i]? = some th → th.call = call →
        th.code.Since sys call P := by
    intro j th₀ code hth₀ hcode th hth hcall
    by_cases hij : j = i
    · subst hij
      rw [List.getElem?_set_self (List.getElem?_eq_some_iff.mp hth₀).1] at hth
      cases hth
      exact hcode hcall (hc _ hth₀ hcall)
    · rw [List.getElem?_set_ne hij] at hth
      exact hc th hth hcall
  cases step_cases hstep with
  | start call' =>
      intro th hth hcall
      rw [List.getElem?_append] at hth
      split at hth
      · exact hc th hth hcall
      · obtain rfl := List.mem_singleton.mp (List.mem_of_getElem? hth)
        obtain rfl := hcall
        exact .unread .start
  | crash => simp
  | begin hth =>
      refine hset hth fun _ hs => ?_
      rcases hs.of_run with hprogram | hp
      · exact .unread (.first hprogram.symm)
      · exact .opened hp
  | @statement _ _ _ _ _ _ _ _ q _ _ r ws hth hexec _ =>
      refine hset hth fun _ hs => ?_
      rcases hs.of_opened with ⟨hprogram, ⟨rfl, hbody⟩ | hok⟩ | hp
      · exact .read hprogram (hreads.reads hprogram hbody.symm hexec)
      · exact .read hprogram fun h' a hc => hok (⟨q, r, ws⟩ :: h') a (.cons hc)
      · exact .opened hp
  | rollback hth _ =>
      refine hset hth fun _ hs => ?_
      rcases hs.of_opened with ⟨hprogram, -⟩ | hp
      · exact .stage (hreads.fails hprogram _)
      · exact .stage (hP.call hp _)
  | commit hth =>
      refine hset hth fun _ hs => ?_
      rcases hs.of_opened with ⟨hprogram, ⟨-, hbody⟩ | hok⟩ | hp
      · exact absurd hbody.symm (hreads.sends hprogram)
      · exact .stage (hok [] _ .nil)
      · exact .stage (hP.call hp _)
  | @fork _ _ _ _ n ids body k hth =>
      obtain rfl : ids = [] := List.eq_nil_of_length_eq_zero
        (by cases ids with | nil => rfl | cons id _ => exact isEmptyElim id)
      simp only [List.length_nil, Nat.min_zero, List.replicate_zero, List.append_nil]
      refine hset hth fun _ hs => ?_
      rcases hs.of_run with hprogram | hp
      · exact absurd hprogram.symm hreads.single
      · exact absurd hp hP.single
  | @take _ _ _ _ _ id => exact isEmptyElim id
  | resume hth _ => exact hset hth fun _ hs => absurd hs Code.Since.not_await

/-- In every run a thread is at the stages that its first statement led to. -/
theorem since_of_steps {ok : Config Q L ε S W ι K ρ → Action C K → Bool} (hP : Stages P)
    (h : Steps sys ok c c')
    (hreads : ∀ c₁, Steps sys ok c c₁ → Steps sys ok c₁ c' → Reads sys call c₁.store P)
    (hc : ∀ th, c.threads[i]? = some th → th.call = call → th.code.Since sys call P) :
    ∀ th, c'.threads[i]? = some th → th.call = call → th.code.Since sys call P := by
  induction h with
  | refl => exact hc
  | tail hrun hstep ih =>
      obtain ⟨a, hok, hs⟩ := hstep
      have hone : Steps sys ok _ _ := .single ⟨a, hok, hs⟩
      exact since_step hP (hreads _ hrun hone) hs
        (ih fun c₁ hbefore hafter => hreads c₁ hbefore (hafter.trans hone))

end Txn
