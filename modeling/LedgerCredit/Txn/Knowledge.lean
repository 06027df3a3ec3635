import LedgerCredit.Txn.Resource

/-!
# What threads know

A thread learns facts of the committed store from what it commits, and from the workers
that it waits for.  `Knowledge` says which facts a transaction needs, which it leaves known,
and which errors it can have where they are known.  `Learns` is the judgement on processes.

*Keys.*  Some facts have a key.  Only one thread at a time knows facts with a key, so a
commit keeps the facts of everybody else if it keeps those without its keys.

*Pools.*  A thread that forks a pool gives facts to the items.  What their workers learned is
put by, in the bank of the pool, and the thread takes it over when the pool has ended.

*Runs.*  `Informed` is the invariant of configurations, and `learned_of_steps` is the run
lemma: what a call that returned has learned holds of the store.
-/

namespace Txn

variable {Q : Type → Type} {L : Type → Type 1} {ε S W C κ ι K ρ δ υ : Type}

/-- Facts, and what transactions have to do with them. -/
structure Knowledge (L : Type → Type 1) (ε S δ υ K ρ : Type) where
  /-- The invariant of committed stores. -/
  Inv : S → Prop
  /-- How committed stores evolve. -/
  le : S → S → Prop
  met : S → δ → Prop
  key : δ → Option υ
  /-- What a transaction needs. -/
  pre : {β : Type} → Set δ → L β → Prop
  /-- What is known after it. -/
  next : {β : Type} → Set δ → L β → β → Set δ
  /-- The errors that it may have. -/
  fails : {β : Type} → Set δ → L β → ε → Prop
  /-- What a call that returned has learned. -/
  done : K → ρ → Set δ → Prop

namespace Knowledge

variable (N : Knowledge L ε S δ υ K ρ)

/-- The keys of some facts. -/
def keys (M : Set δ) : Set υ := {u | ∃ d ∈ M, N.key d = some u}

/-- All of the facts hold. -/
def Met (s : S) (M : Set δ) : Prop := ∀ d ∈ M, N.met s d

/-- The process, with the facts `M`, keeps to what transactions need, and returns with `A`. -/
def Learns : {α : Type} → Proc L ε ι α → Set δ → (α → Set δ → Prop) → Prop
  | _, .pure a, M, A => A a M
  | _, .throw _, _, _ => True
  | _, .call l k, M, A => N.pre M l ∧ (∀ e, N.fails M l e → Learns (k (.error e)) M A) ∧
      ∀ b, Learns (k (.ok b)) (N.next M l b) A
  | _, .all _ ids body k, M, A => ∃ (M₀ : Set δ) (F G : ι → Set δ), M₀ ⊆ M ∧
      (∀ id ∈ ids, F id ⊆ M ∧ Disjoint (N.keys (F id)) (N.keys M₀)) ∧
      (ids.Pairwise fun a b => Disjoint (N.keys (F a)) (N.keys (F b))) ∧
      (∀ id ∈ ids, Learns (body id) (F id) fun _ M' => G id ⊆ M') ∧
      (∀ e, Learns (k (.error e)) M₀ A) ∧
      Learns (k (.ok ())) (M₀ ∪ {d | ∃ id ∈ ids, d ∈ G id}) A

variable {N} {α β : Type} {M M' : Set δ} {A : α → Set δ → Prop}

@[simp] theorem keys_empty : N.keys ∅ = ∅ := by simp [keys]

theorem keys_mono (h : M ⊆ M') : N.keys M ⊆ N.keys M' := fun _ ⟨d, hd, hu⟩ => ⟨d, h hd, hu⟩

theorem Met.mono {s : S} (h : N.Met s M') (hsub : M ⊆ M') : N.Met s M := fun d hd => h d (hsub hd)

/-! ## Rules -/

theorem Learns.mono {p : Proc L ε ι α} {A' : α → Set δ → Prop} (h : N.Learns p M A)
    (hA : ∀ a M, A a M → A' a M) : N.Learns p M A' := by
  induction p generalizing M with
  | pure a => exact hA a M h
  | throw e => trivial
  | call l k ih =>
      exact ⟨h.1, fun e he => ih _ (h.2.1 e he) hA, fun b => ih _ (h.2.2 b) hA⟩
  | all n ids body k _ ih =>
      obtain ⟨M₀, F, G, h₀, hF, hpair, hbody, herror, hok⟩ := h
      exact ⟨M₀, F, G, h₀, hF, hpair, hbody, fun e => ih _ (herror e) hA, ih _ hok hA⟩

/-- Run `p`, then `f`. -/
theorem Learns.bind {p : Proc L ε ι α} {f : α → Proc L ε ι β} {A : β → Set δ → Prop}
    (h : N.Learns p M fun a M' => N.Learns (f a) M' A) : N.Learns (p >>= f) M A := by
  induction p generalizing M with
  | pure a => exact h
  | throw e => trivial
  | call l k ih => exact ⟨h.1, fun e he => ih _ (h.2.1 e he), fun b => ih _ (h.2.2 b)⟩
  | all n ids body k _ ih =>
      obtain ⟨M₀, F, G, h₀, hF, hpair, hbody, herror, hok⟩ := h
      exact ⟨M₀, F, G, h₀, hF, hpair, hbody, fun e => ih _ (herror e), ih _ hok⟩

/-- Run a transaction. -/
theorem Learns.transaction {l : L α} (hpre : N.pre M l) (hok : ∀ a, A a (N.next M l a)) :
    N.Learns (Proc.transaction l : Proc L ε ι α) M A :=
  ⟨hpre, fun _ _ => trivial, hok⟩

/-- Run a transaction, with something to do when it fails. -/
theorem Learns.orElse {l : L α} {f : ε → Proc L ε ι α} (hpre : N.pre M l)
    (hok : ∀ a, A a (N.next M l a)) (hf : ∀ e, N.fails M l e → N.Learns (f e) M A) :
    N.Learns ((Proc.transaction l).orElse f) M A :=
  ⟨hpre, hf, hok⟩

/-- Run a transaction, and then `f` on its result. -/
theorem Learns.transaction_bind {l : L α} {f : α → Proc L ε ι β} {A : β → Set δ → Prop}
    (hpre : N.pre M l) (hf : ∀ a, N.Learns (f a) (N.next M l a) A) :
    N.Learns (Proc.transaction l >>= f) M A :=
  ⟨hpre, fun _ _ => trivial, hf⟩

/-- Run a pool whose items share what is known, if that has no key. -/
theorem Learns.pool {n : Nat} {ids : List ι} {body : ι → Proc L ε ι Unit} {F : Set δ} {G : ι → Set δ}
    {A : Unit → Set δ → Prop} (hF : F ⊆ M) (hkeys : N.keys F = ∅)
    (hbody : ∀ id ∈ ids, N.Learns (body id) F fun _ M' => G id ⊆ M')
    (hok : A () (M ∪ {d | ∃ id ∈ ids, d ∈ G id})) : N.Learns (Proc.pool n ids body) M A := by
  refine ⟨M, fun _ => F, G, Set.Subset.refl M, fun _ _ => ⟨hF, ?_⟩, ?_, hbody, fun _ => trivial, hok⟩
  · rw [hkeys]
    exact Set.empty_disjoint _
  · refine List.pairwise_of_forall fun _ _ => ?_
    rw [hkeys]
    exact Set.empty_disjoint _

/-- A process that runs transactions which need nothing and leave what is known as it is. -/
theorem Learns.of_uses {p : ∀ {β : Type}, L β → Prop} {x : Proc L ε ι α} (hx : x.Uses p)
    (hpre : ∀ {β : Type} (l : L β), p l → N.pre M l) (hnext : ∀ {β : Type} (l : L β) (b : β), p l →
      N.next M l b = M) (hA : ∀ a, A a M) : N.Learns x M A := by
  induction hx with
  | pure => exact hA _
  | throw => trivial
  | @call _ l k hl _ ih =>
      refine ⟨hpre l hl, fun e _ => ih _, fun b => ?_⟩
      rw [hnext l b hl]
      exact ih _

/-! ## What has to be shown -/

section Lawful

variable (N) [DecidableEq κ] (sys : System Q L ε S W C κ ι K ρ)

/-- The statement was executed on an earlier store, on which the facts held. -/
def Saw (M : Set δ) (s : S) (p : List W) (e : Event Q W) : Prop :=
  ∃ s₀ ch, N.Inv s₀ ∧ N.Met s₀ M ∧ N.le s₀ s ∧
    sys.exec e.query ch (sys.applyAll p s₀) = .ok (e.reply, e.writes)

omit [DecidableEq κ] in
/-- A transaction that is at `t`, after the history `h`. -/
structure Underway (s : S) (M : Set δ) (l : L β) (h : List (Event Q W)) (t : Tx Q ε β) : Prop where
  inv : N.Inv s
  met : N.Met s M
  pre : N.pre M l
  path : Path (sys.body l) h t
  evidence : Holds (N.Saw sys M s) [] h

omit [DecidableEq κ] in
/-- What a commit does. -/
structure Commits (s s' : S) (M : Set δ) (l : L β) (b : β) : Prop where
  inv : N.Inv s'
  le : N.le s s'
  met : N.Met s' (N.next M l b)
  /-- It keeps what others know. -/
  others : ∀ M', N.Met s M' → Disjoint (N.keys M') (N.keys M) → N.Met s' M'
  /-- A key is its own, or nobody can have known a fact with it. -/
  keys : ∀ u ∈ N.keys (N.next M l b), u ∈ N.keys M ∨ ∀ d, N.key d = some u → ¬ N.met s d

/-- What has to be shown, for schedules restricted by `ok`. -/
structure Lawful (ok : Config Q L ε S W ι K ρ → Action C K → Bool) : Prop where
  lawful : sys.Lawful
  le_refl : ∀ s, N.le s s
  le_trans : ∀ s₁ s₂ s₃, N.le s₁ s₂ → N.le s₂ s₃ → N.le s₁ s₃
  commit : ∀ {β : Type} s M (l : L β) h b, N.Underway sys s M l h (.pure b) →
    sys.Admissible s (writes h) → N.Commits s (sys.applyAll (writes h) s) M l b
  fail : ∀ {β : Type} (c : Config Q L ε S W ι K ρ) a i M (l : L β) h t e, ok c a = true →
    N.Underway sys c.store M l h t → Fails sys c i h t a e → N.fails M l e
  start : ∀ (c : Config Q L ε S W ι K ρ) call, ok c (.start call) = true →
    N.Learns (sys.program call) ∅ (N.done call)

end Lawful

/-! ## Configurations -/

/-- Who keeps facts: threads, the items of a pool with `m` items after them, and the banks of
pools. -/
inductive Keeper where
  | thread (i : Nat)
  | item (n m : Nat)
  | bank (n : Nat)
  deriving DecidableEq

section Configurations

variable (N) (sys : System Q L ε S W C κ ι K ρ)

/-- What a thread returns with: a call with what it has learned, a worker with what its item was to
learn. -/
def Wants (goal : Set δ) (th : Thread Q L ε W ι K ρ) (r : ρ) (M : Set δ) : Prop :=
  (th.pool = none → N.done th.call r M) ∧ (th.pool.isSome = true → r = sys.idle ∧ goal ⊆ M)

/-- What is known of the code of a thread. -/
def CodeOk (s : S) (M : Set δ) (A : ρ → Set δ → Prop) : Code Q L ε W ι ρ → Prop
  | .run p => N.Learns p M A
  | .opened l h t k => N.Learns (.call l k) M A ∧ Path (sys.body l) h t ∧ Holds (N.Saw sys M s) [] h
  | .await _ _ => True

/-- The fact is aimed at by an item of the pool, or by a worker, or it is in the bank. -/
def Aimed (c : Config Q L ε S W ι K ρ) (own : Keeper → Set δ) (goal : Nat → Set δ)
    (aim : Nat → ι → Set δ) (n : Nat) (d : δ) : Prop :=
  (∃ pl, c.pools[n]? = some pl ∧ ∃ id ∈ pl.queue, d ∈ aim n id) ∨
    (∃ j th, c.threads[j]? = some th ∧ th.pool = some n ∧ d ∈ goal j) ∨ d ∈ own (.bank n)

/-- The invariant of configurations: who keeps which facts, what the workers are to learn, and
what the items of pools are. -/
structure Informed (c : Config Q L ε S W ι K ρ) (own : Keeper → Set δ) (goal : Nat → Set δ)
    (aim : Nat → ι → Set δ) : Prop where
  inv : N.Inv c.store
  met : ∀ o, N.Met c.store (own o)
  apart : ∀ o o', o ≠ o' → Disjoint (N.keys (own o)) (N.keys (own o'))
  code : ∀ (i : Nat) (th : Thread Q L ε W ι K ρ), c.threads[i]? = some th →
    N.CodeOk sys c.store (own (.thread i)) (N.Wants sys (goal i) th) th.code
  bound : ∀ (i : Nat) (th : Thread Q L ε W ι K ρ) (n : Nat), c.threads[i]? = some th →
    th.pool = some n → n < c.pools.length
  pool : ∀ (n : Nat) (pl : Pool L ε ι), c.pools[n]? = some pl → ∀ done id rest,
    pl.queue = done ++ id :: rest →
      N.Learns (pl.body id) (own (.item n rest.length)) fun _ M => aim n id ⊆ M
  await : ∀ (i : Nat) (th : Thread Q L ε W ι K ρ) (n : Nat) (k : Except ε Unit → Proc L ε ι ρ),
    c.threads[i]? = some th → th.code = .await n k → n < c.pools.length ∧ ∃ G : Set δ,
      (∀ d ∈ G, Aimed c own goal aim n d) ∧
      (∀ e, N.Learns (k (.error e)) (own (.thread i)) (N.Wants sys (goal i) th)) ∧
      N.Learns (k (.ok ())) (own (.thread i) ∪ G) (N.Wants sys (goal i) th)
  sole : ∀ (i j : Nat) (th th' : Thread Q L ε W ι K ρ) (n : Nat) (k k' : Except ε Unit → Proc L ε ι ρ),
    c.threads[i]? = some th → c.threads[j]? = some th' → th.code = .await n k →
    th'.code = .await n k' → i = j

end Configurations

section Steps

variable {sys : System Q L ε S W C κ ι K ρ} {c : Config Q L ε S W ι K ρ} {own own' : Keeper → Set δ}
  {goal : Nat → Set δ} {aim : Nat → ι → Set δ}

theorem informed_initial {s : S} (hs : N.Inv s) :
    N.Informed sys (.initial s) (fun _ => ∅) (fun _ => ∅) fun _ _ => ∅ where
  inv := hs
  met := by simp [Met]
  apart := by simp
  code := by simp [Config.initial]
  bound := by simp [Config.initial]
  pool := by simp [Config.initial]
  await := by simp [Config.initial]
  sole := by simp [Config.initial]

/-- Facts that are passed on stay apart, if none are given to two keepers. -/
theorem apart_of_passed (h : ∀ o o', o ≠ o' → Disjoint (N.keys (own o)) (N.keys (own o')))
    (from_ : Keeper → Set Keeper) (hfrom : ∀ o o' x, x ∈ from_ o → x ∈ from_ o' → o = o')
    (hown : ∀ o, ∀ d ∈ own' o, ∃ x ∈ from_ o, d ∈ own x) :
    ∀ o o', o ≠ o' → Disjoint (N.keys (own' o)) (N.keys (own' o')) := by
  intro o o' hne
  refine Set.disjoint_left.mpr ?_
  rintro u ⟨d, hd, hu⟩ ⟨d', hd', hu'⟩
  obtain ⟨x, hx, hdx⟩ := hown o d hd
  obtain ⟨x', hx', hdx'⟩ := hown o' d' hd'
  have hxx : x ≠ x' := by
    rintro rfl
    exact hne (hfrom _ _ _ hx hx')
  exact Set.disjoint_left.mp (h x x' hxx) ⟨d, hdx, hu⟩ ⟨d', hdx', hu'⟩

/-- A keeper may trade its facts for some whose keys no other keeper has. -/
theorem apart_update (h : ∀ o o', o ≠ o' → Disjoint (N.keys (own o)) (N.keys (own o'))) {o : Keeper}
    {M : Set δ} (hM : ∀ o', o' ≠ o → Disjoint (N.keys M) (N.keys (own o'))) :
    ∀ o₁ o₂, o₁ ≠ o₂ → Disjoint (N.keys (Function.update own o M o₁))
      (N.keys (Function.update own o M o₂)) := by
  intro o₁ o₂ hne
  by_cases h₁ : o₁ = o
  · subst h₁
    rw [Function.update_self, Function.update_of_ne (Ne.symm hne)]
    exact hM o₂ (Ne.symm hne)
  · rw [Function.update_of_ne h₁]
    by_cases h₂ : o₂ = o
    · subst h₂
      rw [Function.update_self]
      exact (hM o₁ h₁).symm
    · rw [Function.update_of_ne h₂]
      exact h o₁ o₂ hne

theorem met_update {s : S} {o : Keeper} {M : Set δ} (h : ∀ o', o' ≠ o → N.Met s (own o'))
    (hM : N.Met s M) (o₁ : Keeper) : N.Met s (Function.update own o M o₁) := by
  by_cases h₁ : o₁ = o
  · subst h₁
    rwa [Function.update_self]
  · rw [Function.update_of_ne h₁]
    exact h o₁ h₁

theorem Saw.mono {M : Set δ} {s s' : S} {p : List W} {e : Event Q W}
    (hle : ∀ s₁ s₂ s₃, N.le s₁ s₂ → N.le s₂ s₃ → N.le s₁ s₃) (hs : N.le s s')
    (h : N.Saw sys M s p e) : N.Saw sys M s' p e := by
  obtain ⟨s₀, ch, hinv, hmet, hle₀, hexec⟩ := h
  exact ⟨s₀, ch, hinv, hmet, hle _ _ _ hle₀ hs, hexec⟩

theorem CodeOk.mono {M : Set δ} {A : ρ → Set δ → Prop} {s s' : S} {code : Code Q L ε W ι ρ}
    (hle : ∀ s₁ s₂ s₃, N.le s₁ s₂ → N.le s₂ s₃ → N.le s₁ s₃) (hs : N.le s s')
    (h : N.CodeOk sys s M A code) : N.CodeOk sys s' M A code := by
  cases code with
  | opened l hist t k => exact ⟨h.1, h.2.1, h.2.2.mono fun _ _ _ hsaw => hsaw.mono hle hs⟩
  | _ => exact h

/-- Facts stay aimed at where queues, workers and banks keep theirs. -/
theorem Aimed.mono {c' : Config Q L ε S W ι K ρ} {goal' : Nat → Set δ} {aim' : Nat → ι → Set δ} {n : Nat}
    {d : δ} (h : Aimed c own goal aim n d)
    (hpool : ∀ pl, c.pools[n]? = some pl → c'.pools[n]? = some pl) (haim : aim' n = aim n)
    (hthread : ∀ (j : Nat) (th : Thread Q L ε W ι K ρ), c.threads[j]? = some th →
      ∃ th', c'.threads[j]? = some th' ∧ th'.pool = th.pool)
    (hgoal : ∀ (j : Nat) (th : Thread Q L ε W ι K ρ), c.threads[j]? = some th → th.pool = some n →
      goal j ⊆ goal' j)
    (hbank : own (.bank n) ⊆ own' (.bank n)) : Aimed c' own' goal' aim' n d := by
  rcases h with ⟨pl, hpl, id, hid, hd⟩ | ⟨j, th, hj, hn, hd⟩ | hd
  · exact Or.inl ⟨pl, hpool pl hpl, id, hid, haim ▸ hd⟩
  · obtain ⟨th', hj', hsame⟩ := hthread j th hj
    exact Or.inr (Or.inl ⟨j, th', hj', hsame.trans hn, hgoal j th hj hn hd⟩)
  · exact Or.inr (Or.inr (hbank hd))

/-- A thread that goes on stays with its pool. -/
theorem pool_set {i j : Nat} {call : K} {pool : Option Nat} {code code' : Code Q L ε W ι ρ}
    {th : Thread Q L ε W ι K ρ} (hth : c.threads[i]? = some ⟨call, pool, code⟩)
    (hj : c.threads[j]? = some th) :
    ∃ th', (c.threads.set i ⟨call, pool, code'⟩)[j]? = some th' ∧ th'.pool = th.pool := by
  by_cases hji : j = i
  · subst hji
    obtain rfl := Option.some.inj (hth.symm.trans hj)
    exact ⟨_, List.getElem?_set_self (List.getElem?_eq_some_iff.mp hth).1, rfl⟩
  · exact ⟨th, (List.getElem?_set_ne (Ne.symm hji)).trans hj, rfl⟩

/-- Thread `i` goes on, with another store perhaps and with other facts. -/
theorem Informed.put (h : N.Informed sys c own goal aim) {i : Nat} {call : K} {pool : Option Nat}
    {code code' : Code Q L ε W ι ρ} {s' : S} {M : Set δ}
    (hle : ∀ s₁ s₂ s₃, N.le s₁ s₂ → N.le s₂ s₃ → N.le s₁ s₃)
    (hth : c.threads[i]? = some ⟨call, pool, code⟩) (hnot : ∀ n k, code' ≠ .await n k)
    (hinv : N.Inv s') (hs : N.le c.store s') (hothers : ∀ o, o ≠ .thread i → N.Met s' (own o))
    (hM : N.Met s' M) (hkeys : ∀ o, o ≠ .thread i → Disjoint (N.keys M) (N.keys (own o)))
    (hcode : N.CodeOk sys s' M (N.Wants sys (goal i) ⟨call, pool, code'⟩) code') :
    N.Informed sys { c with store := s', threads := c.threads.set i ⟨call, pool, code'⟩ }
      (Function.update own (.thread i) M) goal aim := by
  refine ⟨hinv, met_update hothers hM, apart_update h.apart hkeys, fun j th hj => ?_,
    fun j th n hj hn => ?_, h.pool, fun j th n k hj hawait => ?_,
    fun j j' th th' n k k' hj hj' hk hk' => ?_⟩
  · rcases Rules.getElem?_set_cases hj with ⟨rfl, rfl⟩ | ⟨hji, hold⟩
    · rwa [Function.update_self]
    · rw [Function.update_of_ne (by simpa using hji)]
      exact (h.code j th hold).mono hle hs
  · rcases Rules.getElem?_set_cases hj with ⟨rfl, rfl⟩ | ⟨-, hold⟩
    · exact h.bound _ _ n hth hn
    · exact h.bound j th n hold hn
  · rcases Rules.getElem?_set_cases hj with ⟨rfl, rfl⟩ | ⟨hji, hold⟩
    · exact absurd hawait (hnot n k)
    · obtain ⟨hn, G, hG, herror, hok⟩ := h.await j th n k hold hawait
      rw [Function.update_of_ne (by simpa using hji)]
      refine ⟨hn, G, fun d hd => (hG d hd).mono (fun _ hpl => hpl) rfl (fun _ _ => pool_set hth)
        (fun _ _ _ _ => Set.Subset.rfl) ?_, herror, hok⟩
      rw [Function.update_of_ne (by simp)]
  · rcases Rules.getElem?_set_cases hj with ⟨rfl, rfl⟩ | ⟨-, hold⟩
    · exact absurd hk (hnot n k)
    · rcases Rules.getElem?_set_cases hj' with ⟨rfl, rfl⟩ | ⟨-, hold'⟩
      · exact absurd hk' (hnot n k')
      · exact h.sole j j' th th' n k k' hold hold' hk hk'

/-- As `Informed.put`, on the store of before and with the facts of before. -/
theorem Informed.goto (h : N.Informed sys c own goal aim) {i : Nat} {call : K} {pool : Option Nat}
    {code code' : Code Q L ε W ι ρ} (hle : ∀ s₁ s₂ s₃, N.le s₁ s₂ → N.le s₂ s₃ → N.le s₁ s₃)
    (hrefl : N.le c.store c.store) (hth : c.threads[i]? = some ⟨call, pool, code⟩)
    (hnot : ∀ n k, code' ≠ .await n k)
    (hcode : N.CodeOk sys c.store (own (.thread i)) (N.Wants sys (goal i) ⟨call, pool, code'⟩) code') :
    N.Informed sys (c.goto i ⟨call, pool, code'⟩) own goal aim := by
  have hput := h.put hle hth hnot h.inv hrefl (fun o _ => h.met o) (h.met _)
    (fun o ho => h.apart _ _ (Ne.symm ho)) hcode
  rwa [Function.update_eq_self] at hput

/-- A new thread. -/
theorem Informed.start (h : N.Informed sys c own goal aim) {call : K} {p : Proc L ε ι ρ}
    (hp : N.Learns p ∅ (N.done call)) :
    N.Informed sys { c with threads := c.threads ++ [⟨call, none, .run p⟩] }
      (Function.update own (.thread c.threads.length) ∅) goal aim := by
  have hold : ∀ {j : Nat} {th : Thread Q L ε W ι K ρ}, c.threads[j]? = some th →
      Keeper.thread j ≠ .thread c.threads.length := by
    intro j th hj heq
    have := (List.getElem?_eq_some_iff.mp hj).1
    cases heq
    omega
  have hnew : ∀ {j : Nat} {th : Thread Q L ε W ι K ρ},
      (c.threads ++ [⟨call, none, .run p⟩])[j]? = some th →
      c.threads[j]? = some th ∨ j = c.threads.length ∧ th = ⟨call, none, .run p⟩ := by
    intro j th hj
    rw [List.getElem?_append] at hj
    split at hj
    · exact Or.inl hj
    · obtain ⟨hlen, heq⟩ := List.getElem?_eq_some_iff.mp hj
      simp only [List.length_singleton] at hlen
      exact Or.inr ⟨by omega, by simpa using heq.symm⟩
  refine ⟨h.inv, met_update (fun o _ => h.met o) (by simp [Met]), apart_update h.apart (by simp),
    fun j th hj => ?_, fun j th n hj hn => ?_, h.pool, fun j th n k hj hk => ?_,
    fun j j' th th' n k k' hj hj' hk hk' => ?_⟩
  · rcases hnew hj with hj | ⟨rfl, rfl⟩
    · rw [Function.update_of_ne (hold hj)]
      exact h.code j th hj
    · rw [Function.update_self]
      exact hp.mono fun r M hdone => ⟨fun _ => hdone, fun hpool => by cases hpool⟩
  · rcases hnew hj with hj | ⟨rfl, rfl⟩
    · exact h.bound j th n hj hn
    · cases hn
  · rcases hnew hj with hj | ⟨rfl, rfl⟩
    · obtain ⟨hn, G, hG, herror, hok⟩ := h.await j th n k hj hk
      rw [Function.update_of_ne (hold hj)]
      refine ⟨hn, G, fun d hd => (hG d hd).mono (fun _ hpl => hpl) rfl (fun j' th' hj' => ⟨th', ?_, rfl⟩)
        (fun _ _ _ _ => Set.Subset.rfl) ?_, herror, hok⟩
      · exact (List.getElem?_append_left (List.getElem?_eq_some_iff.mp hj').1).trans hj'
      · rw [Function.update_of_ne (by simp)]
    · cases hk
  · rcases hnew hj with hj | ⟨rfl, rfl⟩
    · rcases hnew hj' with hj' | ⟨rfl, rfl⟩
      · exact h.sole j j' th th' n k k' hj hj' hk hk'
      · cases hk'
    · cases hk

/-! ### Pools -/

/-- The facts of the item of a pool with `m` items after it. -/
def shareOf (ids : List ι) (F : ι → Set δ) (m : Nat) : Set δ :=
  {d | ∃ done id rest, ids = done ++ id :: rest ∧ rest.length = m ∧ d ∈ F id}

theorem shareOf_eq {ids done rest : List ι} {id : ι} {F : ι → Set δ} (h : ids = done ++ id :: rest) :
    shareOf ids F rest.length = F id := by
  subst h
  refine Set.ext fun d => ⟨?_, fun hd => ⟨done, id, rest, rfl, rfl, hd⟩⟩
  rintro ⟨done', id', rest', heq, hlength, hd⟩
  have hlength' : (id :: rest).length = (id' :: rest').length := by simp [hlength]
  obtain ⟨-, htail⟩ := List.append_inj' heq hlength'
  cases htail
  exact hd

/-- Who keeps what after a fork: thread `i` keeps `M₀`, and the items of pool `n` get their shares. -/
def forkOwn (own : Keeper → Set δ) (i len n : Nat) (M₀ : Set δ) (share : Nat → Set δ) :
    Keeper → Set δ
  | .thread j => if j = i then M₀ else if len ≤ j then ∅ else own (.thread j)
  | .item n' m => if n' = n then share m else own (.item n' m)
  | .bank n' => if n' = n then ∅ else own (.bank n')

theorem forkOwn_cases (own : Keeper → Set δ) (i len n : Nat) (M₀ : Set δ) (share : Nat → Set δ)
    (o : Keeper) :
    (o = .thread i ∧ forkOwn own i len n M₀ share o = M₀) ∨
      (∃ m, o = .item n m ∧ forkOwn own i len n M₀ share o = share m) ∨
      (o ≠ .thread i ∧ forkOwn own i len n M₀ share o ⊆ own o) := by
  cases o with
  | thread j =>
      by_cases hj : j = i
      · exact Or.inl ⟨by rw [hj], by simp [forkOwn, hj]⟩
      · refine Or.inr (Or.inr ⟨by simpa using hj, ?_⟩)
        by_cases hlen : len ≤ j <;> simp [forkOwn, hj, hlen]
  | item n' m =>
      by_cases hn : n' = n
      · exact Or.inr (Or.inl ⟨m, by rw [hn], by simp [forkOwn, hn]⟩)
      · exact Or.inr (Or.inr ⟨by simp, by simp [forkOwn, hn]⟩)
  | bank n' =>
      refine Or.inr (Or.inr ⟨by simp, ?_⟩)
      by_cases hn : n' = n <;> simp [forkOwn, hn]

theorem apart_forkOwn {i len n : Nat} {M₀ : Set δ} {share : Nat → Set δ}
    (h : ∀ o o', o ≠ o' → Disjoint (N.keys (own o)) (N.keys (own o'))) (h₀ : M₀ ⊆ own (.thread i))
    (hshare : ∀ m, share m ⊆ own (.thread i) ∧ Disjoint (N.keys (share m)) (N.keys M₀))
    (hpair : ∀ m m', m ≠ m' → Disjoint (N.keys (share m)) (N.keys (share m'))) :
    ∀ o₁ o₂, o₁ ≠ o₂ → Disjoint (N.keys (forkOwn own i len n M₀ share o₁))
      (N.keys (forkOwn own i len n M₀ share o₂)) := by
  have hold : ∀ {M : Set δ} {o : Keeper}, M ⊆ own (.thread i) → o ≠ .thread i →
      forkOwn own i len n M₀ share o ⊆ own o →
      Disjoint (N.keys M) (N.keys (forkOwn own i len n M₀ share o)) :=
    fun hM ho hsub => (h _ _ (Ne.symm ho)).mono (keys_mono hM) (keys_mono hsub)
  intro o₁ o₂ hne
  rcases forkOwn_cases own i len n M₀ share o₁ with
    ⟨rfl, h₁⟩ | ⟨m, rfl, h₁⟩ | ⟨hi₁, h₁⟩ <;>
  rcases forkOwn_cases own i len n M₀ share o₂ with
    ⟨rfl, h₂⟩ | ⟨m', rfl, h₂⟩ | ⟨hi₂, h₂⟩
  · exact absurd rfl hne
  · rw [h₁, h₂]
    exact (hshare m').2.symm
  · rw [h₁]
    exact hold h₀ hi₂ h₂
  · rw [h₁, h₂]
    exact (hshare m).2
  · rw [h₁, h₂]
    exact hpair m m' fun hm => hne (by rw [hm])
  · rw [h₁]
    exact hold (hshare m).1 hi₂ h₂
  · rw [h₂]
    exact (hold h₀ hi₁ h₁).symm
  · rw [h₂]
    exact (hold (hshare m').1 hi₁ h₁).symm
  · exact (h o₁ o₂ hne).mono (keys_mono h₁) (keys_mono h₂)

/-- The shares of the items of a pool are theirs. -/
theorem shareOf_spec {ids : List ι} {F : ι → Set δ} {M M₀ : Set δ}
    (hF : ∀ id ∈ ids, F id ⊆ M ∧ Disjoint (N.keys (F id)) (N.keys M₀))
    (hpair : ids.Pairwise fun a b => Disjoint (N.keys (F a)) (N.keys (F b))) :
    (∀ m, shareOf ids F m ⊆ M ∧ Disjoint (N.keys (shareOf ids F m)) (N.keys M₀)) ∧
      ∀ m m', m ≠ m' → Disjoint (N.keys (shareOf ids F m)) (N.keys (shareOf ids F m')) := by
  refine ⟨fun m => ⟨?_, Set.disjoint_left.mpr ?_⟩, fun m m' hne => Set.disjoint_left.mpr ?_⟩
  · rintro d ⟨done, id, rest, rfl, -, hd⟩
    exact (hF id (by simp)).1 hd
  · rintro u ⟨d, ⟨done, id, rest, rfl, -, hd⟩, hu⟩
    exact Set.disjoint_left.mp (hF id (by simp)).2 ⟨d, hd, hu⟩
  · rintro u ⟨d, ⟨done, id, rest, heq, rfl, hd⟩, hu⟩ ⟨d', ⟨done', id', rest', heq', rfl, hd'⟩, hu'⟩
    exact Set.disjoint_left.mp (Rules.disjoint_shares hpair heq heq' hne) ⟨d, hd, hu⟩ ⟨d', hd', hu'⟩

theorem met_forkOwn {s : S} {i len n : Nat} {M₀ : Set δ} {share : Nat → Set δ}
    (h : ∀ o, N.Met s (own o)) (h₀ : M₀ ⊆ own (.thread i)) (hshare : ∀ m, share m ⊆ own (.thread i))
    (o : Keeper) : N.Met s (forkOwn own i len n M₀ share o) := by
  rcases forkOwn_cases own i len n M₀ share o with ⟨-, ho⟩ | ⟨m, -, ho⟩ | ⟨-, ho⟩
  · rw [ho]
    exact (h _).mono h₀
  · rw [ho]
    exact (h _).mono (hshare m)
  · exact (h o).mono ho

section Fork

variable {i n : Nat} {call : K} {pool : Option Nat} {ids : List ι} {body : ι → Proc L ε ι Unit}
  {k : Except ε Unit → Proc L ε ι ρ}

/-- The threads of before stay with their pools. -/
theorem pool_forked (hth : c.threads[i]? = some ⟨call, pool, .run (.all n ids body k)⟩) {j : Nat}
    {th : Thread Q L ε W ι K ρ} (hj : c.threads[j]? = some th) :
    ∃ th', (Resource.forked sys c i call pool n ids body k).threads[j]? = some th' ∧
      th'.pool = th.pool := by
  obtain ⟨th', hj', hsame⟩ := pool_set hth hj
  exact ⟨th', (List.getElem?_append_left (List.getElem?_eq_some_iff.mp hj').1).trans hj', hsame⟩

/-- What a thread waits for stays aimed at, when another pool is forked. -/
theorem Aimed.fork {M₀ : Set δ} {share : Nat → Set δ} {G : ι → Set δ} {m : Nat} {d : δ}
    (h : Aimed c own goal aim m d) (hm : m < c.pools.length)
    (hth : c.threads[i]? = some ⟨call, pool, .run (.all n ids body k)⟩) :
    Aimed (Resource.forked sys c i call pool n ids body k)
      (forkOwn own i c.threads.length c.pools.length M₀ share)
      (fun j => if c.threads.length ≤ j then ∅ else goal j)
      (fun m => if m = c.pools.length then G else aim m) m d := by
  refine h.mono (fun pl hpl => (List.getElem?_append_left hm).trans hpl) (if_neg hm.ne)
    (fun _ _ => pool_forked hth) (fun j th hj _ => ?_) ?_
  · rw [if_neg (not_le.mpr (List.getElem?_eq_some_iff.mp hj).1)]
  · simp [forkOwn, hm.ne]

/-- A thread forks a pool. -/
theorem Informed.fork (h : N.Informed sys c own goal aim)
    (hth : c.threads[i]? = some ⟨call, pool, .run (.all n ids body k)⟩) :
    ∃ own' goal' aim',
      N.Informed sys (Resource.forked sys c i call pool n ids body k) own' goal' aim' := by
  obtain ⟨M₀, F, G, h₀, hF, hpair, hbody, herror, hok⟩ := h.code i _ hth
  obtain ⟨hshare, hshares⟩ := shareOf_spec hF hpair
  have hlen : i < c.threads.length := (List.getElem?_eq_some_iff.mp hth).1
  have hgoal : (if c.threads.length ≤ i then ∅ else goal i) = goal i := if_neg (not_le.mpr hlen)
  have hkept : forkOwn own i c.threads.length c.pools.length M₀ (shareOf ids F) (.thread i) = M₀ :=
    if_pos rfl
  refine ⟨forkOwn own i c.threads.length c.pools.length M₀ (shareOf ids F),
    fun j => if c.threads.length ≤ j then ∅ else goal j,
    fun m => if m = c.pools.length then G else aim m, h.inv,
    met_forkOwn h.met h₀ fun m => (hshare m).1, apart_forkOwn h.apart h₀ hshare hshares,
    fun j th hj => ?_, fun j th m hj hm => ?_, fun m pl hpl done id rest hqueue => ?_,
    fun j th m k' hj hk => ?_, fun j j' th th' m k₁ k₂ hj hj' hk hk' => ?_⟩
  · rcases Resource.thread_of_forked hj with ⟨rfl, rfl⟩ | ⟨hji, hlt, hold⟩ | ⟨hge, rfl⟩
    · trivial
    · simpa [Resource.forked, forkOwn, hji, not_le.mpr hlt] using h.code j th hold
    · refine (⟨fun hnone => ?_, fun _ => ⟨rfl, ?_⟩⟩ : Wants N sys _ _ _ _)
      · cases hnone
      · simp [hge]
  · simp only [Resource.forked, List.length_append, List.length_singleton]
    rcases Resource.thread_of_forked hj with ⟨rfl, rfl⟩ | ⟨-, -, hold⟩ | ⟨-, rfl⟩
    · exact Nat.lt_succ_of_lt (h.bound _ _ m hth hm)
    · exact Nat.lt_succ_of_lt (h.bound j th m hold hm)
    · cases hm
      exact Nat.lt_succ_self _
  · rcases Resource.pool_of_forked hpl with ⟨hlt, hold⟩ | ⟨rfl, rfl⟩
    · simpa [forkOwn, hlt.ne] using h.pool m pl hold done id rest hqueue
    · obtain rfl : ids = done ++ id :: rest := hqueue
      simpa [forkOwn, shareOf_eq rfl] using hbody id (by simp)
  · rcases Resource.thread_of_forked hj with ⟨rfl, rfl⟩ | ⟨hji, hlt, hold⟩ | ⟨-, rfl⟩
    · cases hk
      simp only [hgoal, hkept]
      refine ⟨by simp [Resource.forked], {d | ∃ id ∈ ids, d ∈ G id}, ?_, herror, hok⟩
      rintro d ⟨id, hid, hd⟩
      exact Or.inl ⟨_, List.getElem?_concat_length, id, hid, by simpa using hd⟩
    · obtain ⟨hm, G', hG', herror', hok'⟩ := h.await j th m k' hold hk
      refine ⟨by simp [Resource.forked]; omega, G', fun d hd => (hG' d hd).fork hm hth, ?_, ?_⟩
      · simpa [forkOwn, hji, not_le.mpr hlt] using herror'
      · simpa [forkOwn, hji, not_le.mpr hlt] using hok'
    · cases hk
  · rcases Resource.thread_of_forked hj with ⟨rfl, rfl⟩ | ⟨-, -, hold⟩ | ⟨-, rfl⟩
    · rcases Resource.thread_of_forked hj' with ⟨rfl, rfl⟩ | ⟨-, -, hold'⟩ | ⟨-, rfl⟩
      · rfl
      · cases hk
        exact absurd (h.await j' th' _ k₂ hold' hk').1 (lt_irrefl _)
      · cases hk'
    · rcases Resource.thread_of_forked hj' with ⟨rfl, rfl⟩ | ⟨-, -, hold'⟩ | ⟨-, rfl⟩
      · cases hk'
        exact absurd (h.await j th _ k₁ hold hk).1 (lt_irrefl _)
      · exact h.sole j j' th th' m k₁ k₂ hold hold' hk hk'
      · cases hk'
    · cases hk

end Fork

/-- Who keeps what when thread `i` takes the item of pool `n` with `m` items after it: what it had
goes to the bank of the pool. -/
def takeOwn (own : Keeper → Set δ) (i n m : Nat) : Keeper → Set δ
  | .thread j => if j = i then own (.item n m) else own (.thread j)
  | .item n' m' => if n' = n ∧ m' = m then ∅ else own (.item n' m')
  | .bank n' => if n' = n then own (.bank n) ∪ own (.thread i) else own (.bank n')

/-- Where the facts of a keeper were before. -/
def takenFrom (i n m : Nat) : Keeper → Set Keeper
  | .thread j => if j = i then {.item n m} else {.thread j}
  | .item n' m' => if n' = n ∧ m' = m then ∅ else {.item n' m'}
  | .bank n' => if n' = n then {.bank n, .thread i} else {.bank n'}

theorem mem_takeOwn {i n m : Nat} {o : Keeper} {d : δ} :
    d ∈ takeOwn own i n m o ↔ ∃ x ∈ takenFrom i n m o, d ∈ own x := by
  cases o <;> simp only [takeOwn, takenFrom] <;> split_ifs <;> simp

theorem met_takeOwn {s : S} {i n m : Nat} (h : ∀ o, N.Met s (own o)) (o : Keeper) :
    N.Met s (takeOwn own i n m o) := by
  intro d hd
  obtain ⟨x, -, hx⟩ := mem_takeOwn.mp hd
  exact h x d hx

theorem apart_takeOwn {i n m : Nat}
    (h : ∀ o o', o ≠ o' → Disjoint (N.keys (own o)) (N.keys (own o'))) :
    ∀ o o', o ≠ o' → Disjoint (N.keys (takeOwn own i n m o)) (N.keys (takeOwn own i n m o')) := by
  refine apart_of_passed h (takenFrom i n m) (fun o o' x hx hx' => ?_) fun o d => mem_takeOwn.mp
  cases o <;> cases o' <;> simp only [takenFrom] at hx hx' <;> split_ifs at hx hx' <;> simp_all

section Take

variable {i n : Nat} {call : K} {a : ρ} {id : ι} {queue : List ι} {body : ι → Proc L ε ι Unit}

/-- What is aimed at stays so: the item goes to the worker, and what the worker had learned to the
bank. -/
theorem Aimed.take {m : Nat} {d : δ} (h : Aimed c own goal aim m d)
    (hth : c.threads[i]? = some ⟨call, some n, .run (.pure a)⟩)
    (hpool : c.pools[n]? = some ⟨id :: queue, body⟩) (hhad : goal i ⊆ own (.thread i)) :
    Aimed { c with
        threads := c.threads.set i ⟨call, some n, .run ((body id).discard sys.idle)⟩
        pools := c.pools.set n ⟨queue, body⟩ }
      (takeOwn own i n queue.length) (Function.update goal i (aim n id)) aim m d := by
  have hlt := (List.getElem?_eq_some_iff.mp hth).1
  rcases h with ⟨pl, hpl, x, hx, hd⟩ | ⟨j, th, hj, hm, hd⟩ | hd
  · by_cases hmn : m = n
    · subst hmn
      obtain rfl := Option.some.inj (hpool.symm.trans hpl)
      rcases List.mem_cons.mp hx with rfl | hx
      · exact Or.inr (Or.inl ⟨i, _, List.getElem?_set_self hlt, rfl, by simpa using hd⟩)
      · exact Or.inl ⟨_, List.getElem?_set_self (List.getElem?_eq_some_iff.mp hpool).1, x, hx, hd⟩
    · exact Or.inl ⟨pl, (List.getElem?_set_ne (Ne.symm hmn)).trans hpl, x, hx, hd⟩
  · by_cases hji : j = i
    · subst hji
      obtain rfl := Option.some.inj (hth.symm.trans hj)
      cases hm
      exact Or.inr (Or.inr (mem_takeOwn.mpr ⟨.thread j, by simp [takenFrom], hhad hd⟩))
    · refine Or.inr (Or.inl ⟨j, th, (List.getElem?_set_ne (Ne.symm hji)).trans hj, hm, ?_⟩)
      rwa [Function.update_of_ne hji]
  · refine Or.inr (Or.inr (mem_takeOwn.mpr ⟨.bank m, ?_, hd⟩))
    by_cases hmn : m = n <;> simp [takenFrom, hmn]

/-- A worker takes an item. -/
theorem Informed.take (h : N.Informed sys c own goal aim)
    (hth : c.threads[i]? = some ⟨call, some n, .run (.pure a)⟩)
    (hpool : c.pools[n]? = some ⟨id :: queue, body⟩) :
    N.Informed sys { c with
        threads := c.threads.set i ⟨call, some n, .run ((body id).discard sys.idle)⟩
        pools := c.pools.set n ⟨queue, body⟩ }
      (takeOwn own i n queue.length) (Function.update goal i (aim n id)) aim := by
  have hhad : goal i ⊆ own (.thread i) := ((h.code i _ hth).2 rfl).2
  have hthread : ∀ {j : Nat}, j ≠ i → takeOwn own i n queue.length (.thread j) = own (.thread j) :=
    fun hji => if_neg hji
  refine ⟨h.inv, met_takeOwn h.met, apart_takeOwn h.apart, fun j th hj => ?_, fun j th m hj hm => ?_,
    fun m pl hpl done x rest hqueue => ?_, fun j th m k hj hk => ?_,
    fun j j' th th' m k k' hj hj' hk hk' => ?_⟩
  · rcases Rules.getElem?_set_cases hj with ⟨rfl, rfl⟩ | ⟨hji, hold⟩
    · rw [Function.update_self, show takeOwn own j n queue.length (.thread j) = _ from if_pos rfl]
      refine Learns.bind ((h.pool n _ hpool [] id queue rfl).mono fun _ M hM => ?_)
      refine (⟨fun hnone => ?_, fun _ => ⟨rfl, hM⟩⟩ : Wants N sys _ _ _ _)
      cases hnone
    · rw [hthread hji, Function.update_of_ne hji]
      exact h.code j th hold
  · rw [List.length_set]
    rcases Rules.getElem?_set_cases hj with ⟨-, rfl⟩ | ⟨-, hold⟩
    · exact h.bound i _ m hth hm
    · exact h.bound j th m hold hm
  · rcases Rules.getElem?_set_cases hpl with ⟨rfl, rfl⟩ | ⟨hmn, hold⟩
    · have hlen : rest.length < queue.length := by
        have := congrArg List.length hqueue
        simp only [List.length_append, List.length_cons] at this
        omega
      simpa [takeOwn, hlen.ne] using h.pool m _ hpool (id :: done) x rest (congrArg (id :: ·) hqueue)
    · simpa [takeOwn, hmn] using h.pool m pl hold done x rest hqueue
  · rcases Rules.getElem?_set_cases hj with ⟨-, rfl⟩ | ⟨hji, hold⟩
    · cases hk
    · obtain ⟨hm, G, hG, herror, hok⟩ := h.await j th m k hold hk
      rw [List.length_set, hthread hji, Function.update_of_ne hji]
      exact ⟨hm, G, fun d hd => (hG d hd).take hth hpool hhad, herror, hok⟩
  · rcases Rules.getElem?_set_cases hj with ⟨-, rfl⟩ | ⟨-, hold⟩
    · cases hk
    · rcases Rules.getElem?_set_cases hj' with ⟨-, rfl⟩ | ⟨-, hold'⟩
      · cases hk'
      · exact h.sole j j' th th' m k k' hold hold' hk hk'

end Take

/-- Who keeps what when thread `i` has waited for pool `n`: it takes over what the bank of the pool
has, and what the workers have. -/
def joinOwn (own : Keeper → Set δ) (works : Nat → Prop) [DecidablePred works] (i n : Nat) (G : Set δ) :
    Keeper → Set δ
  | .thread j => if j = i then own (.thread i) ∪ G else if works j then ∅ else own (.thread j)
  | .item n' m => own (.item n' m)
  | .bank n' => if n' = n then ∅ else own (.bank n')

theorem mem_joinOwn {works : Nat → Prop} [DecidablePred works] {i n : Nat} {G : Set δ}
    (hG : ∀ d ∈ G, d ∈ own (.bank n) ∨ ∃ j, works j ∧ d ∈ own (.thread j)) (hi : ¬ works i) {o : Keeper}
    {d : δ} (hd : d ∈ joinOwn own works i n G o) :
    d ∈ own o ∧ o ≠ .bank n ∧ (∀ j, works j → o ≠ .thread j) ∨
      o = .thread i ∧ (d ∈ own (.bank n) ∨ ∃ j, works j ∧ d ∈ own (.thread j)) := by
  cases o with
  | thread j =>
      simp only [joinOwn] at hd
      split_ifs at hd with hji hwork
      · subst hji
        rcases hd with hd | hd
        · refine Or.inl ⟨hd, by simp, fun j' hj' heq => hi ?_⟩
          cases heq
          exact hj'
        · exact Or.inr ⟨rfl, hG d hd⟩
      · exact hd.elim
      · refine Or.inl ⟨hd, by simp, fun j' hj' heq => hwork ?_⟩
        cases heq
        exact hj'
  | item n' m => exact Or.inl ⟨hd, by simp, by simp⟩
  | bank n' =>
      simp only [joinOwn] at hd
      split_ifs at hd with hnn
      · exact hd.elim
      · exact Or.inl ⟨hd, by simpa using hnn, by simp⟩

section Join

variable {works : Nat → Prop} [DecidablePred works] {i n : Nat} {G : Set δ}
  (hG : ∀ d ∈ G, d ∈ own (.bank n) ∨ ∃ j, works j ∧ d ∈ own (.thread j)) (hi : ¬ works i)
include hG hi

theorem met_joinOwn {s : S} (h : ∀ o, N.Met s (own o)) (o : Keeper) :
    N.Met s (joinOwn own works i n G o) := by
  intro d hd
  rcases mem_joinOwn hG hi hd with ⟨hd, -⟩ | ⟨-, hd | ⟨j, -, hd⟩⟩
  · exact h _ d hd
  · exact h _ d hd
  · exact h _ d hd

theorem apart_joinOwn (h : ∀ o o', o ≠ o' → Disjoint (N.keys (own o)) (N.keys (own o'))) :
    ∀ o o', o ≠ o' → Disjoint (N.keys (joinOwn own works i n G o))
      (N.keys (joinOwn own works i n G o')) := by
  refine apart_of_passed h (fun o => {x | x = o ∧ o ≠ .bank n ∧ (∀ j, works j → o ≠ .thread j) ∨
    o = .thread i ∧ (x = .bank n ∨ ∃ j, works j ∧ x = .thread j)}) ?_ fun o d hd => ?_
  · rintro o o' x (⟨rfl, hbank, hwork⟩ | ⟨rfl, hx⟩) (⟨rfl, hbank', hwork'⟩ | ⟨rfl, hx'⟩)
    · rfl
    · rcases hx' with rfl | ⟨j, hj, rfl⟩
      · exact absurd rfl hbank
      · exact absurd rfl (hwork j hj)
    · rcases hx with rfl | ⟨j, hj, rfl⟩
      · exact absurd rfl hbank'
      · exact absurd rfl (hwork' j hj)
    · rfl
  · rcases mem_joinOwn hG hi hd with ⟨hd, hstays⟩ | ⟨rfl, hd | ⟨j, hj, hd⟩⟩
    · exact ⟨o, Or.inl ⟨rfl, hstays⟩, hd⟩
    · exact ⟨.bank n, Or.inr ⟨rfl, Or.inl rfl⟩, hd⟩
    · exact ⟨.thread j, Or.inr ⟨rfl, Or.inr ⟨j, hj, rfl⟩⟩, hd⟩

end Join

/-- What the pool `n` was to learn is in its bank or with its workers, once they have returned. -/
theorem Informed.learned (h : N.Informed sys c own goal aim) {n : Nat} (hdead : Resource.Dead c n) {d : δ}
    (hd : Aimed c own goal aim n d) : d ∈ own (.bank n) ∨
      ∃ j, (∃ th, c.threads[j]? = some th ∧ th.pool = some n) ∧ d ∈ own (.thread j) := by
  obtain ⟨hworkers, hqueue⟩ := hdead
  rcases hd with ⟨pl, hpl, id, hid, -⟩ | ⟨j, th, hj, hpool, hd⟩ | hd
  · rw [hqueue pl hpl] at hid
    cases hid
  · obtain ⟨a, ha⟩ := hworkers j th hj hpool
    have hcode := h.code j th hj
    rw [ha] at hcode
    exact Or.inr ⟨j, ⟨th, hj, hpool⟩, (hcode.2 (by simp [hpool])).2 hd⟩
  · exact Or.inl hd

/-- What threads wait for from other pools stays aimed at. -/
theorem Aimed.join {works : Nat → Prop} [DecidablePred works] {i n m : Nat} {call : K}
    {pool : Option Nat} {code code' : Code Q L ε W ι ρ} {G : Set δ} {d : δ}
    (h : Aimed c own goal aim m d)
    (hworks : ∀ j, works j → ∃ th, c.threads[j]? = some th ∧ th.pool = some n) (hmn : m ≠ n)
    (hth : c.threads[i]? = some ⟨call, pool, code⟩) :
    Aimed (c.goto i ⟨call, pool, code'⟩) (joinOwn own works i n G)
      (fun j => if works j then ∅ else goal j) aim m d := by
  refine h.mono (fun _ hpl => hpl) rfl (fun _ _ => pool_set hth) (fun j th hj hm => ?_) ?_
  · have hnot : ¬ works j := by
      intro hwork
      obtain ⟨th', hj', hpool⟩ := hworks j hwork
      obtain rfl := Option.some.inj (hj.symm.trans hj')
      exact hmn (Option.some.inj (hm.symm.trans hpool))
    rw [if_neg hnot]
  · simp [joinOwn, hmn]

/-- The pool that thread `i` waits for has ended. -/
theorem Informed.join (h : N.Informed sys c own goal aim) {i : Nat} {call : K} {pool : Option Nat}
    {n : Nat} {k : Except ε Unit → Proc L ε ι ρ}
    (hth : c.threads[i]? = some ⟨call, pool, .await n k⟩) (hresult : c.poolResult n = some (.ok ())) :
    ∃ own' goal', N.Informed sys (c.goto i ⟨call, pool, .run (k (.ok ()))⟩) own' goal' aim := by
  classical
  have hdead := Resource.dead_of_poolResult hresult
  obtain ⟨hn, G, hG, -, hok⟩ := h.await i _ n k hth rfl
  let works : Nat → Prop := fun j => ∃ th, c.threads[j]? = some th ∧ th.pool = some n
  -- a worker has returned, so it does not wait
  have hnot : ∀ {j m : Nat} {th : Thread Q L ε W ι K ρ} {k' : Except ε Unit → Proc L ε ι ρ},
      c.threads[j]? = some th → th.code = .await m k' → ¬ works j := by
    rintro j m th k' hj hk ⟨th', hj', hpool⟩
    obtain ⟨a, ha⟩ := hdead.1 j th' hj' hpool
    obtain rfl := Option.some.inj (hj.symm.trans hj')
    cases hk.symm.trans ha
  have hi : ¬ works i := hnot hth rfl
  have hfrom : ∀ d ∈ G, d ∈ own (.bank n) ∨ ∃ j, works j ∧ d ∈ own (.thread j) :=
    fun d hd => h.learned hdead (hG d hd)
  refine ⟨joinOwn own works i n G, fun j => if works j then ∅ else goal j, h.inv,
    met_joinOwn hfrom hi h.met, apart_joinOwn hfrom hi h.apart, fun j th hj => ?_,
    fun j th m hj hm => ?_, h.pool, fun j th m k' hj hk => ?_,
    fun j j' th th' m k₁ k₂ hj hj' hk hk' => ?_⟩
  · rcases Rules.getElem?_set_cases hj with ⟨rfl, rfl⟩ | ⟨hji, hold⟩
    · simp only [joinOwn, if_true, if_neg hi]
      exact hok
    · by_cases hwork : works j
      · obtain ⟨th', hj', hpool⟩ := hwork
        obtain rfl := Option.some.inj (hold.symm.trans hj')
        obtain ⟨a, ha⟩ := hdead.1 j th hold hpool
        have hcode := h.code j th hold
        rw [ha] at hcode ⊢
        refine (⟨fun hnone => ?_, fun hsome => ⟨(hcode.2 hsome).1, ?_⟩⟩ : Wants N sys _ _ _ _)
        · rw [hpool] at hnone
          cases hnone
        · simp only [if_pos (show works j from ⟨th, hold, hpool⟩)]
          exact Set.empty_subset _
      · simp only [joinOwn, if_neg hji, if_neg hwork]
        exact h.code j th hold
  · rcases Rules.getElem?_set_cases hj with ⟨rfl, rfl⟩ | ⟨-, hold⟩
    · exact h.bound _ _ m hth hm
    · exact h.bound j th m hold hm
  · rcases Rules.getElem?_set_cases hj with ⟨rfl, rfl⟩ | ⟨hji, hold⟩
    · cases hk
    · obtain ⟨hm, G', hG', herror', hok'⟩ := h.await j th m k' hold hk
      have hmn : m ≠ n := by
        rintro rfl
        exact hji (h.sole j i th _ m k' k hold hth hk rfl)
      refine ⟨hm, G', fun d hd => (hG' d hd).join (fun _ => id) hmn hth, ?_, ?_⟩
      · simpa only [joinOwn, if_neg hji, if_neg (hnot hold hk)] using herror'
      · simpa only [joinOwn, if_neg hji, if_neg (hnot hold hk)] using hok'
  · rcases Rules.getElem?_set_cases hj with ⟨rfl, rfl⟩ | ⟨-, hold⟩
    · cases hk
    · rcases Rules.getElem?_set_cases hj' with ⟨rfl, rfl⟩ | ⟨-, hold'⟩
      · cases hk'
      · exact h.sole j j' th th' m k₁ k₂ hold hold' hk hk'

end Steps

/-! ## Runs -/

section Runs

variable [DecidableEq κ] {sys : System Q L ε S W C κ ι K ρ}
  {ok : Config Q L ε S W ι K ρ → Action C K → Bool} {c c' : Config Q L ε S W ι K ρ}

/-- The writes of an open transaction are admissible. -/
theorem admissible_of_steps (lawful : sys.Lawful) {s : S} (hrun : Steps sys ok (.initial s) c) {i : Nat}
    {call : K} {pool : Option Nat} {l : L β} {h : List (Event Q W)} {t : Tx Q ε β}
    {k : Except ε β → Proc L ε ι ρ} (hth : c.threads[i]? = some ⟨call, pool, .opened l h t k⟩) :
    sys.Admissible c.store (writes h) := by
  let R : Rules sys Empty Empty := .static sys (fun _ => True) (fun _ _ => True) (fun _ => True)
    (fun _ _ => True) (fun _ => []) fun _ _ _ _ => True
  have hR : R.Valid ok := Rules.static_valid lawful (fun _ => trivial) (fun _ _ _ _ _ => trivial)
    (Rules.unguarded_statements (fun _ => rfl) fun _ _ _ _ => trivial)
    (fun _ _ _ _ _ _ => ⟨trivial, trivial, trivial⟩)
    fun _ call _ _ => (Rules.Fine.of_pre (fun _ _ _ => trivial) (sys.program call) _ _).mono
      (fun _ _ _ _ => trivial) fun _ _ _ _ => trivial
  obtain ⟨⟨own, hsound⟩, -⟩ := Rules.sound_of_steps hR trivial hrun
  exact (hsound.thread i _ hth).1.admissible

/-- One step. -/
theorem Lawful.step (hN : N.Lawful sys ok) {own : Keeper → Set δ} {goal : Nat → Set δ}
    {aim : Nat → ι → Set δ} {a : Action C K} (h : N.Informed sys c own goal aim)
    (hadmissible : ∀ (i : Nat) (call : K) (pool : Option Nat) (β : Type) (l : L β)
      (hist : List (Event Q W)) (t : Tx Q ε β) (k : Except ε β → Proc L ε ι ρ),
      c.threads[i]? = some ⟨call, pool, .opened l hist t k⟩ → sys.Admissible c.store (writes hist))
    (hok : ok c a = true) (hstep : sys.step c a = some c') :
    (∃ own' goal' aim', N.Informed sys c' own' goal' aim') ∧ N.le c.store c'.store := by
  have hgoto : ∀ {i : Nat} {call : K} {pool : Option Nat} {code code' : Code Q L ε W ι ρ},
      c.threads[i]? = some ⟨call, pool, code⟩ → (∀ n k, code' ≠ .await n k) →
      N.CodeOk sys c.store (own (.thread i)) (N.Wants sys (goal i) ⟨call, pool, code'⟩) code' →
      N.Informed sys (c.goto i ⟨call, pool, code'⟩) own goal aim := fun hth hnot hcode =>
    h.goto hN.le_trans (hN.le_refl _) hth hnot hcode
  cases step_cases hstep with
  | start call => exact ⟨⟨_, _, _, h.start (hN.start c call hok)⟩, hN.le_refl _⟩
  | crash => exact ⟨⟨_, _, _, informed_initial h.inv⟩, hN.le_refl _⟩
  | begin hth =>
      exact ⟨⟨_, _, _, hgoto hth (by simp) ⟨h.code _ _ hth, .nil, trivial⟩⟩, hN.le_refl _⟩
  | @statement i ch call pool _ _ l hist q k' k r ws hth hexec hfree =>
      obtain ⟨hlearns, hpath, hsaw⟩ := h.code _ _ hth
      refine ⟨⟨_, _, _, hgoto hth (by simp) ⟨hlearns, hpath.snoc rfl r ws, ?_⟩⟩, hN.le_refl _⟩
      exact holds_append.mpr ⟨hsaw, ⟨c.store, ch, h.inv, h.met _, hN.le_refl _, hexec⟩, trivial⟩
  | @rollback i a call pool _ l hist t k e hth hfails =>
      obtain ⟨hlearns, hpath, hsaw⟩ := h.code _ _ hth
      have herror := hlearns.2.1 e
        (hN.fail c a i _ l hist t e hok ⟨h.inv, h.met _, hlearns.1, hpath, hsaw⟩ hfails)
      exact ⟨⟨_, _, _, hgoto hth (by simp) herror⟩, hN.le_refl _⟩
  | @commit i ch call pool _ l hist x k hth =>
      obtain ⟨hlearns, hpath, hsaw⟩ := h.code _ _ hth
      have hcommits := hN.commit c.store _ l hist x ⟨h.inv, h.met _, hlearns.1, hpath, hsaw⟩
        (hadmissible i call pool _ l hist _ k hth)
      refine ⟨⟨_, _, _, h.put hN.le_trans hth (by simp) hcommits.inv hcommits.le (fun o ho => ?_)
        hcommits.met (fun o ho => Set.disjoint_left.mpr ?_) (hlearns.2.2 x)⟩, hcommits.le⟩
      · exact hcommits.others _ (h.met o) (h.apart o _ ho)
      · rintro u hu ⟨d, hd, hdu⟩
        rcases hcommits.keys u hu with hown | hnew
        · exact Set.disjoint_left.mp (h.apart _ _ (Ne.symm ho)) hown ⟨d, hd, hdu⟩
        · exact hnew d hdu (h.met o d hd)
  | fork hth => exact ⟨h.fork hth, hN.le_refl _⟩
  | take hth hpool => exact ⟨⟨_, _, _, h.take hth hpool⟩, hN.le_refl _⟩
  | @resume i ch call pool n k r hth hresult =>
      cases r with
      | error e =>
          obtain ⟨-, G, -, herror, -⟩ := h.await i _ n k hth rfl
          exact ⟨⟨_, _, _, hgoto hth (by simp) (herror e)⟩, hN.le_refl _⟩
      | ok u =>
          obtain ⟨own', goal', hjoined⟩ := h.join hth hresult
          exact ⟨⟨own', goal', aim, hjoined⟩, hN.le_refl _⟩

/-- Every run. -/
theorem Lawful.informed_of_steps (hN : N.Lawful sys ok) {s : S} (hs : N.Inv s)
    (hrun : Steps sys ok (.initial s) c) :
    (∃ own goal aim, N.Informed sys c own goal aim) ∧ N.le s c.store := by
  induction hrun with
  | refl => exact ⟨⟨_, _, _, informed_initial hs⟩, hN.le_refl _⟩
  | @tail c₁ c₂ hrun hstep ih =>
      obtain ⟨a, hok, hstep⟩ := hstep
      obtain ⟨⟨own, goal, aim, h⟩, hle⟩ := ih
      have hadmissible : ∀ (i : Nat) (call : K) (pool : Option Nat) (β : Type) (l : L β)
          (hist : List (Event Q W)) (t : Tx Q ε β) (k : Except ε β → Proc L ε ι ρ),
          c₁.threads[i]? = some ⟨call, pool, .opened l hist t k⟩ →
          sys.Admissible c₁.store (writes hist) :=
        fun _ _ _ _ _ _ _ _ => admissible_of_steps hN.lawful hrun
      obtain ⟨h', hle'⟩ := hN.step h hadmissible hok hstep
      exact ⟨h', hN.le_trans _ _ _ hle hle'⟩

/-- What a call that returned has learned holds of the store. -/
theorem Lawful.learned_of_steps (hN : N.Lawful sys ok) {s : S} (hs : N.Inv s)
    (hrun : Steps sys ok (.initial s) c) {i : Nat} {r : ρ} (hout : c.outcome i = some (.ok r))
    (hr : r ≠ sys.idle) : ∃ call M, N.done call r M ∧ N.Met c.store M := by
  obtain ⟨⟨own, goal, aim, h⟩, -⟩ := hN.informed_of_steps hs hrun
  obtain ⟨call, pool, hth⟩ : ∃ call pool, c.threads[i]? = some ⟨call, pool, .run (.pure r)⟩ := by
    unfold Config.outcome at hout
    split at hout
    · rename_i call pool a hth
      cases hout
      exact ⟨call, pool, hth⟩
    · cases hout
    · cases hout
  have hwants : N.Wants sys (goal i) ⟨call, pool, .run (.pure r)⟩ r (own (.thread i)) := h.code i _ hth
  cases pool with
  | none => exact ⟨call, _, hwants.1 rfl, h.met _⟩
  | some n => exact absurd (hwants.2 rfl).1 hr

end Runs

end Knowledge

end Txn
