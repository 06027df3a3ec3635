import LedgerCredit.Txn.Schedule
import Mathlib.Data.Set.Lattice
import Mathlib.Order.CompletePartialOrder

/-!
# Rules for read committed schedules

A store invariant `Inv` and an order `le`, in which every committed store only
moves up, are proved over all schedules by looking at commits alone.  When a
transaction commits on the store `s` with the history `h`, three things are
known.

* Each statement of `h` was executed, under the transaction's own earlier
  writes, on some store `s₀` with the invariant and `le s₀ s` (`Seen`).
* `Cur` holds of each statement.  It is what is still true on `s` of what the
  statement saw.  It holds when the statement is executed, and `frame` keeps it
  while other transactions commit, which hold neither its guards nor its locks.
* The writes of `h` are still admitted by the keys of `s`.

A process is verified against its transactions: `pre` has to hold when one
commits, and `post` is known after it.  Between them other threads move the
store, and `rely` says how far.  Each thread owns *tokens*, no two threads own
one token, and `rely` may depend on them: others leave alone what a thread owns.
A commit may create tokens, by making them `born`, and a pool hands tokens out
to its items.  Calls may be excluded from owning tokens (`owner`); then one that
starts while no owner is at work may take all of them.  `Safe` is the judgement,
with one rule for each way to build a process.

`Valid` bundles what has to be shown.  The next module proves the run lemma.
-/

namespace Txn

variable {Q : Type → Type} {L : Type → Type 1} {ε S W C κ ι K ρ γ τ : Type}

/-- The statement of `e` was executed, under the writes `p`, on an earlier store. -/
def Seen (sys : System Q L ε S W C κ ι K ρ) (I : S → Prop) (le : S → S → Prop) (s : S)
    (p : List W) (e : Event Q W) : Prop :=
  ∃ s₀ ch, I s₀ ∧ le s₀ s ∧ sys.exec e.query ch (sys.applyAll p s₀) = .ok (e.reply, e.writes)

/-- The thread returned or threw, and if it is a worker that returned there is no other item. -/
def Config.rests (c : Config Q L ε S W ι K ρ) (th : Thread Q L ε W ι K ρ) : Bool :=
  match th.code with
  | .run (.throw _) => true
  | .run (.pure _) => th.pool.all fun n => c.pools[n]?.all fun pl => pl.queue.isEmpty
  | _ => false

/-- Nothing is left to do: every thread returned or threw, and no worker that
returned has another item. -/
def Config.quiet (c : Config Q L ε S W ι K ρ) : Bool := c.threads.all c.rests

/-- Nothing is left to do for some calls. -/
def Config.quietFor (p : K → Bool) (c : Config Q L ε S W ι K ρ) : Bool :=
  c.threads.all fun th => !p th.call || c.rests th

theorem Config.quietFor_of_quiet {c : Config Q L ε S W ι K ρ} (h : c.quiet = true) (p : K → Bool) :
    c.quietFor p = true :=
  List.all_eq_true.mpr fun th hth => by simp [List.all_eq_true.mp h th hth]

/-- A store invariant with what is needed to carry it through schedules. -/
structure Rules (sys : System Q L ε S W C κ ι K ρ) (γ τ : Type) where
  /-- The invariant of committed stores. -/
  Inv : S → Prop
  /-- How committed stores evolve. -/
  le : S → S → Prop
  /-- The tokens that exist. -/
  born : S → Set τ
  /-- What other threads may do while a thread owns the tokens. -/
  rely : Set τ → S → S → Prop
  /-- What holds when a transaction commits. -/
  pre : ∀ {β : Type}, S → Set τ → L β → Prop
  /-- What is known after it. -/
  post : ∀ {β : Type}, S → Set τ → L β → β → S → Set τ → Prop
  /-- What is known of the result of a call, by the thread that returned it. -/
  done : K → ρ → S → Set τ → Prop
  /-- The guards a statement takes. -/
  guard : Event Q W → List γ
  /-- What stays true of a statement until its transaction ends. -/
  Cur : ∀ {β : Type}, S → L β → List W → Event Q W → Prop
  /-- The calls that may own tokens. -/
  owner : K → Bool := fun _ => true

namespace Rules

variable {sys : System Q L ε S W C κ ι K ρ} (R : Rules sys γ τ)

/-! ## Safe processes -/

/-- How the store may change while a thread that owns `T` waits. -/
structure Move (T : Set τ) (s s' : S) : Prop where
  inv : R.Inv s'
  le : R.le s s'
  rely : R.rely T s s'

/-- The process keeps to the rules from `s` on with the tokens `T`.  It returns with `A`,
and throws with `E`. -/
def Safe : {α : Type} → Proc L ε ι α → (α → S → Set τ → Prop) → (ε → S → Set τ → Prop) →
    S → Set τ → Prop
  | _, .pure a, A, _, s, T => A a s T
  | _, .throw e, _, E, s, T => E e s T
  | _, .call l k, A, E, s, T => ∀ s', R.Move T s s' → R.pre s' T l ∧
      (∀ e, Safe (k (.error e)) A E s' T) ∧
      ∀ a s'' T'', R.Inv s'' → R.le s' s'' → R.post s' T l a s'' T'' →
        Safe (k (.ok a)) A E s'' T''
  | _, .all _ ids body k, A, E, s, T => ∀ s', R.Move T s s' → ∃ (T₀ : Set τ) (F : Nat → Set τ),
      T₀ ⊆ T ∧ (∀ m, F m ⊆ T ∧ Disjoint (F m) T₀) ∧ (∀ m m', m ≠ m' → Disjoint (F m) (F m')) ∧
      (∀ done id rest, ids = done ++ id :: rest →
        Safe (body id) (fun _ _ _ => True) (fun _ _ _ => True) s' (F rest.length)) ∧
      ∀ r s'', R.Move T₀ s' s'' → Safe (k r) A E s'' T₀

variable {R} {α β : Type}

@[simp] theorem safe_return {a : α} {A : α → S → Set τ → Prop} {E : ε → S → Set τ → Prop} {s : S}
    {T : Set τ} : R.Safe (pure a) A E s T ↔ A a s T := Iff.rfl

theorem Safe.mono {p : Proc L ε ι α} {A A' : α → S → Set τ → Prop} {E E' : ε → S → Set τ → Prop}
    (hA : ∀ a s T, A a s T → A' a s T) (hE : ∀ e s T, E e s T → E' e s T) :
    ∀ {s : S} {T : Set τ}, R.Safe p A E s T → R.Safe p A' E' s T := by
  induction p with
  | pure a => exact fun h => hA _ _ _ h
  | throw e => exact fun h => hE _ _ _ h
  | call l k ih =>
      intro s T h s' hmove
      obtain ⟨hpre, herr, hok⟩ := h s' hmove
      exact ⟨hpre, fun e => ih _ hA (herr e), fun a s'' T'' hinv hle hpost =>
        ih _ hA (hok a s'' T'' hinv hle hpost)⟩
  | all n ids body k _ ih =>
      intro s T h s' hmove
      obtain ⟨T₀, F, h₀, hF, hFF, hbody, hk⟩ := h s' hmove
      exact ⟨T₀, F, h₀, hF, hFF, hbody, fun r s'' hmove' => ih r hA (hk r s'' hmove')⟩

/-- Run `p`, then `f`. -/
theorem Safe.bind {p : Proc L ε ι α} {f : α → Proc L ε ι β} {A : β → S → Set τ → Prop}
    {E : ε → S → Set τ → Prop} : ∀ {s : S} {T : Set τ},
      R.Safe p (fun a s T => R.Safe (f a) A E s T) E s T → R.Safe (p >>= f) A E s T := by
  induction p with
  | pure a => exact fun h => h
  | throw e => exact fun h => h
  | call l k ih =>
      intro s T h s' hmove
      obtain ⟨hpre, herr, hok⟩ := h s' hmove
      exact ⟨hpre, fun e => ih _ (herr e), fun a s'' T'' hinv hle hpost =>
        ih _ (hok a s'' T'' hinv hle hpost)⟩
  | all n ids body k _ ih =>
      intro s T h s' hmove
      obtain ⟨T₀, F, h₀, hF, hFF, hbody, hk⟩ := h s' hmove
      exact ⟨T₀, F, h₀, hF, hFF, hbody, fun r s'' hmove' => ih r (hk r s'' hmove')⟩

/-- Run `p`, and `f` when it throws. -/
theorem Safe.orElse {p : Proc L ε ι α} {f : ε → Proc L ε ι α} {A : α → S → Set τ → Prop}
    {E : ε → S → Set τ → Prop} : ∀ {s : S} {T : Set τ},
      R.Safe p A (fun e s T => R.Safe (f e) A E s T) s T → R.Safe (p.orElse f) A E s T := by
  induction p with
  | pure a => exact fun h => h
  | throw e => exact fun h => h
  | call l k ih =>
      intro s T h s' hmove
      obtain ⟨hpre, herr, hok⟩ := h s' hmove
      exact ⟨hpre, fun e => ih _ (herr e), fun a s'' T'' hinv hle hpost =>
        ih _ (hok a s'' T'' hinv hle hpost)⟩
  | all n ids body k _ ih =>
      intro s T h s' hmove
      obtain ⟨T₀, F, h₀, hF, hFF, hbody, hk⟩ := h s' hmove
      exact ⟨T₀, F, h₀, hF, hFF, hbody, fun r s'' hmove' => ih r (hk r s'' hmove')⟩

/-- Run `p` for its effect. -/
theorem Safe.discard {p : Proc L ε ι Unit} {a : α} {A : α → S → Set τ → Prop}
    {E : ε → S → Set τ → Prop} {s : S} {T : Set τ}
    (h : R.Safe p (fun _ s T => A a s T) E s T) : R.Safe (p.discard a) A E s T :=
  Safe.bind (f := fun _ => .pure a) h

/-- What every move keeps is still known when the process ends. -/
theorem Safe.keep {P : S → Prop} (hP : ∀ s s', R.le s s' → P s → P s') {p : Proc L ε ι α}
    {A : α → S → Set τ → Prop} {E : ε → S → Set τ → Prop} : ∀ {s : S} {T : Set τ},
      R.Safe p A E s T → P s → R.Safe p (fun a s T => A a s T ∧ P s) E s T := by
  induction p with
  | pure a => exact fun h hs => ⟨h, hs⟩
  | throw e => exact fun h _ => h
  | call l k ih =>
      intro s T h hs s' hmove
      have hs' := hP _ _ hmove.le hs
      obtain ⟨hpre, herr, hok⟩ := h s' hmove
      exact ⟨hpre, fun e => ih _ (herr e) hs', fun a s'' T'' hinv hle hpost =>
        ih _ (hok a s'' T'' hinv hle hpost) (hP _ _ hle hs')⟩
  | all n ids body k _ ih =>
      intro s T h hs s' hmove
      have hs' := hP _ _ hmove.le hs
      obtain ⟨T₀, F, h₀, hF, hFF, hbody, hk⟩ := h s' hmove
      exact ⟨T₀, F, h₀, hF, hFF, hbody, fun r s'' hmove' =>
        ih r (hk r s'' hmove') (hP _ _ hmove'.le hs')⟩

/-- A process that runs transactions which are allowed by what every move keeps. -/
theorem Safe.of_uses {p : ∀ {β : Type}, L β → Prop} {x : Proc L ε ι α} (hx : x.Uses p)
    {P : S → Prop} (hP : ∀ s s', R.le s s' → P s → P s')
    (hpre : ∀ {β : Type} (s : S) (T : Set τ) (l : L β), p l → P s → R.pre s T l) :
    ∀ {s : S} {T : Set τ}, P s → R.Safe x (fun _ _ _ => True) (fun _ _ _ => True) s T := by
  induction hx with
  | pure => exact fun _ => trivial
  | throw => exact fun _ => trivial
  | call hl _ ih =>
      intro s T hs s' hmove
      have hs' := hP _ _ hmove.le hs
      exact ⟨hpre s' T _ hl hs', fun e => ih _ hs', fun a s'' T'' _ hle _ =>
        ih _ (hP _ _ hle hs')⟩

/-- A process that runs transactions which are allowed by what it knows, and which keep it. -/
theorem Safe.of_uses_knowing {p : ∀ {β : Type}, L β → Prop} {x : Proc L ε ι α} (hx : x.Uses p)
    {P : S → Set τ → Prop} (hmove : ∀ s s' T, R.Move T s s' → P s T → P s' T)
    (hpre : ∀ {β : Type} (s : S) (T : Set τ) (l : L β), p l → P s T → R.pre s T l)
    (hpost : ∀ {β : Type} (s : S) (T : Set τ) (l : L β) (b : β) (s' : S) (T' : Set τ), p l → P s T →
      R.post s T l b s' T' → P s' T') :
    ∀ {s : S} {T : Set τ}, P s T → R.Safe x (fun _ _ _ => True) (fun _ _ _ => True) s T := by
  induction hx with
  | pure => exact fun _ => trivial
  | throw => exact fun _ => trivial
  | call hl _ ih =>
      intro s T hs s' hmove'
      have hs' := hmove _ _ _ hmove' hs
      exact ⟨hpre s' T _ hl hs', fun e => ih _ hs', fun a s'' T'' _ _ h =>
        ih _ (hpost _ _ _ _ _ _ hl hs' h)⟩

/-- Run a transaction. -/
theorem Safe.transaction {l : L α} {A : α → S → Set τ → Prop} {E : ε → S → Set τ → Prop} {s : S}
    {T : Set τ} (hpre : ∀ s', R.Move T s s' → R.pre s' T l)
    (herr : ∀ s', R.Move T s s' → ∀ e, E e s' T)
    (hok : ∀ s', R.Move T s s' → ∀ a s'' T'', R.Inv s'' → R.le s' s'' →
      R.post s' T l a s'' T'' → A a s'' T'') :
    R.Safe (Proc.transaction l) A E s T :=
  fun s' hmove => ⟨hpre s' hmove, herr s' hmove, hok s' hmove⟩

/-- Run a pool that shares out no tokens. -/
theorem Safe.pool {n : Nat} {ids : List ι} {body : ι → Proc L ε ι Unit}
    {A : Unit → S → Set τ → Prop} {E : ε → S → Set τ → Prop} {s : S} {T : Set τ}
    (hbody : ∀ id ∈ ids, ∀ s', R.Move T s s' →
      R.Safe (body id) (fun _ _ _ => True) (fun _ _ _ => True) s' ∅)
    (herr : ∀ s' s'', R.Move T s s' → R.Move T s' s'' → ∀ e, E e s'' T)
    (hok : ∀ s' s'', R.Move T s s' → R.Move T s' s'' → A () s'' T) :
    R.Safe (Proc.pool n ids body) A E s T := by
  intro s' hmove
  refine ⟨T, fun _ => ∅, Set.Subset.refl T,
    fun _ => ⟨Set.empty_subset _, Set.empty_disjoint _⟩, fun _ _ _ => Set.empty_disjoint _, ?_, ?_⟩
  · rintro done id rest rfl
    exact hbody id (by simp) s' hmove
  · rintro (e | ⟨⟩) s'' hmove'
    · exact herr s' s'' hmove hmove' e
    · exact hok s' s'' hmove hmove'

/-- What the items of a pool own has an owner for each of them. -/
theorem disjoint_shares {ids done done' rest rest' : List ι} {id id' : ι} {f : ι → Set τ}
    (h : ids.Pairwise fun a b => Disjoint (f a) (f b)) (heq : ids = done ++ id :: rest)
    (heq' : ids = done' ++ id' :: rest') (hne : rest.length ≠ rest'.length) :
    Disjoint (f id) (f id') := by
  have hget : ids[done.length]? = some id := by simp [heq]
  have hget' : ids[done'.length]? = some id' := by simp [heq']
  have hlength : done.length + (rest.length + 1) = done'.length + (rest'.length + 1) := by
    simpa using (congrArg List.length heq).symm.trans (congrArg List.length heq')
  obtain ⟨hlt, rfl⟩ := List.getElem?_eq_some_iff.mp hget
  obtain ⟨hlt', rfl⟩ := List.getElem?_eq_some_iff.mp hget'
  rcases Nat.lt_trichotomy done.length done'.length with hbefore | hsame | hafter
  · exact List.pairwise_iff_getElem.mp h _ _ hlt hlt' hbefore
  · omega
  · exact (List.pairwise_iff_getElem.mp h _ _ hlt' hlt hafter).symm

/-- Run a pool that shares out tokens among its items, and keeps the others. -/
theorem Safe.share {n : Nat} {ids : List ι} {body : ι → Proc L ε ι Unit} {f : ι → Set τ}
    {A : Unit → S → Set τ → Prop} {E : ε → S → Set τ → Prop} {s : S} {T : Set τ}
    (hsub : ∀ id ∈ ids, f id ⊆ T) (hdisjoint : ids.Pairwise fun a b => Disjoint (f a) (f b))
    (hbody : ∀ id ∈ ids, ∀ s', R.Move T s s' →
      R.Safe (body id) (fun _ _ _ => True) (fun _ _ _ => True) s' (f id))
    (herr : ∀ s' s'' T₀, R.Move T s s' → R.Move T₀ s' s'' → T₀ = T \ {t | ∃ id ∈ ids, t ∈ f id} →
      ∀ e, E e s'' T₀)
    (hok : ∀ s' s'' T₀, R.Move T s s' → R.Move T₀ s' s'' → T₀ = T \ {t | ∃ id ∈ ids, t ∈ f id} →
      A () s'' T₀) :
    R.Safe (Proc.pool n ids body) A E s T := by
  intro s' hmove
  refine ⟨T \ {t | ∃ id ∈ ids, t ∈ f id},
    fun m => {t | ∃ done id rest, ids = done ++ id :: rest ∧ rest.length = m ∧ t ∈ f id},
    Set.sdiff_subset, fun m => ⟨?_, ?_⟩, fun m m' hne => ?_, ?_, ?_⟩
  · rintro t ⟨done, id, rest, rfl, -, ht⟩
    exact hsub id (by simp) ht
  · refine Set.disjoint_left.mpr ?_
    rintro t ⟨done, id, rest, rfl, -, ht⟩ ⟨-, hnot⟩
    exact hnot ⟨id, by simp, ht⟩
  · refine Set.disjoint_left.mpr ?_
    rintro t ⟨done, id, rest, heq, rfl, ht⟩ ⟨done', id', rest', heq', rfl, ht'⟩
    exact Set.disjoint_left.mp (disjoint_shares hdisjoint heq heq' hne) ht ht'
  · rintro done id rest rfl
    have hown : {t | ∃ done' id' rest', done ++ id :: rest = done' ++ id' :: rest' ∧
        rest'.length = rest.length ∧ t ∈ f id'} = f id := by
      refine Set.ext fun t => ⟨?_, fun ht => ⟨done, id, rest, rfl, rfl, ht⟩⟩
      rintro ⟨done', id', rest', heq, hlength, ht⟩
      have hlength' : (id :: rest).length = (id' :: rest').length := by simp [hlength]
      obtain ⟨-, htail⟩ := List.append_inj' heq hlength'
      cases htail
      exact ht
    have hsafe := hbody id (by simp) s' hmove
    rw [← hown] at hsafe
    exact hsafe
  · rintro (e | ⟨⟩) s'' hmove'
    · exact herr s' s'' _ hmove hmove' rfl e
    · exact hok s' s'' _ hmove hmove' rfl

/-! ## What has to be shown -/

variable (R)

/-- What is known of a statement of an open transaction. -/
def Evidence (s : S) (l : L β) (p : List W) (e : Event Q W) : Prop :=
  Seen sys R.Inv R.le s p e ∧ R.Cur s l p e

/-- A transaction that may commit on `s`. -/
structure Commits (s : S) (T : Set τ) (l : L β) (h : List (Event Q W)) (a : β) : Prop where
  inv : R.Inv s
  pre : R.pre s T l
  path : Completes (sys.body l) h a
  evidence : Holds (R.Evidence s l) [] h
  admissible : sys.Admissible s (writes h)

/-- What has to be shown of the statements of a transaction. -/
structure Statements [DecidableEq κ] (ok : Config Q L ε S W ι K ρ → Action C K → Bool) :
    Prop where
  guarded : ∀ (c : Config Q L ε S W ι K ρ) i ch call pool {β α : Type} (l : L β) h (q : Q α)
    (k' : α → Tx Q ε β) k r ws,
    ok c (.advance i ch) = true →
    c.threads[i]? = some ⟨call, pool, .opened l h (.query q k') k⟩ →
    sys.exec q ch (sys.applyAll (writes h) c.store) = .ok (r, ws) →
    ∀ j th, c.threads[j]? = some th → j ≠ i →
      List.Disjoint (th.code.history.flatMap R.guard) (R.guard ⟨q, r, ws⟩)
  current : ∀ (c : Config Q L ε S W ι K ρ) i ch call pool {β α : Type} (l : L β) h (q : Q α)
    (k' : α → Tx Q ε β) k r ws T,
    ok c (.advance i ch) = true →
    c.threads[i]? = some ⟨call, pool, .opened l h (.query q k') k⟩ →
    sys.exec q ch (sys.applyAll (writes h) c.store) = .ok (r, ws) →
    R.Inv c.store → R.pre c.store T l → R.Cur c.store l (writes h) ⟨q, r, ws⟩
  frame : ∀ {β β' : Type} s T (l : L β) h a T' (l' : L β') p e,
    R.Commits s T l h a → R.pre s T' l' → Disjoint T T' →
    List.Disjoint (sys.locksOf (writes h)) (sys.locksOf (p ++ e.writes)) →
    List.Disjoint (h.flatMap R.guard) (R.guard e) →
    R.Cur s l' p e → R.Cur (sys.applyAll (writes h) s) l' p e

/-- What has to be shown of the rules, for schedules restricted by `ok`. -/
structure Valid [DecidableEq κ] (ok : Config Q L ε S W ι K ρ → Action C K → Bool) : Prop where
  lawful : sys.Lawful
  le_refl : ∀ s, R.le s s
  le_trans : ∀ s₁ s₂ s₃, R.le s₁ s₂ → R.le s₂ s₃ → R.le s₁ s₃
  rely_refl : ∀ T s, R.rely T s s
  rely_trans : ∀ T s₁ s₂ s₃, R.rely T s₁ s₂ → R.rely T s₂ s₃ → R.rely T s₁ s₃
  born_mono : ∀ s s', R.le s s' → R.born s ⊆ R.born s'
  statements : R.Statements ok
  commit : ∀ {β : Type} s T (l : L β) h a, R.Commits s T l h a →
    R.Inv (sys.applyAll (writes h) s) ∧ R.le s (sys.applyAll (writes h) s)
  guarantee : ∀ {β : Type} s T (l : L β) h a T', R.Commits s T l h a → Disjoint T T' →
    R.rely T' s (sys.applyAll (writes h) s)
  result : ∀ {β : Type} s T (l : L β) h a, R.Commits s T l h a → ∃ T',
    T' ⊆ T ∪ (R.born (sys.applyAll (writes h) s) \ R.born s) ∧
      R.post s T l a (sys.applyAll (writes h) s) T'
  start : ∀ (c : Config Q L ε S W ι K ρ) call, ok c (.start call) = true → R.Inv c.store →
    R.Safe (sys.program call) (R.done call) (fun _ _ _ => True) c.store ∅ ∨
      (c.quietFor R.owner = true ∧ R.owner call = true ∧ R.born c.store = Set.univ ∧
        (∀ call a s T, R.done call a s T → R.done call a s ∅) ∧
        R.Safe (sys.program call) (R.done call) (fun _ _ _ => True) c.store Set.univ)
  done_le : ∀ call a s s' T, R.done call a s T → R.Inv s' → R.le s s' → R.done call a s' T
  done_idle : ∀ call s T, R.done call sys.idle s T
  owners : (∀ call, R.owner call = true) ∨ ∀ s, R.born s = Set.univ := by
    exact Or.inl fun _ => rfl

/-! ## Rules without tokens -/

/-- Rules in which what a process knows does not depend on the store. -/
def static (sys : System Q L ε S W C κ ι K ρ) (Inv : S → Prop) (le : S → S → Prop)
    (pre : ∀ {β : Type}, L β → Prop) (post : ∀ {β : Type}, L β → β → Prop)
    (guard : Event Q W → List γ) (Cur : ∀ {β : Type}, S → L β → List W → Event Q W → Prop) :
    Rules sys γ Empty where
  Inv := Inv
  le := le
  born := fun _ => ∅
  rely := fun _ _ _ => True
  pre := fun _ _ l => pre l
  post := fun _ _ l a _ _ => post l a
  done := fun _ _ _ _ => True
  guard := guard
  Cur := Cur

section Static

variable [DecidableEq κ] {Inv : S → Prop} {le : S → S → Prop} {pre : ∀ {β : Type}, L β → Prop}
  {post : ∀ {β : Type}, L β → β → Prop} {guard : Event Q W → List γ}
  {Cur : ∀ {β : Type}, S → L β → List W → Event Q W → Prop}
  {ok : Config Q L ε S W ι K ρ → Action C K → Bool}

theorem static_valid (lawful : sys.Lawful) (le_refl : ∀ s, le s s)
    (le_trans : ∀ s₁ s₂ s₃, le s₁ s₂ → le s₂ s₃ → le s₁ s₃)
    (statements : (static sys Inv le pre post guard Cur).Statements ok)
    (commit : ∀ {β : Type} s T (l : L β) h a,
      (static sys Inv le pre post guard Cur).Commits s T l h a →
      Inv (sys.applyAll (writes h) s) ∧ le s (sys.applyAll (writes h) s) ∧ post l a)
    (start : ∀ (c : Config Q L ε S W ι K ρ) call, ok c (.start call) = true → Inv c.store →
      (static sys Inv le pre post guard Cur).Safe (sys.program call) (fun _ _ _ => True)
        (fun _ _ _ => True) c.store ∅) :
    (static sys Inv le pre post guard Cur).Valid ok where
  lawful := lawful
  le_refl := le_refl
  le_trans := le_trans
  rely_refl := fun _ _ => trivial
  rely_trans := fun _ _ _ _ _ _ => trivial
  born_mono := fun _ _ _ => Set.Subset.refl _
  statements := statements
  commit := fun s T l h a hc => ⟨(commit s T l h a hc).1, (commit s T l h a hc).2.1⟩
  guarantee := fun _ _ _ _ _ _ _ _ => trivial
  result := fun s T l h a hc => ⟨∅, Set.empty_subset _, (commit s T l h a hc).2.2⟩
  start := fun c call hok hinv => Or.inl (start c call hok hinv)
  done_le := fun _ _ _ _ _ _ _ _ => trivial
  done_idle := fun _ _ _ => trivial

end Static

section Fine

/-- The process keeps to the rules from any store on, and returns with `P`. -/
def Fine (R : Rules sys γ τ) (p : Proc L ε ι α) (P : α → Prop) : Prop :=
  ∀ s T, R.Safe p (fun a _ _ => P a) (fun _ _ _ => True) s T

variable {R} {P : α → Prop} {P' : β → Prop}

theorem Fine.pure {a : α} (h : P a) : R.Fine (.pure a) P := fun _ _ => h

theorem Fine.throw {e : ε} : R.Fine (.throw e) P := fun _ _ => trivial

theorem Fine.mono {p : Proc L ε ι α} {P' : α → Prop} (h : R.Fine p P) (himp : ∀ a, P a → P' a) :
    R.Fine p P' := fun s T =>
  (h s T).mono (fun a _ _ ha => himp a ha) fun _ _ _ _ => trivial

theorem Fine.bind {p : Proc L ε ι α} {f : α → Proc L ε ι β} (h : R.Fine p P)
    (hf : ∀ a, P a → R.Fine (f a) P') : R.Fine (p >>= f) P' := fun s T =>
  Safe.bind ((h s T).mono (fun a s T ha => hf a ha s T) fun _ _ _ _ => trivial)

theorem Fine.orElse {p : Proc L ε ι α} {f : ε → Proc L ε ι α} (h : R.Fine p P)
    (hf : ∀ e, R.Fine (f e) P) : R.Fine (p.orElse f) P := fun s T =>
  Safe.orElse ((h s T).mono (fun _ _ _ ha => ha) fun e s T _ => hf e s T)

theorem Fine.transaction {l : L α} (hpre : ∀ s T, R.pre s T l)
    (hpost : ∀ s T a s' T', R.post s T l a s' T' → P a) : R.Fine (Proc.transaction l) P :=
  fun _ _ => Safe.transaction (fun _ _ => hpre _ _) (fun _ _ _ => trivial)
    fun _ _ a _ _ _ _ h => hpost _ _ a _ _ h

/-- A process is fine that runs fine transactions. -/
theorem Fine.of_uses {p : ∀ {β : Type}, L β → Prop} {x : Proc L ε ι α} (hx : x.Uses p)
    (hpre : ∀ {β : Type} (s : S) (T : Set τ) (l : L β), p l → R.pre s T l) :
    R.Fine x fun _ => True :=
  fun _ _ => Safe.of_uses (P := fun _ => True) hx (fun _ _ _ h => h)
    (fun _ _ l hl _ => hpre _ _ l hl) trivial

/-- Every process is fine if every transaction may commit. -/
theorem Fine.of_pre (hpre : ∀ {β : Type} (s : S) (T : Set τ) (l : L β), R.pre s T l)
    (p : Proc L ε ι α) : R.Fine p fun _ => True := by
  intro s T
  induction p generalizing s T with
  | pure a => trivial
  | throw e => trivial
  | call l k ih =>
      exact fun s' _ => ⟨hpre s' T l, fun e => ih _ _ _, fun a s'' T'' _ _ _ => ih _ _ _⟩
  | all n ids body k hbody ih =>
      exact fun s' _ => ⟨T, fun _ => ∅, Set.Subset.refl T,
        fun _ => ⟨Set.empty_subset _, Set.empty_disjoint _⟩, fun _ _ _ => Set.empty_disjoint _,
        fun _ id _ _ => (hbody id _ _).mono (fun _ _ _ _ => trivial) fun _ _ _ _ => trivial,
        fun r s'' _ => ih _ _ _⟩

theorem Fine.pool {n : Nat} {ids : List ι} {body : ι → Proc L ε ι Unit}
    (h : ∀ id ∈ ids, R.Fine (body id) fun _ => True) :
    R.Fine (Proc.pool n ids body) fun _ => True := fun _ _ =>
  Safe.pool (fun id hid _ _ => h id hid _ _) (fun _ _ _ _ _ => trivial) fun _ _ _ _ => trivial

end Fine

/-! ## Guards -/

variable {R} {ok : Config Q L ε S W ι K ρ → Action C K → Bool}

/-- The schedules with atomic transactions: all statements share one guard, and each statement
of an open transaction would answer the same on the store of now.  What the schedule asks of the
store while a transaction is open still holds when it commits. -/
theorem serial_statements_when [DecidableEq κ] {R : Rules sys Unit τ}
    {P : ∀ {β : Type}, S → L β → Prop} (hguard : ∀ e, R.guard e = [()])
    (hcur : ∀ {β : Type} s (l : L β) p e, R.Cur s l p e ↔
      (∃ ch, sys.exec e.query ch (sys.applyAll p s) = .ok (e.reply, e.writes)) ∧ P s l)
    (hok : ∀ c a, ok c a = true → sys.Serial c a = true)
    (hP : ∀ (c : Config Q L ε S W ι K ρ) i ch call pool {β : Type} (l : L β) h t k,
      ok c (.advance i ch) = true → c.threads[i]? = some ⟨call, pool, .opened l h t k⟩ →
      P c.store l) : R.Statements ok where
  guarded := by
    intro c i ch call pool β α l h q k' k r ws ha hth hexec
    have := exclusive_statement (hok c _ ha) hth hexec
    simpa only [funext hguard] using this
  current := by
    intro c i ch call pool β α l h q k' k r ws T ha hth hexec _ _
    exact (hcur ..).mpr ⟨⟨ch, hexec⟩, hP c i ch call pool l h _ k ha hth⟩
  frame := by
    intro β β' s T l h a T' l' p e _ _ _ _ hdis hc
    -- the committing transaction holds the one guard unless it is empty
    cases h with
    | nil => exact hc
    | cons e' h =>
        simp only [List.flatMap_cons, hguard] at hdis
        exact absurd (List.mem_singleton_self ()) (hdis (by simp))

theorem serial_statements [DecidableEq κ] {R : Rules sys Unit τ} (hguard : ∀ e, R.guard e = [()])
    (hcur : ∀ {β : Type} s (l : L β) p e, R.Cur s l p e ↔
      ∃ ch, sys.exec e.query ch (sys.applyAll p s) = .ok (e.reply, e.writes))
    (hok : ∀ c a, ok c a = true → sys.Serial c a = true) : R.Statements ok :=
  serial_statements_when (P := fun _ _ => True) hguard
    (fun s l p e => (hcur s l p e).trans (and_iff_left trivial).symm) hok
    fun _ _ _ _ _ _ _ _ _ _ _ _ => trivial

/-- All schedules: there are no guards, and nothing is kept of what a statement saw. -/
theorem unguarded_statements [DecidableEq κ] (hguard : ∀ e, R.guard e = [])
    (hcur : ∀ {β : Type} s (l : L β) p e, R.Cur s l p e) : R.Statements ok where
  guarded := by simp [hguard]
  current := by
    intros
    exact hcur ..
  frame := by
    intros
    exact hcur ..

/-- All schedules: there are no guards, and of a statement it is kept that it was executed on an
earlier store, on which its transaction had what it needs. -/
theorem observed_statements [DecidableEq κ] (hguard : ∀ e, R.guard e = [])
    (hcur : ∀ {β : Type} s (l : L β) p e, R.Cur s l p e ↔ ∃ s₀ T ch, R.pre s₀ T l ∧ R.le s₀ s ∧
      sys.exec e.query ch (sys.applyAll p s₀) = .ok (e.reply, e.writes))
    (hrefl : ∀ s, R.le s s) (htrans : ∀ s₁ s₂ s₃, R.le s₁ s₂ → R.le s₂ s₃ → R.le s₁ s₃)
    (hcommit : ∀ {β : Type} s T (l : L β) h a, R.Commits s T l h a →
      R.le s (sys.applyAll (writes h) s)) : R.Statements ok where
  guarded := by simp [hguard]
  current := by
    intro c i ch call pool β α l h q k' k r ws T _ _ hexec _ hpre
    exact (hcur ..).mpr ⟨c.store, T, ch, hpre, hrefl _, hexec⟩
  frame := by
    intro β β' s T l h a T' l' p e hc _ _ _ _ hobserved
    obtain ⟨s₀, T₀, ch, hpre, hle, hexec⟩ := (hcur ..).mp hobserved
    exact (hcur ..).mpr ⟨s₀, T₀, ch, hpre, htrans _ _ _ hle (hcommit s T l h a hc), hexec⟩

end Rules

end Txn
