import LedgerCredit.Txn.Sequential
import Mathlib.Algebra.Group.Nat.Defs

/-!
# Counting in runs

`System.happens` says what an action does to a transaction: it executes a
statement of it, commits it, or rolls it back.  `Weighed` is a run with the sum
of what its actions weigh.

A predicate on the history of a transaction says which open transactions count.
The number of those is a balance: it grows when a statement makes a transaction
count (`opened`), and it falls when such a transaction commits (`landed`) or is
lost (`dropped`).
-/

namespace Txn

variable {Q : Type → Type} {L : Type → Type 1} {ε S W C κ ι K ρ M : Type}

/-- What an action does to a transaction. -/
inductive Happening (Q : Type → Type) (L : Type → Type 1) (W : Type) : Type 1 where
  | executed {β : Type} (l : L β) (h : List (Event Q W)) (e : Event Q W)
  | committed {β : Type} (l : L β) (h : List (Event Q W))
  | rolledBack {β : Type} (l : L β) (h : List (Event Q W))
  | crashed
  | moved

/-- What an action does to a transaction, if it is allowed. -/
def System.happens (sys : System Q L ε S W C κ ι K ρ) (c : Config Q L ε S W ι K ρ) :
    Action C K → Happening Q L W
  | .start _ => .moved
  | .crash => .crashed
  | .abort i =>
      match c.threads[i]? with
      | some ⟨_, _, .opened l h _ _⟩ => .rolledBack l h
      | _ => .moved
  | .advance i ch =>
      match c.threads[i]? with
      | some ⟨_, _, .opened l h (.pure _) _⟩ => .committed l h
      | some ⟨_, _, .opened l h (.throw _) _⟩ => .rolledBack l h
      | some ⟨_, _, .opened l h (.query q _) _⟩ =>
          match sys.exec q ch (sys.applyAll (writes h) c.store) with
          | .ok (r, ws) => .executed l h ⟨q, r, ws⟩
          | .error _ => .rolledBack l h
      | _ => .moved

section Happens

variable {sys : System Q L ε S W C κ ι K ρ} {c : Config Q L ε S W ι K ρ} {i : Nat} {ch : C}
  {call : K} {pool : Option Nat}

theorem happens_statement {β α : Type} {l : L β} {h : List (Event Q W)} {q : Q α}
    {k' : α → Tx Q ε β} {k : Except ε β → Proc L ε ι ρ} {r : α} {ws : List W}
    (hth : c.threads[i]? = some ⟨call, pool, .opened l h (.query q k') k⟩)
    (hexec : sys.exec q ch (sys.applyAll (writes h) c.store) = .ok (r, ws)) :
    sys.happens c (.advance i ch) = .executed l h ⟨q, r, ws⟩ := by
  simp [System.happens, hth, hexec]

theorem happens_commit {β : Type} {l : L β} {h : List (Event Q W)} {a : β}
    {k : Except ε β → Proc L ε ι ρ}
    (hth : c.threads[i]? = some ⟨call, pool, .opened l h (.pure a) k⟩) :
    sys.happens c (.advance i ch) = .committed l h := by
  simp [System.happens, hth]

theorem happens_rollback {β : Type} {l : L β} {h : List (Event Q W)} {t : Tx Q ε β}
    {k : Except ε β → Proc L ε ι ρ} {a : Action C K} {e : ε}
    (hth : c.threads[i]? = some ⟨call, pool, .opened l h t k⟩) (hfails : Fails sys c i h t a e) :
    sys.happens c a = .rolledBack l h := by
  cases hfails with
  | abort => simp [System.happens, hth]
  | throw ht =>
      subst ht
      simp [System.happens, hth]
  | statement ht hexec =>
      subst ht
      simp [System.happens, hth, hexec]

theorem happens_run {p : Proc L ε ι ρ} (hth : c.threads[i]? = some ⟨call, pool, .run p⟩) :
    sys.happens c (.advance i ch) = .moved := by
  simp [System.happens, hth]

theorem happens_await {n : Nat} {k : Except ε Unit → Proc L ε ι ρ}
    (hth : c.threads[i]? = some ⟨call, pool, .await n k⟩) :
    sys.happens c (.advance i ch) = .moved := by
  simp [System.happens, hth]

end Happens

/-! ## Weights -/

section Weighed

variable [DecidableEq κ] [AddMonoid M] (sys : System Q L ε S W C κ ι K ρ)
  (ok : Config Q L ε S W ι K ρ → Action C K → Bool) (f : Config Q L ε S W ι K ρ → Action C K → M)

/-- A run with the sum of the weights of its actions. -/
inductive Weighed (c : Config Q L ε S W ι K ρ) : M → Config Q L ε S W ι K ρ → Prop where
  | refl : Weighed c 0 c
  | tail {n : M} {c' c'' : Config Q L ε S W ι K ρ} {a : Action C K} : Weighed c n c' →
      ok c' a = true → sys.step c' a = some c'' → Weighed c (n + f c' a) c''

/-- The sum of the weights of a list of actions. -/
def System.weight (c : Config Q L ε S W ι K ρ) : List (Action C K) → M
  | [] => 0
  | a :: as => f c a + ((sys.step c a).map fun c' => weight c' as).getD 0

variable {sys ok f} {c c' : Config Q L ε S W ι K ρ} {n : M}

theorem Weighed.steps (h : Weighed sys ok f c n c') : Steps sys ok c c' := by
  induction h with
  | refl => exact .refl
  | tail _ hok hstep ih => exact ih.tail ⟨_, hok, hstep⟩

theorem Weighed.head {c₁ : Config Q L ε S W ι K ρ} {a : Action C K} (hok : ok c a = true)
    (hstep : sys.step c a = some c₁) (h : Weighed sys ok f c₁ n c') :
    Weighed sys ok f c (f c a + n) c' := by
  induction h with
  | refl => simpa using Weighed.tail (f := f) .refl hok hstep
  | tail _ hok' hstep' ih =>
      rw [← add_assoc]
      exact ih.tail hok' hstep'

/-- Playing actions is a run with their weight. -/
theorem weighed_of_play {as : List (Action C K)} (h : sys.play ok c as = some c') :
    Weighed sys ok f c (sys.weight f c as) c' := by
  induction as generalizing c with
  | nil =>
      cases h
      exact .refl
  | cons a as ih =>
      simp only [System.play] at h
      split at h
      · rename_i hok
        obtain ⟨c₁, hstep, hrest⟩ := Option.bind_eq_some_iff.mp h
        rw [System.weight, hstep]
        exact .head hok hstep (ih hrest)
      · cases h

variable (sys ok f c) in
/-- Playing actions finds a run with its weight. -/
theorem exists_weighed (as : List (Action C K)) (P : M → Config Q L ε S W ι K ρ → Prop)
    [∀ n c, Decidable (P n c)]
    (h : (sys.play ok c as).any (fun c' => decide (P (sys.weight f c as) c')) = true) :
    ∃ n c', Weighed sys ok f c n c' ∧ P n c' := by
  obtain ⟨c', hplay, hP⟩ := play_of_decide sys ok c as (P (sys.weight f c as)) h
  exact ⟨_, c', weighed_of_play hplay, hP⟩

end Weighed

/-! ## Open transactions that count -/

/-- The thread is in a transaction that counts. -/
def Code.counts (p : {β : Type} → L β → List (Event Q W) → Bool) : Code Q L ε W ι ρ → Bool
  | .opened l h _ _ => p l h
  | _ => false

/-- How many open transactions count. -/
def Config.openCount (c : Config Q L ε S W ι K ρ)
    (p : {β : Type} → L β → List (Event Q W) → Bool) : Nat :=
  c.threads.countP fun th => th.code.counts p

namespace Happening

variable (p : {β : Type} → L β → List (Event Q W) → Bool)

/-- The transactions that begin to count. -/
def opened : Happening Q L W → Nat
  | .executed l h e => (!p l h && p l (h ++ [e])).toNat
  | _ => 0

/-- The transactions that count and commit. -/
def landed : Happening Q L W → Nat
  | .committed l h => (p l h).toNat
  | _ => 0

/-- The transactions that count and are lost, where `n` are open. -/
def dropped (n : Nat) : Happening Q L W → Nat
  | .rolledBack l h => (p l h).toNat
  | .crashed => n
  | _ => 0

variable {p} {n : Nat} {β : Type} {l : L β} {h : List (Event Q W)} {e : Event Q W}

@[simp] theorem opened_moved : (moved : Happening Q L W).opened p = 0 := rfl
@[simp] theorem opened_executed : (executed l h e).opened p = (!p l h && p l (h ++ [e])).toNat := rfl
@[simp] theorem opened_committed : (committed l h).opened p = 0 := rfl
@[simp] theorem opened_rolledBack : (rolledBack l h).opened p = 0 := rfl
@[simp] theorem opened_crashed : (crashed : Happening Q L W).opened p = 0 := rfl

@[simp] theorem landed_moved : (moved : Happening Q L W).landed p = 0 := rfl
@[simp] theorem landed_executed : (executed l h e).landed p = 0 := rfl
@[simp] theorem landed_committed : (committed l h).landed p = (p l h).toNat := rfl
@[simp] theorem landed_rolledBack : (rolledBack l h).landed p = 0 := rfl
@[simp] theorem landed_crashed : (crashed : Happening Q L W).landed p = 0 := rfl

@[simp] theorem dropped_moved : (moved : Happening Q L W).dropped p n = 0 := rfl
@[simp] theorem dropped_executed : (executed l h e).dropped p n = 0 := rfl
@[simp] theorem dropped_committed : (committed l h).dropped p n = 0 := rfl
@[simp] theorem dropped_rolledBack : (rolledBack l h).dropped p n = (p l h).toNat := rfl
@[simp] theorem dropped_crashed : (crashed : Happening Q L W).dropped p n = n := rfl

end Happening

section OpenCount

variable {p : {β : Type} → L β → List (Event Q W) → Bool} {c c' : Config Q L ε S W ι K ρ}

@[simp] theorem counts_run (q : Proc L ε ι ρ) : (.run q : Code Q L ε W ι ρ).counts p = false := rfl

@[simp] theorem counts_await (n : Nat) (k : Except ε Unit → Proc L ε ι ρ) :
    (.await n k : Code Q L ε W ι ρ).counts p = false := rfl

@[simp] theorem counts_opened {β : Type} (l : L β) (h : List (Event Q W)) (t : Tx Q ε β)
    (k : Except ε β → Proc L ε ι ρ) : (.opened l h t k : Code Q L ε W ι ρ).counts p = p l h := rfl

/-- One thread moves the count by what it counted before and counts after. -/
theorem openCount_set {i : Nat} {call : K} {pool : Option Nat} {code : Code Q L ε W ι ρ}
    (hth : c.threads[i]? = some ⟨call, pool, code⟩) (code' : Code Q L ε W ι ρ) :
    (c.threads.set i ⟨call, pool, code'⟩).countP (fun th => th.code.counts p) +
      (code.counts p).toNat = c.openCount p + (code'.counts p).toNat := by
  obtain ⟨hi, heq⟩ := List.getElem?_eq_some_iff.mp hth
  have hle : (code.counts p).toNat ≤ c.openCount p := by
    cases hp : code.counts p with
    | false => exact Nat.zero_le _
    | true => exact List.countP_pos_iff.mpr ⟨_, List.getElem_mem hi, by rw [heq]; exact hp⟩
  rw [List.countP_set hi, heq]
  show c.openCount p - _ + _ + _ = _
  cases hp : code.counts p <;> cases hp' : code'.counts p <;> rw [hp] at hle <;> simp_all

/-- No transaction is open when every thread has ended. -/
theorem openCount_of_atRest (h : c.atRest = true) : c.openCount p = 0 := by
  refine List.countP_eq_zero.mpr fun th hth => ?_
  have hrest := List.all_eq_true.mp h th hth
  obtain ⟨call, pool, code⟩ := th
  cases code with
  | opened l hist t k => cases hrest
  | _ => exact Bool.false_ne_true

variable [DecidableEq κ] {sys : System Q L ε S W C κ ι K ρ} {a : Action C K}

/-- The balance of a step. -/
theorem openCount_step (hnew : ∀ {β : Type} (l : L β), p l [] = false)
    (hgrow : ∀ {β : Type} (l : L β) h e, p l h = true → p l (h ++ [e]) = true)
    (hstep : sys.step c a = some c') :
    c'.openCount p + (sys.happens c a).landed p + (sys.happens c a).dropped p (c.openCount p) =
      c.openCount p + (sys.happens c a).opened p := by
  cases step_cases hstep with
  | start call => simp [Config.openCount, System.happens]
  | crash => simp [Config.openCount, System.happens]
  | begin hth =>
      rw [happens_run hth]
      simpa [Config.openCount, Config.goto, hnew] using openCount_set (p := p) hth (.opened _ [] _ _)
  | @statement _ _ _ _ _ _ l h q k' k r ws hth hexec _ =>
      rw [happens_statement hth hexec]
      have hset := openCount_set (p := p) hth (.opened l (h ++ [⟨q, r, ws⟩]) (k' r) k)
      simp only [counts_opened] at hset
      cases hp : p l h with
      | false => simpa [Config.openCount, Config.goto, hp] using hset
      | true => simpa [Config.openCount, Config.goto, hp, hgrow l h ⟨q, r, ws⟩ hp] using hset
  | rollback hth hfails =>
      rw [happens_rollback hth hfails]
      simpa [Config.openCount, Config.goto] using openCount_set (p := p) hth (.run _)
  | commit hth =>
      rw [happens_commit hth]
      simpa [Config.openCount] using openCount_set (p := p) hth (.run _)
  | fork hth =>
      rw [happens_run hth]
      simpa [Config.openCount, List.countP_replicate] using
        openCount_set (p := p) hth (.await c.pools.length _)
  | take hth _ =>
      rw [happens_run hth]
      simpa [Config.openCount] using openCount_set (p := p) hth (.run _)
  | resume hth _ =>
      rw [happens_await hth]
      simpa [Config.openCount, Config.goto] using openCount_set (p := p) hth (.run _)

end OpenCount

end Txn
