import LedgerCredit.Txn.Rules
import Mathlib.Logic.Function.Basic

/-!
# The run lemma

`Rules.Sound` is the invariant of configurations that valid rules carry through
every schedule.  It says who owns which tokens: threads, and the items of a pool
that no worker has taken yet.  `Sound.step` shows one step, with one lemma for
each kind of step, and `sound_of_steps` is the run lemma.
-/

namespace Txn

variable {Q : Type → Type} {L : Type → Type 1} {ε S W C κ ι K ρ γ τ : Type}

/-- Who may own tokens.  The item `item n m` is the one with `m` items after it
in the queue of pool `n`. -/
inductive Owner where
  | thread (i : Nat)
  | item (n m : Nat)
  deriving DecidableEq

/-- A thread that threw. -/
def Thread.dead (th : Thread Q L ε W ι K ρ) : Prop := ∃ e, th.code = .run (.throw e)

namespace Rules

variable {sys : System Q L ε S W C κ ι K ρ} (R : Rules sys γ τ)

/-- A process of a call that may go on from `s`. -/
def Good (call : K) (s : S) (T : Set τ) (p : Proc L ε ι ρ) : Prop :=
  R.Safe p (R.done call) (fun _ _ _ => True) s T

/-- What is known of a thread inside the transaction `l`. -/
structure Opened {β : Type} (call : K) (s : S) (T : Set τ) (l : L β)
    (k : Except ε β → Proc L ε ι ρ) (h : List (Event Q W)) : Prop where
  good : R.Good call s T (.call l k)
  evidence : Holds (R.Evidence s l) [] h
  admissible : sys.Admissible s (writes h)

/-- What is known of a thread that owns `T`. -/
def ThreadOk (s : S) (T : Set τ) (th : Thread Q L ε W ι K ρ) : Prop :=
  match th.code with
  | .run p => R.Good th.call s T p
  | .await _ k => ∀ r, R.Good th.call s T (k r)
  | .opened l h rest k => R.Opened th.call s T l k h ∧ Path (sys.body l) h rest

/-- Two open transactions hold different locks and different guards. -/
def Apart (h h' : List (Event Q W)) : Prop :=
  List.Disjoint (sys.locksOf (writes h)) (sys.locksOf (writes h')) ∧
    List.Disjoint (h.flatMap R.guard) (h'.flatMap R.guard)

/-- The invariant of configurations, with the tokens each owner has. -/
structure Sound (c : Config Q L ε S W ι K ρ) (own : Owner → Set τ) : Prop where
  inv : R.Inv c.store
  born : ∀ o, own o ⊆ R.born c.store
  disjoint : ∀ o o', o ≠ o' → Disjoint (own o) (own o')
  thread : ∀ (i : Nat) (th : Thread Q L ε W ι K ρ), c.threads[i]? = some th →
    R.ThreadOk c.store (own (.thread i)) th
  bound : ∀ (i : Nat) (th : Thread Q L ε W ι K ρ) (n : Nat), c.threads[i]? = some th →
    th.pool = some n → n < c.pools.length
  pool : ∀ (n : Nat) (pl : Pool L ε ι) (i : Nat) (th : Thread Q L ε W ι K ρ),
    c.pools[n]? = some pl → c.threads[i]? = some th → th.pool = some n → ¬ th.dead →
    ∀ done id rest, pl.queue = done ++ id :: rest →
      R.Good th.call c.store (own (.item n rest.length)) ((pl.body id).discard sys.idle)
  apart : ∀ (i j : Nat) (th th' : Thread Q L ε W ι K ρ), i ≠ j → c.threads[i]? = some th →
    c.threads[j]? = some th' → R.Apart th.code.history th'.code.history
  unowned : ∀ (i : Nat) (th : Thread Q L ε W ι K ρ), c.threads[i]? = some th →
    R.owner th.call = false →
      own (.thread i) = ∅ ∧ ∀ n, th.pool = some n → ∀ m, own (.item n m) = ∅

variable {R} {own : Owner → Set τ}

theorem apart_nil_left (h : List (Event Q W)) : R.Apart [] h := by
  simp [Apart, Database.locksOf]

theorem apart_nil_right (h : List (Event Q W)) : R.Apart h [] := by
  simp [Apart, Database.locksOf]

theorem Apart.symm {h h' : List (Event Q W)} (ha : R.Apart h h') : R.Apart h' h :=
  ⟨List.disjoint_comm.mp ha.1, List.disjoint_comm.mp ha.2⟩

theorem sound_initial {s : S} (hs : R.Inv s) : R.Sound (.initial s) fun _ => ∅ where
  inv := hs
  born := by simp
  disjoint := by simp
  thread := by simp [Config.initial]
  bound := by simp [Config.initial]
  pool := by simp [Config.initial]
  apart := by simp [Config.initial]
  unowned := by simp [Config.initial]

theorem getElem?_set_cases {α : Type*} {l : List α} {i j : Nat} {a b : α}
    (h : (l.set i a)[j]? = some b) : (j = i ∧ b = a) ∨ (j ≠ i ∧ l[j]? = some b) := by
  rw [List.getElem?_set] at h
  split at h
  · rename_i hij
    split at h
    · exact Or.inl ⟨hij.symm, (Option.some.inj h).symm⟩
    · cases h
  · rename_i hij
    exact Or.inr ⟨fun he => hij he.symm, h⟩

theorem getElem?_append_cases {α : Type*} {l l' : List α} {j : Nat} {b : α}
    (h : (l ++ l')[j]? = some b) : (j < l.length ∧ l[j]? = some b) ∨ (l.length ≤ j ∧ b ∈ l') := by
  rw [List.getElem?_append] at h
  split at h
  · rename_i hj
    exact Or.inl ⟨hj, h⟩
  · rename_i hj
    exact Or.inr ⟨not_lt.mp hj, List.mem_of_getElem? h⟩

/-! ## Owners -/

section Owners

variable {T' : Set τ} {o : Owner}

/-- An owner may trade its tokens for some that no other owner has. -/
theorem disjoint_update (hdis : ∀ o o', o ≠ o' → Disjoint (own o) (own o'))
    (hnew : ∀ o', o' ≠ o → Disjoint T' (own o')) :
    ∀ o₁ o₂, o₁ ≠ o₂ →
      Disjoint (Function.update own o T' o₁) (Function.update own o T' o₂) := by
  intro o₁ o₂ hne
  by_cases h₁ : o₁ = o
  · subst h₁
    rw [Function.update_self, Function.update_of_ne (Ne.symm hne)]
    exact hnew o₂ (Ne.symm hne)
  · rw [Function.update_of_ne h₁]
    by_cases h₂ : o₂ = o
    · subst h₂
      rw [Function.update_self]
      exact (hnew o₁ h₁).symm
    · rw [Function.update_of_ne h₂]
      exact hdis o₁ o₂ hne

/-- Tokens an owner had, and tokens nobody has, are not those of another owner. -/
theorem disjoint_of_fresh {B : Set τ} (hdis : ∀ o o', o ≠ o' → Disjoint (own o) (own o'))
    (hborn : ∀ o, own o ⊆ B) (hsub : ∀ t ∈ T', t ∈ own o ∨ t ∉ B) :
    ∀ o', o' ≠ o → Disjoint T' (own o') := by
  intro o' hne
  refine Set.disjoint_left.mpr fun t ht ht' => ?_
  rcases hsub t ht with hold | hfresh
  · exact Set.disjoint_left.mp (hdis o o' (Ne.symm hne)) hold ht'
  · exact hfresh (hborn o' ht')

theorem update_subset {B B' : Set τ} (hborn : ∀ o, own o ⊆ B) (hsub : T' ⊆ B') (hB : B ⊆ B') :
    ∀ o₁, Function.update own o T' o₁ ⊆ B' := by
  intro o₁
  by_cases h₁ : o₁ = o
  · subst h₁
    rwa [Function.update_self]
  · rw [Function.update_of_ne h₁]
    exact (hborn o₁).trans hB

/-- The owners after the thread `i` kept `T₀` and gave `F m` to item `m` of pool `n`. -/
def forkOwn (own : Owner → Set τ) (i len n : Nat) (T₀ : Set τ) (F : Nat → Set τ) :
    Owner → Set τ
  | .thread j => if j = i then T₀ else if len ≤ j then ∅ else own (.thread j)
  | .item n' m => if n' = n then F m else own (.item n' m)

theorem forkOwn_cases (own : Owner → Set τ) (i len n : Nat) (T₀ : Set τ) (F : Nat → Set τ)
    (o : Owner) :
    (o = .thread i ∧ forkOwn own i len n T₀ F o = T₀) ∨
      (∃ m, o = .item n m ∧ forkOwn own i len n T₀ F o = F m) ∨
      (o ≠ .thread i ∧ forkOwn own i len n T₀ F o ⊆ own o) := by
  cases o with
  | thread j =>
      by_cases hj : j = i
      · exact Or.inl ⟨by rw [hj], by simp [forkOwn, hj]⟩
      · refine Or.inr (Or.inr ⟨by simpa using hj, ?_⟩)
        by_cases hlen : len ≤ j <;> simp [forkOwn, hj, hlen]
  | item n' m =>
      by_cases hn : n' = n
      · exact Or.inr (Or.inl ⟨m, by rw [hn], by simp [forkOwn, hn]⟩)
      · exact Or.inr (Or.inr ⟨by simp, by simp [forkOwn, hn]⟩)

theorem disjoint_forkOwn {i len n : Nat} {T₀ : Set τ} {F : Nat → Set τ}
    (hdis : ∀ o o', o ≠ o' → Disjoint (own o) (own o')) (h₀ : T₀ ⊆ own (.thread i))
    (hF : ∀ m, F m ⊆ own (.thread i) ∧ Disjoint (F m) T₀)
    (hFF : ∀ m m', m ≠ m' → Disjoint (F m) (F m')) :
    ∀ o₁ o₂, o₁ ≠ o₂ → Disjoint (forkOwn own i len n T₀ F o₁) (forkOwn own i len n T₀ F o₂) := by
  have hold : ∀ {T : Set τ} {o : Owner}, T ⊆ own (.thread i) → o ≠ .thread i →
      forkOwn own i len n T₀ F o ⊆ own o → Disjoint T (forkOwn own i len n T₀ F o) :=
    fun hT ho hsub => (hdis _ _ (Ne.symm ho)).mono hT hsub
  intro o₁ o₂ hne
  rcases forkOwn_cases own i len n T₀ F o₁ with
    ⟨rfl, h₁⟩ | ⟨m, rfl, h₁⟩ | ⟨hi₁, h₁⟩ <;>
  rcases forkOwn_cases own i len n T₀ F o₂ with
    ⟨rfl, h₂⟩ | ⟨m', rfl, h₂⟩ | ⟨hi₂, h₂⟩
  · exact absurd rfl hne
  · rw [h₁, h₂]
    exact (hF m').2.symm
  · rw [h₁]
    exact hold h₀ hi₂ h₂
  · rw [h₁, h₂]
    exact (hF m).2
  · rw [h₁, h₂]
    exact hFF m m' (fun hm => hne (by rw [hm]))
  · rw [h₁]
    exact hold (hF m).1 hi₂ h₂
  · rw [h₂]
    exact (hold h₀ hi₁ h₁).symm
  · rw [h₂]
    exact (hold (hF m').1 hi₁ h₁).symm
  · exact (hdis o₁ o₂ hne).mono h₁ h₂

end Owners

/-! ## Steps that keep the store -/

/-- Thread `i` goes on as `th'` with the tokens it has. -/
theorem Sound.goto {c : Config Q L ε S W ι K ρ} (hc : R.Sound c own) {i : Nat}
    {th th' : Thread Q L ε W ι K ρ} (hth : c.threads[i]? = some th) (hcall : th'.call = th.call)
    (hpool : th'.pool = th.pool) (hlive : ¬ th.dead)
    (hok : R.ThreadOk c.store (own (.thread i)) th')
    (hapart : ∀ j th₂, c.threads[j]? = some th₂ → j ≠ i →
      R.Apart th₂.code.history th'.code.history) : R.Sound (c.goto i th') own where
  inv := hc.inv
  born := hc.born
  disjoint := hc.disjoint
  thread := by
    intro j th₂ hj
    rcases getElem?_set_cases hj with ⟨rfl, rfl⟩ | ⟨_, hold⟩
    · exact hok
    · exact hc.thread j th₂ hold
  bound := by
    intro j th₂ n hj hn
    rcases getElem?_set_cases hj with ⟨_, rfl⟩ | ⟨_, hold⟩
    · exact hc.bound i th n hth (hpool ▸ hn)
    · exact hc.bound j th₂ n hold hn
  pool := by
    intro n pl j th₂ hpl hj hn hdead
    rcases getElem?_set_cases hj with ⟨_, rfl⟩ | ⟨_, hold⟩
    · rw [hcall]
      exact hc.pool n pl i th hpl hth (hpool ▸ hn) hlive
    · exact hc.pool n pl j th₂ hpl hold hn hdead
  apart := by
    intro j j' th₂ th₃ hne hj hj'
    rcases getElem?_set_cases hj with ⟨rfl, rfl⟩ | ⟨hji, hold⟩
    · rcases getElem?_set_cases hj' with ⟨hj'i, _⟩ | ⟨hj'i, hold'⟩
      · exact absurd hj'i.symm hne
      · exact (hapart j' th₃ hold' hj'i).symm
    · rcases getElem?_set_cases hj' with ⟨_, rfl⟩ | ⟨_, hold'⟩
      · exact hapart j th₂ hold hji
      · exact hc.apart j j' th₂ th₃ hne hold hold'
  unowned := by
    intro j th₂ hj howner
    rcases getElem?_set_cases hj with ⟨rfl, rfl⟩ | ⟨_, hold⟩
    · rw [hcall] at howner
      rw [hpool]
      exact hc.unowned j th hth howner
    · exact hc.unowned j th₂ hold howner

/-- As `Sound.goto`, to code that is in no transaction. -/
theorem Sound.goto_quiet {c : Config Q L ε S W ι K ρ} (hc : R.Sound c own) {i : Nat}
    {call : K} {pool : Option Nat} {code code' : Code Q L ε W ι ρ}
    (hth : c.threads[i]? = some ⟨call, pool, code⟩) (hlive : ∀ e, code ≠ .run (.throw e))
    (hnil : code'.history = []) (hok : R.ThreadOk c.store (own (.thread i)) ⟨call, pool, code'⟩) :
    R.Sound (c.goto i ⟨call, pool, code'⟩) own := by
  refine hc.goto hth rfl rfl (fun ⟨e, he⟩ => hlive e he) hok fun j th₂ _ _ => ?_
  rw [hnil]
  exact apart_nil_right _

/-- A new thread, with tokens that nobody has. -/
theorem Sound.start {c : Config Q L ε S W ι K ρ} (hc : R.Sound c own) {call : K}
    {p : Proc L ε ι ρ} {T : Set τ} (hT : T ⊆ R.born c.store)
    (hnew : ∀ o, o ≠ .thread c.threads.length → Disjoint T (own o))
    (hgood : R.Good call c.store T p) (howner : R.owner call = false → T = ∅) :
    R.Sound { c with threads := c.threads ++ [⟨call, none, .run p⟩] }
      (Function.update own (.thread c.threads.length) T) where
  inv := hc.inv
  born := update_subset hc.born hT (Set.Subset.refl _)
  disjoint := disjoint_update hc.disjoint hnew
  thread := by
    intro j th hj
    rw [List.getElem?_append] at hj
    split at hj
    · rename_i hlt
      rw [Function.update_of_ne (by simpa using hlt.ne)]
      exact hc.thread j th hj
    · rename_i hlt
      rw [List.getElem?_singleton] at hj
      split at hj
      · have hj' : j = c.threads.length := by omega
        cases hj
        rw [hj', Function.update_self]
        exact hgood
      · cases hj
  bound := by
    intro j th n hj hn
    rcases getElem?_append_cases hj with ⟨_, hold⟩ | ⟨_, hnew⟩
    · exact hc.bound j th n hold hn
    · obtain rfl := List.mem_singleton.mp hnew
      cases hn
  pool := by
    intro n pl j th hpl hj hn hdead
    rcases getElem?_append_cases hj with ⟨_, hold⟩ | ⟨_, hnew⟩
    · simpa using hc.pool n pl j th hpl hold hn hdead
    · obtain rfl := List.mem_singleton.mp hnew
      cases hn
  apart := by
    intro j j' th th' hne hj hj'
    rcases getElem?_append_cases hj with ⟨_, hold⟩ | ⟨_, hnew⟩
    · rcases getElem?_append_cases hj' with ⟨_, hold'⟩ | ⟨_, hnew'⟩
      · exact hc.apart j j' th th' hne hold hold'
      · obtain rfl := List.mem_singleton.mp hnew'
        exact apart_nil_right _
    · obtain rfl := List.mem_singleton.mp hnew
      exact apart_nil_left _
  unowned := by
    intro j th hj hnot
    have hitem : ∀ n m, Function.update own (.thread c.threads.length) T (.item n m) =
        own (.item n m) := fun n m => Function.update_of_ne (by simp) ..
    rw [List.getElem?_append] at hj
    split at hj
    · rename_i hlt
      rw [Function.update_of_ne (by simpa using hlt.ne)]
      simpa only [hitem] using hc.unowned j th hj hnot
    · rename_i hlt
      rw [List.getElem?_singleton] at hj
      split at hj
      · have hj' : j = c.threads.length := by omega
        cases hj
        rw [hj', Function.update_self]
        exact ⟨howner hnot, by simp⟩
      · cases hj

theorem rests_cases {c : Config Q L ε S W ι K ρ} {th : Thread Q L ε W ι K ρ}
    (h : c.rests th = true) : th.dead ∨ ∃ a, th.code = .run (.pure a) ∧
      ∀ n pl, th.pool = some n → c.pools[n]? = some pl → pl.queue = [] := by
  obtain ⟨call, pool, code⟩ := th
  cases code with
  | opened l hist rest k => cases h
  | await n k => cases h
  | run p =>
      cases p with
      | call l k => cases h
      | all n ids body k => cases h
      | throw e => exact Or.inl ⟨e, rfl⟩
      | pure a =>
          refine Or.inr ⟨a, rfl, ?_⟩
          rintro n pl ⟨⟩ hpl
          simpa [Config.rests, hpl] using h

/-- A thread of a call that may own tokens has ended. -/
theorem rests_of_quietFor {c : Config Q L ε S W ι K ρ} (hq : c.quietFor R.owner = true) {i : Nat}
    {th : Thread Q L ε W ι K ρ} (hth : c.threads[i]? = some th) :
    R.owner th.call = false ∨ c.rests th = true := by
  have h := List.all_eq_true.mp hq th (List.mem_of_getElem? hth)
  simpa using h

/-- When the owners ended, and results can do without tokens, nobody needs a token. -/
theorem Sound.drop_quiet {c : Config Q L ε S W ι K ρ} (hc : R.Sound c own)
    (hq : c.quietFor R.owner = true)
    (hdone : ∀ call a s T, R.done call a s T → R.done call a s ∅) : R.Sound c fun _ => ∅ where
  inv := hc.inv
  born := by simp
  disjoint := by simp
  thread := by
    intro i th hth
    have hold := hc.thread i th hth
    rcases rests_of_quietFor hq hth with hnot | hrests
    · rwa [(hc.unowned i th hth hnot).1] at hold
    · rcases rests_cases hrests with ⟨e, he⟩ | ⟨a, ha, _⟩
      · simp only [ThreadOk, he] at hold ⊢
        exact hold
      · simp only [ThreadOk, ha] at hold ⊢
        exact hdone _ _ _ _ hold
  bound := hc.bound
  pool := by
    intro n pl i th hpl hth hn hdead done id rest hqueue
    rcases rests_of_quietFor hq hth with hnot | hrests
    · have hgood := hc.pool n pl i th hpl hth hn hdead done id rest hqueue
      rwa [(hc.unowned i th hth hnot).2 n hn] at hgood
    · rcases rests_cases hrests with hd | ⟨_, _, hempty⟩
      · exact absurd hd hdead
      · rw [hempty n pl hn hpl] at hqueue
        simp at hqueue
  apart := hc.apart
  unowned := fun _ _ _ _ => ⟨rfl, fun _ _ _ => rfl⟩

theorem Sound.crash {c : Config Q L ε S W ι K ρ} (hc : R.Sound c own) :
    R.Sound { c with threads := [], pools := [] } fun _ => ∅ :=
  sound_initial hc.inv

/-- A pool: the thread gives tokens to the items and keeps some. -/
theorem Sound.fork [DecidableEq κ] {ok : Config Q L ε S W ι K ρ → Action C K → Bool}
    (hR : R.Valid ok) {c : Config Q L ε S W ι K ρ} (hc : R.Sound c own) {i : Nat} {call : K}
    {pool : Option Nat} {n : Nat} {ids : List ι} {body : ι → Proc L ε ι Unit}
    {k : Except ε Unit → Proc L ε ι ρ}
    (hth : c.threads[i]? = some ⟨call, pool, .run (.all n ids body k)⟩) :
    ∃ own', R.Sound { c with
        threads := c.threads.set i ⟨call, pool, .await c.pools.length k⟩ ++
          List.replicate (min n ids.length) ⟨call, some c.pools.length, .run (.pure sys.idle)⟩
        pools := c.pools ++ [⟨ids, body⟩] } own' := by
  have hstay : ∀ T, R.Move T c.store c.store :=
    fun T => ⟨hc.inv, hR.le_refl _, hR.rely_refl T _⟩
  obtain ⟨T₀, F, h₀, hF, hFF, hbody, hk⟩ := hc.thread i _ hth c.store (hstay _)
  have hitems : ∀ done id rest, ids = done ++ id :: rest →
      R.Good call c.store (F rest.length) ((body id).discard sys.idle) := fun done id rest heq =>
    Safe.discard ((hbody done id rest heq).mono (fun _ s T _ => hR.done_idle call s T) fun _ _ _ h => h)
  have hlen : i < c.threads.length := (List.getElem?_eq_some_iff.mp hth).1
  refine ⟨forkOwn own i c.threads.length c.pools.length T₀ F, hc.inv, ?_,
    disjoint_forkOwn hc.disjoint h₀ hF hFF, ?_, ?_, ?_, ?_, ?_⟩
  · intro o
    rcases forkOwn_cases own i c.threads.length c.pools.length T₀ F o with
      ⟨_, ho⟩ | ⟨m, _, ho⟩ | ⟨_, ho⟩
    · rw [ho]
      exact h₀.trans (hc.born _)
    · rw [ho]
      exact (hF m).1.trans (hc.born _)
    · exact ho.trans (hc.born o)
  · intro j th hj
    rcases getElem?_append_cases hj with ⟨hlt, hold⟩ | ⟨hge, hnew⟩
    · rcases getElem?_set_cases hold with ⟨rfl, rfl⟩ | ⟨hji, hold⟩
      · have hgood : ∀ r, R.Good call c.store T₀ (k r) := fun r => hk r c.store (hstay T₀)
        simpa [ThreadOk, forkOwn] using hgood
      · have hne : ¬ c.threads.length ≤ j := by simpa using hlt
        simpa [forkOwn, hji, hne] using hc.thread j th hold
    · obtain ⟨_, rfl⟩ := List.mem_replicate.mp hnew
      have hge : c.threads.length ≤ j := by simpa using hge
      have hji : j ≠ i := by omega
      have hgood : R.Good call c.store ∅ (.pure sys.idle) := hR.done_idle call c.store ∅
      simpa [ThreadOk, forkOwn, hji, hge] using hgood
  · intro j th m hj hm
    rw [List.length_append, List.length_singleton]
    rcases getElem?_append_cases hj with ⟨_, hold⟩ | ⟨_, hnew⟩
    · rcases getElem?_set_cases hold with ⟨_, rfl⟩ | ⟨_, hold⟩
      · exact Nat.lt_succ_of_lt (hc.bound i _ m hth hm)
      · exact Nat.lt_succ_of_lt (hc.bound j th m hold hm)
    · obtain ⟨_, rfl⟩ := List.mem_replicate.mp hnew
      cases hm
      exact Nat.lt_succ_self _
  · intro m pl j th hpl hj hm hdead done id rest hqueue
    rw [List.getElem?_append] at hpl
    split at hpl
    · -- an older pool, so an older worker
      rename_i hlt
      have hown : ∀ a, forkOwn own i c.threads.length c.pools.length T₀ F (.item m a) =
          own (.item m a) := fun a => by simp [forkOwn, hlt.ne]
      rw [hown]
      rcases getElem?_append_cases hj with ⟨_, hold⟩ | ⟨_, hnew⟩
      · rcases getElem?_set_cases hold with ⟨_, rfl⟩ | ⟨_, hold⟩
        · exact hc.pool m pl i _ hpl hth hm (fun ⟨e, he⟩ => by cases he) done id rest hqueue
        · exact hc.pool m pl j th hpl hold hm hdead done id rest hqueue
      · obtain ⟨_, rfl⟩ := List.mem_replicate.mp hnew
        cases hm
        exact absurd hlt (lt_irrefl _)
    · rename_i hlt
      rw [List.getElem?_singleton] at hpl
      split at hpl
      · cases hpl
        have hm' : m = c.pools.length := by omega
        subst hm'
        have hcall : th.call = call := by
          rcases getElem?_append_cases hj with ⟨_, hold⟩ | ⟨_, hnew⟩
          · rcases getElem?_set_cases hold with ⟨_, rfl⟩ | ⟨_, hold⟩
            · rfl
            · exact absurd (hc.bound j th _ hold hm) (lt_irrefl _)
          · obtain ⟨_, rfl⟩ := List.mem_replicate.mp hnew
            rfl
        rw [hcall]
        simpa [forkOwn] using hitems done id rest hqueue
      · cases hpl
  · intro j j' th th' hne hj hj'
    have hhist : ∀ (j : Nat) (th : Thread Q L ε W ι K ρ),
        (c.threads.set i ⟨call, pool, .await c.pools.length k⟩ ++ List.replicate (min n ids.length)
          ⟨call, some c.pools.length, .run (.pure sys.idle)⟩)[j]? = some th →
        th.code.history = [] ∨ c.threads[j]? = some th := by
      intro j th hj
      rcases getElem?_append_cases hj with ⟨_, hold⟩ | ⟨_, hnew⟩
      · rcases getElem?_set_cases hold with ⟨_, rfl⟩ | ⟨_, hold⟩
        · exact Or.inl rfl
        · exact Or.inr hold
      · obtain ⟨_, rfl⟩ := List.mem_replicate.mp hnew
        exact Or.inl rfl
    rcases hhist j th hj with hnil | hold
    · rw [hnil]
      exact apart_nil_left _
    · rcases hhist j' th' hj' with hnil' | hold'
      · rw [hnil']
        exact apart_nil_right _
      · exact hc.apart j j' th th' hne hold hold'
  · intro j th hj hnot
    have hnothing : R.owner call = false → T₀ = ∅ ∧ ∀ m, F m = ∅ := fun h => by
      have hnone := (hc.unowned i _ hth h).1
      exact ⟨Set.subset_eq_empty (h₀.trans hnone.subset) rfl,
        fun m => Set.subset_eq_empty ((hF m).1.trans hnone.subset) rfl⟩
    have holder : ∀ {j₀ : Nat} {call₀ : K} {pool₀ : Option Nat} {code₀ : Code Q L ε W ι ρ},
        c.threads[j₀]? = some ⟨call₀, pool₀, code₀⟩ → R.owner call₀ = false →
        ∀ n', pool₀ = some n' → ∀ m,
          forkOwn own i c.threads.length c.pools.length T₀ F (.item n' m) = ∅ :=
      fun hold h n' hn' m => by
        have hne : n' ≠ c.pools.length := (hc.bound _ _ n' hold hn').ne
        simpa [forkOwn, hne] using (hc.unowned _ _ hold h).2 n' hn' m
    rcases getElem?_append_cases hj with ⟨hlt, hold⟩ | ⟨hge, hnew⟩
    · rcases getElem?_set_cases hold with ⟨rfl, rfl⟩ | ⟨hji, hold⟩
      · exact ⟨by simpa [forkOwn] using (hnothing hnot).1, holder hth hnot⟩
      · have hne : ¬ c.threads.length ≤ j := by simpa using hlt
        exact ⟨by simpa [forkOwn, hji, hne] using (hc.unowned j th hold hnot).1, holder hold hnot⟩
    · obtain ⟨_, rfl⟩ := List.mem_replicate.mp hnew
      have hge : c.threads.length ≤ j := by simpa using hge
      have hji : j ≠ i := by omega
      refine ⟨by simp [forkOwn, hji, hge], ?_⟩
      rintro n' ⟨⟩ m
      simpa [forkOwn] using (hnothing hnot).2 m

/-- A worker takes the next item, and its tokens. -/
theorem Sound.take {c : Config Q L ε S W ι K ρ} (hc : R.Sound c own) {i : Nat} {call : K}
    {n : Nat} {a : ρ} {id : ι} {queue : List ι} {body : ι → Proc L ε ι Unit}
    (hth : c.threads[i]? = some ⟨call, some n, .run (.pure a)⟩)
    (hpool : c.pools[n]? = some ⟨id :: queue, body⟩) :
    R.Sound { c with
        threads := c.threads.set i ⟨call, some n, .run ((body id).discard sys.idle)⟩
        pools := c.pools.set n ⟨queue, body⟩ }
      (Function.update (Function.update own (.item n queue.length) ∅) (.thread i)
        (own (.item n queue.length))) := by
  have hlive : ¬ (⟨call, some n, .run (.pure a)⟩ : Thread Q L ε W ι K ρ).dead :=
    fun ⟨e, he⟩ => by cases he
  have hmid : ∀ o, Function.update own (.item n queue.length) ∅ o ⊆ R.born c.store :=
    update_subset hc.born (Set.empty_subset _) (Set.Subset.refl _)
  refine ⟨hc.inv, update_subset hmid (hc.born _) (Set.Subset.refl _), ?_, ?_, ?_, ?_, ?_, ?_⟩
  · refine disjoint_update (disjoint_update hc.disjoint (by simp)) fun o' ho' => ?_
    by_cases hitem : o' = .item n queue.length
    · rw [hitem, Function.update_self]
      exact Set.disjoint_empty _
    · rw [Function.update_of_ne hitem]
      exact hc.disjoint _ _ (Ne.symm hitem)
  · intro j th hj
    rcases getElem?_set_cases hj with ⟨rfl, rfl⟩ | ⟨hji, hold⟩
    · rw [Function.update_self]
      exact hc.pool n _ j _ hpool hth rfl hlive [] id queue rfl
    · rw [Function.update_of_ne (by simpa using hji), Function.update_of_ne (by simp)]
      exact hc.thread j th hold
  · intro j th m hj hm
    rw [List.length_set]
    rcases getElem?_set_cases hj with ⟨_, rfl⟩ | ⟨_, hold⟩
    · exact hc.bound i _ m hth hm
    · exact hc.bound j th m hold hm
  · intro m pl j th hpl hj hm hdead done id' rest hqueue
    have hold : ∃ (j₀ : Nat) (th₀ : Thread Q L ε W ι K ρ), c.threads[j₀]? = some th₀ ∧
        th₀.pool = some m ∧ ¬ th₀.dead ∧ th₀.call = th.call := by
      rcases getElem?_set_cases hj with ⟨_, rfl⟩ | ⟨_, hold⟩
      · exact ⟨i, _, hth, hm, hlive, rfl⟩
      · exact ⟨j, th, hold, hm, hdead, rfl⟩
    obtain ⟨j₀, th₀, hth₀, hm₀, hdead₀, hcall⟩ := hold
    rw [← hcall, Function.update_of_ne (by simp)]
    rcases getElem?_set_cases hpl with ⟨rfl, rfl⟩ | ⟨hmn, hpl⟩
    · have hlen : rest.length < queue.length := by
        have := congrArg List.length hqueue
        simp only [List.length_append, List.length_cons] at this
        omega
      rw [Function.update_of_ne (by simpa using hlen.ne)]
      refine hc.pool m _ j₀ th₀ hpool hth₀ hm₀ hdead₀ (id :: done) id' rest ?_
      simp only [List.cons_append, List.cons.injEq, true_and]
      exact hqueue
    · rw [Function.update_of_ne (by simp [hmn])]
      exact hc.pool m pl j₀ th₀ hpl hth₀ hm₀ hdead₀ done id' rest hqueue
  · intro j j' th th' hne hj hj'
    rcases getElem?_set_cases hj with ⟨_, rfl⟩ | ⟨_, hold⟩
    · exact apart_nil_left _
    · rcases getElem?_set_cases hj' with ⟨_, rfl⟩ | ⟨_, hold'⟩
      · exact apart_nil_right _
      · exact hc.apart j j' th th' hne hold hold'
  · intro j th hj hnot
    have hitem : ∀ n' m, own (.item n' m) = ∅ → Function.update (Function.update own
        (.item n queue.length) ∅) (.thread i) (own (.item n queue.length)) (.item n' m) = ∅ := by
      intro n' m hnone
      rw [Function.update_of_ne (by simp)]
      by_cases h : Owner.item n' m = .item n queue.length
      · rw [h, Function.update_self]
      · rwa [Function.update_of_ne h]
    rcases getElem?_set_cases hj with ⟨rfl, rfl⟩ | ⟨hji, hold⟩
    · have hnone := (hc.unowned j _ hth hnot).2
      exact ⟨by rw [Function.update_self, hnone n rfl], fun n' hn' m => hitem n' m (hnone n' hn' m)⟩
    · have hnone := hc.unowned j th hold hnot
      refine ⟨?_, fun n' hn' m => hitem n' m (hnone.2 n' hn' m)⟩
      rw [Function.update_of_ne (by simpa using hji), Function.update_of_ne (by simp)]
      exact hnone.1

/-! ## Statements and commits -/

variable [DecidableEq κ] {ok : Config Q L ε S W ι K ρ → Action C K → Bool}

/-- A statement joins the history of its transaction. -/
theorem Sound.statement (hR : R.Valid ok) {c : Config Q L ε S W ι K ρ} (hc : R.Sound c own)
    {i : Nat} {ch : C} {call : K} {pool : Option Nat} {β α : Type} {l : L β}
    {h : List (Event Q W)} {q : Q α} {k' : α → Tx Q ε β} {k : Except ε β → Proc L ε ι ρ} {r : α}
    {ws : List W} (hok : ok c (.advance i ch) = true)
    (hth : c.threads[i]? = some ⟨call, pool, .opened l h (.query q k') k⟩)
    (hexec : sys.exec q ch (sys.applyAll (writes h) c.store) = .ok (r, ws))
    (hfree : c.othersFree (fun h => sys.locksOf (writes h)) i (sys.locksOf ws) = true) :
    R.Sound (c.goto i ⟨call, pool, .opened l (h ++ [⟨q, r, ws⟩]) (k' r) k⟩) own := by
  obtain ⟨⟨hgood, hev, hadm⟩, hpath⟩ := hc.thread i _ hth
  have hseen : Seen sys R.Inv R.le c.store (writes h) ⟨q, r, ws⟩ :=
    ⟨c.store, ch, hc.inv, hR.le_refl _, hexec⟩
  have hpre := (hgood c.store ⟨hc.inv, hR.le_refl _, hR.rely_refl _ _⟩).1
  have hcur := hR.statements.current c i ch call pool l h q k' k r ws _ hok hth hexec hc.inv hpre
  have hguard := hR.statements.guarded c i ch call pool l h q k' k r ws hok hth hexec
  have hlock := Config.othersFree_iff.mp hfree
  have hopened : R.Opened call c.store (own (.thread i)) l k (h ++ [⟨q, r, ws⟩]) := by
    refine ⟨hgood, holds_append.mpr ⟨hev, ⟨hseen, hcur⟩, trivial⟩, ?_⟩
    rw [writes_append, writes_cons, writes_nil, List.append_nil]
    exact Database.admissible_append hR.lawful hadm (hR.lawful.exec_admissible hexec)
  refine hc.goto hth rfl rfl (fun ⟨e, he⟩ => by cases he) ⟨hopened, hpath.snoc rfl r ws⟩ ?_
  intro j th hj hji
  obtain ⟨h₁, h₂⟩ := hc.apart j i th _ hji hj hth
  constructor
  · simp only [Code.history_opened, writes_append, writes_cons, writes_nil, List.append_nil,
      Database.locksOf, List.flatMap_append]
    exact List.disjoint_append_right.mpr ⟨h₁, hlock j th hj hji⟩
  · simp only [Code.history_opened, List.flatMap_append, List.flatMap_cons, List.flatMap_nil,
      List.append_nil]
    exact List.disjoint_append_right.mpr ⟨h₂, hguard j th hj hji⟩

/-- What is known of a process outlives the moves of others. -/
theorem Good.move (hR : R.Valid ok) {call : K} {s s' : S} {T : Set τ} {p : Proc L ε ι ρ}
    (hp : R.Good call s T p) (hm : R.Move T s s') : R.Good call s' T p := by
  have htrans : ∀ s'', R.Move T s' s'' → R.Move T s s'' := fun s'' hm' =>
    ⟨hm'.inv, hR.le_trans _ _ _ hm.le hm'.le, hR.rely_trans _ _ _ _ hm.rely hm'.rely⟩
  cases p with
  | pure a => exact hR.done_le _ _ _ _ _ hp hm.inv hm.le
  | throw e => trivial
  | call l k => exact fun s'' hm' => hp s'' (htrans s'' hm')
  | all n ids body k => exact fun s'' hm' => hp s'' (htrans s'' hm')

/-- What another thread sees of a commit. -/
theorem Commits.move (hR : R.Valid ok) {β : Type} {s : S} {T T' : Set τ} {l : L β}
    {h : List (Event Q W)} {a : β} (hc : R.Commits s T l h a) (hT : Disjoint T T') :
    R.Move T' s (sys.applyAll (writes h) s) :=
  ⟨(hR.commit _ _ _ _ _ hc).1, (hR.commit _ _ _ _ _ hc).2, hR.guarantee _ _ _ _ _ _ hc hT⟩

/-- What is known inside a transaction outlives the commit of another thread. -/
theorem Opened.frame (hR : R.Valid ok) {β β' : Type} {call : K} {s : S} {T T' : Set τ} {l : L β}
    {h : List (Event Q W)} {a : β} {l' : L β'} {k' : Except ε β' → Proc L ε ι ρ}
    {h' : List (Event Q W)} (hc : R.Commits s T l h a) (ho : R.Opened call s T' l' k' h')
    (hT : Disjoint T T') (hapart : R.Apart h h') :
    R.Opened call (sys.applyAll (writes h) s) T' l' k' h' := by
  have hmove := hc.move hR hT
  have hpre := (ho.good s ⟨hc.inv, hR.le_refl _, hR.rely_refl _ _⟩).1
  refine ⟨ho.good.move hR hmove, ?_,
    Database.admissible_applyAll hR.lawful ho.admissible hc.admissible hapart.1⟩
  refine ho.evidence.within.mem.mono fun p e he ⟨⟨⟨hseen, hcur⟩, hp⟩, _⟩ => ?_
  obtain ⟨s₀, ch, hinv₀, hle₀, hexec⟩ := hseen
  refine ⟨⟨s₀, ch, hinv₀, hR.le_trans _ _ _ hle₀ hmove.le, hexec⟩, ?_⟩
  refine hR.statements.frame s _ l h a _ l' p e hc hpre hT (fun x hx hx' => ?_)
    (fun x hx hx' => ?_) hcur
  · refine hapart.1 hx ?_
    obtain ⟨w, hw, hxw⟩ := List.mem_flatMap.mp hx'
    rcases List.mem_append.mp hw with hw | hw
    · exact List.mem_flatMap.mpr ⟨w, hp hw, hxw⟩
    · exact List.mem_flatMap.mpr ⟨w, List.mem_flatMap.mpr ⟨e, he, hw⟩, hxw⟩
  · exact hapart.2 hx (List.mem_flatMap.mpr ⟨e, he, hx'⟩)

/-- What is known of a thread outlives the commit of another thread. -/
theorem ThreadOk.frame (hR : R.Valid ok) {β : Type} {s : S} {T T' : Set τ} {l : L β}
    {h : List (Event Q W)} {a : β} {th : Thread Q L ε W ι K ρ} (hc : R.Commits s T l h a)
    (ho : R.ThreadOk s T' th) (hT : Disjoint T T') (hapart : R.Apart h th.code.history) :
    R.ThreadOk (sys.applyAll (writes h) s) T' th := by
  obtain ⟨call', pool', code⟩ := th
  cases code with
  | run p => exact Good.move hR ho (hc.move hR hT)
  | await n k' => exact fun r => (ho r).move hR (hc.move hR hT)
  | opened l' h' rest' k' => exact ⟨ho.1.frame hR hc hT hapart, ho.2⟩

/-- What is known of a thread whose transaction is about to commit. -/
theorem Sound.commits (hR : R.Valid ok) {c : Config Q L ε S W ι K ρ} (hc : R.Sound c own)
    {i : Nat} {call : K} {pool : Option Nat} {β : Type} {l : L β} {h : List (Event Q W)} {a : β}
    {k : Except ε β → Proc L ε ι ρ}
    (hth : c.threads[i]? = some ⟨call, pool, .opened l h (.pure a) k⟩) :
    R.Commits c.store (own (.thread i)) l h a := by
  obtain ⟨⟨hgood, hev, hadm⟩, hpath⟩ := hc.thread i _ hth
  obtain ⟨hpre, -, -⟩ := hgood c.store ⟨hc.inv, hR.le_refl _, hR.rely_refl _ _⟩
  exact ⟨hc.inv, hpre, hpath, hev, hadm⟩

/-- A commit keeps soundness and moves the store up. -/
theorem Sound.commit (hR : R.Valid ok) {c : Config Q L ε S W ι K ρ} (hc : R.Sound c own)
    {i : Nat} {call : K} {pool : Option Nat} {β : Type} {l : L β} {h : List (Event Q W)} {a : β}
    {k : Except ε β → Proc L ε ι ρ}
    (hth : c.threads[i]? = some ⟨call, pool, .opened l h (.pure a) k⟩) :
    (∃ own', R.Sound { c with
        store := sys.applyAll (writes h) c.store
        threads := c.threads.set i ⟨call, pool, .run (k (.ok a))⟩ } own') ∧
      R.le c.store (sys.applyAll (writes h) c.store) := by
  have hcommits := hc.commits hR hth
  obtain ⟨⟨hgood, _, _⟩, _⟩ := hc.thread i _ hth
  obtain ⟨_, _, hgood'⟩ := hgood c.store ⟨hc.inv, hR.le_refl _, hR.rely_refl _ _⟩
  obtain ⟨hinv, hle⟩ := hR.commit _ _ _ _ _ hcommits
  obtain ⟨T', hT', hpost⟩ := hR.result _ _ _ _ _ hcommits
  have hborn := hR.born_mono _ _ hle
  have hlive : ¬ (⟨call, pool, .opened l h (.pure a) k⟩ : Thread Q L ε W ι K ρ).dead :=
    fun ⟨e, he⟩ => by cases he
  have hsub : T' ⊆ R.born (sys.applyAll (writes h) c.store) := by
    intro t ht
    rcases hT' ht with hold | ⟨hnew, _⟩
    · exact hborn (hc.born _ hold)
    · exact hnew
  have hfresh : ∀ t ∈ T', t ∈ own (.thread i) ∨ t ∉ R.born c.store := by
    intro t ht
    exact (hT' ht).imp id And.right
  refine ⟨⟨Function.update own (.thread i) T', hinv, update_subset hc.born hsub hborn,
    disjoint_update hc.disjoint (disjoint_of_fresh hc.disjoint hc.born hfresh), ?_, ?_, ?_, ?_,
    ?_⟩, hle⟩
  · intro j th hj
    rcases getElem?_set_cases hj with ⟨rfl, rfl⟩ | ⟨hji, hold⟩
    · rw [Function.update_self]
      exact hgood' a _ _ hinv hle hpost
    · rw [Function.update_of_ne (by simpa using hji)]
      exact (hc.thread j th hold).frame hR hcommits (hc.disjoint _ _ (by simpa using Ne.symm hji))
        (hc.apart i j _ th (Ne.symm hji) hth hold)
  · intro j th m hj hm
    rcases getElem?_set_cases hj with ⟨_, rfl⟩ | ⟨_, hold⟩
    · exact hc.bound i _ m hth hm
    · exact hc.bound j th m hold hm
  · intro m pl j th hpl hj hm hdead done id rest hqueue
    rw [Function.update_of_ne (by simp)]
    refine Good.move hR ?_ (hcommits.move hR (hc.disjoint _ _ (by simp)))
    rcases getElem?_set_cases hj with ⟨_, rfl⟩ | ⟨_, hold⟩
    · exact hc.pool m pl i _ hpl hth hm hlive done id rest hqueue
    · exact hc.pool m pl j th hpl hold hm hdead done id rest hqueue
  · intro j j' th th' hne hj hj'
    rcases getElem?_set_cases hj with ⟨_, rfl⟩ | ⟨_, hold⟩
    · exact apart_nil_left _
    · rcases getElem?_set_cases hj' with ⟨_, rfl⟩ | ⟨_, hold'⟩
      · exact apart_nil_right _
      · exact hc.apart j j' th th' hne hold hold'
  · intro j th hj hnot
    have hitem : ∀ n m, Function.update own (.thread i) T' (.item n m) = own (.item n m) :=
      fun n m => Function.update_of_ne (by simp) ..
    rcases getElem?_set_cases hj with ⟨rfl, rfl⟩ | ⟨hji, hold⟩
    · obtain ⟨hnone, hnone'⟩ := hc.unowned j _ hth hnot
      have hall := hR.owners.resolve_left fun h => by simp [h] at hnot
      refine ⟨?_, by simpa only [hitem] using hnone'⟩
      rw [Function.update_self]
      refine Set.subset_eq_empty (hT'.trans ?_) rfl
      simp [hnone, hall]
    · rw [Function.update_of_ne (by simpa using hji)]
      simpa only [hitem] using hc.unowned j th hold hnot

/-! ## Steps and runs -/

/-- One allowed step keeps soundness and moves the store up. -/
theorem Sound.step (hR : R.Valid ok) {c c' : Config Q L ε S W ι K ρ} {a : Action C K}
    (hc : R.Sound c own) (hok : ok c a = true) (hstep : sys.step c a = some c') :
    (∃ own', R.Sound c' own') ∧ R.le c.store c'.store := by
  cases step_cases hstep with
  | start call =>
      refine ⟨?_, hR.le_refl _⟩
      rcases hR.start c call hok hc.inv with hgood | ⟨hquiet, howner, hborn, hdone, hgood⟩
      · exact ⟨_, hc.start (Set.empty_subset _) (fun _ _ => Set.empty_disjoint _) hgood
          fun _ => rfl⟩
      · exact ⟨_, (hc.drop_quiet hquiet hdone).start hborn.ge
          (fun _ _ => Set.disjoint_empty _) hgood fun hnot => by simp [howner] at hnot⟩
  | crash => exact ⟨⟨_, hc.crash⟩, hR.le_refl _⟩
  | begin hth =>
      have hgood := hc.thread _ _ hth
      exact ⟨⟨_, hc.goto_quiet hth (by simp) rfl ⟨⟨hgood, trivial, trivial⟩, .nil⟩⟩, hR.le_refl _⟩
  | statement hth hexec hfree => exact ⟨⟨_, hc.statement hR hok hth hexec hfree⟩, hR.le_refl _⟩
  | rollback hth _ =>
      have hgood := (hc.thread _ _ hth).1.good
      have herr := (hgood c.store ⟨hc.inv, hR.le_refl _, hR.rely_refl _ _⟩).2.1
      exact ⟨⟨_, hc.goto_quiet hth (by simp) rfl (herr _)⟩, hR.le_refl _⟩
  | commit hth => exact hc.commit hR hth
  | fork hth => exact ⟨hc.fork hR hth, hR.le_refl _⟩
  | take hth hpool => exact ⟨⟨_, hc.take hth hpool⟩, hR.le_refl _⟩
  | resume hth _ => exact ⟨⟨_, hc.goto_quiet hth (by simp) rfl (hc.thread _ _ hth _)⟩, hR.le_refl _⟩

/-- Every run from a sound configuration stays sound and moves the store up. -/
theorem Sound.steps (hR : R.Valid ok) {c c' : Config Q L ε S W ι K ρ} (hc : R.Sound c own)
    (hrun : Steps sys ok c c') : (∃ own', R.Sound c' own') ∧ R.le c.store c'.store := by
  induction hrun with
  | refl => exact ⟨⟨own, hc⟩, hR.le_refl _⟩
  | tail _ hstep ih =>
      obtain ⟨a, hok, hs⟩ := hstep
      obtain ⟨⟨own', hsound⟩, hle⟩ := ih
      obtain ⟨hsound', hle'⟩ := hsound.step hR hok hs
      exact ⟨hsound', hR.le_trans _ _ _ hle hle'⟩

/-- The run lemma: the invariant holds of every store that is reached. -/
theorem sound_of_steps (hR : R.Valid ok) {s : S} (hs : R.Inv s) {c : Config Q L ε S W ι K ρ}
    (hrun : Steps sys ok (.initial s) c) : (∃ own', R.Sound c own') ∧ R.le s c.store :=
  (sound_initial hs).steps hR hrun

end Rules

end Txn
