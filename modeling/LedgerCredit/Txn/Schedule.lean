import LedgerCredit.Txn.Process
import Mathlib.Logic.Relation

/-!
# Read committed schedules

A configuration is the committed store, the threads and the worker pools.  A
thread runs a process.  Inside a transaction it keeps the history of the
transaction and the rest of its body, and nothing it wrote is in the committed
store yet.  A schedule is a list of actions, and any thread may act at any time.

* A statement sees the committed store of that moment under the transaction's
  own writes.  If it writes, its locks must be free: while another open
  transaction holds one of them the statement waits, so the action is refused
  and may be tried again later, on the store of then.  This is the wait and the
  second look that the read committed level gives to an update of a locked row,
  and to an insert of a key that an open transaction inserted.
* A statement that fails, a thrown error and an abort all roll back: the history
  is dropped and the process goes on with the error.
* A commit applies the writes to the committed store in one step.
* A pool is forked with its workers.  A worker whose item ended takes the next
  one.  The forking thread resumes with an error of some worker, or when the
  queue is empty and every worker ended.
* A crash drops every thread.

`Steps sys ok` is the runs in which every action is allowed by `ok`, which is
how a schedule is restricted.  `Exclusive guard` is such a restriction: no
statement runs while another open transaction holds one of its guards, where a
transaction holds the guards of the statements it ran.
-/

namespace Txn

/-- A database with the transactions of its clients and the processes they run. -/
structure System (Q : Type → Type) (L : Type → Type 1) (ε S W C κ ι K ρ : Type)
    extends Database Q ε S W C κ where
  /-- The body of a transaction. -/
  body : {β : Type} → L β → Tx Q ε β
  /-- The process of a call. -/
  program : K → Proc L ε ι ρ
  /-- What a worker that ended returns. -/
  idle : ρ

variable {Q : Type → Type} {L : Type → Type 1} {ε S W C κ ι K ρ γ : Type}

/-- Where a thread is: between transactions, inside one, or waiting for a pool. -/
inductive Code (Q : Type → Type) (L : Type → Type 1) (ε W ι ρ : Type) : Type 1 where
  | run (p : Proc L ε ι ρ)
  | opened {β : Type} (l : L β) (h : List (Event Q W)) (rest : Tx Q ε β)
      (k : Except ε β → Proc L ε ι ρ)
  | await (n : Nat) (k : Except ε Unit → Proc L ε ι ρ)

/-- A thread of a call, a worker of the pool `pool` if there is one. -/
structure Thread (Q : Type → Type) (L : Type → Type 1) (ε W ι K ρ : Type) : Type 1 where
  call : K
  pool : Option Nat
  code : Code Q L ε W ι ρ

/-- A worker pool: the items not taken yet, and what is run on each. -/
structure Pool (L : Type → Type 1) (ε ι : Type) : Type 1 where
  queue : List ι
  body : ι → Proc L ε ι Unit

/-- A configuration. -/
structure Config (Q : Type → Type) (L : Type → Type 1) (ε S W ι K ρ : Type) : Type 1 where
  store : S
  threads : List (Thread Q L ε W ι K ρ)
  pools : List (Pool L ε ι)

/-- An action of the scheduler. -/
inductive Action (C K : Type) where
  | start (call : K)
  | advance (i : Nat) (ch : C)
  | abort (i : Nat)
  | crash

/-- The history of the transaction a thread is in. -/
def Code.history : Code Q L ε W ι ρ → List (Event Q W)
  | .opened _ h _ _ => h
  | _ => []

@[simp] theorem Code.history_run (p : Proc L ε ι ρ) :
    (.run p : Code Q L ε W ι ρ).history = [] := rfl

@[simp] theorem Code.history_await (n : Nat) (k : Except ε Unit → Proc L ε ι ρ) :
    (.await n k : Code Q L ε W ι ρ).history = [] := rfl

@[simp] theorem Code.history_opened {β : Type} (l : L β) (h : List (Event Q W)) (t : Tx Q ε β)
    (k : Except ε β → Proc L ε ι ρ) : (.opened l h t k : Code Q L ε W ι ρ).history = h := rfl

namespace Config

/-- A store with no threads. -/
def initial (s : S) : Config Q L ε S W ι K ρ := ⟨s, [], []⟩

/-- Thread `i` goes on as `th`. -/
def goto (c : Config Q L ε S W ι K ρ) (i : Nat) (th : Thread Q L ε W ι K ρ) :
    Config Q L ε S W ι K ρ := { c with threads := c.threads.set i th }

/-- No other thread has one of the keys `xs` among the keys `f` of its history. -/
def othersFree [DecidableEq γ] (c : Config Q L ε S W ι K ρ) (f : List (Event Q W) → List γ)
    (i : Nat) (xs : List γ) : Bool :=
  c.threads.zipIdx.all fun p =>
    p.2 == i || xs.all fun x => !(f p.1.code.history).contains x

/-- The result of pool `n`, if it has one: the error of a worker, or the end of
the queue with every worker at rest. -/
def poolResult (c : Config Q L ε S W ι K ρ) (n : Nat) : Option (Except ε Unit) :=
  let workers := c.threads.filter fun th => th.pool == some n
  match workers.findSome? fun th => match th.code with | .run (.throw e) => some e | _ => none with
  | some e => some (.error e)
  | none =>
      let rest := workers.all fun th => match th.code with | .run (.pure _) => true | _ => false
      if rest && (c.pools[n]?.all fun pl => pl.queue.isEmpty) then some (.ok ()) else none

/-- What thread `i` ended with, if it ended. -/
def outcome (c : Config Q L ε S W ι K ρ) (i : Nat) : Option (Except ε ρ) :=
  match c.threads[i]? with
  | some ⟨_, _, .run (.pure r)⟩ => some (.ok r)
  | some ⟨_, _, .run (.throw e)⟩ => some (.error e)
  | _ => none

theorem othersFree_iff [DecidableEq γ] {c : Config Q L ε S W ι K ρ}
    {f : List (Event Q W) → List γ} {i : Nat} {xs : List γ} :
    c.othersFree f i xs = true ↔
      ∀ j th, c.threads[j]? = some th → j ≠ i → List.Disjoint (f th.code.history) xs := by
  simp only [othersFree, List.all_eq_true, Bool.or_eq_true, beq_iff_eq, Bool.not_eq_true',
    List.contains_eq_mem, decide_eq_false_iff_not, Prod.forall, List.mem_zipIdx_iff_getElem?]
  constructor
  · intro h j th hth hji x hx hmem
    rcases h th j hth with heq | hfree
    · exact hji heq
    · exact hfree x hmem hx
  · intro h th j hth
    by_cases hji : j = i
    · exact Or.inl hji
    · exact Or.inr fun x hmem hx => h j th hth hji hx hmem

end Config

/-! ## Steps -/

section Steps

variable [DecidableEq κ] (sys : System Q L ε S W C κ ι K ρ)

namespace System

/-- The next step of a thread. -/
def advance (c : Config Q L ε S W ι K ρ) (i : Nat) (th : Thread Q L ε W ι K ρ) (ch : C) :
    Option (Config Q L ε S W ι K ρ) :=
  match th.code with
  | .opened l h rest k =>
      match rest with
      | .pure a =>
          some { c with
            store := sys.applyAll (writes h) c.store
            threads := c.threads.set i { th with code := .run (k (.ok a)) } }
      | .throw e => some (c.goto i { th with code := .run (k (.error e)) })
      | .query q k' =>
          match sys.exec q ch (sys.applyAll (writes h) c.store) with
          | .error e => some (c.goto i { th with code := .run (k (.error e)) })
          | .ok (r, ws) =>
              if c.othersFree (fun h => sys.locksOf (writes h)) i (sys.locksOf ws) then
                some (c.goto i { th with code := .opened l (h ++ [⟨q, r, ws⟩]) (k' r) k })
              else none
  | .run p =>
      match p with
      | .call l k => some (c.goto i { th with code := .opened l [] (sys.body l) k })
      | .all n ids body k =>
          some { c with
            threads := c.threads.set i { th with code := .await c.pools.length k } ++
              List.replicate (min n ids.length) ⟨th.call, some c.pools.length, .run (.pure sys.idle)⟩
            pools := c.pools ++ [⟨ids, body⟩] }
      | .throw _ => none
      | .pure _ =>
          match th.pool with
          | none => none
          | some n =>
              match c.pools[n]? with
              | some ⟨id :: queue, body⟩ =>
                  some { c with
                    threads := c.threads.set i
                      { th with code := .run ((body id).discard sys.idle) }
                    pools := c.pools.set n ⟨queue, body⟩ }
              | _ => none
  | .await n k => (c.poolResult n).map fun r => c.goto i { th with code := .run (k r) }

/-- The step of an action, if the configuration allows it. -/
def step (c : Config Q L ε S W ι K ρ) : Action C K → Option (Config Q L ε S W ι K ρ)
  | .start call =>
      some { c with threads := c.threads ++ [⟨call, none, .run (sys.program call)⟩] }
  | .advance i ch => c.threads[i]?.bind fun th => sys.advance c i th ch
  | .abort i => c.threads[i]?.bind fun th =>
      match th.code with
      | .opened _ _ _ k => some (c.goto i { th with code := .run (k (.error sys.aborted)) })
      | _ => none
  | .crash => some { c with threads := [], pools := [] }

end System

/-- Why a transaction that is at `t` ends with an error: it is aborted, it throws, or its next
statement fails. -/
inductive Fails {β : Type} (c : Config Q L ε S W ι K ρ) (i : Nat) (h : List (Event Q W))
    (t : Tx Q ε β) : Action C K → ε → Prop where
  | abort : Fails c i h t (.abort i) sys.aborted
  | throw {ch : C} {e : ε} : t = .throw e → Fails c i h t (.advance i ch) e
  | statement {α : Type} {q : Q α} {k : α → Tx Q ε β} {ch : C} {e : ε} : t = .query q k →
      sys.exec q ch (sys.applyAll (writes h) c.store) = .error e → Fails c i h t (.advance i ch) e

/-- What one step can do, case by case. -/
inductive Step (c : Config Q L ε S W ι K ρ) : Action C K → Config Q L ε S W ι K ρ → Prop where
  | start (call : K) : Step c (.start call)
      { c with threads := c.threads ++ [⟨call, none, .run (sys.program call)⟩] }
  | crash : Step c .crash { c with threads := [], pools := [] }
  | begin {i : Nat} {ch : C} {call : K} {pool : Option Nat} {β : Type} {l : L β}
      {k : Except ε β → Proc L ε ι ρ} :
      c.threads[i]? = some ⟨call, pool, .run (.call l k)⟩ →
      Step c (.advance i ch) (c.goto i ⟨call, pool, .opened l [] (sys.body l) k⟩)
  | statement {i : Nat} {ch : C} {call : K} {pool : Option Nat} {β α : Type} {l : L β}
      {h : List (Event Q W)} {q : Q α} {k' : α → Tx Q ε β} {k : Except ε β → Proc L ε ι ρ}
      {r : α} {ws : List W} :
      c.threads[i]? = some ⟨call, pool, .opened l h (.query q k') k⟩ →
      sys.exec q ch (sys.applyAll (writes h) c.store) = .ok (r, ws) →
      c.othersFree (fun h => sys.locksOf (writes h)) i (sys.locksOf ws) = true →
      Step c (.advance i ch) (c.goto i ⟨call, pool, .opened l (h ++ [⟨q, r, ws⟩]) (k' r) k⟩)
  | rollback {i : Nat} {a : Action C K} {call : K} {pool : Option Nat} {β : Type} {l : L β}
      {h : List (Event Q W)} {t : Tx Q ε β} {k : Except ε β → Proc L ε ι ρ} {e : ε} :
      c.threads[i]? = some ⟨call, pool, .opened l h t k⟩ → Fails sys c i h t a e →
      Step c a (c.goto i ⟨call, pool, .run (k (.error e))⟩)
  | commit {i : Nat} {ch : C} {call : K} {pool : Option Nat} {β : Type} {l : L β}
      {h : List (Event Q W)} {a : β} {k : Except ε β → Proc L ε ι ρ} :
      c.threads[i]? = some ⟨call, pool, .opened l h (.pure a) k⟩ →
      Step c (.advance i ch)
        { c with
          store := sys.applyAll (writes h) c.store
          threads := c.threads.set i ⟨call, pool, .run (k (.ok a))⟩ }
  | fork {i : Nat} {ch : C} {call : K} {pool : Option Nat} {n : Nat} {ids : List ι}
      {body : ι → Proc L ε ι Unit} {k : Except ε Unit → Proc L ε ι ρ} :
      c.threads[i]? = some ⟨call, pool, .run (.all n ids body k)⟩ →
      Step c (.advance i ch)
        { c with
          threads := c.threads.set i ⟨call, pool, .await c.pools.length k⟩ ++
            List.replicate (min n ids.length) ⟨call, some c.pools.length, .run (.pure sys.idle)⟩
          pools := c.pools ++ [⟨ids, body⟩] }
  | take {i : Nat} {ch : C} {call : K} {n : Nat} {a : ρ} {id : ι} {queue : List ι}
      {body : ι → Proc L ε ι Unit} :
      c.threads[i]? = some ⟨call, some n, .run (.pure a)⟩ →
      c.pools[n]? = some ⟨id :: queue, body⟩ →
      Step c (.advance i ch)
        { c with
          threads := c.threads.set i ⟨call, some n, .run ((body id).discard sys.idle)⟩
          pools := c.pools.set n ⟨queue, body⟩ }
  | resume {i : Nat} {ch : C} {call : K} {pool : Option Nat} {n : Nat}
      {k : Except ε Unit → Proc L ε ι ρ} {r : Except ε Unit} :
      c.threads[i]? = some ⟨call, pool, .await n k⟩ → c.poolResult n = some r →
      Step c (.advance i ch) (c.goto i ⟨call, pool, .run (k r)⟩)

variable {sys}

theorem step_cases {c c' : Config Q L ε S W ι K ρ} {a : Action C K} (h : sys.step c a = some c') :
    Step sys c a c' := by
  cases a with
  | start call => cases h; exact .start call
  | crash => cases h; exact .crash
  | abort i =>
      obtain ⟨⟨call, pool, code⟩, hth, h⟩ := Option.bind_eq_some_iff.mp h
      cases code with
      | run p => cases h
      | await n k => cases h
      | opened l hist rest k => cases h; exact .rollback hth .abort
  | advance i ch =>
      obtain ⟨⟨call, pool, code⟩, hth, h⟩ := Option.bind_eq_some_iff.mp h
      cases code with
      | opened l hist rest k =>
          cases rest with
          | pure a => cases h; exact .commit hth
          | throw e => cases h; exact .rollback hth (.throw rfl)
          | query q k' =>
              simp only [System.advance] at h
              split at h
              · rename_i e hexec
                cases h
                exact .rollback hth (.statement rfl hexec)
              · rename_i r ws hexec
                split at h
                · rename_i hfree
                  cases h
                  exact .statement hth hexec hfree
                · cases h
      | run p =>
          cases p with
          | call l k => cases h; exact .begin hth
          | all n ids body k => cases h; exact .fork hth
          | throw e => cases h
          | pure a =>
              cases pool with
              | none => cases h
              | some n =>
                  simp only [System.advance] at h
                  split at h
                  · rename_i hpool
                    cases h
                    exact .take hth hpool
                  · cases h
      | await n k =>
          obtain ⟨r, hr, h⟩ := Option.map_eq_some_iff.mp h
          cases h
          exact .resume hth hr

/-- A transaction whose body returned commits. -/
theorem step_commit {c : Config Q L ε S W ι K ρ} {i : Nat} {call : K} {pool : Option Nat}
    {β : Type} {l : L β} {h : List (Event Q W)} {a : β} {k : Except ε β → Proc L ε ι ρ}
    (hth : c.threads[i]? = some ⟨call, pool, .opened l h (.pure a) k⟩) (ch : C) :
    sys.step c (.advance i ch) = some { c with
      store := sys.applyAll (writes h) c.store
      threads := c.threads.set i ⟨call, pool, .run (k (.ok a))⟩ } := by
  simp [System.step, System.advance, hth]

variable (sys)

/-- The runs whose actions are all allowed. -/
def Steps (ok : Config Q L ε S W ι K ρ → Action C K → Bool) :
    Config Q L ε S W ι K ρ → Config Q L ε S W ι K ρ → Prop :=
  Relation.ReflTransGen fun c c' => ∃ a, ok c a = true ∧ sys.step c a = some c'

/-- Play a list of actions, each of which must be allowed. -/
def System.play (ok : Config Q L ε S W ι K ρ → Action C K → Bool) :
    Config Q L ε S W ι K ρ → List (Action C K) → Option (Config Q L ε S W ι K ρ)
  | c, [] => some c
  | c, a :: as => if ok c a then (sys.step c a).bind fun c' => play ok c' as else none

variable {sys}

theorem play_steps {ok : Config Q L ε S W ι K ρ → Action C K → Bool} {as : List (Action C K)}
    {c c' : Config Q L ε S W ι K ρ} (h : sys.play ok c as = some c') : Steps sys ok c c' := by
  induction as generalizing c with
  | nil => cases h; exact .refl
  | cons a as ih =>
      simp only [System.play] at h
      split at h
      · rename_i hok
        obtain ⟨c₁, hstep, hrest⟩ := Option.bind_eq_some_iff.mp h
        exact .head ⟨a, hok, hstep⟩ (ih hrest)
      · cases h

theorem play_append {ok : Config Q L ε S W ι K ρ → Action C K → Bool} {as as' : List (Action C K)}
    {c c' : Config Q L ε S W ι K ρ} (h : sys.play ok c as = some c') :
    sys.play ok c (as ++ as') = sys.play ok c' as' := by
  induction as generalizing c with
  | nil => cases h; rfl
  | cons a as ih =>
      simp only [System.play, List.cons_append] at h ⊢
      split at h
      · rename_i hok
        obtain ⟨c₁, hstep, hrest⟩ := Option.bind_eq_some_iff.mp h
        simpa [hok, hstep] using ih hrest
      · cases h

variable (sys) in
/-- Playing actions ends in a configuration with a property. -/
theorem play_of_decide (ok : Config Q L ε S W ι K ρ → Action C K → Bool)
    (c : Config Q L ε S W ι K ρ) (as : List (Action C K)) (P : Config Q L ε S W ι K ρ → Prop)
    [DecidablePred P] (h : (sys.play ok c as).any (fun c' => decide (P c')) = true) :
    ∃ c', sys.play ok c as = some c' ∧ P c' := by
  cases hplay : sys.play ok c as with
  | none => simp [hplay] at h
  | some c' => exact ⟨c', rfl, by simpa [hplay] using h⟩

variable (sys) in
/-- Playing actions finds a run to a configuration with a property. -/
theorem exists_of_play (ok : Config Q L ε S W ι K ρ → Action C K → Bool)
    (c : Config Q L ε S W ι K ρ) (as : List (Action C K)) (P : Config Q L ε S W ι K ρ → Prop)
    [DecidablePred P] (h : (sys.play ok c as).any (fun c' => decide (P c')) = true) :
    ∃ c', Steps sys ok c c' ∧ P c' := by
  obtain ⟨c', hplay, hc'⟩ := play_of_decide sys ok c as P h
  exact ⟨c', play_steps hplay, hc'⟩

theorem Steps.mono {ok ok' : Config Q L ε S W ι K ρ → Action C K → Bool}
    {c c' : Config Q L ε S W ι K ρ} (h : Steps sys ok c c')
    (himp : ∀ c a, ok c a = true → ok' c a = true) : Steps sys ok' c c' :=
  Relation.ReflTransGen.mono (fun _ _ ⟨a, ha, hs⟩ => ⟨a, himp _ a ha, hs⟩) _ _ h

/-! ## Restricted schedules -/

variable (sys)

/-- The event of the statement that thread `i` is about to execute. -/
def System.nextEvent (c : Config Q L ε S W ι K ρ) (i : Nat) (ch : C) : Option (Event Q W) :=
  match c.threads[i]? with
  | some ⟨_, _, .opened _ h (.query q _) _⟩ =>
      match sys.exec q ch (sys.applyAll (writes h) c.store) with
      | .ok (r, ws) => some ⟨q, r, ws⟩
      | .error _ => none
  | _ => none

/-- No statement runs while another open transaction holds one of its guards. -/
def System.Exclusive [DecidableEq γ] (guard : Event Q W → List γ) (c : Config Q L ε S W ι K ρ) :
    Action C K → Bool
  | .advance i ch =>
      match sys.nextEvent c i ch with
      | some e => c.othersFree (fun h => h.flatMap guard) i (guard e)
      | none => true
  | _ => true

/-- Only some calls are started. -/
def Starts (P : K → Bool) : Action C K → Bool
  | .start call => P call
  | _ => true

/-- Every transaction is atomic: no statement runs while another open
transaction has executed one. -/
def System.Serial (c : Config Q L ε S W ι K ρ) (a : Action C K) : Bool :=
  sys.Exclusive (fun _ => [()]) c a

variable {sys}

/-- The threads of a run were all started. -/
theorem calls_of_steps {P : K → Bool} {s : S} {c : Config Q L ε S W ι K ρ}
    (h : Steps sys (fun _ => Starts P) (.initial s) c) : ∀ th ∈ c.threads, P th.call = true := by
  induction h with
  | refl => simp [Config.initial]
  | tail _ hstep ih =>
      obtain ⟨a, hok, hs⟩ := hstep
      have hset : ∀ {i : Nat} {th th' : Thread Q L ε W ι K ρ}, _[i]? = some th → th'.call = th.call →
          ∀ x ∈ List.set _ i th', P x.call = true := fun hth hcall x hx => by
        rcases List.mem_or_eq_of_mem_set hx with hx | rfl
        · exact ih x hx
        · rw [hcall]
          exact ih _ (List.mem_of_getElem? hth)
      cases step_cases hs with
      | start call =>
          refine List.forall_mem_append.mpr ⟨ih, List.forall_mem_singleton.mpr hok⟩
      | crash => simp
      | begin hth => exact hset hth rfl
      | statement hth _ _ => exact hset hth rfl
      | rollback hth _ => exact hset hth rfl
      | commit hth => exact hset hth rfl
      | take hth _ => exact hset hth rfl
      | resume hth _ => exact hset hth rfl
      | fork hth =>
          refine List.forall_mem_append.mpr ⟨hset hth rfl, fun x hx => ?_⟩
          obtain ⟨-, rfl⟩ := List.mem_replicate.mp hx
          have hcall := ih _ (List.mem_of_getElem? hth)
          exact hcall

omit [DecidableEq κ] in
theorem nextEvent_statement {c : Config Q L ε S W ι K ρ} {i : Nat} {ch : C} {call : K}
    {pool : Option Nat} {β α : Type} {l : L β} {h : List (Event Q W)} {q : Q α}
    {k' : α → Tx Q ε β} {k : Except ε β → Proc L ε ι ρ} {r : α} {ws : List W}
    (hth : c.threads[i]? = some ⟨call, pool, .opened l h (.query q k') k⟩)
    (hexec : sys.exec q ch (sys.applyAll (writes h) c.store) = .ok (r, ws)) :
    sys.nextEvent c i ch = some ⟨q, r, ws⟩ := by
  simp [System.nextEvent, hth, hexec]

omit [DecidableEq κ] in
theorem exclusive_statement [DecidableEq γ] {guard : Event Q W → List γ}
    {c : Config Q L ε S W ι K ρ} {i : Nat} {ch : C} {call : K} {pool : Option Nat} {β α : Type}
    {l : L β} {h : List (Event Q W)} {q : Q α} {k' : α → Tx Q ε β}
    {k : Except ε β → Proc L ε ι ρ} {r : α} {ws : List W}
    (hok : sys.Exclusive guard c (.advance i ch) = true)
    (hth : c.threads[i]? = some ⟨call, pool, .opened l h (.query q k') k⟩)
    (hexec : sys.exec q ch (sys.applyAll (writes h) c.store) = .ok (r, ws)) :
    ∀ j th, c.threads[j]? = some th → j ≠ i →
      List.Disjoint (th.code.history.flatMap guard) (guard ⟨q, r, ws⟩) := by
  simp only [System.Exclusive, nextEvent_statement hth hexec] at hok
  exact Config.othersFree_iff.mp hok

end Steps

end Txn
