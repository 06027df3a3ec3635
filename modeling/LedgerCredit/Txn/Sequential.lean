import LedgerCredit.Txn.Alone

/-!
# One call after another

`Sequential` is the schedules in which a call starts when all calls before it
have ended.  A call may still fail at any transaction, or be cut off by a crash.

`Proc.Keeps` says of a process that every store it commits, when it runs alone,
comes after the store before it.  It is computed along the process.
`orderly_of_steps` carries it through the sequential runs.

`Concludes` says the same of the outcome of a process that runs alone and is not
cut off, and `solo_concludes` finds it in the steps of its thread.
-/

namespace Txn

variable {Q : Type → Type} {L : Type → Type 1} {ε S W C κ ι K ρ α β : Type}

/-- The thread has ended. -/
def Code.atRest : Code Q L ε W ι ρ → Bool
  | .run (.pure _) => true
  | .run (.throw _) => true
  | _ => false

/-- Every thread has ended. -/
def Config.atRest (c : Config Q L ε S W ι K ρ) : Bool := c.threads.all (·.code.atRest)

theorem history_of_atRest {code : Code Q L ε W ι ρ} (h : code.atRest = true) :
    code.history = [] := by
  unfold Code.atRest at h
  split at h
  · rfl
  · rfl
  · cases h

/-- The configuration with one more call. -/
def Config.started (c : Config Q L ε S W ι K ρ) (sys : System Q L ε S W C κ ι K ρ) (call : K) :
    Config Q L ε S W ι K ρ :=
  { c with threads := c.threads ++ [⟨call, none, .run (sys.program call)⟩] }

/-- A call starts when all calls before it have ended, and the choices are allowed. -/
def Sequential (allowed : C → Bool) (c : Config Q L ε S W ι K ρ) : Action C K → Bool
  | .start _ => c.atRest
  | .advance _ ch => allowed ch
  | _ => true

section Keeps

variable (sys : System Q L ε S W C κ ι K ρ) (ok : S → C → Prop) (le : S → S → Prop)

/-- Every store that the process commits, when it runs alone, is after the store before it.
Processes that fork a pool are left out. -/
def Proc.Keeps : {α : Type} → Proc L ε ι α → S → Prop
  | _, .pure _, _ => True
  | _, .throw _, _ => True
  | _, .call l k, s => (∀ e, (k (.error e)).Keeps s) ∧
      Always sys.toDatabase ok (sys.body l) s (fun b s' => le s s' ∧ (k (.ok b)).Keeps s')
        fun _ => True
  | _, .all .., _ => False

/-- What is left of a transaction keeps the order, and so does the process after it. -/
def Code.Keeps : Code Q L ε W ι ρ → S → Prop
  | .run p, s => p.Keeps sys ok le s
  | .opened _ h t k, s => (∀ e, (k (.error e)).Keeps sys ok le s) ∧
      Always sys.toDatabase ok t (sys.applyAll (writes h) s)
        (fun b s' => le s s' ∧ (k (.ok b)).Keeps sys ok le s') fun _ => True
  | .await .., _ => False

/-- However the process ends on the store, the outcome and the store after it have `A`. -/
def Concludes {α : Type} : Proc L ε ι α → S → (Except ε α → S → Prop) → Prop
  | .pure a, s, A => A (.ok a) s
  | .throw e, s, A => A (.error e) s
  | .call l k, s, A => Always sys.toDatabase ok (sys.body l) s
      (fun b s' => Concludes (k (.ok b)) s' A) fun e => Concludes (k (.error e)) s A
  | .all .., _, _ => False

end Keeps

/-! ## Rules -/

section Rules

variable {sys : System Q L ε S W C κ ι K ρ} {ok : S → C → Prop} {le : S → S → Prop} {s : S}

theorem Proc.Keeps.transaction_bind {l : L β} {f : β → Proc L ε ι α}
    (h : Always sys.toDatabase ok (sys.body l) s
      (fun b s' => le s s' ∧ (f b).Keeps sys ok le s') fun _ => True) :
    (Proc.transaction l >>= f).Keeps sys ok le s :=
  ⟨fun _ => trivial, h⟩

/-- Run `p`, and then a process that keeps the order on every store. -/
theorem Proc.Keeps.bind {p : Proc L ε ι α} {f : α → Proc L ε ι β} (hp : p.Keeps sys ok le s)
    (hf : ∀ a s', (f a).Keeps sys ok le s') : (p >>= f).Keeps sys ok le s := by
  induction p generalizing s with
  | pure a => exact hf a s
  | throw e => trivial
  | call l k ih =>
      obtain ⟨herror, hresult⟩ := hp
      exact ⟨fun e => ih _ (herror e) hf,
        hresult.mono (fun _ _ h => ⟨h.1, ih _ h.2 hf⟩) fun _ _ => trivial⟩
  | all n ids body k _ _ => exact hp

/-- Run `p`, and then return a value of its result. -/
theorem Concludes.map {p : Proc L ε ι α} {g : α → β} {A : Except ε β → S → Prop}
    (h : Concludes sys ok p s fun o s' => A (o.map g) s') :
    Concludes sys ok (p >>= fun a => pure (g a)) s A := by
  induction p generalizing s with
  | pure a => exact h
  | throw e => exact h
  | call l k ih => exact Always.mono h (fun _ _ hb => ih _ hb) fun _ he => ih _ he
  | all n ids body k _ _ => exact h

theorem Concludes.mono {p : Proc L ε ι α} {A A' : Except ε α → S → Prop}
    (h : Concludes sys ok p s A) (hA : ∀ o s', A o s' → A' o s') : Concludes sys ok p s A' := by
  induction p generalizing s with
  | pure a => exact hA _ _ h
  | throw e => exact hA _ _ h
  | call l k ih => exact Always.mono h (fun _ _ hb => ih _ hb hA) fun _ he => ih _ he hA
  | all n ids body k _ _ => exact h

/-- Run `p`, which returns, and then `f` on its result. -/
theorem Concludes.andThen {p : Proc L ε ι α} {f : α → Proc L ε ι β} {A : Except ε β → S → Prop}
    (h : Concludes sys ok p s fun o s' => ∃ a, o = .ok a ∧ Concludes sys ok (f a) s' A) :
    Concludes sys ok (p >>= f) s A := by
  induction p generalizing s with
  | pure a =>
      obtain ⟨_, heq, h⟩ := h
      cases heq
      exact h
  | throw e =>
      obtain ⟨_, heq, -⟩ := h
      cases heq
  | call l k ih => exact Always.mono h (fun _ _ hb => ih _ hb) fun _ he => ih _ he
  | all n ids body k _ _ => exact h

theorem Concludes.transaction_bind {l : L β} {f : β → Proc L ε ι α} {A : Except ε α → S → Prop}
    (h : Always sys.toDatabase ok (sys.body l) s (fun b s' => Concludes sys ok (f b) s' A)
      fun e => A (.error e) s) : Concludes sys ok (Proc.transaction l >>= f) s A :=
  h

end Rules

/-! ## Runs -/

section Runs

variable [DecidableEq κ] {sys : System Q L ε S W C κ ι K ρ} {ok : S → C → Prop}
  {le : S → S → Prop} {allowed : C → Bool} {c c' : Config Q L ε S W ι K ρ}

omit [DecidableEq κ] in
/-- At most one thread has not ended, and every thread keeps the order. -/
structure Orderly (sys : System Q L ε S W C κ ι K ρ) (ok : S → C → Prop) (le : S → S → Prop)
    (c : Config Q L ε S W ι K ρ) : Prop where
  pools : c.pools = []
  alone : ∀ (i j : Nat) th th', c.threads[i]? = some th → c.threads[j]? = some th' →
    th.code.atRest = false → th'.code.atRest = false → i = j
  keeps : ∀ (i : Nat) th, c.threads[i]? = some th → th.code.Keeps sys ok le c.store

omit [DecidableEq κ] in
/-- A thread that has ended does nothing any more. -/
theorem Code.keeps_atRest {code : Code Q L ε W ι ρ} (h : code.atRest = true) (s : S) :
    code.Keeps sys ok le s := by
  unfold Code.atRest at h
  split at h
  · trivial
  · trivial
  · cases h

omit [DecidableEq κ] in
/-- The thread that has not ended goes on, with another store perhaps. -/
theorem Orderly.goto (hc : Orderly sys ok le c) {i : Nat} {th : Thread Q L ε W ι K ρ}
    (hth : c.threads[i]? = some th) (hrest : th.code.atRest = false) {s' : S}
    {th' : Thread Q L ε W ι K ρ} (hkeeps : th'.code.Keeps sys ok le s') :
    Orderly sys ok le { c with store := s', threads := c.threads.set i th' } := by
  have hold : ∀ {j : Nat} {x : Thread Q L ε W ι K ρ}, (c.threads.set i th')[j]? = some x →
      j = i ∧ x = th' ∨ j ≠ i ∧ c.threads[j]? = some x := by
    intro j x hx
    by_cases hj : i = j
    · subst hj
      rw [List.getElem?_set_self (List.getElem?_eq_some_iff.mp hth).1] at hx
      exact Or.inl ⟨rfl, (Option.some.inj hx).symm⟩
    · rw [List.getElem?_set_ne hj] at hx
      exact Or.inr ⟨Ne.symm hj, hx⟩
  have hended : ∀ {j : Nat} {x : Thread Q L ε W ι K ρ}, c.threads[j]? = some x → j ≠ i →
      x.code.atRest = true := by
    intro j x hx hj
    by_contra hne
    exact hj (hc.alone j i x th hx hth (by simpa using hne) hrest)
  refine ⟨hc.pools, fun j j' x x' hx hx' hrest hrest' => ?_, fun j x hx => ?_⟩
  · rcases hold hx with ⟨rfl, -⟩ | ⟨hj, hx⟩
    · rcases hold hx' with ⟨rfl, -⟩ | ⟨hj', hx'⟩
      · rfl
      · simp [hended hx' hj'] at hrest'
    · simp [hended hx hj] at hrest
  · rcases hold hx with ⟨-, rfl⟩ | ⟨hj, hx⟩
    · exact hkeeps
    · exact Code.keeps_atRest (hended hx hj) s'

/-- A step keeps the threads in order, and the store in place or after itself. -/
theorem Orderly.step (hallowed : ∀ s ch, allowed ch = true → ok s ch)
    (hstart : ∀ call, c.atRest = true → (sys.program call).Keeps sys ok le c.store)
    (hc : Orderly sys ok le c) {a : Action C K} (hok : Sequential allowed c a = true)
    (hstep : sys.step c a = some c') :
    Orderly sys ok le c' ∧ (c'.store = c.store ∨ le c.store c'.store) := by
  cases step_cases hstep with
  | start call =>
      have hrest : ∀ (i : Nat) th, c.threads[i]? = some th → th.code.atRest = true :=
        fun i th hth => List.all_eq_true.mp hok th (List.mem_of_getElem? hth)
      have hnew : ∀ {i : Nat} {th : Thread Q L ε W ι K ρ},
          (c.threads ++ [⟨call, none, .run (sys.program call)⟩])[i]? = some th →
          c.threads[i]? = some th ∨ i = c.threads.length ∧
            th = ⟨call, none, .run (sys.program call)⟩ := by
        intro i th hth
        rw [List.getElem?_append] at hth
        split at hth
        · exact Or.inl hth
        · obtain ⟨hi, heq⟩ := List.getElem?_eq_some_iff.mp hth
          simp only [List.length_singleton] at hi
          exact Or.inr ⟨by omega, by simpa using heq.symm⟩
      refine ⟨⟨hc.pools, fun i j th th' hth hth' h h' => ?_, fun i th hth => ?_⟩, Or.inl rfl⟩
      · rcases hnew hth with hth | ⟨rfl, -⟩
        · simp [hrest i th hth] at h
        · rcases hnew hth' with hth' | ⟨rfl, -⟩
          · simp [hrest j th' hth'] at h'
          · rfl
      · rcases hnew hth with hth | ⟨-, rfl⟩
        · exact hc.keeps i th hth
        · exact hstart call hok
  | crash => exact ⟨⟨rfl, by simp, by simp⟩, Or.inl rfl⟩
  | begin hth =>
      have hkeeps := hc.keeps _ _ hth
      exact ⟨hc.goto hth rfl hkeeps, Or.inl rfl⟩
  | statement hth hexec _ =>
      obtain ⟨herror, hresult⟩ := hc.keeps _ _ hth
      refine ⟨hc.goto hth rfl ⟨herror, ?_⟩, Or.inl rfl⟩
      have hnext := (hresult _ (hallowed _ _ hok)).2 _ _ hexec
      simpa [Database.applyAll_append] using hnext
  | rollback hth _ => exact ⟨hc.goto hth rfl ((hc.keeps _ _ hth).1 _), Or.inl rfl⟩
  | commit hth =>
      obtain ⟨hle, hkeeps⟩ := (hc.keeps _ _ hth).2
      exact ⟨hc.goto hth rfl hkeeps, Or.inr hle⟩
  | fork hth => exact (hc.keeps _ _ hth).elim
  | take _ hpool => simp [hc.pools] at hpool
  | resume hth _ => exact (hc.keeps _ _ hth).elim

/-- A sequential run, from a configuration that is in order, goes along the order. -/
theorem Orderly.steps (Inv : S → Prop) (hrefl : ∀ s, le s s)
    (htrans : ∀ s s' s'', le s s' → le s' s'' → le s s'')
    (hallowed : ∀ s ch, allowed ch = true → ok s ch)
    (hinv : ∀ s s', le s s' → Inv s → Inv s')
    (hstart : ∀ call s, Inv s → (sys.program call).Keeps sys ok le s)
    (hc : Orderly sys ok le c) (hs : Inv c.store) (hrun : Steps sys (Sequential allowed) c c') :
    Orderly sys ok le c' ∧ le c.store c'.store := by
  induction hrun with
  | refl => exact ⟨hc, hrefl _⟩
  | tail _ hstep ih =>
      obtain ⟨a, hok, hs'⟩ := hstep
      obtain ⟨horderly, hle⟩ := ih
      obtain ⟨hnext, hstore⟩ :=
        horderly.step hallowed (fun call _ => hstart call _ (hinv _ _ hle hs)) hok hs'
      refine ⟨hnext, ?_⟩
      rcases hstore with heq | hle'
      · rwa [heq]
      · exact htrans _ _ _ hle hle'

omit [DecidableEq κ] in
theorem orderly_initial (s : S) : Orderly sys ok le (.initial s) :=
  ⟨rfl, by simp [Config.initial], by simp [Config.initial]⟩

end Runs

/-! ## A call alone -/

section Alone

variable [DecidableEq κ] {sys : System Q L ε S W C κ ι K ρ} {ok : S → C → Prop}
  {c c' : Config Q L ε S W ι K ρ} {i : Nat} {call : K} {pool : Option Nat} {p : Proc L ε ι ρ}
  {A : Except ε ρ → S → Prop}

omit [DecidableEq κ] in
theorem ended_thread {l : L β} {h : List (Event Q W)} {t : Tx Q ε β}
    {k : Except ε β → Proc L ε ι ρ} (hth : c.threads[i]? = some ⟨call, pool, .opened l h t k⟩)
    (o : Except ε (β × S)) : (c.ended i call pool k o).threads[i]? =
      some ⟨call, pool, .run (k (o.map Prod.fst))⟩ := by
  cases o with
  | error e => exact goto_thread hth _
  | ok x => exact goto_thread hth _

omit [DecidableEq κ] in
theorem started_thread : (c.started sys call).threads[c.threads.length]? =
    some ⟨call, none, .run (sys.program call)⟩ := by
  simp [Config.started]

omit [DecidableEq κ] in
/-- A call that starts when all others have ended is alone. -/
theorem started_alone (hrest : c.atRest = true) : ∀ j th,
    (c.started sys call).threads[j]? = some th → j ≠ c.threads.length → th.code.history = [] := by
  intro j th hj hne
  simp only [Config.started, List.getElem?_append] at hj
  split at hj
  · exact history_of_atRest (List.all_eq_true.mp hrest th (List.mem_of_getElem? hj))
  · rename_i hlength
    rw [List.getElem?_eq_none (by simp; omega)] at hj
    cases hj

omit [DecidableEq κ] in
/-- What concludes after a transaction concludes after its outcome. -/
theorem Concludes.ended {l : L β} {k : Except ε β → Proc L ε ι ρ} {x : Except ε (β × S)}
    (hp : Concludes sys ok (.call l k) c.store A)
    (hends : Ends sys.toDatabase ok (sys.body l) c.store x) :
    Concludes sys ok (k (x.map Prod.fst)) (c.ended i call pool k x).store A := by
  have hp : Always sys.toDatabase ok (sys.body l) c.store
      (fun b s' => Concludes sys ok (k (.ok b)) s' A)
      fun e => Concludes sys ok (k (.error e)) c.store A := hp
  cases x with
  | error e => exact hp.error hends
  | ok x => exact hp.result hends

/-- The steps of a thread that has none. -/
theorem solo_eq (hstuck : ∀ ch, sys.step c (.advance i ch) = none) (hrun : Solo sys ok i c c') :
    c' = c := by
  rcases Relation.ReflTransGen.cases_head hrun with rfl | ⟨c₁, ⟨ch, -, hstep⟩, -⟩
  · rfl
  · rw [hstuck ch] at hstep
    cases hstep

/-- A thread that runs alone, and has ended, ended as its process concludes. -/
theorem solo_concludes (hth : c.threads[i]? = some ⟨call, none, .run p⟩)
    (hp : Concludes sys ok p c.store A) (hrun : Solo sys ok i c c') {o : Except ε ρ}
    (ho : c'.outcome i = some o) : A o c'.store := by
  induction p with
  | pure a =>
      obtain rfl := solo_eq (fun ch => by simp [System.step, System.advance, hth]) hrun
      obtain rfl : Except.ok a = o := by simpa [Config.outcome, hth] using ho
      exact hp
  | throw e =>
      obtain rfl := solo_eq (fun ch => by simp [System.step, System.advance, hth]) hrun
      obtain rfl : Except.error e = o := by simpa [Config.outcome, hth] using ho
      exact hp
  | call l k ih =>
      rcases Relation.ReflTransGen.cases_head hrun with rfl | ⟨c₁, ⟨ch, -, hstep⟩, hrest⟩
      · simp [Config.outcome, hth] at ho
      · simp only [System.step, hth, Option.bind_some, System.advance, Option.some.injEq] at hstep
        subst hstep
        have hopened := goto_thread hth (⟨call, none, .opened l [] (sys.body l) k⟩)
        rcases solo_ends hopened hrest with ⟨h, t, rfl, -⟩ | ⟨x, hends, hafter⟩
        · rw [goto_goto] at ho
          simp [Config.outcome, goto_thread hth] at ho
        · rw [goto_ended] at hafter
          have hthread := ended_thread hopened x
          rw [goto_ended] at hthread
          exact ih (x.map Prod.fst) hthread (hp.ended hends) hafter ho
  | all n ids body k _ _ => exact hp.elim

/-- A call that starts when all others have ended, and runs alone, comes to its end. -/
theorem exists_outcome (hchoice : ∀ s, ∃ ch, ok s ch)
    (halone : ∀ j th, c.threads[j]? = some th → j ≠ i → th.code.history = [])
    (hth : c.threads[i]? = some ⟨call, pool, .run p⟩) (hp : Concludes sys ok p c.store A) :
    ∃ c' o, Solo sys ok i c c' ∧ c'.outcome i = some o := by
  induction p with
  | pure a => exact ⟨c, .ok a, .refl, by simp [Config.outcome, hth]⟩
  | throw e => exact ⟨c, .error e, .refl, by simp [Config.outcome, hth]⟩
  | call l k ih =>
      obtain ⟨ch, hch⟩ := hchoice (sys.applyAll [] c.store)
      have hopened := goto_thread hth (⟨call, pool, .opened l [] (sys.body l) k⟩)
      have hbegin : Solo sys ok i c (c.goto i ⟨call, pool, .opened l [] (sys.body l) k⟩) := by
        refine .single ⟨ch, fun th hth' => ?_, by simp [System.step, System.advance, hth]⟩
        obtain rfl := Option.some.inj (hth.symm.trans hth')
        exact hch
      have halone' : ∀ {x} j th, (c.threads.set i x)[j]? = some th → j ≠ i →
          th.code.history = [] := by
        intro x j th hj hne
        rw [List.getElem?_set_ne (Ne.symm hne)] at hj
        exact halone j th hj hne
      obtain ⟨x, hends⟩ := exists_ends sys.toDatabase hchoice (sys.body l) c.store
      have hsolo := Ends.solo hchoice halone' hopened hends
      rw [goto_ended] at hsolo
      have hthread := ended_thread hopened x
      rw [goto_ended] at hthread
      obtain ⟨c', o, hrest, ho⟩ := ih (x.map Prod.fst) (c := c.ended i call pool k x)
        (by cases x <;> exact halone') hthread (hp.ended hends)
      exact ⟨c', o, hbegin.trans (hsolo.trans hrest), ho⟩
  | all n ids body k _ _ => exact hp.elim

end Alone

end Txn
