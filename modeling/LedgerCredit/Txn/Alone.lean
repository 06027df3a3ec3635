import LedgerCredit.Txn.Schedule

/-!
# Transactions run alone

`Ends db ok t s o` runs the transaction `t` on the store `s` while nothing else
runs.  Every statement sees the writes before it, and its choice is one that `ok`
allows on the store it sees, such as a choice of identifiers that are new.  The
outcome `o` is the error, or the result with the store after the commit.

`Always db ok t s A E` says of every outcome that a result and its store have
`A`, and an error has `E`.  It is computed along `t`, and `always_bind` cuts it
at a sequential composition, so that the specification of a function is used
where the function is called.

`Finishes` and `Returns` are the same for processes.

`Solo` is the part of a schedule in which one thread makes its steps alone.
`Ends.solo` and `solo_ends` say that its transaction ends there as `Ends` says.
-/

namespace Txn

variable {Q : Type → Type} {L : Type → Type 1} {ε S W C κ ι K ρ α β : Type}

/-- The transaction can end so on the store. -/
inductive Ends (db : Database Q ε S W C κ) (ok : S → C → Prop) {α : Type} :
    Tx Q ε α → S → Except ε (α × S) → Prop where
  | pure {a : α} {s : S} : Ends db ok (.pure a) s (.ok (a, s))
  | throw {e : ε} {s : S} : Ends db ok (.throw e) s (.error e)
  | failed {β : Type} {q : Q β} {k : β → Tx Q ε α} {s : S} {ch : C} {e : ε} :
      ok s ch → db.exec q ch s = .error e → Ends db ok (.query q k) s (.error e)
  | query {β : Type} {q : Q β} {k : β → Tx Q ε α} {s : S} {ch : C} {r : β} {ws : List W}
      {o : Except ε (α × S)} :
      ok s ch → db.exec q ch s = .ok (r, ws) → Ends db ok (k r) (db.applyAll ws s) o →
      Ends db ok (.query q k) s o

/-- However the transaction ends on the store, its result has `A` and its error has `E`. -/
def Always (db : Database Q ε S W C κ) (ok : S → C → Prop) :
    Tx Q ε α → S → (α → S → Prop) → (ε → Prop) → Prop
  | .pure a, s, A, _ => A a s
  | .throw e, _, _, E => E e
  | .query q k, s, A, E => ∀ ch, ok s ch → (∀ e, db.exec q ch s = .error e → E e) ∧
      ∀ r ws, db.exec q ch s = .ok (r, ws) → Always db ok (k r) (db.applyAll ws s) A E

section Outcomes

variable {db : Database Q ε S W C κ} {ok : S → C → Prop} {t : Tx Q ε α} {s s' : S}
  {A A' : α → S → Prop} {E E' : ε → Prop}

/-- A result. -/
theorem Always.result {a : α} (h : Always db ok t s A E) (ht : Ends db ok t s (.ok (a, s'))) :
    A a s' := by
  generalize ho : Except.ok (a, s') = o at ht
  induction ht with
  | pure => cases ho; exact h
  | throw => cases ho
  | failed _ _ => cases ho
  | query hok hexec _ ih => exact ih ((h _ hok).2 _ _ hexec) ho

/-- An error. -/
theorem Always.error {e : ε} (h : Always db ok t s A E) (ht : Ends db ok t s (.error e)) :
    E e := by
  generalize ho : Except.error e = o at ht
  induction ht with
  | pure => cases ho
  | throw => cases ho; exact h
  | failed hok hexec => cases ho; exact (h _ hok).1 _ hexec
  | query hok hexec _ ih => exact ih ((h _ hok).2 _ _ hexec) ho

theorem always_of_ends (hA : ∀ a s', Ends db ok t s (.ok (a, s')) → A a s')
    (hE : ∀ e, Ends db ok t s (.error e) → E e) : Always db ok t s A E := by
  induction t generalizing s with
  | pure a => exact hA a s .pure
  | throw e => exact hE e .throw
  | query q k ih =>
      exact fun ch hok => ⟨fun e he => hE e (.failed hok he), fun r ws hexec =>
        ih r (fun a s' h => hA a s' (.query hok hexec h)) fun e h => hE e (.query hok hexec h)⟩

theorem Always.mono (h : Always db ok t s A E) (hA : ∀ a s', A a s' → A' a s')
    (hE : ∀ e, E e → E' e) : Always db ok t s A' E' :=
  always_of_ends (fun _ _ ht => hA _ _ (h.result ht)) fun _ ht => hE _ (h.error ht)

theorem Always.and (h : Always db ok t s A E) (h' : Always db ok t s A' E') :
    Always db ok t s (fun a s' => A a s' ∧ A' a s') fun e => E e ∧ E' e :=
  always_of_ends (fun _ _ ht => ⟨h.result ht, h'.result ht⟩) fun _ ht => ⟨h.error ht, h'.error ht⟩

/-- Every transaction ends, if there is always a choice. -/
theorem exists_ends (db : Database Q ε S W C κ) (hok : ∀ s, ∃ ch, ok s ch) (t : Tx Q ε α) (s : S) :
    ∃ o, Ends db ok t s o := by
  induction t generalizing s with
  | pure a => exact ⟨_, .pure⟩
  | throw e => exact ⟨_, .throw⟩
  | query q k ih =>
      obtain ⟨ch, hch⟩ := hok s
      cases hexec : db.exec q ch s with
      | error e => exact ⟨_, .failed hch hexec⟩
      | ok x =>
          obtain ⟨r, ws⟩ := x
          obtain ⟨o, ho⟩ := ih r (db.applyAll ws s)
          exact ⟨o, .query hch hexec ho⟩

/-- A transaction that never throws has a result. -/
theorem Always.exists_result (hok : ∀ s, ∃ ch, ok s ch) (h : Always db ok t s A fun _ => False) :
    ∃ a s', Ends db ok t s (.ok (a, s')) ∧ A a s' := by
  obtain ⟨o, ho⟩ := exists_ends db hok t s
  cases o with
  | error e => exact (h.error ho).elim
  | ok x => exact ⟨x.1, x.2, ho, h.result ho⟩

/-- A transaction that never returns has an error. -/
theorem Always.exists_error (hok : ∀ s, ∃ ch, ok s ch) (h : Always db ok t s (fun _ _ => False) E) :
    ∃ e, Ends db ok t s (.error e) ∧ E e := by
  obtain ⟨o, ho⟩ := exists_ends db hok t s
  cases o with
  | error e => exact ⟨e, ho, h.error ho⟩
  | ok x => exact (h.result ho).elim

end Outcomes

/-- Run `t`, and then `f` on its result. -/
theorem Ends.bind {db : Database Q ε S W C κ} {ok : S → C → Prop} {t : Tx Q ε α} {f : α → Tx Q ε β}
    {s s' : S} {a : α} {o : Except ε (β × S)} (ht : Ends db ok t s (.ok (a, s')))
    (hf : Ends db ok (f a) s' o) : Ends db ok (t >>= f) s o := by
  generalize hx : Except.ok (a, s') = x at ht
  induction ht with
  | pure => cases hx; exact hf
  | throw => cases hx
  | failed _ _ => cases hx
  | query hok hexec _ ih => exact .query hok hexec (ih hx)

/-- A run alone is a run whose statements answer on the store of the beginning. -/
theorem Ends.runs_after {db : Database Q ε S W C κ} {ok : S → C → Prop} {V : List W → Event Q W → Prop}
    {t : Tx Q ε α} {s s' : S} {p : List W} {a : α} (hdb : db.Lawful)
    (hV : ∀ p e ch, ok (db.applyAll p s) ch →
      db.exec e.query ch (db.applyAll p s) = .ok (e.reply, e.writes) → V p e)
    (h : Ends db ok t (db.applyAll p s) (.ok (a, s'))) : ∃ ws, Runs V p t ws a ∧
      s' = db.applyAll (p ++ ws) s ∧ (db.Admissible s p → db.Admissible s (p ++ ws)) := by
  generalize hs : db.applyAll p s = view at h
  generalize ho : Except.ok (a, s') = o at h
  induction h generalizing p with
  | pure =>
      cases ho
      exact ⟨[], runs_pure.mpr ⟨rfl, rfl⟩, by rw [List.append_nil, hs], by simp⟩
  | throw => cases ho
  | failed _ _ => cases ho
  | @query _ q k _ ch r ws o hok hexec _ ih =>
      subst hs
      obtain ⟨vs, ⟨hist, hc, hh, rfl⟩, rfl, hadm⟩ :=
        ih (p := p ++ ws) (Database.applyAll_append ..) ho
      refine ⟨ws ++ writes hist, ⟨⟨q, r, ws⟩ :: hist, .cons hc, ?_, rfl⟩, ?_, fun hp => ?_⟩
      · exact ⟨hV _ _ ch hok hexec, hh⟩
      · rw [List.append_assoc]
      · rw [← List.append_assoc]
        exact hadm (Database.admissible_append hdb hp (hdb.exec_admissible hexec))

theorem Ends.runs {db : Database Q ε S W C κ} {ok : S → C → Prop} {V : List W → Event Q W → Prop}
    {t : Tx Q ε α} {s s' : S} {a : α} (hdb : db.Lawful)
    (hV : ∀ p e ch, ok (db.applyAll p s) ch →
      db.exec e.query ch (db.applyAll p s) = .ok (e.reply, e.writes) → V p e)
    (h : Ends db ok t s (.ok (a, s'))) :
    ∃ ws, Runs V [] t ws a ∧ s' = db.applyAll ws s ∧ db.Admissible s ws := by
  obtain ⟨ws, hruns, hs', hadm⟩ := Ends.runs_after (p := []) hdb hV h
  exact ⟨ws, hruns, hs', hadm trivial⟩

/-- What every result of a run alone has. -/
theorem Always.of_runs {db : Database Q ε S W C κ} {ok : S → C → Prop}
    {V : List W → Event Q W → Prop} {t : Tx Q ε α} {s : S} {A : α → S → Prop} (hdb : db.Lawful)
    (hV : ∀ p e ch, ok (db.applyAll p s) ch →
      db.exec e.query ch (db.applyAll p s) = .ok (e.reply, e.writes) → V p e)
    (hA : ∀ a ws, Runs V [] t ws a → db.Admissible s ws → A a (db.applyAll ws s)) :
    Always db ok t s A fun _ => True := by
  refine always_of_ends (fun a s' h => ?_) fun _ _ => trivial
  obtain ⟨ws, hruns, rfl, hadm⟩ := h.runs hdb hV
  exact hA a ws hruns hadm

/-! ## Rules -/

section Rules

variable {db : Database Q ε S W C κ} {ok : S → C → Prop} {s : S} {A : α → S → Prop} {E : ε → Prop}

@[simp] theorem always_pure {a : α} : Always db ok (.pure a) s A E ↔ A a s := Iff.rfl

@[simp] theorem always_return {a : α} : Always db ok (pure a) s A E ↔ A a s := Iff.rfl

@[simp] theorem always_throw {e : ε} : Always db ok (.throw e) s A E ↔ E e := Iff.rfl

/-- Run `t`, and then `f` on its result. -/
theorem always_bind {t : Tx Q ε α} {f : α → Tx Q ε β} {A : β → S → Prop} :
    Always db ok (t >>= f) s A E ↔
      Always db ok t s (fun a s' => Always db ok (f a) s' A E) E := by
  induction t generalizing s with
  | pure a => exact Iff.rfl
  | throw e => exact Iff.rfl
  | query q k ih =>
      simp only [Tx.query_bind, Always, ih]

/-- Run `t` with what is known of it, and then `f`. -/
theorem Always.bind {t : Tx Q ε α} {f : α → Tx Q ε β} {A : α → S → Prop} {B : β → S → Prop}
    {E F : ε → Prop} (ht : Always db ok t s A E)
    (hf : ∀ a s', A a s' → Always db ok (f a) s' B F) (hE : ∀ e, E e → F e) :
    Always db ok (t >>= f) s B F :=
  always_bind.mpr (ht.mono hf hE)

theorem always_send {q : Q α} : Always db ok (Tx.send q) s A E ↔
    ∀ ch, ok s ch → (∀ e, db.exec q ch s = .error e → E e) ∧
      ∀ r ws, db.exec q ch s = .ok (r, ws) → A r (db.applyAll ws s) := Iff.rfl

@[simp] theorem always_ensure {c : Bool} {e : ε} {A : Unit → S → Prop} :
    Always db ok (Tx.ensure c e) s A E ↔ if c then A () s else E e := by
  cases c <;> simp [Tx.ensure]

theorem always_ensure_of {c : Bool} {e : ε} {A : Unit → S → Prop} (hc : c = true) :
    Always db ok (Tx.ensure c e) s A E ↔ A () s := by
  subst hc
  simp

theorem always_require_some {o : Option α} {a : α} {e : ε} (ho : o = some a) :
    Always db ok (Tx.require o e) s A E ↔ A a s := by
  subst ho
  exact Iff.rfl

theorem always_require_none {o : Option α} {e : ε} (ho : o = none) :
    Always db ok (Tx.require o e) s A E ↔ E e := by
  subst ho
  exact Iff.rfl

end Rules

/-! ## Processes run alone -/

section Processes

variable (sys : System Q L ε S W C κ ι K ρ) (ok : S → C → Prop)

/-- The process can finish so on the store.  Processes that fork a pool are left out. -/
inductive Finishes {α : Type} : Proc L ε ι α → S → Except ε (α × S) → Prop where
  | pure {a : α} {s : S} : Finishes (.pure a) s (.ok (a, s))
  | throw {e : ε} {s : S} : Finishes (.throw e) s (.error e)
  | result {β : Type} {l : L β} {k : Except ε β → Proc L ε ι α} {s s' : S} {b : β}
      {o : Except ε (α × S)} : Ends sys.toDatabase ok (sys.body l) s (.ok (b, s')) →
      Finishes (k (.ok b)) s' o → Finishes (.call l k) s o
  | error {β : Type} {l : L β} {k : Except ε β → Proc L ε ι α} {s : S} {e : ε}
      {o : Except ε (α × S)} : Ends sys.toDatabase ok (sys.body l) s (.error e) →
      Finishes (k (.error e)) s o → Finishes (.call l k) s o

/-- However the process finishes on the store, its result has `A`. -/
def Returns : Proc L ε ι α → S → (α → S → Prop) → Prop
  | .pure a, s, A => A a s
  | .throw _, _, _ => True
  | .call l k, s, A => Always sys.toDatabase ok (sys.body l) s
      (fun b s' => Returns (k (.ok b)) s' A) fun e => Returns (k (.error e)) s A
  | .all .., _, _ => True

variable {sys ok} {s s' : S} {A A' : α → S → Prop} {p : Proc L ε ι α}

theorem returns_call {β : Type} {l : L β} {k : Except ε β → Proc L ε ι α} :
    Returns sys ok (.call l k) s A ↔ Always sys.toDatabase ok (sys.body l) s
      (fun b s' => Returns sys ok (k (.ok b)) s' A) fun e => Returns sys ok (k (.error e)) s A :=
  Iff.rfl

theorem Returns.result {a : α} (h : Returns sys ok p s A) (hp : Finishes sys ok p s (.ok (a, s'))) :
    A a s' := by
  generalize ho : Except.ok (a, s') = o at hp
  induction hp with
  | pure => cases ho; exact h
  | throw => cases ho
  | result hends _ ih => exact ih ((returns_call.mp h).result hends) ho
  | error hends _ ih => exact ih ((returns_call.mp h).error hends) ho

theorem Returns.mono (h : Returns sys ok p s A) (hA : ∀ a s', A a s' → A' a s') :
    Returns sys ok p s A' := by
  induction p generalizing s with
  | pure a => exact hA _ _ h
  | throw e => trivial
  | call l k ih => exact Always.mono h (fun b s' hb => ih _ hb hA) fun e he => ih _ he hA
  | all n ids body k _ _ => trivial

/-- Run `p`, and then `f` on its result. -/
theorem Returns.bind {f : α → Proc L ε ι β} {B : β → S → Prop}
    (h : Returns sys ok p s fun a s' => Returns sys ok (f a) s' B) :
    Returns sys ok (p >>= f) s B := by
  induction p generalizing s with
  | pure a => exact h
  | throw e => trivial
  | call l k ih => exact Always.mono h (fun b s' hb => ih _ hb) fun e he => ih _ he
  | all n ids body k _ _ => trivial

theorem Returns.transaction {l : L α} {E : ε → Prop}
    (h : Always sys.toDatabase ok (sys.body l) s A E) :
    Returns sys ok (Proc.transaction l) s A :=
  Always.mono h (fun _ _ hb => hb) fun _ _ => trivial

/-- What every transaction keeps is kept by every process. -/
theorem Returns.keep {P : S → Prop} (hP : ∀ {β : Type} (l : L β) s, P s →
      Always sys.toDatabase ok (sys.body l) s (fun _ s' => P s') fun _ => True)
    (p : Proc L ε ι α) (hs : P s) : Returns sys ok p s fun _ s' => P s' := by
  induction p generalizing s with
  | pure a => exact hs
  | throw e => trivial
  | call l k ih =>
      exact (hP l s hs).mono (fun b s' hs' => ih _ hs') fun e _ => ih _ hs
  | all n ids body k _ _ => trivial

end Processes

/-! ## Threads that run alone -/

section Solo

variable [DecidableEq κ] (sys : System Q L ε S W C κ ι K ρ) (ok : S → C → Prop)

/-- The steps of thread `i` alone, with choices that are allowed on the store it sees. -/
def Solo (i : Nat) : Config Q L ε S W ι K ρ → Config Q L ε S W ι K ρ → Prop :=
  Relation.ReflTransGen fun c c' => ∃ ch,
    (∀ th, c.threads[i]? = some th → ok (sys.applyAll (writes th.code.history) c.store) ch) ∧
      sys.step c (.advance i ch) = some c'

omit [DecidableEq κ] in
/-- Thread `i` after its transaction ended. -/
def Config.ended (c : Config Q L ε S W ι K ρ) (i : Nat) (call : K) (pool : Option Nat)
    (k : Except ε β → Proc L ε ι ρ) : Except ε (β × S) → Config Q L ε S W ι K ρ
  | .ok (a, s') => { c with
      store := s'
      threads := c.threads.set i ⟨call, pool, .run (k (.ok a))⟩ }
  | .error e => c.goto i ⟨call, pool, .run (k (.error e))⟩

variable {sys ok} {c c' : Config Q L ε S W ι K ρ} {i : Nat} {call : K} {pool : Option Nat} {l : L β}
  {h : List (Event Q W)} {t : Tx Q ε β} {k : Except ε β → Proc L ε ι ρ} {o : Except ε (β × S)}

omit [DecidableEq κ] in
theorem goto_self {th : Thread Q L ε W ι K ρ} (hth : c.threads[i]? = some th) :
    c.goto i th = c := by
  obtain ⟨hi, rfl⟩ := List.getElem?_eq_some_iff.mp hth
  simp [Config.goto]

omit [DecidableEq κ] in
theorem goto_goto (th th' : Thread Q L ε W ι K ρ) : (c.goto i th).goto i th' = c.goto i th' := by
  simp [Config.goto]

omit [DecidableEq κ] in
theorem goto_ended (th : Thread Q L ε W ι K ρ) :
    (c.goto i th).ended i call pool k o = c.ended i call pool k o := by
  rcases o with e | ⟨a, s'⟩
  · exact goto_goto ..
  · simp [Config.goto, Config.ended]

omit [DecidableEq κ] in
theorem goto_thread {th : Thread Q L ε W ι K ρ} (hth : c.threads[i]? = some th)
    (th' : Thread Q L ε W ι K ρ) : (c.goto i th').threads[i]? = some th' :=
  List.getElem?_set_self (List.getElem?_eq_some_iff.mp hth).1

/-- The keys of a thread are free while no other thread is in a transaction. -/
theorem othersFree_alone {f : List (Event Q W) → List κ} (hf : f [] = [])
    (halone : ∀ j th, c.threads[j]? = some th → j ≠ i → th.code.history = []) (xs : List κ) :
    c.othersFree f i xs = true := by
  refine Config.othersFree_iff.mpr fun j th hth hj => ?_
  rw [halone j th hth hj, hf]
  exact List.disjoint_nil_left xs

omit [DecidableEq κ] in
/-- A choice for the store that a thread in a transaction sees. -/
theorem allowed_of_opened (hth : c.threads[i]? = some ⟨call, pool, .opened l h t k⟩) {ch : C}
    (hch : ok (sys.applyAll (writes h) c.store) ch) : ∀ th, c.threads[i]? = some th →
      ok (sys.applyAll (writes th.code.history) c.store) ch := by
  intro th hth'
  obtain rfl := Option.some.inj (hth.symm.trans hth')
  exact hch

/-- A transaction ends in a schedule as it ends on the store. -/
theorem Ends.solo (hchoice : ∀ s, ∃ ch, ok s ch)
    (halone : ∀ j th, c.threads[j]? = some th → j ≠ i → th.code.history = [])
    (hth : c.threads[i]? = some ⟨call, pool, .opened l h t k⟩)
    (ho : Ends sys.toDatabase ok t (sys.applyAll (writes h) c.store) o) :
    Solo sys ok i c (c.ended i call pool k o) := by
  generalize hs : sys.applyAll (writes h) c.store = s at ho
  induction ho generalizing c h with
  | pure =>
      obtain ⟨ch, hch⟩ := hchoice (sys.applyAll (writes h) c.store)
      refine .single ⟨ch, allowed_of_opened hth hch, ?_⟩
      simp [step_commit hth, Config.ended, hs]
  | throw =>
      obtain ⟨ch, hch⟩ := hchoice (sys.applyAll (writes h) c.store)
      refine .single ⟨ch, allowed_of_opened hth hch, ?_⟩
      simp [System.step, System.advance, hth, Config.ended]
  | failed hok hexec =>
      subst hs
      refine .single ⟨_, allowed_of_opened hth hok, ?_⟩
      simp [System.step, System.advance, hth, hexec, Config.ended]
  | @query _ q k' _ ch r ws o hok hexec _ ih =>
      subst hs
      have hfree := othersFree_alone (f := fun h => sys.locksOf (writes h)) rfl halone
        (sys.locksOf ws)
      have hstep : sys.step c (.advance i ch) =
          some (c.goto i ⟨call, pool, .opened l (h ++ [⟨q, r, ws⟩]) (k' r) k⟩) := by
        simp [System.step, System.advance, hth, hexec, hfree]
      refine .head ⟨ch, allowed_of_opened hth hok, hstep⟩ ?_
      rw [← goto_ended (c := c) ⟨call, pool, .opened l (h ++ [⟨q, r, ws⟩]) (k' r) k⟩]
      refine ih (fun j th hj hne => ?_) (goto_thread hth _) ?_
      · rw [Config.goto, List.getElem?_set_ne (Ne.symm hne)] at hj
        exact halone j th hj hne
      · simp [Config.goto, Database.applyAll_append]

/-- One step of a thread that is alone in its transaction. -/
theorem solo_step (hth : c.threads[i]? = some ⟨call, pool, .opened l h t k⟩) {ch : C}
    (hch : ok (sys.applyAll (writes h) c.store) ch)
    (hstep : sys.step c (.advance i ch) = some c') :
    (∃ h' t', c' = c.goto i ⟨call, pool, .opened l h' t' k⟩ ∧
      ∀ o, Ends sys.toDatabase ok t' (sys.applyAll (writes h') c.store) o →
        Ends sys.toDatabase ok t (sys.applyAll (writes h) c.store) o) ∨
    ∃ o, Ends sys.toDatabase ok t (sys.applyAll (writes h) c.store) o ∧
      c' = c.ended i call pool k o := by
  cases t with
  | pure a =>
      rw [step_commit hth] at hstep
      exact Or.inr ⟨_, .pure, (Option.some.inj hstep).symm⟩
  | throw e =>
      simp only [System.step, hth, Option.bind_some, System.advance, Option.some.injEq] at hstep
      exact Or.inr ⟨_, .throw, hstep.symm⟩
  | query q k' =>
      simp only [System.step, hth, Option.bind_some, System.advance] at hstep
      split at hstep
      · rename_i e hexec
        exact Or.inr ⟨_, .failed hch hexec, (Option.some.inj hstep).symm⟩
      · rename_i r ws hexec
        split at hstep
        · refine Or.inl ⟨_, _, (Option.some.inj hstep).symm, fun o ho => ?_⟩
          refine .query hch hexec ?_
          simpa [Database.applyAll_append] using ho
        · cases hstep

/-- A thread alone is in its transaction, or the transaction ended as it ends on the store. -/
theorem solo_ends (hth : c.threads[i]? = some ⟨call, pool, .opened l h t k⟩)
    (hrun : Solo sys ok i c c') :
    (∃ h' t', c' = c.goto i ⟨call, pool, .opened l h' t' k⟩ ∧
      ∀ o, Ends sys.toDatabase ok t' (sys.applyAll (writes h') c.store) o →
        Ends sys.toDatabase ok t (sys.applyAll (writes h) c.store) o) ∨
    ∃ o, Ends sys.toDatabase ok t (sys.applyAll (writes h) c.store) o ∧
      Solo sys ok i (c.ended i call pool k o) c' := by
  induction hrun with
  | refl => exact Or.inl ⟨h, t, (goto_self hth).symm, fun _ ho => ho⟩
  | tail _ hstep ih =>
      obtain ⟨ch, hch, hstep⟩ := hstep
      rcases ih with ⟨h₁, t₁, rfl, hback⟩ | ⟨o, ho, hrest⟩
      · rcases solo_step (goto_thread hth _) (hch _ (goto_thread hth _)) hstep with
          ⟨h₂, t₂, rfl, hback'⟩ | ⟨o, ho, rfl⟩
        · exact Or.inl ⟨h₂, t₂, goto_goto .., fun o ho => hback o (hback' o ho)⟩
        · exact Or.inr ⟨o, hback o ho, by rw [goto_ended]; exact .refl⟩
      · exact Or.inr ⟨o, ho, hrest.tail ⟨ch, hch, hstep⟩⟩

end Solo

end Txn
