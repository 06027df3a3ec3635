import LedgerCredit.Txn.Alone

/-!
# Threads among others as if alone

While nobody else commits, a thread sees what it would see alone.
`Code.AloneFrom` says of a thread that whatever it can still do, its process can do
alone from the beginning.  The thread keeps this with every step it makes on the
store it left (`AloneFrom.statement` and the lemmas around it), so an error that it
meets among others is one that it can meet alone.

The choices are restricted as in `Ends`: `StepsChoosing` is the runs in which every
choice is allowed on the store that its statement sees.
-/

namespace Txn

variable {Q : Type → Type} {L : Type → Type 1} {ε S W C κ ι K ρ α β : Type}

/-! ## Runs with restricted choices -/

section Choosing

variable (sys : System Q L ε S W C κ ι K ρ) (ok : Config Q L ε S W ι K ρ → Action C K → Bool)
  (choice : S → C → Prop)

/-- The choice of a step is allowed on the store that the thread sees. -/
def Chooses (c : Config Q L ε S W ι K ρ) : Action C K → Prop
  | .advance i ch => ∀ th, c.threads[i]? = some th →
      choice (sys.applyAll (writes th.code.history) c.store) ch
  | _ => True

variable [DecidableEq κ]

/-- The runs whose actions and choices are all allowed. -/
def StepsChoosing : Config Q L ε S W ι K ρ → Config Q L ε S W ι K ρ → Prop :=
  Relation.ReflTransGen fun c c' =>
    ∃ a, ok c a = true ∧ Chooses sys choice c a ∧ sys.step c a = some c'

variable {sys ok choice} {c c' : Config Q L ε S W ι K ρ}

theorem StepsChoosing.steps (h : StepsChoosing sys ok choice c c') : Steps sys ok c c' :=
  Relation.ReflTransGen.mono (fun _ _ ⟨a, hok, _, hstep⟩ => ⟨a, hok, hstep⟩) _ _ h

end Choosing

/-! ## Alone from the beginning -/

section Alone

variable {sys : System Q L ε S W C κ ι K ρ} {choice : S → C → Prop} {p₀ : Proc L ε ι ρ} {s₀ s : S}

/-- Whatever the code can do on the store `s`, the process `p₀` can do alone on `s₀`. -/
def Code.AloneFrom (sys : System Q L ε S W C κ ι K ρ) (choice : S → C → Prop) (p₀ : Proc L ε ι ρ)
    (s₀ s : S) : Code Q L ε W ι ρ → Prop
  | .run p => ∀ o, Finishes sys choice p s o → Finishes sys choice p₀ s₀ o
  | .opened l h t k =>
      (∀ o, Ends sys.toDatabase choice t (sys.applyAll (writes h) s) o →
        Ends sys.toDatabase choice (sys.body l) s o) ∧
      ∀ o, Finishes sys choice (.call l k) s o → Finishes sys choice p₀ s₀ o
  | .await _ _ => False

namespace Code.AloneFrom

variable {l : L β} {h : List (Event Q W)} {t : Tx Q ε β} {k : Except ε β → Proc L ε ι ρ}

theorem start : (Code.run p₀ : Code Q L ε W ι ρ).AloneFrom sys choice p₀ s₀ s₀ := fun _ h => h

theorem opened (hal : (Code.run (.call l k) : Code Q L ε W ι ρ).AloneFrom sys choice p₀ s₀ s) :
    (Code.opened l [] (sys.body l) k : Code Q L ε W ι ρ).AloneFrom sys choice p₀ s₀ s :=
  ⟨fun _ ho => ho, hal⟩

theorem statement {q : Q α} {k' : α → Tx Q ε β} {ch : C} {r : α} {ws : List W}
    (hal : (Code.opened l h (.query q k') k).AloneFrom sys choice p₀ s₀ s)
    (hch : choice (sys.applyAll (writes h) s) ch)
    (hexec : sys.exec q ch (sys.applyAll (writes h) s) = .ok (r, ws)) :
    (Code.opened l (h ++ [⟨q, r, ws⟩]) (k' r) k).AloneFrom sys choice p₀ s₀ s := by
  refine ⟨fun o ho => hal.1 o (.query hch hexec ?_), hal.2⟩
  simpa [Database.applyAll_append] using ho

/-- The transaction ends with an error. -/
theorem rollback {e : ε} (hal : (Code.opened l h t k).AloneFrom sys choice p₀ s₀ s)
    (hends : Ends sys.toDatabase choice t (sys.applyAll (writes h) s) (.error e)) :
    (Code.run (k (.error e)) : Code Q L ε W ι ρ).AloneFrom sys choice p₀ s₀ s :=
  fun o ho => hal.2 o (.error (hal.1 _ hends) ho)

/-- The result of the transaction, which it can have alone too. -/
theorem ends {a : β} (hal : (Code.opened l h (.pure a) k).AloneFrom sys choice p₀ s₀ s) :
    Ends sys.toDatabase choice (sys.body l) s (.ok (a, sys.applyAll (writes h) s)) :=
  hal.1 _ .pure

theorem commit {a : β} (hal : (Code.opened l h (.pure a) k).AloneFrom sys choice p₀ s₀ s) :
    (Code.run (k (.ok a)) : Code Q L ε W ι ρ).AloneFrom sys choice p₀ s₀
      (sys.applyAll (writes h) s) :=
  fun o ho => hal.2 o (.result hal.ends ho)

/-- An error that ends the thread is one that it can meet alone. -/
theorem throws {e : ε} (hal : (Code.run (.throw e) : Code Q L ε W ι ρ).AloneFrom sys choice p₀ s₀ s) :
    Finishes sys choice p₀ s₀ (.error e) := hal _ .throw

end Code.AloneFrom

/-- A failure of a step is an error of the transaction alone. -/
theorem ends_of_fails {c : Config Q L ε S W ι K ρ} {i : Nat} {call : K} {pool : Option Nat}
    {l : L β} {h : List (Event Q W)} {t : Tx Q ε β} {k : Except ε β → Proc L ε ι ρ} {ch : C} {e : ε}
    (hth : c.threads[i]? = some ⟨call, pool, .opened l h t k⟩)
    (hch : Chooses sys choice c (.advance i ch : Action C K))
    (hfails : Fails sys c i h t (.advance i ch) e) :
    Ends sys.toDatabase choice t (sys.applyAll (writes h) c.store) (.error e) := by
  cases hfails with
  | throw ht => exact ht ▸ .throw
  | statement ht hexec => exact ht ▸ .failed (hch _ hth) hexec

end Alone

theorem Fails.actor {c : Config Q L ε S W ι K ρ} {i j : Nat} {h : List (Event Q W)} {t : Tx Q ε β}
    {ch : C} {e : ε} (hfails : Fails sys c i h t (.advance j ch) e) : i = j := by
  cases hfails with
  | throw _ => rfl
  | statement _ _ => rfl

/-! ## What a process returns -/

/-- The process returns with `A` if it returns, and forks no pool. -/
def Proc.Yields (A : α → Prop) : Proc L ε ι α → Prop
  | .pure a => A a
  | .throw _ => True
  | .call _ k => ∀ r, (k r).Yields A
  | .all .. => False

theorem Proc.Yields.bind {A : α → Prop} {B : β → Prop} {p : Proc L ε ι α} {f : α → Proc L ε ι β}
    (hp : p.Yields A) (hf : ∀ a, A a → (f a).Yields B) : (p >>= f).Yields B := by
  induction p with
  | pure a => exact hf a hp
  | throw e => trivial
  | call l k ih => exact fun r => ih r (hp r) hf
  | all n ids body k _ _ => exact False.elim hp

theorem Proc.Yields.transaction {l : L α} : (Proc.transaction l : Proc L ε ι α).Yields fun _ => True := by
  intro r
  cases r with
  | error e => trivial
  | ok a => trivial

/-- What is left of a thread returns with `A`. -/
def Code.Yields (A : ρ → Prop) : Code Q L ε W ι ρ → Prop
  | .run p => p.Yields A
  | .opened _ _ _ k => ∀ r, (k r).Yields A
  | .await _ _ => False

/-! ## Steps of one thread -/

section Step

variable [DecidableEq κ] {sys : System Q L ε S W C κ ι K ρ} {choice : S → C → Prop}
  {c c' : Config Q L ε S W ι K ρ} {i : Nat} {ch : C} {th : Thread Q L ε W ι K ρ}

omit [DecidableEq κ] in
/-- Thread `i` goes on as `th`, and the store becomes `s`. -/
def Config.put (c : Config Q L ε S W ι K ρ) (i : Nat) (th : Thread Q L ε W ι K ρ) (s : S) :
    Config Q L ε S W ι K ρ := { c with store := s, threads := c.threads.set i th }

/-- A call that keeps what it can do alone with its own steps.  It is no worker. -/
structure Thread.Lone (sys : System Q L ε S W C κ ι K ρ) (choice : S → C → Prop) (s₀ : S)
    (A : ρ → Prop) (s : S) (th : Thread Q L ε W ι K ρ) : Prop where
  pool : th.pool = none
  alone : th.code.AloneFrom sys choice (sys.program th.call) s₀ s
  yields : th.code.Yields A

theorem Thread.Lone.advance {s₀ : S} {A : ρ → Prop} (hl : th.Lone sys choice s₀ A c.store)
    (hth : c.threads[i]? = some th) (hch : Chooses sys choice c (.advance i ch : Action C K))
    (hstep : sys.step c (.advance i ch) = some c') : ∃ th' s', c' = c.put i th' s' ∧
      th'.call = th.call ∧ th'.Lone sys choice s₀ A s' := by
  obtain ⟨hpool, hal, hy⟩ := hl
  cases step_cases hstep with
  | begin h =>
      obtain rfl := Option.some.inj (hth.symm.trans h)
      exact ⟨_, _, rfl, rfl, hpool, hal.opened, hy⟩
  | statement h hexec _ =>
      obtain rfl := Option.some.inj (hth.symm.trans h)
      exact ⟨_, _, rfl, rfl, hpool, hal.statement (hch _ hth) hexec, hy⟩
  | rollback h hfails =>
      obtain rfl := hfails.actor
      obtain rfl := Option.some.inj (hth.symm.trans h)
      exact ⟨_, _, rfl, rfl, hpool, hal.rollback (ends_of_fails hth hch hfails), hy _⟩
  | commit h =>
      obtain rfl := Option.some.inj (hth.symm.trans h)
      exact ⟨_, _, rfl, rfl, hpool, hal.commit, hy _⟩
  | fork h =>
      obtain rfl := Option.some.inj (hth.symm.trans h)
      exact hy.elim
  | take h _ =>
      obtain rfl := Option.some.inj (hth.symm.trans h)
      cases hpool
  | resume h _ =>
      obtain rfl := Option.some.inj (hth.symm.trans h)
      exact hy.elim

end Step

/-! ## Choices that the store settles -/

section Picked

/-- The choice is the one that the store settles. -/
def Picked (pick : S → C) (s : S) (ch : C) : Prop := ch = pick s

/-- How the transaction ends. -/
def Tx.eval (db : Database Q ε S W C κ) (pick : S → C) : Tx Q ε α → S → Except ε (α × S)
  | .pure a, s => .ok (a, s)
  | .throw e, _ => .error e
  | .query q k, s =>
      match db.exec q (pick s) s with
      | .error e => .error e
      | .ok (r, ws) => (k r).eval db pick (db.applyAll ws s)

theorem Ends.eval {db : Database Q ε S W C κ} {pick : S → C} {t : Tx Q ε α} {s : S}
    {o : Except ε (α × S)} (h : Ends db (Picked pick) t s o) : t.eval db pick s = o := by
  induction h with
  | pure => rfl
  | throw => rfl
  | failed hch hexec =>
      obtain rfl := hch
      simp only [Tx.eval, hexec]
  | query hch hexec _ ih =>
      obtain rfl := hch
      simp only [Tx.eval, hexec]
      exact ih

/-- How the process finishes, if it forks no pool. -/
def Proc.eval (sys : System Q L ε S W C κ ι K ρ) (pick : S → C) :
    Proc L ε ι α → S → Option (Except ε (α × S))
  | .pure a, s => some (.ok (a, s))
  | .throw e, _ => some (.error e)
  | .call l k, s =>
      match (sys.body l).eval sys.toDatabase pick s with
      | .error e => (k (.error e)).eval sys pick s
      | .ok (b, s') => (k (.ok b)).eval sys pick s'
  | .all .., _ => none

theorem Finishes.eval {sys : System Q L ε S W C κ ι K ρ} {pick : S → C} {p : Proc L ε ι α} {s : S}
    {o : Except ε (α × S)} (h : Finishes sys (Picked pick) p s o) : p.eval sys pick s = some o := by
  induction h with
  | pure => rfl
  | throw => rfl
  | result hends _ ih =>
      simp only [Proc.eval, hends.eval]
      exact ih
  | error hends _ ih =>
      simp only [Proc.eval, hends.eval]
      exact ih

theorem ends_of_eval {db : Database Q ε S W C κ} {ok : S → C → Prop} {pick : S → C}
    (hok : ∀ s, ok s (pick s)) {t : Tx Q ε α} {s : S} : Ends db ok t s (t.eval db pick s) := by
  induction t generalizing s with
  | pure a => exact .pure
  | throw e => exact .throw
  | query q k ih =>
      cases hexec : db.exec q (pick s) s with
      | error e =>
          simp only [Tx.eval, hexec]
          exact .failed (hok s) hexec
      | ok x =>
          simp only [Tx.eval, hexec]
          exact .query (hok s) hexec (ih x.1)

/-- A process finishes as it is evaluated. -/
theorem finishes_of_eval {sys : System Q L ε S W C κ ι K ρ} {ok : S → C → Prop} (pick : S → C)
    (hok : ∀ s, ok s (pick s)) {p : Proc L ε ι α} {s : S} {o : Except ε (α × S)}
    (h : p.eval sys pick s = some o) : Finishes sys ok p s o := by
  induction p generalizing s with
  | pure a => cases h; exact .pure
  | throw e => cases h; exact .throw
  | call l k ih =>
      have hends : Ends sys.toDatabase ok (sys.body l) s ((sys.body l).eval sys.toDatabase pick s) :=
        ends_of_eval hok
      cases heval : (sys.body l).eval sys.toDatabase pick s with
      | error e =>
          simp only [Proc.eval, heval] at h
          exact .error (heval ▸ hends) (ih _ h)
      | ok x =>
          simp only [Proc.eval, heval] at h
          exact .result (heval ▸ hends) (ih _ h)
  | all n ids body k _ _ => cases h

/-- A process that returns when it is evaluated does not fail. -/
theorem not_finishes_of_eval {sys : System Q L ε S W C κ ι K ρ} {pick : S → C} {p : Proc L ε ι α}
    {s : S} (h : (p.eval sys pick s).any Except.isOk = true) (e : ε) :
    ¬ Finishes sys (Picked pick) p s (.error e) := by
  intro hfin
  rw [hfin.eval] at h
  cases h

variable [DecidableEq κ] (sys : System Q L ε S W C κ ι K ρ) (pick : S → C)

omit [DecidableEq κ] in
/-- The action with the choice that is settled by the store which the thread sees. -/
def System.settle (c : Config Q L ε S W ι K ρ) : Action Unit K → Action C K
  | .start call => .start call
  | .advance i _ => .advance i (pick (sys.applyAll
      (((c.threads[i]?.map fun th => writes th.code.history)).getD []) c.store))
  | .abort i => .abort i
  | .crash => .crash

/-- Play a list of actions with the choices that the stores settle. -/
def System.playPicked (ok : Config Q L ε S W ι K ρ → Action C K → Bool) :
    Config Q L ε S W ι K ρ → List (Action Unit K) → Option (Config Q L ε S W ι K ρ)
  | c, [] => some c
  | c, a :: as =>
      if ok c (sys.settle pick c a) then
        (sys.step c (sys.settle pick c a)).bind fun c' => playPicked ok c' as
      else none

omit [DecidableEq κ] in
theorem chooses_settle (c : Config Q L ε S W ι K ρ) (a : Action Unit K) :
    Chooses sys (Picked pick) c (sys.settle pick c a) := by
  cases a with
  | advance i ch =>
      intro th hth
      simp [Picked, hth]
  | _ => trivial

theorem steps_of_playPicked {ok : Config Q L ε S W ι K ρ → Action C K → Bool}
    {as : List (Action Unit K)} {c c' : Config Q L ε S W ι K ρ}
    (h : sys.playPicked pick ok c as = some c') : StepsChoosing sys ok (Picked pick) c c' := by
  induction as generalizing c with
  | nil => cases h; exact .refl
  | cons a as ih =>
      simp only [System.playPicked] at h
      split at h
      · rename_i hok
        obtain ⟨c₁, hstep, hrest⟩ := Option.bind_eq_some_iff.mp h
        exact .head ⟨_, hok, chooses_settle sys pick c a, hstep⟩ (ih hrest)
      · cases h

/-- Playing actions finds a run to a configuration with a property. -/
theorem exists_of_playPicked (ok : Config Q L ε S W ι K ρ → Action C K → Bool)
    (c : Config Q L ε S W ι K ρ) (as : List (Action Unit K)) (P : Config Q L ε S W ι K ρ → Prop)
    [DecidablePred P]
    (h : (sys.playPicked pick ok c as).any (fun c' => decide (P c')) = true) :
    ∃ c', StepsChoosing sys ok (Picked pick) c c' ∧ P c' := by
  cases hplay : sys.playPicked pick ok c as with
  | none => simp [hplay] at h
  | some c' => exact ⟨c', steps_of_playPicked sys pick hplay, by simpa [hplay] using h⟩

end Picked

end Txn
