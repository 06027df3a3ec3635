import Mathlib.Data.List.Basic
import Mathlib.Logic.Relation

/-!
# Async workers

Loops of async functions run on one event loop.  The workers share a state.  From
the head of its loop a worker runs to the next `await`, where it waits for the
promise of an item, or to its return.  Nothing else runs in between, so this part
of the code is a function of the shared state, the `turn`.

*Events.*  The promise of an item settles at any time.  If it was resolved, its
worker goes on at some later time, with its next turn.  If it was rejected, the
worker fails.

*Draining.*  A turn that takes the items of a queue in order (`Drains`) makes the
workers a pool.  `Work` is what such a pool is for: it starts the items in order and
has at most `limit` of them in flight.  `step_refines` says that every event is at
most one step of it.
-/

namespace Async

variable {σ τ : Type}

/-! ## Workers -/

/-- Where a worker is. -/
inductive Worker (τ : Type) where
  /-- It waits for the promise of an item. -/
  | pending (x : τ)
  /-- The promise was resolved, and the worker has not gone on yet. -/
  | resolved (x : τ)
  /-- The promise was rejected. -/
  | failed (x : τ)
  | returned
  deriving DecidableEq, Repr

def Worker.isPending : Worker τ → Bool
  | .pending _ => true
  | _ => false

/-- The worker after a turn that reached the promise of an item, or the return. -/
def Worker.after : Option τ → Worker τ
  | some x => .pending x
  | none => .returned

/-- The shared state, the workers, and the items whose promises were made, in order. -/
structure Workers (σ τ : Type) where
  shared : σ
  workers : List (Worker τ)
  started : List τ
  deriving DecidableEq, Repr

inductive Event where
  | resolve (i : Nat)
  | reject (i : Nat)
  | resume (i : Nat)
  deriving DecidableEq, Repr

def Event.rejects : Event → Bool
  | .reject _ => true
  | _ => false

namespace Workers

/-- The items in flight. -/
def inFlight (p : Workers σ τ) : Nat := p.workers.countP Worker.isPending

/-- One turn, of the worker that `place` puts among the others. -/
def turned (turn : σ → σ × Option τ) (p : Workers σ τ) (place : Worker τ → List (Worker τ)) :
    Workers σ τ where
  shared := (turn p.shared).1
  workers := place (.after (turn p.shared).2)
  started := p.started ++ (turn p.shared).2.toList

/-- A new worker runs its first turn. -/
def launch (turn : σ → σ × Option τ) (p : Workers σ τ) : Workers σ τ :=
  p.turned turn fun w => p.workers ++ [w]

/-- `n` workers are launched, one after the other. -/
def launched (turn : σ → σ × Option τ) (s : σ) : Nat → Workers σ τ
  | 0 => ⟨s, [], []⟩
  | n + 1 => (launched turn s n).launch turn

/-- What an event does, if it can happen. -/
def step (turn : σ → σ × Option τ) (p : Workers σ τ) : Event → Option (Workers σ τ)
  | .resolve i =>
      match p.workers[i]? with
      | some (.pending x) => some { p with workers := p.workers.set i (.resolved x) }
      | _ => none
  | .reject i =>
      match p.workers[i]? with
      | some (.pending x) => some { p with workers := p.workers.set i (.failed x) }
      | _ => none
  | .resume i =>
      match p.workers[i]? with
      | some (.resolved _) => some (p.turned turn fun w => p.workers.set i w)
      | _ => none

/-- The events of a list, one after the other. -/
def run (turn : σ → σ × Option τ) (p : Workers σ τ) : List Event → Option (Workers σ τ)
  | [] => some p
  | e :: es => (p.step turn e).bind fun p' => p'.run turn es

/-- No event can happen any more. -/
def Quiet (turn : σ → σ × Option τ) (p : Workers σ τ) : Prop := ∀ e, p.step turn e = none

end Workers

/-- What an event does, case by case. -/
inductive Workers.Step (turn : σ → σ × Option τ) (p : Workers σ τ) :
    Event → Workers σ τ → Prop where
  | resolve {i : Nat} {x : τ} : p.workers[i]? = some (.pending x) →
      Step turn p (.resolve i) { p with workers := p.workers.set i (.resolved x) }
  | reject {i : Nat} {x : τ} : p.workers[i]? = some (.pending x) →
      Step turn p (.reject i) { p with workers := p.workers.set i (.failed x) }
  | resume {i : Nat} {x : τ} : p.workers[i]? = some (.resolved x) →
      Step turn p (.resume i) (p.turned turn fun w => p.workers.set i w)

theorem step_cases {turn : σ → σ × Option τ} {p p' : Workers σ τ} {e : Event}
    (h : p.step turn e = some p') : Workers.Step turn p e p' := by
  cases e with
  | resolve i =>
      simp only [Workers.step] at h
      split at h
      · rename_i hw
        cases h
        exact .resolve hw
      · cases h
  | reject i =>
      simp only [Workers.step] at h
      split at h
      · rename_i hw
        cases h
        exact .reject hw
      · cases h
  | resume i =>
      simp only [Workers.step] at h
      split at h
      · rename_i hw
        cases h
        exact .resume hw
      · cases h

/-! ## Work -/

/-- Items that wait, the number of items in flight, and the items that were started. -/
structure Work (τ : Type) where
  waiting : List τ
  busy : Nat
  started : List τ

/-- All of the items wait. -/
def Work.all (items : List τ) : Work τ := ⟨items, 0, []⟩

/-- The work on what is read off the items. -/
def Work.map {υ : Type} (f : τ → υ) (w : Work τ) : Work υ :=
  ⟨w.waiting.map f, w.busy, w.started.map f⟩

/-- The first item that waits is started if there is room, or an item in flight ends. -/
inductive Work.Step (limit : Nat) : Work τ → Work τ → Prop where
  | start {x : τ} {rest started : List τ} {busy : Nat} : busy < limit →
      Step limit ⟨x :: rest, busy, started⟩ ⟨rest, busy + 1, started ++ [x]⟩
  | finish {waiting started : List τ} {busy : Nat} :
      Step limit ⟨waiting, busy + 1, started⟩ ⟨waiting, busy, started⟩

/-- The items are started in order, and at most `limit` of them are in flight. -/
structure Work.Orderly (limit : Nat) (items : List τ) (w : Work τ) : Prop where
  order : w.started ++ w.waiting = items
  room : w.busy ≤ limit

theorem Work.Step.orderly {limit : Nat} {items : List τ} {w w' : Work τ} (h : Step limit w w')
    (hw : w.Orderly limit items) : w'.Orderly limit items := by
  obtain ⟨horder, hroom⟩ := hw
  cases h with
  | start hbusy => exact ⟨by simpa using horder, hbusy⟩
  | finish => exact ⟨horder, Nat.le_of_succ_le hroom⟩

theorem Work.Step.map {υ : Type} (f : τ → υ) {limit : Nat} {w w' : Work τ} (h : Step limit w w') :
    Step limit (w.map f) (w'.map f) := by
  cases h with
  | start hbusy => simpa [Work.map] using Step.start hbusy
  | finish => exact .finish

theorem Work.orderly_all (limit : Nat) (items : List τ) : (Work.all items).Orderly limit items :=
  ⟨rfl, Nat.zero_le _⟩

/-- How many items were started says which ones, and which ones wait. -/
theorem Work.Orderly.eq {limit limit' : Nat} {items : List τ} {w w' : Work τ} (h : w.Orderly limit items)
    (h' : w'.Orderly limit' items) (hlength : w.started.length = w'.started.length) :
    w.started = w'.started ∧ w.waiting = w'.waiting :=
  List.append_inj (h.order.trans h'.order.symm) hlength

theorem Work.orderly_of_steps {limit : Nat} {items : List τ} {w w' : Work τ}
    (h : Relation.ReflTransGen (Step limit) w w') (hw : w.Orderly limit items) :
    w'.Orderly limit items := by
  induction h with
  | refl => exact hw
  | tail _ hstep ih => exact hstep.orderly ih

/-! ## Draining a queue -/

/-- A turn takes the first item of the queue, or returns if there is none. -/
structure Drains (turn : σ → σ × Option τ) (queue : σ → List τ) : Prop where
  take : ∀ s x, (turn s).2 = some x → queue s = x :: queue (turn s).1
  stop : ∀ s, (turn s).2 = none → queue s = [] ∧ queue (turn s).1 = []

/-- The pool as work. -/
def Workers.work (queue : σ → List τ) (p : Workers σ τ) : Work τ :=
  ⟨queue p.shared, p.inFlight, p.started⟩

/-- A worker that returned left nothing in the queue. -/
def Workers.Drained (queue : σ → List τ) (p : Workers σ τ) : Prop :=
  .returned ∈ p.workers → queue p.shared = []

section Drains

variable {turn : σ → σ × Option τ} {queue : σ → List τ} {p p' : Workers σ τ} {e : Event}
  {i : Nat} {w w' : Worker τ}

/-- How many elements of a list have a property after one of them moved. -/
theorem countP_moved {α : Type*} {l : List α} {a b : α} (q : α → Bool) (ha : l[i]? = some a) :
    (l.set i b).countP q + (q a).toNat = l.countP q + (q b).toNat := by
  obtain ⟨hi, rfl⟩ := List.getElem?_eq_some_iff.mp ha
  have hle : (q l[i]).toNat ≤ l.countP q := by
    cases hp : q l[i] with
    | false => exact Nat.zero_le _
    | true => exact List.countP_pos_iff.mpr ⟨_, List.getElem_mem hi, hp⟩
  rw [List.countP_set hi]
  cases hp : q l[i] <;> cases q b <;>
    simp only [hp, Bool.toNat_true, Bool.toNat_false] at hle ⊢ <;> simp <;> omega

/-- A worker that is not pending leaves room. -/
theorem inFlight_lt (hw : p.workers[i]? = some w) (hp : w.isPending = false) :
    p.inFlight < p.workers.length := by
  obtain ⟨hi, rfl⟩ := List.getElem?_eq_some_iff.mp hw
  refine Nat.lt_of_le_of_ne List.countP_le_length fun heq => ?_
  have hall := List.countP_eq_length.mp heq _ (List.getElem_mem hi)
  rw [hp] at hall
  cases hall

theorem isPending_after (o : Option τ) : (Worker.after o).isPending = o.isSome := by
  cases o <;> rfl

/-- A turn starts the next item, or finds the queue empty. -/
theorem turned_refines (hd : Drains turn queue) {place : Worker τ → List (Worker τ)} {limit : Nat}
    (hplace : ∀ w, (place w).countP Worker.isPending = p.inFlight + w.isPending.toNat)
    (hroom : p.inFlight < limit) :
    Relation.ReflTransGen (Work.Step limit) (p.work queue) ((p.turned turn place).work queue) := by
  have hcount := hplace (.after (turn p.shared).2)
  rw [isPending_after] at hcount
  cases hturn : (turn p.shared).2 with
  | none =>
      obtain ⟨hempty, hempty'⟩ := hd.stop _ hturn
      rw [hturn] at hcount
      have hsame : (p.turned turn place).work queue = p.work queue := by
        simp [Workers.work, Workers.turned, Workers.inFlight, hempty, hempty', hturn, hcount]
      rw [hsame]
  | some x =>
      rw [hturn] at hcount
      have hwork : p.work queue = ⟨x :: queue (turn p.shared).1, p.inFlight, p.started⟩ := by
        rw [Workers.work, hd.take _ _ hturn]
      have hwork' : (p.turned turn place).work queue =
          ⟨queue (turn p.shared).1, p.inFlight + 1, p.started ++ [x]⟩ := by
        simpa [Workers.work, Workers.turned, Workers.inFlight, hturn] using hcount
      rw [hwork, hwork']
      exact .single (.start hroom)

/-- Every event is at most one step of the work. -/
theorem step_refines (hd : Drains turn queue) (h : p.step turn e = some p') :
    Relation.ReflTransGen (Work.Step p.workers.length) (p.work queue) (p'.work queue) := by
  -- a promise that settles ends an item
  have hsettled : ∀ {i x w}, p.workers[i]? = some (.pending x) → w.isPending = false →
      Relation.ReflTransGen (Work.Step p.workers.length) (p.work queue)
        (Workers.work queue { p with workers := p.workers.set i w }) := by
    intro i x w hw hpending
    have hcount : p.inFlight = (p.workers.set i w).countP Worker.isPending + 1 := by
      have hmoved : _ = p.inFlight + w.isPending.toNat := countP_moved Worker.isPending hw
      rw [hpending] at hmoved
      exact hmoved.symm
    rw [Workers.work, hcount]
    exact .single .finish
  cases step_cases h with
  | resolve hw => exact hsettled hw rfl
  | reject hw => exact hsettled hw rfl
  | resume hw =>
      exact turned_refines hd (fun w => countP_moved Worker.isPending hw) (inFlight_lt hw rfl)

theorem length_step (h : p.step turn e = some p') : p'.workers.length = p.workers.length := by
  cases step_cases h <;> simp [Workers.turned]

theorem turned_drained (hd : Drains turn queue) {place : Worker τ → List (Worker τ)}
    (hplace : ∀ w, .returned ∈ place w → w = .returned ∨ .returned ∈ p.workers)
    (hp : p.Drained queue) : (p.turned turn place).Drained queue := by
  intro hmem
  show queue (turn p.shared).1 = []
  cases hturn : (turn p.shared).2 with
  | none => exact (hd.stop _ hturn).2
  | some x =>
      have hempty : queue p.shared = [] := by
        refine hp ((hplace _ hmem).resolve_left ?_)
        rw [hturn]
        intro heq
        cases heq
      rw [hd.take _ _ hturn] at hempty
      cases hempty

theorem step_drained (hd : Drains turn queue) (h : p.step turn e = some p')
    (hp : p.Drained queue) : p'.Drained queue := by
  cases step_cases h with
  | resolve hw => exact fun hmem => hp ((List.mem_or_eq_of_mem_set hmem).resolve_right (by simp))
  | reject hw => exact fun hmem => hp ((List.mem_or_eq_of_mem_set hmem).resolve_right (by simp))
  | resume hw =>
      refine turned_drained hd (fun w hmem => ?_) hp
      exact (List.mem_or_eq_of_mem_set hmem).symm.imp_left Eq.symm

/-! ## The end -/

def Worker.isResolved : Worker τ → Bool
  | .resolved _ => true
  | _ => false

/-- How many events are left, at most: two for each item that waits. -/
def Workers.debt (queue : σ → List τ) (p : Workers σ τ) : Nat :=
  2 * (queue p.shared).length + 2 * p.inFlight + p.workers.countP Worker.isResolved

/-- What a turn does to the queue and to the items in flight. -/
theorem queue_turned (hd : Drains turn queue) (s : σ) :
    (queue (turn s).1).length + (Worker.after (turn s).2).isPending.toNat =
      (queue s).length := by
  cases hturn : (turn s).2 with
  | none => simp [hd.stop _ hturn, Worker.after, Worker.isPending]
  | some x => simp [hd.take _ _ hturn, Worker.after, Worker.isPending]

/-- Every event pays. -/
theorem debt_step (hd : Drains turn queue) (h : p.step turn e = some p') :
    p'.debt queue + 1 ≤ p.debt queue := by
  have hmoved : ∀ {i w} (w' : Worker τ), p.workers[i]? = some w →
      (p.workers.set i w').countP Worker.isPending + w.isPending.toNat =
          p.inFlight + w'.isPending.toNat ∧
        (p.workers.set i w').countP Worker.isResolved + w.isResolved.toNat =
          p.workers.countP Worker.isResolved + w'.isResolved.toNat :=
    fun w' hw => ⟨countP_moved Worker.isPending hw, countP_moved Worker.isResolved hw⟩
  cases step_cases h with
  | @resolve i x hw =>
      obtain ⟨hpending, hresolved⟩ := hmoved (.resolved x) hw
      simp only [Worker.isPending, Worker.isResolved, Bool.toNat_true, Bool.toNat_false]
        at hpending hresolved
      simp only [Workers.debt, Workers.inFlight] at *
      omega
  | @reject i x hw =>
      obtain ⟨hpending, hresolved⟩ := hmoved (.failed x) hw
      simp only [Worker.isPending, Worker.isResolved, Bool.toNat_true, Bool.toNat_false]
        at hpending hresolved
      simp only [Workers.debt, Workers.inFlight] at *
      omega
  | @resume i x hw =>
      obtain ⟨hpending, hresolved⟩ := hmoved (.after (turn p.shared).2) hw
      have hqueue := queue_turned hd p.shared
      have hafter : (Worker.after (turn p.shared).2).isResolved = false := by
        cases (turn p.shared).2 <;> rfl
      rw [hafter] at hresolved
      simp only [Worker.isResolved, Bool.toNat_true, Bool.toNat_false] at hresolved
      rw [show (Worker.resolved x).isPending.toNat = 0 from rfl] at hpending
      simp only [Workers.debt, Workers.turned, Workers.inFlight] at *
      omega

/-! ## Runs -/

/-- What every event keeps of a pool of `limit` workers that started `items`. -/
structure Workers.Kept (queue : σ → List τ) (items : List τ) (limit : Nat) (p : Workers σ τ) :
    Prop where
  orderly : (p.work queue).Orderly limit items
  length : p.workers.length = limit
  drained : p.Drained queue

variable {items : List τ} {limit n : Nat} {es : List Event} {s : σ}

theorem Workers.Kept.step (hd : Drains turn queue) (h : p.step turn e = some p')
    (hp : p.Kept queue items limit) : p'.Kept queue items limit where
  orderly := Work.orderly_of_steps (hp.length ▸ step_refines hd h) hp.orderly
  length := (length_step h).trans hp.length
  drained := step_drained hd h hp.drained

theorem Workers.Kept.run (hd : Drains turn queue) (h : p.run turn es = some p')
    (hp : p.Kept queue items limit) : p'.Kept queue items limit := by
  induction es generalizing p with
  | nil =>
      cases h
      exact hp
  | cons e es ih =>
      obtain ⟨p₁, hstep, hrest⟩ := Option.bind_eq_some_iff.mp h
      exact ih hrest (hp.step hd hstep)

theorem debt_run (hd : Drains turn queue) (h : p.run turn es = some p') :
    p'.debt queue + es.length ≤ p.debt queue := by
  induction es generalizing p with
  | nil =>
      cases h
      exact Nat.le_refl _
  | cons e es ih =>
      obtain ⟨p₁, hstep, hrest⟩ := Option.bind_eq_some_iff.mp h
      have hpaid := debt_step hd hstep
      have := ih hrest
      rw [List.length_cons]
      omega

theorem run_refines (hd : Drains turn queue) (h : p.run turn es = some p') :
    Relation.ReflTransGen (Work.Step p.workers.length) (p.work queue) (p'.work queue) := by
  induction es generalizing p with
  | nil =>
      cases h
      exact .refl
  | cons e es ih =>
      obtain ⟨p₁, hstep, hrest⟩ := Option.bind_eq_some_iff.mp h
      have hlast := ih hrest
      rw [length_step hstep] at hlast
      exact (step_refines hd hstep).trans hlast

theorem length_launched (s : σ) (n : Nat) : (Workers.launched turn s n).workers.length = n := by
  induction n with
  | zero => rfl
  | succ n ih =>
      show (_ ++ [_]).length = n + 1
      rw [List.length_append, ih]
      rfl

/-- The first turns of the workers. -/
theorem launched_refines (hd : Drains turn queue) (s : σ) (hn : n ≤ limit) :
    Relation.ReflTransGen (Work.Step limit) (.all (queue s))
      ((Workers.launched turn s n).work queue) := by
  induction n with
  | zero => exact .refl
  | succ n ih =>
      have hroom : (Workers.launched turn s n).inFlight ≤ (Workers.launched turn s n).workers.length :=
        List.countP_le_length
      rw [length_launched] at hroom
      refine (ih (Nat.le_of_succ_le hn)).trans
        (turned_refines hd (fun w => ?_) (Nat.lt_of_le_of_lt hroom hn))
      rw [List.countP_append, List.countP_singleton]
      cases w.isPending <;> rfl

/-- The workers after their first turns. -/
theorem launched_kept (hd : Drains turn queue) (s : σ) (n : Nat) :
    (Workers.launched turn s n).Kept queue (queue s) n where
  orderly := Work.orderly_of_steps (launched_refines hd s (Nat.le_refl n)) (Work.orderly_all _ _)
  length := length_launched s n
  drained := by
    induction n with
    | zero => exact fun hmem => absurd hmem List.not_mem_nil
    | succ n ih =>
        refine turned_drained hd (fun w hmem => ?_) ih
        rcases List.mem_append.mp hmem with hmem | hmem
        · exact Or.inr hmem
        · exact Or.inl (List.mem_singleton.mp hmem).symm

theorem queue_launched (hd : Drains turn queue) (s : σ) (n : Nat) :
    (queue (Workers.launched turn s n).shared).length + (Workers.launched turn s n).inFlight ≤
      (queue s).length := by
  induction n with
  | zero => exact Nat.le_refl _
  | succ n ih =>
      have hturned := queue_turned hd (Workers.launched turn s n).shared
      show (queue (turn _).1).length + List.countP _ (_ ++ [_]) ≤ _
      rw [List.countP_append, List.countP_singleton]
      rw [Workers.inFlight] at ih
      revert hturned
      cases (Worker.after (turn (Workers.launched turn s n).shared).2).isPending <;> simp <;> omega

theorem debt_launched (hd : Drains turn queue) (s : σ) (n : Nat) :
    (Workers.launched turn s n).debt queue ≤ 2 * (queue s).length := by
  have hresolved : (Workers.launched turn s n).workers.countP Worker.isResolved = 0 := by
    induction n with
    | zero => rfl
    | succ n ih =>
        show List.countP _ (_ ++ [Worker.after _]) = 0
        rw [List.countP_append, ih]
        cases (turn (Workers.launched turn s n).shared).2 <;> rfl
  have hqueue := queue_launched hd s n
  rw [Workers.debt, hresolved]
  omega

/-- When nothing can happen any more, every worker failed or returned. -/
theorem ended_of_quiet (hq : p.Quiet turn) (hw : w ∈ p.workers) :
    (∃ x, w = .failed x) ∨ w = .returned := by
  obtain ⟨i, hi⟩ := List.getElem?_of_mem hw
  cases w with
  | pending x =>
      have := hq (.resolve i)
      simp [Workers.step, hi] at this
  | resolved x =>
      have := hq (.resume i)
      simp [Workers.step, hi] at this
  | failed x => exact Or.inl ⟨x, rfl⟩
  | returned => exact Or.inr rfl

/-- Events that end with a property. -/
theorem run_of_decide (turn : σ → σ × Option τ) (p : Workers σ τ) (es : List Event)
    (P : Workers σ τ → Prop) [DecidablePred P]
    (h : (p.run turn es).any (fun p' => decide (P p')) = true) :
    ∃ p', p.run turn es = some p' ∧ P p' := by
  cases hrun : p.run turn es with
  | none => simp [hrun] at h
  | some p' => exact ⟨p', rfl, by simpa [hrun] using h⟩

/-- Workers that all ended wait for nothing. -/
theorem quiet_of_ended (h : ∀ w ∈ p.workers, w.isPending = false ∧ w.isResolved = false) :
    p.Quiet turn := by
  intro e
  have hworker : ∀ {i : Nat} {w : Worker τ}, p.workers[i]? = some w →
      w.isPending = false ∧ w.isResolved = false :=
    fun hi => h _ (List.mem_of_getElem? hi)
  rw [Option.eq_none_iff_forall_ne_some]
  intro p' hstep
  cases step_cases hstep with
  | resolve hw | reject hw => cases (hworker hw).1
  | resume hw => cases (hworker hw).2

/-- No worker fails unless a promise is rejected. -/
theorem run_unfailed (h : p.run turn es = some p') (hes : ∀ e ∈ es, e.rejects = false)
    (hp : ∀ x, .failed x ∉ p.workers) (x : τ) : .failed x ∉ p'.workers := by
  induction es generalizing p with
  | nil =>
      cases h
      exact hp x
  | cons e es ih =>
      obtain ⟨p₁, hstep, hrest⟩ := Option.bind_eq_some_iff.mp h
      refine ih hrest (fun e he => hes e (List.mem_cons_of_mem _ he)) fun x hmem => ?_
      cases step_cases hstep with
      | resolve hw => exact hp x ((List.mem_or_eq_of_mem_set hmem).resolve_right (by simp))
      | reject hw => cases hes _ List.mem_cons_self
      | resume hw =>
          refine hp x ((List.mem_or_eq_of_mem_set hmem).resolve_right ?_)
          cases (turn p.shared).2 <;> simp [Worker.after]

theorem launched_unfailed (s : σ) (n : Nat) (x : τ) :
    .failed x ∉ (Workers.launched turn s n).workers := by
  induction n with
  | zero => exact List.not_mem_nil
  | succ n ih =>
      intro hmem
      rcases List.mem_append.mp hmem with hmem | hmem
      · exact ih hmem
      · have heq := List.mem_singleton.mp hmem
        cases hturn : (turn (Workers.launched turn s n).shared).2 <;>
          simp [hturn, Worker.after] at heq

/-- The run lemma: at any time the items are started in order and at most `n` are in flight, and
there are at most two events for an item. -/
theorem run_kept (hd : Drains turn queue)
    (h : (Workers.launched turn s n).run turn es = some p) :
    p.Kept queue (queue s) n ∧ es.length ≤ 2 * (queue s).length := by
  have hdebt := debt_run hd h
  have hlaunched := debt_launched hd s n
  exact ⟨(launched_kept hd s n).run hd h, by omega⟩

/-- If no promise is rejected, all workers return in the end, and every item has been started. -/
theorem run_finished (hd : Drains turn queue) (hn : 0 < n)
    (h : (Workers.launched turn s n).run turn es = some p) (hes : ∀ e ∈ es, e.rejects = false)
    (hq : p.Quiet turn) : (∀ w ∈ p.workers, w = .returned) ∧ p.started = queue s := by
  have hkept := (run_kept hd h).1
  have hreturned : ∀ w ∈ p.workers, w = .returned := by
    intro w hw
    rcases ended_of_quiet hq hw with ⟨x, rfl⟩ | hreturned
    · exact absurd hw (run_unfailed h hes (launched_unfailed s n) x)
    · exact hreturned
  refine ⟨hreturned, ?_⟩
  obtain ⟨w, hw⟩ := List.exists_mem_of_length_pos (hkept.length.symm ▸ hn : 0 < p.workers.length)
  have hempty : queue p.shared = [] := hkept.drained (hreturned w hw ▸ hw)
  have horder : p.started ++ queue p.shared = queue s := hkept.orderly.order
  rwa [hempty, List.append_nil] at horder

end Drains

end Async
