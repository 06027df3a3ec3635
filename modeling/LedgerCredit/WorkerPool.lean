import LedgerCredit.Async.Workers
import LedgerCredit.Seed
import LedgerCredit.Services
import LedgerCredit.Txn.Work

/-!
# The worker pool

`processBatchItems` starts async loops that share `nextIndex`.  The processes take
it as a pool that hands out its items.  Here it is as the event loop runs it.  A turn
reads the next id and steps the index before it calls `processBatchItem`, so no two
workers get one position (`workerTurn_drains`).

Both are the same work with the same limit (`workersStarted_works`, `forked_works`): where
they have started as many items, these are the same accounts (`pool_agrees`).

An empty id ends the worker that reads it.
-/

namespace LedgerCredit.BatchService

open Async

/-- The loop of a worker of `processBatchItems`, from its head to the promise of
`processBatchItem` for the id at a position, or to the return. -/
def workerTurn (accountIds : List Uuid) (nextIndex : Nat) : Nat × Option (Uuid × Nat) :=
  match accountIds[nextIndex]? with
  | none => (nextIndex, none)
  | some accountId =>
      if accountId = "" then (nextIndex + 1, none)
      else (nextIndex + 1, some (accountId, nextIndex))

/-- `processBatchItems`, up to the `await` of `Promise.all`. -/
def workersStarted (env : Env) (accountIds : List Uuid) : Workers Nat (Uuid × Nat) :=
  if accountIds.length = 0 then ⟨0, [], []⟩
  else .launched (workerTurn accountIds) 0 (min (getWorkerConcurrency env) accountIds.length)

section Pool

variable {env : Env} {accountIds : List Uuid}

/-- The positions from `nextIndex` on are the queue of the workers. -/
theorem workerTurn_drains (hids : "" ∉ accountIds) :
    Drains (workerTurn accountIds) fun nextIndex => accountIds.zipIdx.drop nextIndex where
  take := by
    intro nextIndex x hx
    unfold workerTurn at hx ⊢
    cases hid : accountIds[nextIndex]? with
    | none => simp [hid] at hx
    | some accountId =>
        have hne : accountId ≠ "" := fun heq => hids (heq ▸ List.mem_of_getElem? hid)
        obtain ⟨hlt, hget⟩ := List.getElem?_eq_some_iff.mp hid
        simp only [hid, if_neg hne, Option.some.injEq] at hx ⊢
        rw [← hx, List.drop_eq_getElem_cons (by simpa using hlt)]
        simp [hget]
  stop := by
    intro nextIndex hnone
    unfold workerTurn at hnone ⊢
    cases hid : accountIds[nextIndex]? with
    | none => simpa using hid
    | some accountId =>
        have hne : accountId ≠ "" := fun heq => hids (heq ▸ List.mem_of_getElem? hid)
        simp [hid, hne] at hnone

/-- The limit: fractions are rounded down, and all else is one. -/
theorem workerConcurrency_eq (env : Env) : (getWorkerConcurrency env : Int) =
    max 1 (env.batchWorkerConcurrency.elim 1 Rat.floor) := by
  unfold getWorkerConcurrency
  cases env.batchWorkerConcurrency with
  | none => rfl
  | some configured =>
      show ((if configured < 1 then 1 else configured.floor.toNat : Nat) : Int) =
        max 1 configured.floor
      have hfloor : 1 ≤ configured.floor ↔ 1 ≤ configured := by
        simpa using Rat.le_floor_iff (x := 1) (a := configured)
      split
      · rename_i hlt
        have hnot : ¬ 1 ≤ configured.floor := fun hle => absurd (hfloor.mp hle) (not_le.mpr hlt)
        omega
      · rename_i hge
        have hle : 1 ≤ configured.floor := hfloor.mpr (not_lt.mp hge)
        omega

theorem workersStarted_eq (env : Env) (accountIds : List Uuid) :
    workersStarted env accountIds =
      .launched (workerTurn accountIds) 0 (min (getWorkerConcurrency env) accountIds.length) := by
  unfold workersStarted
  split
  · rename_i hlength
    rw [hlength, Nat.min_zero]
    rfl
  · rfl

end Pool

/-- Whatever the order in which promises settle, the items are started in order, at most the
limit of them are in flight, and when no promise is left and none was rejected, every worker has
returned and `processBatchItem` was called once for each position. -/
theorem items_processed_once (env : Env) (accountIds : List Uuid) (hids : "" ∉ accountIds)
    (es : List Event) (p : Workers Nat (Uuid × Nat))
    (h : (workersStarted env accountIds).run (workerTurn accountIds) es = some p) :
    (getWorkerConcurrency env : Int) = max 1 (env.batchWorkerConcurrency.elim 1 Rat.floor) ∧
    p.inFlight ≤ getWorkerConcurrency env ∧ p.started <+: accountIds.zipIdx ∧
    es.length ≤ 2 * accountIds.length ∧
    ((∀ e ∈ es, e.rejects = false) → p.Quiet (workerTurn accountIds) →
      (∀ w ∈ p.workers, w = .returned) ∧ p.started = accountIds.zipIdx) := by
  have hd := workerTurn_drains hids
  rw [workersStarted_eq] at h
  obtain ⟨hkept, hlength⟩ := run_kept hd h
  have hpositive : 1 ≤ getWorkerConcurrency env := by
    have hlimit := workerConcurrency_eq env
    omega
  refine ⟨workerConcurrency_eq env, ?_, ⟨_, hkept.orderly.order⟩, ?_, fun hes hq => ?_⟩
  · exact hkept.orderly.room.trans (Nat.min_le_left _ _)
  · simpa using hlength
  · rcases Nat.eq_zero_or_pos accountIds.length with hzero | hpos
    · obtain rfl := List.eq_nil_of_length_eq_zero hzero
      obtain rfl : es = [] := List.eq_nil_of_length_eq_zero (Nat.le_zero.mp hlength)
      rw [List.length_nil, Nat.min_zero] at h
      cases h
      exact ⟨fun w hw => absurd hw List.not_mem_nil, rfl⟩
    · have hfinished := run_finished hd (Nat.lt_min.mpr ⟨hpositive, hpos⟩) h hes hq
      exact hfinished

/-- Five items and two workers. -/
def fiveAccounts : List Uuid := ["a", "b", "c", "d", "e"]

/-- The second worker goes on before the first, which has the last item in the end. -/
def fiveEvents : List Event :=
  [.resolve 1, .resume 1, .resolve 0, .resolve 1, .resume 1, .resume 0, .resolve 1, .resume 1,
    .resolve 0, .resume 0]

/-- The configured value 2.5. -/
def twoAndAHalf : Env :=
  { testEnvironment with batchWorkerConcurrency := some ⟨5, 2, by decide, by decide⟩ }

theorem items_processed_once_two : ∃ p,
    (workersStarted twoAndAHalf fiveAccounts).run (workerTurn fiveAccounts) fiveEvents = some p ∧
    p.inFlight ≤ 2 ∧ p.started = fiveAccounts.zipIdx := by
  obtain ⟨p, hrun, hended⟩ := run_of_decide (workerTurn fiveAccounts)
    (workersStarted twoAndAHalf fiveAccounts) fiveEvents
    (fun p => ∀ w ∈ p.workers, w.isPending = false ∧ w.isResolved = false) (by decide +kernel)
  obtain ⟨-, hlimit, -, -, hfinished⟩ :=
    items_processed_once twoAndAHalf fiveAccounts (by decide) fiveEvents p hrun
  exact ⟨p, hrun, hlimit, (hfinished (by decide) (quiet_of_ended hended)).2⟩

/-! ## The pool of the processes -/

open Txn

/-- No crash. -/
def uncrashed (_ : ServerConfig) : Action Choice Call → Bool
  | .crash => false
  | _ => true

section Processes

variable {env : Env} {accountIds : List Uuid}

/-- The workers on the event loop, as work on the positions. -/
theorem workersStarted_works (hids : "" ∉ accountIds) {es : List Event} {p : Workers Nat (Uuid × Nat)}
    (h : (workersStarted env accountIds).run (workerTurn accountIds) es = some p) :
    Relation.ReflTransGen (Work.Step (min (getWorkerConcurrency env) accountIds.length))
      (.all accountIds.zipIdx) (p.work fun nextIndex => accountIds.zipIdx.drop nextIndex) := by
  have hd := workerTurn_drains hids
  rw [workersStarted_eq] at h
  have hrun := run_refines hd h
  rw [length_launched] at hrun
  exact (launched_refines hd 0 (Nat.le_refl _)).trans hrun

variable {b : Uuid} {s : Store} {c₁ c₂ c : ServerConfig} {i : Nat} {ch : Choice} {call : Call}
  {pool : Option Nat} {f : Unit → Process Reply}
  (hne : accountIds ≠ []) (h₁ : Steps (server env) anySchedule (.initial s) c₁)
  (hth : c₁.threads[i]? = some ⟨call, pool, .run (processBatchItems env b accountIds >>= f)⟩)
  (hfork : (server env).step c₁ (.advance i ch) = some c₂)
  (h : Steps (server env) uncrashed c₂ c)
include hne h₁ hth hfork h

/-- The pool that `processBatchItems` forks, whatever else is scheduled. -/
theorem forked_works :
    c.HandsOut c₁.pools.length (min (getWorkerConcurrency env) accountIds.length) accountIds ∧
    Relation.ReflTransGen (Work.Step (min (getWorkerConcurrency env) accountIds.length))
      (.all accountIds) (c.work c₁.pools.length accountIds) := by
  obtain ⟨k, hk⟩ : ∃ k, processBatchItems env b accountIds >>= f =
      Proc.all (getWorkerConcurrency env) accountIds (processBatchItem env b) k := by
    unfold processBatchItems
    rw [if_neg (mt List.length_eq_zero_iff.mp hne)]
    exact ⟨_, rfl⟩
  rw [hk] at hth
  have hforked : c₂ = Resource.forked (server env) c₁ i call pool (getWorkerConcurrency env)
      accountIds (processBatchItem env b) k := by
    simpa [System.step, System.advance, hth, Resource.forked] using hfork.symm
  obtain ⟨hhands, hall⟩ : c₂.HandsOut c₁.pools.length
      (min (getWorkerConcurrency env) accountIds.length) accountIds ∧
      c₂.work c₁.pools.length accountIds = .all accountIds := by
    rw [hforked]
    exact work_forked (fun _ _ _ => Resource.pool_lt_of_steps h₁) hth
  obtain ⟨hlast, hworked⟩ := work_of_steps (fun _ => by simp [uncrashed]) h hhands
  exact ⟨hlast, hall ▸ hworked⟩

/-- The event loop and the processes: neither has more than the limit in flight, and where both
have started as many items, these are the same accounts and the same accounts wait. -/
theorem pool_agrees (hids : "" ∉ accountIds) {es : List Event} {p : Workers Nat (Uuid × Nat)}
    (hrun : (workersStarted env accountIds).run (workerTurn accountIds) es = some p) :
    p.inFlight ≤ getWorkerConcurrency env ∧
    (c.work c₁.pools.length accountIds).busy ≤ getWorkerConcurrency env ∧
    (p.started.length = (c.work c₁.pools.length accountIds).started.length →
      p.started.map Prod.fst = (c.work c₁.pools.length accountIds).started ∧
      (accountIds.zipIdx.drop p.shared).map Prod.fst = c.waiting c₁.pools.length) := by
  obtain ⟨-, hprocesses⟩ := forked_works hne h₁ hth hfork h
  have hall : (Work.all accountIds.zipIdx).map Prod.fst = .all accountIds := by
    simp [Work.all, Work.map]
  have hloop : Relation.ReflTransGen (Work.Step (min (getWorkerConcurrency env) accountIds.length))
      ((Work.all accountIds.zipIdx).map Prod.fst)
      ((p.work fun nextIndex => accountIds.zipIdx.drop nextIndex).map Prod.fst) :=
    (workersStarted_works hids hrun).lift _ fun _ _ hstep => hstep.map Prod.fst
  have horderly := Work.orderly_of_steps (hall ▸ hloop) (Work.orderly_all _ _)
  have horderly' := Work.orderly_of_steps hprocesses (Work.orderly_all _ _)
  refine ⟨horderly.room.trans (Nat.min_le_left _ _), horderly'.room.trans (Nat.min_le_left _ _),
    fun hlength => horderly.eq horderly' ?_⟩
  simpa [Work.map, Workers.work] using hlength

end Processes

end LedgerCredit.BatchService
