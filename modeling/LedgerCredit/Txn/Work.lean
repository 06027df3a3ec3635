import LedgerCredit.Async.Workers
import LedgerCredit.Txn.Resource

/-!
# Pools as work

A pool of a configuration hands out its items in order, and each of its workers has at most
one item.  `Config.work` reads a pool as `Async.Work`: the items that wait, how many
workers have one, and the items that were handed out.

Whatever else is scheduled, a step is no more than a step or two of that work
(`work_step`), so a pool does what `Async.Work` says until the next crash
(`work_of_steps`).  It begins when the pool is forked (`work_forked`).
-/

namespace Txn

open Async (Work)

variable {Q : Type → Type} {L : Type → Type 1} {ε S W C κ ι K ρ : Type}

/-- The code of a worker that has an item. -/
def Code.hasItem : Code Q L ε W ι ρ → Bool
  | .run (.pure _) => false
  | .run (.throw _) => false
  | _ => true

/-- A worker of pool `n`. -/
def Thread.worksIn (n : Nat) (th : Thread Q L ε W ι K ρ) : Bool := th.pool == some n

/-- A worker of pool `n` that has an item. -/
def Thread.busyIn (n : Nat) (th : Thread Q L ε W ι K ρ) : Bool := th.worksIn n && th.code.hasItem

namespace Config

/-- The items of pool `n` that wait. -/
def waiting (c : Config Q L ε S W ι K ρ) (n : Nat) : List ι := c.pools[n]?.elim [] Pool.queue

/-- Pool `n` as work on `items`. -/
def work (c : Config Q L ε S W ι K ρ) (n : Nat) (items : List ι) : Work ι where
  waiting := c.waiting n
  busy := c.threads.countP (Thread.busyIn n)
  started := items.take (items.length - (c.waiting n).length)

/-- Pool `n` has `limit` workers, and what waits is the end of `items`. -/
structure HandsOut (c : Config Q L ε S W ι K ρ) (n limit : Nat) (items : List ι) : Prop where
  bound : n < c.pools.length
  waiting : c.waiting n <:+ items
  workers : c.threads.countP (Thread.worksIn n) = limit

end Config

section Steps

variable {c c' : Config Q L ε S W ι K ρ} {n limit : Nat} {items : List ι}

theorem started_append (taken waiting : List ι) :
    (taken ++ waiting).take ((taken ++ waiting).length - waiting.length) = taken := by
  simp

/-- The pool is as it was. -/
theorem Config.HandsOut.same (h : c.HandsOut n limit items) (hbound : n < c'.pools.length)
    (hwaiting : c'.waiting n = c.waiting n)
    (hworkers : c'.threads.countP (Thread.worksIn n) = c.threads.countP (Thread.worksIn n))
    (hbusy : c'.threads.countP (Thread.busyIn n) = c.threads.countP (Thread.busyIn n)) :
    c'.HandsOut n limit items ∧
      Relation.ReflTransGen (Work.Step limit) (c.work n items) (c'.work n items) := by
  refine ⟨⟨hbound, hwaiting ▸ h.waiting, hworkers.trans h.workers⟩, ?_⟩
  have hsame : c'.work n items = c.work n items := by simp only [Config.work, hwaiting, hbusy]
  rw [hsame]

section Move

variable {i : Nat} {call : K} {pool : Option Nat} {code : Code Q L ε W ι ρ}
  (hth : c.threads[i]? = some ⟨call, pool, code⟩)
include hth

/-- A thread that goes on works for the pool that it worked for. -/
theorem workers_set (code' : Code Q L ε W ι ρ) :
    (c.threads.set i ⟨call, pool, code'⟩).countP (Thread.worksIn n) =
      c.threads.countP (Thread.worksIn n) := by
  have hmoved := Async.countP_moved (Thread.worksIn n) (b := ⟨call, pool, code'⟩) hth
  exact Nat.add_right_cancel hmoved

/-- A thread that went on has its item, or it ended it. -/
theorem busy_set (hitem : code.hasItem = true) (code' : Code Q L ε W ι ρ) :
    c.threads.countP (Thread.busyIn n) =
        (c.threads.set i ⟨call, pool, code'⟩).countP (Thread.busyIn n) ∨
      c.threads.countP (Thread.busyIn n) =
        (c.threads.set i ⟨call, pool, code'⟩).countP (Thread.busyIn n) + 1 := by
  have hmoved := Async.countP_moved (Thread.busyIn n) (b := ⟨call, pool, code'⟩) hth
  have hbefore : Thread.busyIn n (⟨call, pool, code⟩ : Thread Q L ε W ι K ρ) = (pool == some n) := by
    simp [Thread.busyIn, Thread.worksIn, hitem]
  have hafter : Thread.busyIn n (⟨call, pool, code'⟩ : Thread Q L ε W ι K ρ) =
      (pool == some n && code'.hasItem) := rfl
  rw [hbefore, hafter] at hmoved
  revert hmoved
  cases pool == some n with
  | false => exact fun hmoved => Or.inl hmoved.symm
  | true =>
      cases code'.hasItem with
      | false => exact fun hmoved => Or.inr hmoved.symm
      | true => exact fun hmoved => Or.inl (Nat.add_right_cancel hmoved).symm

/-- A thread goes on that is in the middle of something. -/
theorem work_set (h : c.HandsOut n limit items) (hitem : code.hasItem = true) {code' : Code Q L ε W ι ρ}
    (hthreads : c'.threads = c.threads.set i ⟨call, pool, code'⟩) (hpools : c'.pools = c.pools) :
    c'.HandsOut n limit items ∧
      Relation.ReflTransGen (Work.Step limit) (c.work n items) (c'.work n items) := by
  have hbound : n < c'.pools.length := hpools ▸ h.bound
  have hwaiting : c'.waiting n = c.waiting n := by rw [Config.waiting, hpools, Config.waiting]
  have hworkers : c'.threads.countP (Thread.worksIn n) = c.threads.countP (Thread.worksIn n) := by
    rw [hthreads, workers_set hth]
  rcases busy_set hth (n := n) hitem code' with hbusy | hbusy
  · exact h.same hbound hwaiting hworkers (by rw [hthreads, hbusy])
  · refine ⟨⟨hbound, hwaiting ▸ h.waiting, hworkers.trans h.workers⟩, ?_⟩
    rw [Config.work, Config.work, hwaiting, hthreads, hbusy]
    exact .single .finish

end Move

section Take

variable {i m : Nat} {call : K} {a : ρ} {id : ι} {queue : List ι} {body : ι → Proc L ε ι Unit}
  {code' : Code Q L ε W ι ρ} (hth : c.threads[i]? = some ⟨call, some m, .run (.pure a)⟩)
  (hpool : c.pools[m]? = some ⟨id :: queue, body⟩)
include hth

/-- A worker at rest leaves room. -/
theorem busy_lt (h : c.HandsOut m limit items) : c.threads.countP (Thread.busyIn m) < limit := by
  -- with an item for this worker too there would be one more
  have hmoved := Async.countP_moved (Thread.busyIn m) (b := ⟨call, some m, .await 0 fun _ => .pure a⟩) hth
  have hmore : (c.threads.set i ⟨call, some m, .await 0 fun _ => .pure a⟩).countP (Thread.busyIn m) =
      c.threads.countP (Thread.busyIn m) + 1 := by
    simpa [Thread.busyIn, Thread.worksIn, Code.hasItem] using hmoved
  rw [← h.workers, ← workers_set hth (.await 0 fun _ => .pure a), ← Nat.succ_le_iff, ← Nat.add_one,
    ← hmore]
  exact List.countP_mono_left fun th _ hbusy => (Bool.and_eq_true_iff.mp hbusy).1

include hpool

/-- A worker takes the first item that waits. -/
theorem work_take (h : c.HandsOut n limit items)
    (hthreads : c'.threads = c.threads.set i ⟨call, some m, code'⟩)
    (hpools : c'.pools = c.pools.set m ⟨queue, body⟩) : c'.HandsOut n limit items ∧
      Relation.ReflTransGen (Work.Step limit) (c.work n items) (c'.work n items) := by
  have hmoved := Async.countP_moved (Thread.busyIn n) (b := ⟨call, some m, code'⟩) hth
  rw [← hthreads] at hmoved
  have hbound : n < c'.pools.length := by simpa [hpools] using h.bound
  have hworkers : c'.threads.countP (Thread.worksIn n) = c.threads.countP (Thread.worksIn n) := by
    rw [hthreads, workers_set hth]
  by_cases hmn : m = n
  · subst hmn
    have hbefore : c.waiting m = id :: queue := by simp [Config.waiting, hpool]
    have hafter : c'.waiting m = queue := by
      simp [Config.waiting, hpools, List.getElem?_set_self h.bound]
    obtain ⟨taken, htaken⟩ := h.waiting
    rw [hbefore] at htaken
    have htaken' : (taken ++ [id]) ++ queue = items := by simpa using htaken
    have hwork : c.work m items = ⟨id :: queue, c.threads.countP (Thread.busyIn m), taken⟩ := by
      rw [Config.work, hbefore, ← htaken, started_append]
    have hwork' : c'.work m items =
        ⟨queue, c'.threads.countP (Thread.busyIn m), taken ++ [id]⟩ := by
      rw [Config.work, hafter, ← htaken', started_append]
    refine ⟨⟨hbound, hafter ▸ ⟨taken ++ [id], htaken'⟩, hworkers.trans h.workers⟩, ?_⟩
    have hrested : Thread.busyIn m (⟨call, some m, .run (.pure a)⟩ : Thread Q L ε W ι K ρ) = false := by
      simp [Thread.busyIn, Code.hasItem]
    have hgot : Thread.busyIn m (⟨call, some m, code'⟩ : Thread Q L ε W ι K ρ) = code'.hasItem := by
      simp [Thread.busyIn, Thread.worksIn]
    rw [hrested, hgot, Bool.toNat_false, Nat.add_zero] at hmoved
    rw [hwork, hwork', hmoved]
    have hstart : Relation.ReflTransGen (Work.Step limit)
        ⟨id :: queue, c.threads.countP (Thread.busyIn m), taken⟩
        ⟨queue, c.threads.countP (Thread.busyIn m) + 1, taken ++ [id]⟩ :=
      .single (.start (busy_lt hth h))
    -- an item with nothing to do ends at once
    cases code'.hasItem with
    | true => exact hstart
    | false => exact hstart.tail .finish
  · refine h.same hbound ?_ hworkers ?_
    · simp [Config.waiting, hpools, List.getElem?_set_ne hmn]
    · simpa [Thread.busyIn, Thread.worksIn, beq_false_of_ne hmn] using hmoved

end Take

variable {sys : System Q L ε S W C κ ι K ρ}

/-- A pool that was just forked. -/
theorem work_forked {i size : Nat} {call : K} {pool : Option Nat} {body : ι → Proc L ε ι Unit}
    {k : Except ε Unit → Proc L ε ι ρ}
    (hpools : ∀ (j : Nat) (th : Thread Q L ε W ι K ρ) (m : Nat), c.threads[j]? = some th →
      th.pool = some m → m < c.pools.length)
    (hth : c.threads[i]? = some ⟨call, pool, .run (.all size items body k)⟩) :
    (Resource.forked sys c i call pool size items body k).HandsOut c.pools.length
        (min size items.length) items ∧
      (Resource.forked sys c i call pool size items body k).work c.pools.length items =
        .all items := by
  have hwaiting : (Resource.forked sys c i call pool size items body k).waiting c.pools.length =
      items := by
    simp [Config.waiting, Resource.forked]
  have hnone : (c.threads.set i ⟨call, pool, .await c.pools.length k⟩).countP
      (Thread.worksIn c.pools.length) = 0 := by
    rw [workers_set hth, List.countP_eq_zero]
    intro th hmem hworks
    obtain ⟨j, hj⟩ := List.mem_iff_getElem?.mp hmem
    exact absurd (hpools j th _ hj (beq_iff_eq.mp hworks)) (lt_irrefl _)
  have hidle : (c.threads.set i ⟨call, pool, .await c.pools.length k⟩).countP
      (Thread.busyIn c.pools.length) = 0 := by
    refine Nat.le_zero.mp (hnone ▸ List.countP_mono_left fun th _ hbusy => ?_)
    exact (Bool.and_eq_true_iff.mp hbusy).1
  refine ⟨⟨by simp [Resource.forked], by simp [hwaiting], ?_⟩, ?_⟩
  · rw [Resource.forked, List.countP_append, hnone]
    simp [List.countP_replicate, Thread.worksIn]
  · rw [Config.work, hwaiting, Resource.forked, List.countP_append, hidle]
    simp [List.countP_replicate, Thread.busyIn, Code.hasItem, Work.all]

variable [DecidableEq κ]

/-- A step of any schedule. -/
theorem work_step {a : Action C K} (h : c.HandsOut n limit items) (ha : a ≠ .crash)
    (hstep : sys.step c a = some c') : c'.HandsOut n limit items ∧
      Relation.ReflTransGen (Work.Step limit) (c.work n items) (c'.work n items) := by
  cases step_cases hstep with
  | start call =>
      exact h.same h.bound rfl (by simp [Thread.worksIn]) (by simp [Thread.busyIn, Thread.worksIn])
  | crash => exact absurd rfl ha
  | begin hth => exact work_set hth h rfl rfl rfl
  | statement hth _ _ => exact work_set hth h rfl rfl rfl
  | rollback hth _ => exact work_set hth h rfl rfl rfl
  | commit hth => exact work_set hth h rfl rfl rfl
  | @fork i _ call pool _ _ _ k hth =>
      have hnew : c.pools.length ≠ n := h.bound.ne'
      have hmoved := Async.countP_moved (Thread.busyIn n)
        (b := ⟨call, pool, .await c.pools.length k⟩) hth
      refine h.same (h.bound.trans_le (by simp)) ?_ ?_ ?_
      · simp [Config.waiting, List.getElem?_append_left h.bound]
      · rw [List.countP_append, workers_set hth]
        simp [List.countP_replicate, Thread.worksIn, hnew]
      · rw [List.countP_append, Nat.add_right_cancel hmoved]
        simp [List.countP_replicate, Thread.busyIn, Thread.worksIn, hnew]
  | take hth hpool => exact work_take hth hpool h rfl rfl
  | resume hth _ => exact work_set hth h rfl rfl rfl

/-- A run without a crash. -/
theorem work_of_steps {ok : Config Q L ε S W ι K ρ → Action C K → Bool}
    (hcrash : ∀ c, ok c .crash ≠ true) (hrun : Steps sys ok c c') (h : c.HandsOut n limit items) :
    c'.HandsOut n limit items ∧
      Relation.ReflTransGen (Work.Step limit) (c.work n items) (c'.work n items) := by
  induction hrun with
  | refl => exact ⟨h, .refl⟩
  | tail _ hstep ih =>
      obtain ⟨a, ha, hstep⟩ := hstep
      obtain ⟨hmid, hworked⟩ := ih
      have hnot : a ≠ .crash := by
        rintro rfl
        exact hcrash _ ha
      obtain ⟨hlast, hmore⟩ := work_step hmid hnot hstep
      exact ⟨hlast, hworked.trans hmore⟩

end Steps

end Txn
