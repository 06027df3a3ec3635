import LedgerCredit.Credit.Services
import LedgerCredit.Txn.Soundness

/-!
# What an assessment writes

`Replies` is what a statement may reply and write, whatever the store.  The
transaction of `createAssessment` writes nothing, or one new assessment with what
goes with it (`createAssessment_runs`).  Whoever writes to the row of an assessment
locks it, and `get?_applyAll` says that other writes leave the row alone.
-/

namespace LedgerCredit.Credit

open Txn

/-- What is asked of the events of a history, each after the writes before it. -/
abbrev View := List Write → Event Stmt Write → Prop

/-- The replies and writes a statement may have. -/
def Replies : {α : Type} → Stmt α → α → List Write → Prop
  | _, .createAuditEvent data, _, ws => ∃ u, ws = [.ledger (.auditEvent (data u))]
  | _, .createSnapshot data, r, ws => (∃ u, r = data u) ∧ ws = [.snapshot r]
  | _, .createAssessment data, r, ws => (∃ u, r = data u) ∧ ws = [.assessment r]
  | _, .updateAssessment id data, r, ws =>
      (∃ x, x.id = id ∧ r = data.apply x) ∧ ws = [.updateAssessment id data]
  | _, .reviewAssessment id data, r, ws =>
      (∃ x, x.id = id ∧ r.1 = data.apply x) ∧ ws = [.updateAssessment id data]
  | _, .createIdempotencyRecord data, r, ws => (∃ u, r = data u) ∧ ws = [.idempotencyRecord r]
  | _, .updateIdempotencyRecord id data, _, ws => ws = [.updateIdempotencyRecord id data]
  | _, _, _, ws => ws = []

/-- Every event has a reply of its statement. -/
def Replying (V : View) : Prop :=
  ∀ (p : List Write) {α : Type} (q : Stmt α) (r : α) ws, V p ⟨q, r, ws⟩ → Replies q r ws

theorem replies_of_exec {α : Type} {q : Stmt α} {s : Store} {ch : Choice} {r : α} {ws : List Write}
    (h : s.exec q ch = .ok (r, ws)) : Replies q r ws := by
  cases q with
  | findTransferRequest id =>
      simp only [Store.exec, withRow] at h
      split at h
      · cases h; rfl
      · split at h <;> cases h; rfl
  | findAssessment id =>
      simp only [Store.exec, withRow] at h
      split at h
      · cases h; rfl
      · split at h <;> cases h; rfl
  | updateAssessment id data =>
      simp only [Store.exec] at h
      split at h
      · rename_i x hx
        obtain ⟨-, rfl, rfl⟩ := attempt_eq_ok h
        exact ⟨⟨x, (Table.get?_eq_some.mp hx).2, rfl⟩, rfl⟩
      · cases h
  | reviewAssessment id data =>
      simp only [Store.exec] at h
      split at h
      · rename_i x hx
        split at h
        · obtain ⟨-, rfl, rfl⟩ := attempt_eq_ok h
          exact ⟨⟨x, (Table.get?_eq_some.mp hx).2, rfl⟩, rfl⟩
        · cases h
      · cases h
  | createAuditEvent data =>
      obtain ⟨-, -, rfl⟩ := attempt_eq_ok h
      exact ⟨_, rfl⟩
  | updateIdempotencyRecord id data =>
      obtain ⟨-, -, rfl⟩ := attempt_eq_ok h
      rfl
  | createSnapshot data =>
      obtain ⟨-, rfl, rfl⟩ := attempt_eq_ok h
      exact ⟨⟨_, rfl⟩, rfl⟩
  | createAssessment data =>
      obtain ⟨-, rfl, rfl⟩ := attempt_eq_ok h
      exact ⟨⟨_, rfl⟩, rfl⟩
  | createIdempotencyRecord data =>
      obtain ⟨-, rfl, rfl⟩ := attempt_eq_ok h
      exact ⟨⟨_, rfl⟩, rfl⟩
  | _ => cases h; rfl

/-! ## The transaction of an assessment -/

section Runs

variable {V : View} {env : Env} {args : CreateAssessmentArgs}

theorem runs_ofExcept {p ws : List Write} {α : Type} {x : Except AppException α} {a : α} :
    Runs V p (ofExcept x) ws a ↔ ws = [] ∧ x = .ok a := by
  cases x with
  | ok b => simp [ofExcept, runs_pure, and_comm, eq_comm]
  | error e => simp [ofExcept, runs_throw]

/-- The assessment that the transaction leaves. -/
def scoredRow (row : CreditAssessment) (decision : CreditDecision) : CreditAssessment :=
  { row with
    status := .underReview
    score := some decision.score
    rationaleSummary := some decision.rationaleSummary }

/-- The columns that the score is written with. -/
def scoredData (decision : CreditDecision) : CreditAssessmentUpdate where
  status := .scored
  score := some decision.score
  rationaleSummary := some decision.rationaleSummary

/-- What the transaction of a new assessment reads after `p`, and what it decides. -/
structure Scored (V : View) (env : Env) (p : List Write) (customerId : Uuid)
    (balances : List (Option BalanceProjection)) (profile : CreditProfileInput)
    (settledTransferCount failedTransferCount : Nat) (decision : CreditDecision) : Prop where
  settled : V p ⟨.countTransferRequests customerId [.settled], settledTransferCount, []⟩
  failed : V p ⟨.countTransferRequests customerId [.failed, .compensated], failedTransferCount, []⟩
  profiled : profile = profileInput (balances.map fun b => (b.map (·.currentMinor)).getD 0)
    settledTransferCount failedTransferCount
  decided : computeCreditDecision profile ⟨env.scoreApproveThreshold, env.scoreRejectThreshold⟩ =
    .ok decision

theorem scoreCustomer_runs (hV : Replying V) {customerId : Uuid}
    {balances : List (Option BalanceProjection)} {p ws : List Write}
    {r : CreditProfileInput × Nat × Nat × CreditDecision}
    (hr : Runs V p (CreditService.scoreCustomer env customerId balances) ws r) :
    ws = [] ∧ Scored V env p customerId balances r.1 r.2.1 r.2.2.1 r.2.2.2 := by
  simp only [CreditService.scoreCustomer, runs_bind, runs_send, runs_ofExcept, runs_return] at hr
  obtain ⟨_, _, hsettled, _, rfl, _, _, hfailed, _, rfl, _, _, ⟨rfl, hdecision⟩, _, rfl, rfl,
    rfl⟩ := hr
  obtain rfl := hV _ _ _ _ hsettled
  obtain rfl := hV _ _ _ _ hfailed
  rw [List.append_nil] at hfailed
  exact ⟨rfl, hsettled, hfailed, rfl, hdecision⟩

/-- What the transaction of a new assessment does. -/
structure AssessmentRun (V : View) (env : Env) (args : CreateAssessmentArgs) (ws : List Write)
    (row : CreditAssessment) (snapshot : CreditProfileSnapshot) (decision : CreditDecision) :
    Prop where
  found : ∃ record customer balances profile settledTransferCount failedTransferCount,
    V [.idempotencyRecord record]
      ⟨.findCustomer args.input.customerId, some (customer, balances), []⟩ ∧
    Scored V env [.idempotencyRecord record] customer.id balances profile settledTransferCount
      failedTransferCount decision ∧
    (∃ u, snapshot = CreditService.snapshotData customer.id profile settledTransferCount
      failedTransferCount u) ∧
    (∃ u, row = CreditService.assessmentData env customer.id snapshot.id args.input.requestedBy u) ∧
    ∃ d event, ws = [.idempotencyRecord record, .snapshot snapshot, .assessment row,
      .updateAssessment row.id { status := .dataCollected },
      .updateAssessment row.id (scoredData decision),
      .updateAssessment row.id { status := .underReview }, .updateIdempotencyRecord record.id d,
      .ledger (.auditEvent event)]

theorem createScored_runs (hV : Replying V) {record : IdempotencyRecord} {customer : Customer}
    {balances : List (Option BalanceProjection)} {ws : List Write} {r : Replay}
    (hcustomer : V [.idempotencyRecord record]
      ⟨.findCustomer args.input.customerId, some (customer, balances), []⟩)
    (hr : Runs V [.idempotencyRecord record]
      (CreditService.createScored env args record.id customer.id balances) ws r) :
    ∃ row snapshot decision,
      AssessmentRun V env args (.idempotencyRecord record :: ws) row snapshot decision := by
  simp only [CreditService.createScored, runs_bind, runs_send, IdempotencyService.complete,
    runs_return] at hr
  obtain ⟨_, score, hscore, _, rfl, _, snapshot, hsnapshot, _, rfl, _, assessment, hcreate, _, rfl,
    _, collected, hcollect, _, rfl, _, scored, hscored, _, rfl, _, reviewed, hreview, _, rfl, _, _,
    hcomplete, _, rfl, _, _, haudit, _, rfl, rfl, -⟩ := hr
  obtain ⟨rfl, hdecision⟩ := scoreCustomer_runs hV hscore
  obtain ⟨hprofile, rfl⟩ := hV _ _ _ _ hsnapshot
  obtain ⟨hrow, rfl⟩ := hV _ _ _ _ hcreate
  obtain ⟨⟨x, hx, rfl⟩, rfl⟩ := hV _ _ _ _ hcollect
  obtain ⟨⟨y, hy, rfl⟩, rfl⟩ := hV _ _ _ _ hscored
  obtain ⟨-, rfl⟩ := hV _ _ _ _ hreview
  obtain rfl := hV _ _ _ _ hcomplete
  obtain ⟨u, rfl⟩ := hV _ _ _ _ haudit
  rw [CreditAssessmentUpdate.apply_id] at hy
  refine ⟨assessment, snapshot, score.2.2.2,
    ⟨record, customer, balances, _, _, _, hcustomer, hdecision, hprofile, hrow, ?_⟩⟩
  simp only [CreditAssessmentUpdate.apply_id, hx, hy, List.nil_append, List.cons_append]
  exact ⟨_, _, rfl⟩

/-- Everything the transaction of `createAssessment` does. -/
theorem createAssessmentTx_runs (hV : Replying V) {ws : List Write} {r : Replay}
    (hr : Runs V [] (CreditService.createAssessmentTx env args) ws r) :
    ws = [] ∨ ∃ row snapshot decision, AssessmentRun V env args ws row snapshot decision := by
  simp only [CreditService.createAssessmentTx, IdempotencyService.begin, runs_bind, runs_send] at hr
  obtain ⟨_, began, ⟨_, found, hfind, _, rfl, hbegin⟩, _, rfl, hr⟩ := hr
  obtain rfl := hV _ _ _ _ hfind
  cases found with
  | some existing =>
      simp only [runs_bind, assert, runs_ensure, orThrow, runs_require, runs_return] at hbegin
      obtain ⟨_, _, ⟨rfl, -⟩, _, rfl, _, replay, ⟨rfl, -⟩, _, rfl, rfl, rfl⟩ := hbegin
      obtain ⟨rfl, -⟩ := runs_return.mp hr
      exact Or.inl rfl
  | none =>
      simp only [runs_bind, runs_send, runs_return] at hbegin
      obtain ⟨_, created, hcreate, _, rfl, rfl, rfl⟩ := hbegin
      obtain ⟨-, rfl⟩ := hV _ _ _ _ hcreate
      simp only [CreditService.createNew, runs_bind, runs_send, orThrow, runs_require,
        runs_ofExcept] at hr
      obtain ⟨_, _, hcustomer, _, rfl, _, found, ⟨rfl, rfl⟩, _, rfl, _, _, ⟨rfl, -⟩, _, rfl, hr⟩ :=
        hr
      obtain rfl := hV _ _ _ _ hcustomer
      exact Or.inr (by simpa using createScored_runs hV (by simpa using hcustomer) (by simpa using hr))

/-- What the transaction of a new assessment writes. -/
structure Assessed (row : CreditAssessment) (ws : List Write) : Prop where
  writes : ∃ record snapshot scored d event,
    ws = [.idempotencyRecord record, .snapshot snapshot, .assessment row,
      .updateAssessment row.id { status := .dataCollected }, .updateAssessment row.id scored,
      .updateAssessment row.id { status := .underReview }, .updateIdempotencyRecord record.id d,
      .ledger (.auditEvent event)]

/-- Everything the transaction of `createAssessment` writes. -/
theorem createAssessment_runs (hV : Replying V) {ws : List Write} {r : Replay}
    (hr : Runs V [] (CreditService.createAssessmentTx env args) ws r) :
    ws = [] ∨ ∃ row, Assessed row ws := by
  refine (createAssessmentTx_runs hV hr).imp_right ?_
  rintro ⟨row, snapshot, decision, hrun⟩
  obtain ⟨record, _, _, _, _, _, -, -, -, -, d, event, rfl⟩ := hrun.found
  exact ⟨row, record, snapshot, _, d, event, rfl⟩

/-- An update of the last assessment. -/
theorem rows_updateAssessment {s : Store} {l : List CreditAssessment} {x : CreditAssessment}
    (h : s.assessments.rows = l ++ [x]) (d : CreditAssessmentUpdate) :
    ((Write.updateAssessment x.id d).apply s).assessments.rows = l ++ [d.apply x] :=
  Table.rows_modify_last h rfl d.apply d.apply_id fun _ => rfl

/-- A new assessment adds its row and a snapshot of its own. -/
theorem AssessmentRun.rows {ws : List Write} {row : CreditAssessment}
    {snapshot : CreditProfileSnapshot} {decision : CreditDecision}
    (h : AssessmentRun V env args ws row snapshot decision) {s : Store}
    (hadm : database.Admissible s ws) :
    (database.applyAll ws s).assessments.rows = s.assessments.rows ++ [scoredRow row decision] ∧
      (database.applyAll ws s).snapshots.rows = s.snapshots.rows ++ [snapshot] := by
  obtain ⟨record, _, _, _, _, _, -, -, -, -, d, event, rfl⟩ := h.found
  have hassessment : s.assessments.Fresh row :=
    Table.fresh_of_absent (Bool.eq_false_iff.mpr (hadm.absent (w := .assessment row) (by simp)
      (x := .assessment row.id) (by simp [database, Write.adds]))) (by simp)
  have hsnapshot : s.snapshots.Fresh snapshot :=
    Table.fresh_of_absent (Bool.eq_false_iff.mpr (hadm.absent (w := .snapshot snapshot) (by simp)
      (x := .snapshot snapshot.id) (by simp [database, Write.adds]))) (by simp)
  refine ⟨?_, Table.rows_insert hsnapshot⟩
  have hcreated : ((Write.assessment row).apply s).assessments.rows = s.assessments.rows ++ [row] :=
    Table.rows_insert hassessment
  have hcollected := rows_updateAssessment hcreated { status := .dataCollected }
  have hscored := rows_updateAssessment hcollected (scoredData decision)
  exact rows_updateAssessment hscored { status := .underReview }

end Runs

/-! ## The row of an assessment -/

theorem get?_updateAssessment {id : Uuid} {d : CreditAssessmentUpdate} (s : Store) (id' : Uuid) :
    ((Write.updateAssessment id d).apply s).assessments.get? id' =
      (s.assessments.get? id').map fun x => if id' = id then d.apply x else x := by
  simp only [Write.apply, Table.get?_modify]

/-- A write that does not lock an assessment leaves it alone. -/
theorem get?_apply {id : Uuid} {w : Write} (h : Key.assessment id ∉ w.locks) (s : Store) :
    (w.apply s).assessments.get? id = s.assessments.get? id := by
  cases w with
  | assessment r =>
      have hne : r.id ≠ id := fun heq => h (by simp [Write.locks, Write.adds, heq])
      by_cases hfresh : s.assessments.Fresh r
      · show (s.assessments.insert r).get? id = _
        rw [Table.get?_insert hfresh, if_neg hne]
      · show (s.assessments.insert r).get? id = _
        rw [Table.insert, dif_neg hfresh]
  | updateAssessment id' d =>
      have hne : id ≠ id' := fun heq => h (by simp [Write.locks, heq])
      rw [get?_updateAssessment]
      simp [hne]
  | _ => rfl

theorem get?_applyAll {id : Uuid} {ws : List Write}
    (h : Key.assessment id ∉ database.locksOf ws) (s : Store) :
    (database.applyAll ws s).assessments.get? id = s.assessments.get? id := by
  induction ws generalizing s with
  | nil => rfl
  | cons w ws ih =>
      rw [Database.locksOf, List.flatMap_cons, List.mem_append, not_or] at h
      exact (ih h.2 _).trans (get?_apply h.1 s)

/-- A new assessment leaves the assessments alone that are there. -/
theorem Assessed.untouched {row : CreditAssessment} {ws : List Write} (h : Assessed row ws) {s : Store}
    (hadm : database.Admissible s ws) {id : Uuid} (hid : (s.assessments.get? id).isSome) :
    (database.applyAll ws s).assessments.get? id = s.assessments.get? id := by
  obtain ⟨record, snapshot, scored, d, event, rfl⟩ := h.writes
  have hne : row.id ≠ id := by
    rintro rfl
    have habsent : ¬ database.present s (.assessment row.id) = true :=
      hadm.absent (w := .assessment row) (by simp) (by simp [database, Write.adds])
    exact habsent hid
  refine get?_applyAll ?_ s
  simp [Database.locksOf, database, Write.locks, Write.adds, hne.symm]

end LedgerCredit.Credit
