import LedgerCredit.Credit.Traceable

/-!
# Assessment keys

A key of `createAssessment` takes effect once, on any schedule, also when the thresholds change
between two calls.

*Records.*  Assessments and idempotency records go together, one to one (`Store.Keyed`).  The
record of an assessment has the hash of what was asked, and the response has the score and the
rationale that are stored.  A review changes neither, so the response never goes stale.

*Commits.*  A transaction under a key that is used writes nothing, and one under a new key adds
one assessment and its record (`KeyEffect`).  The score in the response is what the last of three
updates replies, so it has to be followed through the writes of the transaction (`Saw.updated`).

*Calls.*  What a call returned stays the stored response (`Store.Answered`), and it is what every
later call under the key returns.
-/

namespace LedgerCredit.Credit

open Txn

/-! ## Assessments and their records -/

/-- The response to a new assessment. -/
def CreditAssessment.response (x : CreditAssessment) : Replay :=
  ⟨202, ⟨x.id, .underReview, x.score, x.rationaleSummary⟩⟩

/-- The record tells of the assessment: the hash of what was asked, and the response. -/
structure IdempotencyRecord.Tells (hash : Uuid → String → String) (record : IdempotencyRecord)
    (x : CreditAssessment) : Prop where
  operationType : record.operationType = "credit-assessment.create"
  requestHash : record.requestHash = hash x.customerId x.requestedBy
  status : record.status = .succeeded
  resourceId : record.resourceId = some x.id
  response : record.replay? = some x.response

/-- Assessments and records correspond. -/
structure Store.Keyed (hash : Uuid → String → String) (s : Store) : Prop where
  record : ∀ x ∈ s.assessments.rows, ∃ record ∈ s.idempotencyRecords.rows, record.Tells hash x
  assessment : ∀ record ∈ s.idempotencyRecords.rows, ∃ x ∈ s.assessments.rows, record.Tells hash x
  once : (s.idempotencyRecords.rows.map (·.resourceId)).Nodup

/-- The response is stored under the key, for requests with the hash. -/
def Store.Answered (s : Store) (key requestHash : String) (r : Replay) : Prop :=
  ∃ record ∈ s.idempotencyRecords.rows, record.operationType = "credit-assessment.create" ∧
    record.key = key ∧ record.requestHash = requestHash ∧ record.replay? = some r

/-- A record was stored under the key. -/
def Store.Used (s : Store) (key : String) : Prop :=
  ∃ record ∈ s.idempotencyRecords.rows, record.operationType = "credit-assessment.create" ∧
    record.key = key

/-- The row `y` answers the request of the row `x`. -/
structure CreditAssessment.Same (x y : CreditAssessment) : Prop where
  id : y.id = x.id
  customerId : y.customerId = x.customerId
  requestedBy : y.requestedBy = x.requestedBy
  score : y.score = x.score
  rationaleSummary : y.rationaleSummary = x.rationaleSummary

/-- How stores evolve. -/
structure Store.Grows (s s' : Store) : Prop where
  records : s.idempotencyRecords.rows <+: s'.idempotencyRecords.rows
  assessments : ∀ x ∈ s.assessments.rows, ∃ y ∈ s'.assessments.rows, y.id = x.id

section Stored

variable {hash : Uuid → String → String} {s s' : Store} {key requestHash : String}
  {x y : CreditAssessment}

theorem CreditAssessment.Same.refl (x : CreditAssessment) : x.Same x := ⟨rfl, rfl, rfl, rfl, rfl⟩

theorem CreditAssessment.Same.response (h : x.Same y) : y.response = x.response := by
  rw [CreditAssessment.response, CreditAssessment.response, h.id, h.score, h.rationaleSummary]

theorem IdempotencyRecord.Tells.same {record : IdempotencyRecord} (h : record.Tells hash x)
    (hsame : x.Same y) : record.Tells hash y where
  operationType := h.operationType
  requestHash := by rw [h.requestHash, hsame.customerId, hsame.requestedBy]
  status := h.status
  resourceId := by rw [h.resourceId, hsame.id]
  response := by rw [h.response, hsame.response]

theorem Store.Grows.refl (s : Store) : s.Grows s := ⟨List.prefix_rfl, fun x hx => ⟨x, hx, rfl⟩⟩

theorem Store.Grows.trans {s'' : Store} (h : s.Grows s') (h' : s'.Grows s'') : s.Grows s'' where
  records := h.records.trans h'.records
  assessments := by
    intro x hx
    obtain ⟨y, hy, hid⟩ := h.assessments x hx
    obtain ⟨z, hz, hid'⟩ := h'.assessments y hy
    exact ⟨z, hz, hid'.trans hid⟩

theorem Store.Answered.grows {r : Replay} (h : s.Answered key requestHash r) (hs : s.Grows s') :
    s'.Answered key requestHash r := by
  obtain ⟨record, hmem, hrecord⟩ := h
  exact ⟨record, hs.records.subset hmem, hrecord⟩

/-- One key has one response. -/
theorem Store.Answered.unique {r r' : Replay} {requestHash' : String}
    (h : s.Answered key requestHash r) (h' : s.Answered key requestHash' r') :
    r = r' ∧ requestHash = requestHash' := by
  obtain ⟨record, hmem, htype, hkey, hhash, hreplay⟩ := h
  obtain ⟨record', hmem', htype', hkey', hhash', hreplay'⟩ := h'
  obtain rfl := Table.eq_of_uk hmem hmem' (u := ("credit-assessment.create", key))
    (by simp [htype, hkey]) (by simp [htype', hkey'])
  exact ⟨Option.some.inj (hreplay.symm.trans hreplay'), hhash.symm.trans hhash'⟩

/-- A stored response is the response of an assessment that was asked for. -/
theorem Store.Answered.assessment {r : Replay} (h : s.Answered key requestHash r)
    (hs : s.Keyed hash) : ∃ x ∈ s.assessments.rows, hash x.customerId x.requestedBy = requestHash ∧
      r = x.response := by
  obtain ⟨record, hmem, -, -, hhash, hreplay⟩ := h
  obtain ⟨x, hx, htells⟩ := hs.assessment record hmem
  exact ⟨x, hx, htells.requestHash.symm.trans hhash,
    Option.some.inj (hreplay.symm.trans htells.response)⟩

end Stored

/-! ## Effects -/

/-- What a transaction of `createAssessment` is about. -/
def Label.args : {α : Type} → Label α → Option CreateAssessmentArgs
  | _, .createAssessment args => some args
  | _, .statement _ => none

/-- What a transaction of `createAssessment` returns. -/
def Label.replay : {α : Type} → Label α → α → Option Replay
  | _, .createAssessment _, r => some r
  | _, .statement _, _ => none

/-- What a commit does to the assessments and the records. -/
inductive KeyEffect (hash : Uuid → String → String) (s s' : Store) :
    Option CreateAssessmentArgs → Option Replay → Prop
  | other (f : CreditAssessment → CreditAssessment)
      (same : ∀ x : CreditAssessment, x.Same (f x))
      (hassessments : s'.assessments.rows = s.assessments.rows.map f)
      (hrecords : s'.idempotencyRecords = s.idempotencyRecords) : KeyEffect hash s s' none none
  | replayed {args : CreateAssessmentArgs} {r : Replay}
      (answered : s.Answered args.idempotencyKey args.requestHash r) (hsame : s' = s) :
      KeyEffect hash s s' (some args) (some r)
  | created {args : CreateAssessmentArgs} (x : CreditAssessment) (record : IdempotencyRecord)
      (key : record.key = args.idempotencyKey) (requestHash : record.requestHash = args.requestHash)
      (tells : record.Tells hash x) (fresh : ∀ y ∈ s.assessments.rows, y.id ≠ x.id)
      (hassessments : s'.assessments.rows = s.assessments.rows ++ [x])
      (hrecords : s'.idempotencyRecords.rows = s.idempotencyRecords.rows ++ [record]) :
      KeyEffect hash s s' (some args) (some x.response)

section Effects

variable {hash : Uuid → String → String} {s s' : Store} {o : Option CreateAssessmentArgs}
  {result : Option Replay}

theorem KeyEffect.grows (h : KeyEffect hash s s' o result) : s.Grows s' := by
  cases h with
  | other f same hassessments hrecords =>
      refine ⟨hrecords ▸ List.prefix_rfl, fun x hx => ⟨f x, ?_, (same x).id⟩⟩
      exact hassessments ▸ List.mem_map_of_mem hx
  | replayed _ hsame => exact hsame ▸ .refl s
  | created x record _ _ _ _ hassessments hrecords =>
      refine ⟨⟨_, hrecords.symm⟩, fun y hy => ⟨y, ?_, rfl⟩⟩
      exact hassessments ▸ List.mem_append_left _ hy

/-- Assessments and records stay together. -/
theorem KeyEffect.keyed (h : KeyEffect hash s s' o result) (hs : s.Keyed hash) : s'.Keyed hash := by
  cases h with
  | other f same hassessments hrecords =>
      refine ⟨fun y hy => ?_, fun record hrecord => ?_, hrecords ▸ hs.once⟩
      · rw [hassessments] at hy
        obtain ⟨x, hx, rfl⟩ := List.mem_map.mp hy
        obtain ⟨record, hrecord, htells⟩ := hs.record x hx
        exact ⟨record, hrecords ▸ hrecord, htells.same (same x)⟩
      · obtain ⟨x, hx, htells⟩ := hs.assessment record (hrecords ▸ hrecord)
        exact ⟨f x, hassessments ▸ List.mem_map_of_mem hx, htells.same (same x)⟩
  | replayed _ hsame => exact hsame ▸ hs
  | created x record _ _ tells fresh hassessments hrecords =>
      refine ⟨?_, ?_, ?_⟩
      · rw [hassessments, hrecords]
        refine List.forall_mem_append.mpr ⟨fun y hy => ?_, List.forall_mem_singleton.mpr
          ⟨record, List.mem_append_right _ (List.mem_singleton_self _), tells⟩⟩
        obtain ⟨old, hold, htells⟩ := hs.record y hy
        exact ⟨old, List.mem_append_left _ hold, htells⟩
      · rw [hassessments, hrecords]
        refine List.forall_mem_append.mpr ⟨fun old hold => ?_, List.forall_mem_singleton.mpr
          ⟨x, List.mem_append_right _ (List.mem_singleton_self _), tells⟩⟩
        obtain ⟨y, hy, htells⟩ := hs.assessment old hold
        exact ⟨y, List.mem_append_left _ hy, htells⟩
      · rw [hrecords, List.map_append, List.map_singleton]
        refine List.nodup_append.mpr ⟨hs.once, List.nodup_singleton _, ?_⟩
        rintro _ hold _ hnew rfl
        -- an older record tells of an older assessment
        obtain ⟨old, hmem, heq⟩ := List.mem_map.mp hold
        obtain ⟨y, hy, htells⟩ := hs.assessment old hmem
        rw [List.mem_singleton, tells.resourceId, ← heq, htells.resourceId] at hnew
        exact fresh y hy (Option.some.inj hnew)

/-- The result is stored under its key. -/
theorem KeyEffect.answered {args : CreateAssessmentArgs} {r : Replay}
    (h : KeyEffect hash s s' (some args) (some r)) :
    s'.Answered args.idempotencyKey args.requestHash r := by
  cases h with
  | replayed answered hsame => exact hsame ▸ answered
  | created x record key requestHash tells _ _ hrecords =>
      refine ⟨record, ?_, tells.operationType, key, requestHash, tells.response⟩
      rw [hrecords]
      exact List.mem_append_right _ (List.mem_singleton_self _)

/-- A transaction under a used key leaves the store as it is. -/
theorem KeyEffect.used {args : CreateAssessmentArgs} (h : KeyEffect hash s s' (some args) result)
    (hused : s.Used args.idempotencyKey) : s' = s := by
  cases h with
  | replayed _ hsame => exact hsame
  | created x record key _ tells fresh _ hrecords =>
      obtain ⟨old, hmem, htype, hkey⟩ := hused
      have hold : old ∈ s'.idempotencyRecords.rows := hrecords ▸ List.mem_append_left _ hmem
      have hnew : record ∈ s'.idempotencyRecords.rows :=
        hrecords ▸ List.mem_append_right _ (List.mem_singleton_self _)
      have heq : old = record := Table.eq_of_uk hold hnew
        (u := ("credit-assessment.create", args.idempotencyKey)) (by simp [htype, hkey])
        (by simp [tells.operationType, key])
      have hnodup := s'.idempotencyRecords.pk_nodup
      rw [hrecords, List.map_append] at hnodup
      exact absurd (congrArg (·.id) heq) ((List.nodup_append.mp hnodup).2.2 old.id
        (List.mem_map_of_mem hmem) _ (List.mem_singleton_self _))

end Effects

/-! ## Commits -/

/-- The statement of `e` was executed, under the writes `p`, on an earlier store. -/
def Saw (s : Store) (p : List Write) (e : Event Stmt Write) : Prop :=
  ∃ s₀ ch, s₀.Grows s ∧ (database.applyAll p s₀).exec e.query ch = .ok (e.reply, e.writes)

/-- The writes of a new assessment up to some updates of its row. -/
def createdWrites (record : IdempotencyRecord) (snapshot : CreditProfileSnapshot)
    (row : CreditAssessment) (updates : List CreditAssessmentUpdate) : List Write :=
  [.idempotencyRecord record, .snapshot snapshot, .assessment row] ++
    updates.map (.updateAssessment row.id)

section Commits

variable {env : Env} {s : Store} {args : CreateAssessmentArgs} {p ws : List Write}
  {record : IdempotencyRecord} {snapshot : CreditProfileSnapshot} {row : CreditAssessment}
  {updates : List CreditAssessmentUpdate}

theorem replying_saw : Replying (Saw s) := by
  rintro p α q r ws ⟨_, _, _, hexec⟩
  exact replies_of_exec hexec

theorem get?_updates (hget : s.assessments.get? row.id = some row) :
    (database.applyAll (updates.map (.updateAssessment row.id)) s).assessments.get? row.id =
      some (updates.foldl (fun x d => d.apply x) row) := by
  induction updates generalizing s row with
  | nil => exact hget
  | cons d updates ih =>
      apply @ih _ (d.apply row)
      show ((Write.updateAssessment row.id d).apply s).assessments.get? row.id = _
      rw [get?_updateAssessment, hget]
      simp

/-- The row of a new assessment after some updates, on any store that has no such row. -/
theorem get?_createdWrites (hfresh : ∀ y ∈ s.assessments.rows, y.id ≠ row.id) :
    (database.applyAll (createdWrites record snapshot row updates) s).assessments.get? row.id =
      some (updates.foldl (fun x d => d.apply x) row) := by
  rw [createdWrites, Database.applyAll_append]
  refine get?_updates ?_
  have hf : s.assessments.Fresh row := Table.fresh_of_pk (by
    rw [Option.isSome_eq_false_iff, Option.isNone_iff_eq_none]
    exact Table.get?_eq_none.mpr hfresh) rfl
  show (s.assessments.insert row).get? row.id = some row
  rw [Table.get?_insert hf, if_pos rfl]

/-- An update of a new assessment replies what the updates before it left. -/
theorem Saw.updated (record : IdempotencyRecord) (snapshot : CreditProfileSnapshot)
    (updates : List CreditAssessmentUpdate) {d : CreditAssessmentUpdate} {y : CreditAssessment}
    (hfresh : ∀ x ∈ s.assessments.rows, x.id ≠ row.id)
    (h : Saw s (createdWrites record snapshot row updates)
      ⟨.updateAssessment row.id d, y, ws⟩) :
    y = (updates ++ [d]).foldl (fun x d => d.apply x) row ∧ ws = [.updateAssessment row.id d] := by
  obtain ⟨s₀, ch, hgrows, hexec⟩ := h
  have hfresh₀ : ∀ x ∈ s₀.assessments.rows, x.id ≠ row.id := by
    intro x hx
    obtain ⟨x', hx', hid⟩ := hgrows.assessments x hx
    exact hid ▸ hfresh x' hx'
  simp only [Store.exec, get?_createdWrites hfresh₀] at hexec
  obtain ⟨-, rfl, rfl⟩ := attempt_eq_ok hexec
  exact ⟨by simp, rfl⟩

/-- The customer that is found has the id that was asked for. -/
theorem Saw.customer {id : Uuid} {customer : Customer} {balances : List (Option BalanceProjection)}
    (h : Saw s p ⟨.findCustomer id, some (customer, balances), ws⟩) : customer.id = id := by
  obtain ⟨s₀, ch, -, hexec⟩ := h
  simp only [Store.exec, Except.ok.injEq, Prod.mk.injEq, Option.map_eq_some_iff] at hexec
  obtain ⟨⟨customer', hcustomer, rfl, -⟩, -⟩ := hexec
  exact (Table.get?_eq_some.mp hcustomer).2

/-- A record that is found is still there. -/
theorem Saw.found {operationType key : String}
    (h : Saw s [] ⟨.findIdempotencyRecord operationType key, some record, ws⟩) :
    record ∈ s.idempotencyRecords.rows ∧ record.operationType = operationType ∧
      record.key = key := by
  obtain ⟨s₀, ch, hgrows, hexec⟩ := h
  simp only [Database.applyAll_nil, Store.exec, Except.ok.injEq, Prod.mk.injEq] at hexec
  obtain ⟨hmem, hkey⟩ := Table.find?_eq_some.mp hexec.1
  obtain ⟨htype, hkey⟩ := Prod.mk.inj (Option.some.inj hkey)
  exact ⟨hgrows.records.subset hmem, htype, hkey⟩

/-- The record of a new assessment. -/
def succeededRecord (args : CreateAssessmentArgs) (u : Uuid) (x : CreditAssessment) :
    IdempotencyRecord where
  id := u
  key := args.idempotencyKey
  operationType := "credit-assessment.create"
  requestHash := args.requestHash
  status := .succeeded
  responseStatusCode := some 202
  responseBody := some x.response.body
  resourceType := some "credit_assessment"
  resourceId := some x.id

theorem rows_updateIdempotencyRecord {rows : List IdempotencyRecord}
    (h : s.idempotencyRecords.rows = rows ++ [record]) (d : IdempotencyRecordUpdate) :
    ((Write.updateIdempotencyRecord record.id d).apply s).idempotencyRecords.rows =
      rows ++ [d.apply record] :=
  Table.rows_modify_last h rfl d.apply d.apply_id d.apply_uk

theorem createScored_effect {hash : Uuid → String → String} {u customerId : Uuid}
    {balances : List (Option BalanceProjection)} {r : Replay}
    (hhash : args.requestHash = hash args.input.customerId args.input.requestedBy)
    (hcustomer : customerId = args.input.customerId)
    (hrecord : record = IdempotencyService.recordData "credit-assessment.create"
      args.idempotencyKey args.requestHash u)
    (hr : Runs (Saw s) [.idempotencyRecord record]
      (CreditService.createScored env args record.id customerId balances) ws r)
    (hadm : database.Admissible s (.idempotencyRecord record :: ws)) :
    KeyEffect hash s (database.applyAll (.idempotencyRecord record :: ws) s) (some args)
      (some r) := by
  simp only [CreditService.createScored, runs_bind, runs_send, IdempotencyService.complete,
    runs_return] at hr
  obtain ⟨_, score, hscore, _, rfl, _, snapshot, hsnapshot, _, rfl, _, row, hcreate, _, rfl,
    _, collected, hcollect, _, rfl, _, scored, hscored, _, rfl, _, reviewed, hreview, _, rfl, _, _,
    hcomplete, _, rfl, _, _, haudit, _, rfl, rfl, rfl⟩ := hr
  obtain ⟨rfl, -⟩ := scoreCustomer_runs replying_saw hscore
  obtain ⟨-, rfl⟩ := replying_saw _ _ _ _ hsnapshot
  obtain ⟨⟨u', hrow⟩, rfl⟩ := replying_saw _ _ _ _ hcreate
  have hfresh : ∀ x ∈ s.assessments.rows, x.id ≠ row.id := by
    intro x hx hid
    refine hadm.absent (w := .assessment row) (x := .assessment row.id) (by simp)
      (by simp [database, Write.adds]) (Option.isSome_iff_exists.mpr ⟨x, ?_⟩)
    exact Table.get?_eq_some.mpr ⟨hx, hid⟩
  -- each update replies what the ones before it left
  obtain ⟨rfl, hcollected⟩ := Saw.updated record snapshot [] hfresh
    (by simpa [createdWrites] using hcollect)
  obtain ⟨rfl, hscored'⟩ := Saw.updated record snapshot [{ status := .dataCollected }] hfresh
    (by simpa [createdWrites, hcollected] using hscored)
  obtain ⟨rfl, hreviewed⟩ := Saw.updated record snapshot
    [{ status := .dataCollected }, scoredData score.2.2.2] hfresh
    (by simpa [createdWrites, hcollected, hscored', scoredData] using hreview)
  obtain rfl := replying_saw _ _ _ _ hcomplete
  obtain ⟨_, rfl⟩ := replying_saw _ _ _ _ haudit
  obtain rfl := hcollected
  obtain rfl := hscored'
  obtain rfl := hreviewed
  have hrecordFresh : s.idempotencyRecords.Fresh record :=
    Table.fresh_of_absent (Bool.eq_false_iff.mpr (hadm.absent (w := .idempotencyRecord record)
      (by simp) (x := .idempotencyRecord record.id) (by simp [database, Write.adds]))) (by
        rintro _ ⟨⟩
        exact Bool.eq_false_iff.mpr (hadm.absent (w := .idempotencyRecord record) (by simp)
          (x := .idempotencyKey record.operationType record.key) (by simp [database, Write.adds])))
  have hcreated : ((Write.assessment row).apply s).assessments.rows = s.assessments.rows ++ [row] :=
    Table.rows_insert (Table.fresh_of_pk (by
      rw [Option.isSome_eq_false_iff, Option.isNone_iff_eq_none]
      exact Table.get?_eq_none.mpr hfresh) rfl)
  have hrows := rows_updateAssessment (rows_updateAssessment (rows_updateAssessment hcreated
    { status := .dataCollected }) (scoredData score.2.2.2)) { status := .underReview }
  refine .created (scoredRow row score.2.2.2) (succeededRecord args u (scoredRow row score.2.2.2))
    rfl rfl ⟨rfl, ?_, rfl, rfl, rfl⟩ hfresh hrows ?_
  · rw [hrow, hcustomer]
    exact hhash
  · subst hrecord
    exact rows_updateIdempotencyRecord (s := (Write.idempotencyRecord _).apply s)
      (Table.rows_insert hrecordFresh) ⟨.succeeded, 202,
        (scoredRow row score.2.2.2).response.body, some "credit_assessment", some row.id⟩

/-- Everything the transaction of `createAssessment` does to assessments and records. -/
theorem createAssessmentTx_effect {hash : Uuid → String → String} {r : Replay}
    (hhash : args.requestHash = hash args.input.customerId args.input.requestedBy)
    (hr : Runs (Saw s) [] (CreditService.createAssessmentTx env args) ws r)
    (hadm : database.Admissible s ws) :
    KeyEffect hash s (database.applyAll ws s) (some args) (some r) := by
  simp only [CreditService.createAssessmentTx, IdempotencyService.begin, runs_bind, runs_send] at hr
  obtain ⟨_, began, ⟨_, found, hfind, _, rfl, hbegin⟩, _, rfl, hr⟩ := hr
  obtain rfl := replying_saw _ _ _ _ hfind
  cases found with
  | some existing =>
      simp only [runs_bind, assert, runs_ensure, orThrow, runs_require, runs_return] at hbegin
      obtain ⟨_, _, ⟨rfl, hsame⟩, _, rfl, _, replay, ⟨rfl, hreplay⟩, _, rfl, rfl, rfl⟩ := hbegin
      obtain ⟨rfl, rfl⟩ := runs_return.mp hr
      obtain ⟨hmem, htype, hkey⟩ := hfind.found
      exact .replayed ⟨existing, hmem, htype, hkey, by simpa using hsame, hreplay⟩ rfl
  | none =>
      simp only [runs_bind, runs_send, runs_return] at hbegin
      obtain ⟨_, created, hcreate, _, rfl, rfl, rfl⟩ := hbegin
      obtain ⟨⟨u, hrecord⟩, rfl⟩ := replying_saw _ _ _ _ hcreate
      simp only [CreditService.createNew, runs_bind, runs_send, orThrow, runs_require,
        runs_ofExcept] at hr
      obtain ⟨_, _, hcustomer, _, rfl, _, found, ⟨rfl, rfl⟩, _, rfl, _, _, ⟨rfl, -⟩, _, rfl, hr⟩ :=
        hr
      obtain rfl := replying_saw _ _ _ _ hcustomer
      simpa using createScored_effect hhash (Saw.customer hcustomer) hrecord (by simpa using hr)
        (by simpa using hadm)

end Commits

/-! ## Calls -/

/-- The configuration with other thresholds. -/
def Env.withThresholds (env : Env) (thresholds : Nat × Nat) : Env :=
  { env with
    scoreApproveThreshold := thresholds.1
    scoreRejectThreshold := thresholds.2 }

/-- The services, where every call brings the thresholds that are configured when it starts. -/
def rethresholded (env : Env) :
    Family (Nat × Nat) Stmt Label TxError Store Write Choice Key Unit Call Reply where
  database := database
  body := fun thresholds => Label.body (env.withThresholds thresholds)
  program := fun thresholds call => call.program (env.withThresholds thresholds)
  idle := .done

abbrev RethresholdedConfig :=
  Config Stmt (fun β => (Nat × Nat) × Label β) TxError Store Write Unit ((Nat × Nat) × Call) Reply

/-- Any schedule of calls with any thresholds. -/
def anyThresholds (_ : RethresholdedConfig) (_ : Action Choice ((Nat × Nat) × Call)) : Bool := true

/-- The transactions that the calls run, besides the statements in them. -/
def Label.keyed (hash : Uuid → String → String) : {α : Type} → Label α → Prop
  | _, .createAssessment args =>
      args.requestHash = hash args.input.customerId args.input.requestedBy
  | _, .statement (.reviewAssessment _ data) => data.score = none ∧ data.rationaleSummary = none
  | _, .statement q => q.common = true

/-- The result of a transaction of `createAssessment` is stored under its key. -/
def Label.answered (s : Store) {α : Type} (l : Label α) (a : α) : Prop :=
  ∀ args r, l.args = some args → l.replay a = some r →
    s.Answered args.idempotencyKey args.requestHash r

/-- What a call of `createAssessment` returned is stored under its key. -/
def Call.answered (env : Env) (s : Store) : Call → Reply → Prop
  | .createAssessment input context, .assessmentCreated r => ∃ key,
      truthy context.idempotencyKey = some key ∧
        s.Answered key (env.hashAssessmentPayload input.customerId input.requestedBy) r
  | _, _ => True

/-- The rules of assessment keys. -/
def assessmentKeyRules (env : Env) : Rules (rethresholded env).system Empty Empty where
  Inv := Store.Keyed env.hashAssessmentPayload
  le := Store.Grows
  born := fun _ => ∅
  rely := fun _ _ _ => True
  pre := fun _ _ l => l.2.keyed env.hashAssessmentPayload
  post := fun _ _ l a s' _ => l.2.answered s' a
  done := fun call a s _ => call.2.answered env s a
  guard := fun _ => []
  Cur := fun _ _ _ _ => True

section Calls

variable {env : Env} {s : Store} {T : Set Empty} {α : Type}

/-- What a transaction may commit, and its effect. -/
theorem keyEffect_of_commits {l : (Nat × Nat) × Label α} {h : List (Event Stmt Write)} {a : α}
    (hc : (assessmentKeyRules env).Commits s T l h a) :
    KeyEffect env.hashAssessmentPayload s (database.applyAll (writes h) s) l.2.args
      (l.2.replay a) := by
  have hsaw : Holds (Saw s) [] h := by
    refine hc.evidence.mono fun p e _ he => ?_
    obtain ⟨s₀, ch, -, hle, hexec⟩ := he.1
    exact ⟨s₀, ch, hle, hexec⟩
  have hruns := runs_of_completes hc.path hsaw
  obtain ⟨thresholds, l⟩ := l
  cases l with
  | createAssessment args => exact createAssessmentTx_effect hc.pre hruns hc.admissible
  | statement q =>
      have hreplies : Replies q a (writes h) := replying_saw _ _ _ _ (runs_send.mp hruns)
      have hkeyed : (Label.statement q).keyed env.hashAssessmentPayload := hc.pre
      cases q with
      | reviewAssessment id data =>
          obtain ⟨-, hwrites⟩ := hreplies
          rw [hwrites]
          obtain ⟨hscore, hrationale⟩ := hkeyed
          refine .other (fun x => if x.id = id then data.apply x else x) (fun x => ?_) rfl rfl
          by_cases hid : x.id = id
          · simp only [hid, if_true]
            exact ⟨rfl, rfl, rfl, by simp [CreditAssessmentUpdate.apply, hscore],
              by simp [CreditAssessmentUpdate.apply, hrationale]⟩
          · simp only [hid, if_false]
            exact .refl x
      | createAuditEvent data =>
          obtain ⟨u, hwrites⟩ := hreplies
          rw [hwrites]
          exact .other id .refl (List.map_id _).symm rfl
      | createSnapshot | createAssessment | updateAssessment | createIdempotencyRecord
      | updateIdempotencyRecord => cases hkeyed
      | _ =>
          have hwrites : writes h = [] := hreplies
          rw [hwrites]
          exact .other id .refl (List.map_id _).symm rfl

theorem uses_keyed {hash : Uuid → String → String} {q : Stmt α} (hq : q.common = true) :
    (statement q).Uses (Label.keyed hash) := by
  refine uses_statement ?_
  cases q with
  | reviewAssessment | createSnapshot | createAssessment | updateAssessment
  | createIdempotencyRecord | updateIdempotencyRecord => cases hq
  | _ => rfl

/-- What is known of the arguments of a transaction of `createAssessment`. -/
theorem assessmentArgs_key {input : CreateCreditAssessmentRequest} {context : RequestContext}
    {args : CreateAssessmentArgs} (h : CreditService.assessmentArgs env input context = .ok args) :
    truthy context.idempotencyKey = some args.idempotencyKey ∧ args.input = input ∧
      args.requestHash = env.hashAssessmentPayload input.customerId input.requestedBy := by
  obtain ⟨_, -, h⟩ := bind_ok h
  dsimp only at h
  split at h
  · rename_i key hkey
    cases h
    exact ⟨hkey, rfl, rfl⟩
  · cases h

theorem reviewAssessment_keyed {hash : Uuid → String → String} (id : Uuid)
    (reviewRationale : String) (decision : CreditService.Decision) (context : RequestContext) :
    (CreditService.reviewAssessment id reviewRationale decision context).Uses
      (Label.keyed hash) := by
  obtain ⟨correlationId, idempotencyKey, o⟩ := context
  cases o with
  | none => exact .throw
  | some actor =>
      refine .bind uses_ofExcept fun _ => ?_
      refine .bind (uses_keyed (q := .findAssessment _) rfl) fun found => ?_
      refine .bind uses_orThrow fun found => ?_
      show (if found.1.status ≠ .underReview then _ else _ : Process _).Uses _
      split
      · exact .throw
      · refine .bind (uses_keyed (q := .newDate) rfl) fun now => ?_
        refine .bind (uses_statement ⟨rfl, rfl⟩) fun _ => ?_
        exact .bind (uses_keyed (q := .createAuditEvent _) rfl) fun _ => .pure

theorem program_keyed (call : Call) :
    (call.program env).Uses (Label.keyed env.hashAssessmentPayload) := by
  cases call with
  | getTransferById transferRequestId context =>
      refine uses_reply (.bind (uses_keyed (q := .findTransferRequest _) rfl) fun _ => ?_)
      exact .bind uses_orThrow fun _ => .bind uses_ofExcept fun _ => .pure
  | getBalance accountId context =>
      refine uses_reply (.bind (uses_keyed (q := .findAccount _) rfl) fun _ => ?_)
      refine .bind uses_orThrow fun _ => .bind uses_ofExcept fun _ => ?_
      exact .bind (uses_keyed (q := .createAuditEvent _) rfl) fun _ => .pure
  | getLedgerEntries accountId context cursor limit =>
      refine uses_reply (.bind (uses_keyed (q := .findAccount _) rfl) fun _ => ?_)
      refine .bind uses_orThrow fun _ => .bind uses_ofExcept fun _ => .bind uses_ofExcept fun _ => ?_
      refine .bind (uses_keyed (q := .findStatementLines ..) rfl) fun _ => ?_
      exact .bind (uses_keyed (q := .createAuditEvent _) rfl) fun _ => .pure
  | createAssessment input context =>
      refine uses_reply ?_
      show (Process.ofExcept (CreditService.assessmentArgs env input context) >>= fun args =>
        Proc.transaction (Label.createAssessment args) : Process _).Uses _
      cases hargs : CreditService.assessmentArgs env input context with
      | error e => exact .throw
      | ok args =>
          obtain ⟨-, rfl, hhash⟩ := assessmentArgs_key hargs
          exact .transaction hhash
  | getAssessmentById creditAssessmentId context =>
      refine uses_reply (.bind (uses_keyed (q := .findAssessment _) rfl) fun _ => ?_)
      exact .bind uses_orThrow fun _ => .bind uses_ofExcept fun _ => .pure
  | reviewAssessment creditAssessmentId reviewRationale decision context =>
      exact uses_reply (reviewAssessment_keyed _ reviewRationale decision context)

/-- A call of `createAssessment` returns what is stored under its key. -/
theorem createAssessment_safe (thresholds : Nat × Nat) (input : CreateCreditAssessmentRequest)
    (context : RequestContext) :
    (assessmentKeyRules env).Safe
      ((rethresholded env).system.program (thresholds, .createAssessment input context))
      (fun a s _ => Call.answered env s (.createAssessment input context) a) (fun _ _ _ => True)
      s T := by
  show (assessmentKeyRules env).Safe (Proc.relabel _ ((Process.ofExcept
    (CreditService.assessmentArgs (env.withThresholds thresholds) input context) >>= fun args =>
      Proc.transaction (Label.createAssessment args) : Process Replay) >>= fun r =>
        pure (Reply.assessmentCreated r))) _ _ _ _
  cases hargs : CreditService.assessmentArgs (env.withThresholds thresholds) input context with
  | error e => trivial
  | ok args =>
      obtain ⟨hkey, rfl, hhash⟩ := assessmentArgs_key hargs
      refine fun s' _ => ⟨hhash, fun e => trivial, fun r s'' T'' _ _ hpost => ?_⟩
      exact ⟨args.idempotencyKey, hkey, hhash ▸ hpost args r rfl rfl⟩

theorem assessmentKeyRules_valid : (assessmentKeyRules env).Valid anyThresholds where
  lawful := lawful_database
  le_refl := .refl
  le_trans := fun _ _ _ => .trans
  rely_refl := fun _ _ => trivial
  rely_trans := fun _ _ _ _ _ _ => trivial
  born_mono := fun _ _ _ => Set.Subset.refl _
  statements := Rules.unguarded_statements (fun _ => rfl) fun _ _ _ _ => trivial
  commit := by
    intro α s T l h a hc
    have heffect := keyEffect_of_commits hc
    exact ⟨heffect.keyed hc.inv, heffect.grows⟩
  guarantee := fun _ _ _ _ _ _ _ _ => trivial
  result := by
    intro α s T l h a hc
    refine ⟨∅, Set.empty_subset _, fun args r hargs hr => ?_⟩
    have heffect := keyEffect_of_commits hc
    rw [hargs, hr] at heffect
    exact heffect.answered
  start := by
    intro c call _ _
    refine Or.inl ?_
    obtain ⟨thresholds, call⟩ := call
    have huses : ((rethresholded env).system.program (thresholds, call)).Uses
        fun {β} (l : (Nat × Nat) × Label β) => l.2.keyed env.hashAssessmentPayload :=
      (program_keyed call).relabel fun _ hl => hl
    have hfine := Rules.Fine.of_uses (R := assessmentKeyRules env) huses (fun _ _ _ hl => hl)
      c.store ∅
    cases call with
    | createAssessment input context => exact createAssessment_safe thresholds input context
    | _ => exact hfine.mono (fun _ _ _ _ => trivial) fun _ _ _ _ => trivial
  done_le := by
    intro call a s s' _ hdone _ hle
    obtain ⟨thresholds, call⟩ := call
    cases call with
    | createAssessment input context =>
        cases a with
        | assessmentCreated r =>
            obtain ⟨key, hkey, hanswered⟩ := hdone
            exact ⟨key, hkey, hanswered.grows hle⟩
        | _ => trivial
    | _ => trivial
  done_idle := by
    intro call s T
    obtain ⟨thresholds, call⟩ := call
    cases call <;> trivial

end Calls

/-! ## Runs -/

/-- What thread `i` returned to a call of `createAssessment`. -/
def assessmentOf (c : RethresholdedConfig) (i : Nat) :
    Option (CreateCreditAssessmentRequest × RequestContext × Replay) :=
  match c.threads[i]? with
  | some ⟨(_, .createAssessment input context), _, .run (.pure (.assessmentCreated r))⟩ =>
      some (input, context, r)
  | _ => none

theorem answered_of_sound {env : Env} {c : RethresholdedConfig} {own : Owner → Set Empty}
    (hc : (assessmentKeyRules env).Sound c own) {i : Nat} {input : CreateCreditAssessmentRequest}
    {context : RequestContext} {r : Replay} (h : assessmentOf c i = some (input, context, r)) :
    ∃ key, truthy context.idempotencyKey = some key ∧
      c.store.Answered key (env.hashAssessmentPayload input.customerId input.requestedBy) r := by
  unfold assessmentOf at h
  split at h
  · rename_i hth
    cases h
    exact hc.thread i _ hth
  · cases h

/-- A key of `createAssessment` takes effect once, on any schedule of any calls, whatever the
thresholds were when the calls started. -/
theorem assessment_key_once {env : Env} {s : Store} (hassessments : s.assessments.rows = [])
    (hrecords : s.idempotencyRecords.rows = []) {c c' : RethresholdedConfig}
    (hrun : Steps (rethresholded env).system anyThresholds (.initial s) c)
    (hrun' : Steps (rethresholded env).system anyThresholds c c') :
    c.store.Keyed env.hashAssessmentPayload ∧
    (∀ i input context r, assessmentOf c i = some (input, context, r) →
      ∃ key, truthy context.idempotencyKey = some key ∧
        c'.store.Answered key (env.hashAssessmentPayload input.customerId input.requestedBy) r ∧
        ∃ x ∈ c'.store.assessments.rows, r = x.response ∧
          env.hashAssessmentPayload x.customerId x.requestedBy =
            env.hashAssessmentPayload input.customerId input.requestedBy) ∧
    (∀ i j input context r input' context' r', assessmentOf c i = some (input, context, r) →
      assessmentOf c' j = some (input', context', r') →
      truthy context.idempotencyKey = truthy context'.idempotencyKey →
      r = r' ∧ env.hashAssessmentPayload input.customerId input.requestedBy =
        env.hashAssessmentPayload input'.customerId input'.requestedBy) ∧
    ∀ i ch call pool thresholds args h result k,
      c.threads[i]? =
        some ⟨call, pool, .opened (thresholds, .createAssessment args) h (.pure result) k⟩ →
      c.store.Used args.idempotencyKey →
      ∀ c'', (rethresholded env).system.step c (.advance i ch) = some c'' →
        c''.store = c.store := by
  have hinit : s.Keyed env.hashAssessmentPayload :=
    ⟨by simp [hassessments], by simp [hrecords], by simp [hrecords]⟩
  obtain ⟨⟨own, hsound⟩, -⟩ := Rules.sound_of_steps assessmentKeyRules_valid hinit hrun
  obtain ⟨⟨own', hsound'⟩, hle⟩ := hsound.steps assessmentKeyRules_valid hrun'
  refine ⟨hsound.inv, fun i input context r hreturned => ?_, ?_, ?_⟩
  · obtain ⟨key, hkey, hanswered⟩ := answered_of_sound hsound hreturned
    have hstored := hanswered.grows hle
    obtain ⟨x, hx, hhash, hresponse⟩ := hstored.assessment hsound'.inv
    exact ⟨key, hkey, hstored, x, hx, hresponse, hhash⟩
  · intro i j input context r input' context' r' hreturned hreturned' hsame
    obtain ⟨key, hkey, hanswered⟩ := answered_of_sound hsound hreturned
    obtain ⟨key', hkey', hanswered'⟩ := answered_of_sound hsound' hreturned'
    rw [← hsame, hkey] at hkey'
    obtain rfl := Option.some.inj hkey'
    exact (hanswered.grows hle).unique hanswered'
  · intro i ch call pool thresholds args h result k hth hused c'' hstep
    rw [step_commit hth] at hstep
    obtain rfl := Option.some.inj hstep
    exact (keyEffect_of_commits (hsound.commits assessmentKeyRules_valid hth)).used hused

/-- The same request twice, with higher thresholds the second time. -/
def repeatedSchedule : List (Action Choice ((Nat × Nat) × Call)) :=
  .start ((700, 500), .createAssessment ⟨"customer", "officer"⟩ (demoContext "k")) ::
    (List.range 14).map (fun n => .advance 0 (choiceOf ("a" ++ toString n ++ "-"))) ++
    .start ((800, 600), .createAssessment ⟨"customer", "officer"⟩ (demoContext "k")) ::
    (List.range 3).map fun n => .advance 1 (choiceOf ("b" ++ toString n ++ "-"))

theorem assessment_key_once_repeated : ∃ c r r',
    Steps (rethresholded testEnvironment).system anyThresholds (.initial (.over demoStore)) c ∧
      c.store.assessments.rows.length = 1 ∧
      c.store.Keyed testEnvironment.hashAssessmentPayload ∧
      assessmentOf c 0 = some (⟨"customer", "officer"⟩, demoContext "k", r) ∧
      assessmentOf c 1 = some (⟨"customer", "officer"⟩, demoContext "k", r') ∧ r = r' := by
  obtain ⟨c, hrun, hlength, hfirst, hsecond⟩ := exists_of_play
    (rethresholded testEnvironment).system anyThresholds (.initial (.over demoStore))
    repeatedSchedule
    (fun c => c.store.assessments.rows.length = 1 ∧
      (assessmentOf c 0).map (fun x => (x.1, x.2.1)) =
        some (⟨"customer", "officer"⟩, demoContext "k") ∧
      (assessmentOf c 1).map (fun x => (x.1, x.2.1)) =
        some (⟨"customer", "officer"⟩, demoContext "k")) (by decide +kernel)
  obtain ⟨⟨_, _, r⟩, hreturned, heq⟩ := Option.map_eq_some_iff.mp hfirst
  obtain ⟨⟨_, _, r'⟩, hreturned', heq'⟩ := Option.map_eq_some_iff.mp hsecond
  cases heq
  cases heq'
  obtain ⟨hkeyed, -, hsame, -⟩ := assessment_key_once rfl rfl hrun .refl
  exact ⟨c, r, r', hrun, hlength, hkeyed, hreturned, hreturned',
    (hsame _ _ _ _ _ _ _ _ hreturned hreturned' rfl).1⟩

end LedgerCredit.Credit
