import LedgerCredit.Services

/-!
# The tables of credit assessments

Customers, the snapshots of their profiles and the assessments, next to the
tables of the ledger, with the statements of `CreditService` and of the calls
that read accounts and transfers.  The audit trail is the one of the ledger.

The idempotency records of assessments make a table of their own.  The operation
type is part of the unique key, so no statement finds a record of another type.
-/

namespace LedgerCredit.Credit

open Txn

/-! ## Rows -/

inductive CreditAssessmentStatus where
  | requested | dataCollected | scored | underReview | approved | rejected | failed
  deriving DecidableEq, Repr

structure Customer where
  id : Uuid
  externalRef : Option String
  status : String
  deriving DecidableEq, Repr

structure CreditProfileSnapshot where
  id : Uuid
  customerId : Uuid
  paymentHistoryPoints : Int
  averageBalanceMinor : Int
  transactionFrequency : Int
  snapshotVersion : String
  /-- `snapshotData.settledTransferCount`. -/
  settledTransferCount : Nat
  /-- `snapshotData.failedTransferCount`. -/
  failedTransferCount : Nat
  deriving DecidableEq, Repr

structure CreditAssessment where
  id : Uuid
  customerId : Uuid
  creditProfileSnapshotId : Uuid
  status : CreditAssessmentStatus
  score : Option Int
  rationaleSummary : Option String
  policyVersion : String
  requestedBy : String
  reviewedByActorId : Option String
  reviewedByActorType : Option ActorType
  reviewDecisionedAt : Option Time
  reviewRationale : Option String
  approvedThreshold : Int
  rejectedThreshold : Int
  deriving DecidableEq, Repr

/-- The body of the response to a new assessment. -/
structure AssessmentBody where
  creditAssessmentId : Uuid
  status : CreditAssessmentStatus
  score : Option Int
  rationaleSummary : Option String
  deriving DecidableEq, Repr

/-- An idempotency record of an assessment. -/
structure IdempotencyRecord where
  id : Uuid
  key : String
  operationType : String
  requestHash : String
  status : IdempotencyStatus
  responseStatusCode : Option Nat
  responseBody : Option AssessmentBody
  resourceType : Option String
  resourceId : Option String
  deriving DecidableEq, Repr

structure Store where
  ledger : LedgerCredit.Store
  customers : Table Customer (·.id) (·.externalRef)
  snapshots : Table CreditProfileSnapshot (·.id) fun _ => (none : Option Unit)
  assessments : Table CreditAssessment (·.id) fun _ => (none : Option Unit)
  idempotencyRecords : Table IdempotencyRecord (·.id) fun r => some (r.operationType, r.key)

/-! ## Writes -/

/-- The `data` of an update of an assessment; an absent column is left alone. -/
structure CreditAssessmentUpdate where
  status : CreditAssessmentStatus
  score : Option Int := none
  rationaleSummary : Option String := none
  reviewedByActorId : Option (Option String) := none
  reviewedByActorType : Option (Option ActorType) := none
  reviewDecisionedAt : Option Time := none
  reviewRationale : Option String := none
  deriving DecidableEq, Repr

def CreditAssessmentUpdate.apply (d : CreditAssessmentUpdate) (x : CreditAssessment) :
    CreditAssessment :=
  { x with
    status := d.status
    score := d.score.or x.score
    rationaleSummary := d.rationaleSummary.or x.rationaleSummary
    reviewedByActorId := d.reviewedByActorId.getD x.reviewedByActorId
    reviewedByActorType := d.reviewedByActorType.getD x.reviewedByActorType
    reviewDecisionedAt := d.reviewDecisionedAt.or x.reviewDecisionedAt
    reviewRationale := d.reviewRationale.or x.reviewRationale }

@[simp] theorem CreditAssessmentUpdate.apply_id (d : CreditAssessmentUpdate) (x : CreditAssessment) :
    (d.apply x).id = x.id := rfl

@[simp] theorem CreditAssessmentUpdate.apply_customerId (d : CreditAssessmentUpdate)
    (x : CreditAssessment) : (d.apply x).customerId = x.customerId := rfl

/-- The `data` of an update of an idempotency record. -/
structure IdempotencyRecordUpdate where
  status : IdempotencyStatus
  responseStatusCode : Nat
  responseBody : AssessmentBody
  resourceType : Option String := none
  resourceId : Option String := none
  deriving DecidableEq, Repr

def IdempotencyRecordUpdate.apply (d : IdempotencyRecordUpdate) (r : IdempotencyRecord) :
    IdempotencyRecord :=
  { r with
    status := d.status
    responseStatusCode := some d.responseStatusCode
    responseBody := some d.responseBody
    resourceType := d.resourceType.or r.resourceType
    resourceId := d.resourceId.or r.resourceId }

@[simp] theorem IdempotencyRecordUpdate.apply_id (d : IdempotencyRecordUpdate)
    (r : IdempotencyRecord) : (d.apply r).id = r.id := rfl

theorem IdempotencyRecordUpdate.apply_uk (d : IdempotencyRecordUpdate) (r : IdempotencyRecord) :
    some ((d.apply r).operationType, (d.apply r).key) = some (r.operationType, r.key) := rfl

inductive Write where
  | ledger (w : LedgerCredit.Write)
  | snapshot (row : CreditProfileSnapshot)
  | assessment (row : CreditAssessment)
  | updateAssessment (id : Uuid) (data : CreditAssessmentUpdate)
  | idempotencyRecord (row : IdempotencyRecord)
  | updateIdempotencyRecord (id : Uuid) (data : IdempotencyRecordUpdate)
  deriving DecidableEq, Repr

/-- The store after a write. -/
def Write.apply (w : Write) (s : Store) : Store :=
  match w with
  | .ledger w => { s with ledger := w.apply s.ledger }
  | .snapshot r => { s with snapshots := s.snapshots.insert r }
  | .assessment r => { s with assessments := s.assessments.insert r }
  | .updateAssessment id d =>
      { s with assessments := s.assessments.modify id d.apply d.apply_id fun _ => rfl }
  | .idempotencyRecord r => { s with idempotencyRecords := s.idempotencyRecords.insert r }
  | .updateIdempotencyRecord id d =>
      { s with
        idempotencyRecords := s.idempotencyRecords.modify id d.apply d.apply_id d.apply_uk }

inductive Key where
  | ledger (k : LedgerCredit.Key)
  | customer (id : Uuid)
  | snapshot (id : Uuid)
  | assessment (id : Uuid)
  | idempotencyRecord (id : Uuid)
  | idempotencyKey (operationType key : String)
  deriving DecidableEq, Repr

def Store.present (s : Store) : Key → Bool
  | .ledger k => s.ledger.present k
  | .customer id => (s.customers.get? id).isSome
  | .snapshot id => (s.snapshots.get? id).isSome
  | .assessment id => (s.assessments.get? id).isSome
  | .idempotencyRecord id => (s.idempotencyRecords.get? id).isSome
  | .idempotencyKey o k => (s.idempotencyRecords.find? (o, k)).isSome

namespace Write

/-- The unique keys a write adds. -/
def adds : Write → List Key
  | .ledger w => w.adds.map .ledger
  | .snapshot r => [.snapshot r.id]
  | .assessment r => [.assessment r.id]
  | .updateAssessment .. => []
  | .idempotencyRecord r => [.idempotencyRecord r.id, .idempotencyKey r.operationType r.key]
  | .updateIdempotencyRecord .. => []

/-- The foreign keys of a write, and the row it updates. -/
def needs : Write → List Key
  | .ledger w => w.needs.map .ledger
  | .snapshot r => [.customer r.customerId]
  | .assessment r => [.customer r.customerId, .snapshot r.creditProfileSnapshotId]
  | .updateAssessment id _ => [.assessment id]
  | .idempotencyRecord _ => []
  | .updateIdempotencyRecord id _ => [.idempotencyRecord id]

/-- The keys a write locks until its transaction ends. -/
def locks : Write → List Key
  | .ledger w => w.locks.map .ledger
  | .updateAssessment id _ => [.assessment id]
  | .updateIdempotencyRecord id _ => [.idempotencyRecord id]
  | w => w.adds

/-- The numbers a write stores in `INTEGER` columns. -/
def integers : Write → List Int
  | .snapshot r => [r.paymentHistoryPoints, r.transactionFrequency]
  | .assessment r => r.score.toList ++ [r.approvedThreshold, r.rejectedThreshold]
  | .updateAssessment _ d => d.score.toList
  | _ => []

end Write

/-- The range of `INTEGER`. -/
def inInteger (n : Int) : Bool := -2 ^ 31 ≤ n && n < 2 ^ 31

namespace Store

/-- The first constraint a write breaks. -/
def violation (s : Store) : Write → Option DatabaseError
  | .ledger w => s.ledger.violation w
  | w =>
      if w.adds.any s.present then some .uniqueViolation
      else if !w.needs.all s.present then some .missingRow
      else if !w.integers.all inInteger then some .outOfRange
      else none

/-- The reply, if the write breaks no constraint. -/
def attempt {β : Type} (s : Store) (r : β) (w : Write) : Except TxError (β × List Write) :=
  match s.violation w with
  | none => .ok (r, [w])
  | some e => .error (.database e)

end Store

/-! ## Statements -/

/-- `CursorPayload`, with the time that its text stands for. -/
structure CursorPayload where
  effectiveAt : Time
  id : Uuid
  deriving DecidableEq, Repr

inductive Stmt : Type → Type where
  | newDate : Stmt Time
  | createAuditEvent (data : Uuid → AuditEvent) : Stmt Unit
  | findTransferRequest (id : Uuid) : Stmt (Option (TransferRequest × Account))
  | findAccount (id : Uuid) : Stmt (Option (Account × Option BalanceProjection))
  | findStatementLines (accountId : Uuid) (before : Option CursorPayload) (take : Int) :
      Stmt (List (AccountStatementProjection × JournalEntry))
  | findCustomer (id : Uuid) : Stmt (Option (Customer × List (Option BalanceProjection)))
  | countTransferRequests (customerId : Uuid) (statuses : List TransferStatus) : Stmt Nat
  | createSnapshot (data : Uuid → CreditProfileSnapshot) : Stmt CreditProfileSnapshot
  | createAssessment (data : Uuid → CreditAssessment) : Stmt CreditAssessment
  | updateAssessment (id : Uuid) (data : CreditAssessmentUpdate) : Stmt CreditAssessment
  | reviewAssessment (id : Uuid) (data : CreditAssessmentUpdate) :
      Stmt (CreditAssessment × CreditProfileSnapshot)
  | findAssessment (id : Uuid) : Stmt (Option (CreditAssessment × CreditProfileSnapshot))
  | findIdempotencyRecord (operationType key : String) : Stmt (Option IdempotencyRecord)
  | createIdempotencyRecord (data : Uuid → IdempotencyRecord) : Stmt IdempotencyRecord
  | updateIdempotencyRecord (id : Uuid) (data : IdempotencyRecordUpdate) : Stmt Unit

/-- What a query finds, with a row that a foreign key promises to exist. -/
def withRow {α β : Type} (row : α → Option β) :
    Option α → Except TxError (Option (α × β) × List Write)
  | none => .ok (none, [])
  | some a =>
      match row a with
      | some b => .ok (some (a, b), [])
      | none => .error (.database .missingRow)

/-- `take` of `findMany`: a negative number counts from the end. -/
def takeRows {α : Type} (take : Int) (l : List α) : List α :=
  if 0 ≤ take then l.take take.toNat else l.drop (l.length - take.natAbs)

namespace Store

/-- The order of statement lines: the latest first, and the larger id first. -/
def lineBefore (x y : AccountStatementProjection) : Bool :=
  y.effectiveAt < x.effectiveAt || x.effectiveAt = y.effectiveAt && y.id ≤ x.id

/-- The lines of an account, in all or after a cursor. -/
def linesOf (s : LedgerCredit.Store) (accountId : Uuid) (before : Option CursorPayload) :
    List AccountStatementProjection :=
  (s.statementLines.rows.filter fun line => line.accountId = accountId && before.all fun cursor =>
    line.effectiveAt < cursor.effectiveAt ||
      line.effectiveAt = cursor.effectiveAt && line.id < cursor.id).insertionSort
    fun x y => lineBefore x y = true

/-- The lines with their journal entries, which the foreign keys promise to exist. -/
def withJournalEntries (s : LedgerCredit.Store) (lines : List AccountStatementProjection) :
    List (AccountStatementProjection × JournalEntry) :=
  lines.filterMap fun line => (s.journalEntries.get? line.journalEntryId).map (Prod.mk line)

/-- The accounts of a customer. -/
def accountsOf (s : Store) (customerId : Uuid) : List Account :=
  s.ledger.accounts.rows.filter fun a => a.customerId = customerId

/-- The transfers from the accounts of a customer, in some statuses. -/
def transfersOf (s : Store) (customerId : Uuid) (statuses : List TransferStatus) :
    List TransferRequest :=
  s.ledger.transferRequests.rows.filter fun t =>
    t.status ∈ statuses && (s.ledger.accounts.get? t.sourceAccountId).any fun a =>
      a.customerId = customerId

/-- Execute a statement. -/
def exec (s : Store) {β : Type} (q : Stmt β) (c : Choice) : Except TxError (β × List Write) :=
  match q with
  | .newDate => .ok (c.now, [])
  | .createAuditEvent data => s.attempt () (.ledger (.auditEvent (data (c.uuid 0))))
  | .findTransferRequest id =>
      withRow (fun t => s.ledger.accounts.get? t.sourceAccountId) (s.ledger.transferRequests.get? id)
  | .findAccount id =>
      .ok ((s.ledger.accounts.get? id).map fun a => (a, s.ledger.balanceProjections.get? a.id), [])
  | .findStatementLines accountId before take =>
      .ok (takeRows take (withJournalEntries s.ledger (linesOf s.ledger accountId before)), [])
  | .findCustomer id =>
      .ok ((s.customers.get? id).map fun customer =>
        (customer, (arrange c.order (s.accountsOf customer.id)).map fun a =>
          s.ledger.balanceProjections.get? a.id), [])
  | .countTransferRequests customerId statuses =>
      .ok ((s.transfersOf customerId statuses).length, [])
  | .createSnapshot data => s.attempt (data (c.uuid 0)) (.snapshot (data (c.uuid 0)))
  | .createAssessment data => s.attempt (data (c.uuid 0)) (.assessment (data (c.uuid 0)))
  | .updateAssessment id data =>
      match s.assessments.get? id with
      | some x => s.attempt (data.apply x) (.updateAssessment id data)
      | none => .error (.database .missingRow)
  | .reviewAssessment id data =>
      match s.assessments.get? id with
      | some x =>
          match s.snapshots.get? x.creditProfileSnapshotId with
          | some snapshot => s.attempt (data.apply x, snapshot) (.updateAssessment id data)
          | none => .error (.database .missingRow)
      | none => .error (.database .missingRow)
  | .findAssessment id =>
      withRow (fun x => s.snapshots.get? x.creditProfileSnapshotId) (s.assessments.get? id)
  | .findIdempotencyRecord operationType key =>
      .ok (s.idempotencyRecords.find? (operationType, key), [])
  | .createIdempotencyRecord data =>
      s.attempt (data (c.uuid 0)) (.idempotencyRecord (data (c.uuid 0)))
  | .updateIdempotencyRecord id data => s.attempt () (.updateIdempotencyRecord id data)

end Store

/-- The database of assessments and of the ledger. -/
def database : Database Stmt TxError Store Write Choice Key where
  exec := fun q c s => s.exec q c
  apply := Write.apply
  locks := Write.locks
  adds := Write.adds
  needs := Write.needs
  present := Store.present
  aborted := .database .aborted

/-! ## Constraints -/

theorem attempt_eq_ok {α : Type} {s : Store} {r r' : α} {w : Write} {ws : List Write}
    (h : s.attempt r w = .ok (r', ws)) : s.violation w = none ∧ r' = r ∧ ws = [w] := by
  unfold Store.attempt at h
  split at h
  · rename_i hv
    cases h
    exact ⟨hv, rfl, rfl⟩
  · cases h

theorem violation_none {s : Store} {w : Write} (h : s.violation w = none) :
    (∀ x ∈ w.adds, ¬ s.present x = true) ∧ ∀ x ∈ w.needs, s.present x = true := by
  cases w with
  | ledger w =>
      obtain ⟨hadds, hneeds, -, -⟩ := LedgerCredit.violation_none h
      exact ⟨List.forall_mem_map.mpr hadds, List.forall_mem_map.mpr hneeds⟩
  | _ =>
      simp only [Store.violation] at h
      split at h
      · cases h
      · split at h
        · cases h
        · rename_i hadds hneeds
          simp only [List.any_eq_true, not_exists, not_and] at hadds
          simp only [Bool.not_eq_true', Bool.not_eq_false, List.all_eq_true] at hneeds
          exact ⟨hadds, hneeds⟩

/-- A write adds the keys it says. -/
theorem present_apply (w : Write) (s : Store) (h : ∀ x ∈ w.adds, ¬ s.present x = true) (x : Key) :
    (w.apply s).present x = true ↔ s.present x = true ∨ x ∈ w.adds := by
  have absent : ∀ x ∈ w.adds, s.present x = false := fun x hx => by simpa using h x hx
  cases w with
  | ledger w =>
      have hw := LedgerCredit.present_apply w s.ledger
        fun x hx => h (.ledger x) (List.mem_map_of_mem hx)
      cases x with
      | ledger x => simpa [Write.apply, Store.present, Write.adds] using hw x
      | _ => simp [Write.apply, Store.present, Write.adds]
  | snapshot r =>
      have hf : s.snapshots.Fresh r :=
        Table.fresh_of_pk (absent (.snapshot r.id) (by simp [Write.adds])) rfl
      cases x <;> simp [Write.apply, Store.present, Write.adds, Table.isSome_get?_insert hf]
  | assessment r =>
      have hf : s.assessments.Fresh r :=
        Table.fresh_of_pk (absent (.assessment r.id) (by simp [Write.adds])) rfl
      cases x <;> simp [Write.apply, Store.present, Write.adds, Table.isSome_get?_insert hf]
  | idempotencyRecord r =>
      have hf : s.idempotencyRecords.Fresh r := by
        refine Table.fresh_of_absent (absent (.idempotencyRecord r.id) (by simp [Write.adds])) ?_
        rintro u ⟨⟩
        exact absent (.idempotencyKey r.operationType r.key) (by simp [Write.adds])
      cases x <;> simp [Write.apply, Store.present, Write.adds, Table.isSome_get?_insert hf,
        Table.isSome_find?_insert hf]
  | updateAssessment id d => cases x <;> simp [Write.apply, Store.present, Write.adds]
  | updateIdempotencyRecord id d => cases x <;> simp [Write.apply, Store.present, Write.adds]

/-- A statement that succeeds breaks no constraint. -/
theorem exec_admissible {β : Type} {q : Stmt β} {ch : Choice} {s : Store} {r : β} {ws : List Write}
    (h : s.exec q ch = .ok (r, ws)) : database.Admissible s ws := by
  have hattempt : ∀ {r' : β} {w : Write}, s.attempt r' w = .ok (r, ws) →
      database.Admissible s ws := by
    intro r' w hw
    obtain ⟨hv, -, rfl⟩ := attempt_eq_ok hw
    exact ⟨(violation_none hv).1, (violation_none hv).2, trivial⟩
  cases q with
  | findTransferRequest id =>
      simp only [Store.exec, withRow] at h
      split at h
      · cases h; trivial
      · split at h <;> cases h; trivial
  | findAssessment id =>
      simp only [Store.exec, withRow] at h
      split at h
      · cases h; trivial
      · split at h <;> cases h; trivial
  | updateAssessment id data =>
      simp only [Store.exec] at h
      split at h
      · exact hattempt h
      · cases h
  | reviewAssessment id data =>
      simp only [Store.exec] at h
      split at h
      · split at h
        · exact hattempt h
        · cases h
      · cases h
  | _ =>
      simp only [Store.exec] at h
      first
        | exact hattempt h
        | cases h; trivial

theorem lawful_database : database.Lawful where
  present_apply := fun w s h x => present_apply w s h x
  adds_locks := by
    intro w x hx
    cases w with
    | ledger w =>
        obtain ⟨y, hy, rfl⟩ := List.mem_map.mp hx
        exact List.mem_map_of_mem (LedgerCredit.lawful_database.adds_locks w y hy)
    | _ => first | exact hx | exact absurd hx List.not_mem_nil
  exec_admissible := fun h => exec_admissible h

end LedgerCredit.Credit
