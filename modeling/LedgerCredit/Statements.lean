import LedgerCredit.Txn.Database
import LedgerCredit.Writes
import Mathlib.Data.List.Sort

/-!
# Statements

Every Prisma call of the services is a statement with a reply, named after the
call and its `where` and `include`.  `exec` answers it on a store.  A `create`
takes the row as a function of what the database fills in: the generated id and,
where a service reads it back, the creation time.  Two statements touch no
table: `newDate` is `new Date()`, and `randomUUIDs` is a supply of
`crypto.randomUUID()`.

The `Choice` of a statement settles what it leaves open.  Where a query has no
`orderBy`, its rows come in the order that `arrange` picks, which can be any.

`database` puts the statements together with the writes, and `lawful_database`
shows the laws that schedules rest on.
-/

namespace LedgerCredit

open Txn

/-! ## Errors -/

/-- `AppException`, with its status code, code and message. -/
structure AppException where
  statusCode : Nat
  code : String
  message : String
  deriving DecidableEq, Repr

/-- What a transaction can throw. -/
inductive TxError where
  | app (e : AppException)
  | database (e : DatabaseError)
  deriving DecidableEq, Repr

/-! ## Statements and their replies -/

/-- An account with `include: { ledgerAccount: true, balanceProjection: true }`. -/
structure AccountWithBalance where
  account : Account
  ledgerAccount : Option LedgerAccount
  balanceProjection : Option BalanceProjection
  deriving DecidableEq, Repr

/-- An account with `include: { ledgerAccount: true }`. -/
structure AccountWithLedger where
  account : Account
  ledgerAccount : Option LedgerAccount
  deriving DecidableEq, Repr

/-- A transfer with `include: { sourceAccount: { include: { ledgerAccount: true } } }`. -/
structure TransferWithSource where
  transfer : TransferRequest
  sourceAccount : AccountWithLedger
  deriving DecidableEq, Repr

/-- `BatchAccountSnapshot`: the columns of an account that `runBatch` selects. -/
structure BatchAccountSnapshot where
  id : Uuid
  currency : String
  ledgerAccountId : Option Uuid
  currentMinor : Option Int
  deriving DecidableEq, Repr

inductive Stmt : Type → Type where
  | newDate : Stmt Time
  | randomUUIDs : Stmt (Nat → Uuid)
  | findAccountWithBalance (id : Uuid) : Stmt (Option AccountWithBalance)
  | findAccountWithLedger (id : Uuid) : Stmt (Option AccountWithLedger)
  | findActiveAccounts : Stmt (List BatchAccountSnapshot)
  | findLedgerAccounts (ids : List Uuid) : Stmt (List LedgerAccount)
  | findFirstLedgerAccount (category : LedgerAccountCategory) (currency : String) :
      Stmt (Option LedgerAccount)
  | findLedgerAccountsIn (category : LedgerAccountCategory) (currencies : List String) :
      Stmt (List LedgerAccount)
  | createJournalEntry (data : Uuid → JournalEntry) : Stmt JournalEntry
  | createJournalEntries (data : List JournalEntry) : Stmt Unit
  | createPosting (data : Uuid → Posting) : Stmt Posting
  | createPostings (data : List Posting) : Stmt Unit
  | createStatementLine (data : Uuid → AccountStatementProjection) : Stmt Unit
  | createStatementLines (data : List AccountStatementProjection) : Stmt Unit
  | findBalanceProjection (accountId : Uuid) : Stmt (Option BalanceProjection)
  | upsertBalanceProjection (row : BalanceProjection) : Stmt Unit
  | upsertBalanceProjections (rows : List BalanceProjection) : Stmt Unit
  | createTransferRequest (data : Uuid → Time → TransferRequest) : Stmt TransferRequest
  | updateTransferRequest (id : Uuid) (data : TransferRequestUpdate) : Stmt TransferRequest
  | findTransferRequest (id : Uuid) : Stmt (Option TransferWithSource)
  | findFirstTransferRequest (id externalReference : Option String) :
      Stmt (Option TransferWithSource)
  | findIdempotencyRecord (operationType key : String) : Stmt (Option IdempotencyRecord)
  | createIdempotencyRecord (data : Uuid → IdempotencyRecord) : Stmt IdempotencyRecord
  | updateIdempotencyRecord (id : Uuid) (data : IdempotencyRecordUpdate) : Stmt Unit
  | findExternalEvent (provider providerEventId : String) : Stmt (Option ExternalTransferEvent)
  | createExternalEvent (data : Uuid → ExternalTransferEvent) : Stmt Unit
  | createAuditEvent (data : Uuid → AuditEvent) : Stmt Unit
  | createBatchRun (data : Uuid → BatchRun) : Stmt BatchRun
  | updateBatchRun (id : Uuid) (data : BatchRunUpdate) : Stmt Unit
  | createBatchRunItems (data : List (Uuid → BatchRunItem)) : Stmt Unit
  | findBatchRunItem (batchRunId : Uuid) (resourceType resourceId : String) :
      Stmt (Option BatchRunItem)
  | findBatchRunItems (batchRunId : Uuid) (status : BatchRunItemStatus) :
      Stmt (List BatchRunItem)
  | countBatchRunItems (batchRunId : Uuid) (status : Option BatchRunItemStatus) : Stmt Nat
  | updateBatchRunItem (id : Uuid) (data : BatchRunItemUpdate) : Stmt Unit
  | updateBatchRunItemOf (batchRunId : Uuid) (resourceType resourceId : String)
      (data : BatchRunItemUpdate) : Stmt Unit
  | updateBatchRunItems (batchRunId : Uuid) (resourceType : String) (resourceIds : List String)
      (data : BatchRunItemUpdate) : Stmt Unit
  | publishJob (job : SubmitJob) : Stmt Unit

/-! ## Execution -/

/-- What a statement leaves open: generated identifiers, the clock, the order of rows. -/
structure Choice where
  uuid : Nat → Uuid
  /-- A generated identifier is not empty. -/
  uuid_ne : ∀ n, uuid n ≠ ""
  now : Time
  order : List Nat

/-- The rows in the order that `order` picks. -/
def arrange {α : Type} : List Nat → List α → List α
  | _, [] => []
  | [], l => l
  | k :: ks, a :: l => (arrange ks l).insertIdx (k % (l.length + 1)) a

namespace Store

/-- The reply, if the writes break no constraint. -/
def attempt {β : Type} (s : Store) (r : β) (ws : List Write) : Except TxError (β × List Write) :=
  match s.violations ws with
  | none => .ok (r, ws)
  | some e => .error (.database e)

def accountWithLedger (s : Store) (a : Account) : AccountWithLedger :=
  ⟨a, s.ledgerAccountOf a.id⟩

def accountWithBalance (s : Store) (a : Account) : AccountWithBalance :=
  ⟨a, s.ledgerAccountOf a.id, s.balanceProjections.get? a.id⟩

/-- A transfer with its source account, which the foreign key promises to exist. -/
def includeSource (s : Store) : Option TransferRequest →
    Except TxError (Option TransferWithSource × List Write)
  | none => .ok (none, [])
  | some t =>
      match s.accounts.get? t.sourceAccountId with
      | some a => .ok (some ⟨t, s.accountWithLedger a⟩, [])
      | none => .error (.database .missingRow)

def snapshot (s : Store) (a : Account) : BatchAccountSnapshot where
  id := a.id
  currency := a.currency
  ledgerAccountId := (s.ledgerAccountOf a.id).map (·.id)
  currentMinor := (s.balanceProjections.get? a.id).map (·.currentMinor)

/-- `where: { status: "ACTIVE" }, orderBy: { id: "asc" }`. -/
def activeAccounts (s : Store) : List Account :=
  (s.accounts.rows.filter fun a => a.status = .active).insertionSort fun a b => a.id ≤ b.id

/-- The items of a run, in all or in one status. -/
def itemsOf (s : Store) (batchRunId : Uuid) (status : Option BatchRunItemStatus) :
    List BatchRunItem :=
  s.batchRunItems.rows.filter fun i =>
    i.batchRunId = batchRunId && status.all fun x => i.status = x

/-- Execute a statement. -/
def exec (s : Store) {β : Type} (q : Stmt β) (c : Choice) : Except TxError (β × List Write) :=
  match q with
  | .newDate => .ok (c.now, [])
  | .randomUUIDs => .ok (c.uuid, [])
  | .findAccountWithBalance id => .ok ((s.accounts.get? id).map s.accountWithBalance, [])
  | .findAccountWithLedger id => .ok ((s.accounts.get? id).map s.accountWithLedger, [])
  | .findActiveAccounts => .ok (s.activeAccounts.map s.snapshot, [])
  | .findLedgerAccounts ids =>
      .ok (arrange c.order (s.ledgerAccounts.rows.filter fun l => l.id ∈ ids), [])
  | .findFirstLedgerAccount category currency =>
      .ok ((arrange c.order (s.ledgerAccounts.rows.filter fun l =>
        l.category = category && l.currency = currency)).head?, [])
  | .findLedgerAccountsIn category currencies =>
      .ok (arrange c.order (s.ledgerAccounts.rows.filter fun l =>
        l.category = category && l.currency ∈ currencies), [])
  | .createJournalEntry data => s.attempt (data (c.uuid 0)) [.journalEntry (data (c.uuid 0))]
  | .createJournalEntries data => s.attempt () (data.map .journalEntry)
  | .createPosting data => s.attempt (data (c.uuid 0)) [.posting (data (c.uuid 0))]
  | .createPostings data => s.attempt () (data.map .posting)
  | .createStatementLine data => s.attempt () [.statementLine (data (c.uuid 0))]
  | .createStatementLines data => s.attempt () (data.map .statementLine)
  | .findBalanceProjection a => .ok (s.balanceProjections.get? a, [])
  | .upsertBalanceProjection row => s.attempt () [.balanceProjection row]
  | .upsertBalanceProjections rows =>
      -- ON CONFLICT cannot change one row twice
      if (rows.map (·.accountId)).Nodup then s.attempt () (rows.map .balanceProjection)
      else .error (.database .cardinalityViolation)
  | .createTransferRequest data =>
      s.attempt (data (c.uuid 0) c.now) [.transferRequest (data (c.uuid 0) c.now)]
  | .updateTransferRequest id data =>
      match s.transferRequests.get? id with
      | some t => s.attempt (data.apply t) [.updateTransferRequest id data]
      | none => .error (.database .missingRow)
  | .findTransferRequest id => s.includeSource (s.transferRequests.get? id)
  | .findFirstTransferRequest id ref =>
      s.includeSource (arrange c.order (s.transferRequests.rows.filter fun t =>
        id = some t.id || (ref.isSome && t.externalReference = ref))).head?
  | .findIdempotencyRecord operationType key =>
      .ok (s.idempotencyRecords.find? (operationType, key), [])
  | .createIdempotencyRecord data =>
      s.attempt (data (c.uuid 0)) [.idempotencyRecord (data (c.uuid 0))]
  | .updateIdempotencyRecord id data => s.attempt () [.updateIdempotencyRecord id data]
  | .findExternalEvent provider providerEventId =>
      .ok (s.externalEvents.find? (provider, providerEventId), [])
  | .createExternalEvent data => s.attempt () [.externalEvent (data (c.uuid 0))]
  | .createAuditEvent data => s.attempt () [.auditEvent (data (c.uuid 0))]
  | .createBatchRun data => s.attempt (data (c.uuid 0)) [.batchRun (data (c.uuid 0))]
  | .updateBatchRun id data => s.attempt () [.updateBatchRun id data]
  | .createBatchRunItems data =>
      s.attempt () (data.zipIdx.map fun d => .batchRunItem (d.1 (c.uuid d.2)))
  | .findBatchRunItem b t r => .ok (s.batchRunItems.find? (b, t, r), [])
  | .findBatchRunItems b status => .ok (arrange c.order (s.itemsOf b (some status)), [])
  | .countBatchRunItems b status => .ok ((s.itemsOf b status).length, [])
  | .updateBatchRunItem id data => s.attempt () [.updateBatchRunItem id data]
  | .updateBatchRunItemOf b t r data =>
      match s.batchRunItems.find? (b, t, r) with
      | some i => s.attempt () [.updateBatchRunItem i.id data]
      | none => .error (.database .missingRow)
  | .updateBatchRunItems b t rs data =>
      s.attempt () ((s.batchRunItems.rows.filter fun i =>
        i.batchRunId = b && i.resourceType = t && i.resourceId ∈ rs).map fun i =>
          .updateBatchRunItem i.id data)
  | .publishJob job => s.attempt () [.job job]

end Store

/-- The database of the services. -/
def database : Database Stmt TxError Store Write Choice Key where
  exec := fun q c s => s.exec q c
  apply := Write.apply
  locks := Write.locks
  adds := Write.adds
  needs := Write.needs
  present := Store.present
  aborted := .database .aborted

/-! ## Laws -/

theorem arrange_perm {α : Type} (order : List Nat) (l : List α) : (arrange order l).Perm l := by
  induction l generalizing order with
  | nil => cases order <;> exact .refl _
  | cons a l ih =>
      cases order with
      | nil => exact .refl _
      | cons k ks =>
          have hlen : k % (l.length + 1) ≤ (arrange ks l).length := by
            rw [(ih ks).length_eq]
            exact Nat.lt_succ_iff.mp (Nat.mod_lt _ (Nat.succ_pos _))
          exact (List.perm_insertIdx _ _ hlen).trans ((ih ks).cons a)

theorem mem_arrange {α : Type} {a : α} {order : List Nat} {l : List α} :
    a ∈ arrange order l ↔ a ∈ l :=
  (arrange_perm order l).mem_iff

theorem attempt_ok {β : Type} {s : Store} {r r' : β} {ws ws' : List Write}
    (h : s.attempt r ws = .ok (r', ws')) : r' = r ∧ ws' = ws ∧ s.violations ws = none := by
  unfold Store.attempt at h
  cases hv : s.violations ws with
  | none =>
      simp only [hv, Except.ok.injEq, Prod.mk.injEq] at h
      exact ⟨h.1.symm, h.2.symm, rfl⟩
  | some e => simp [hv] at h

theorem violation_none {s : Store} {w : Write} (h : s.violation w = none) :
    (∀ x ∈ w.adds, ¬ s.present x = true) ∧ (∀ x ∈ w.needs, s.present x = true) ∧
      (∀ n ∈ w.bigInts, inBigInt n = true) ∧ w.check = true := by
  unfold Store.violation at h
  split at h
  · cases h
  · split at h
    · cases h
    · split at h
      · cases h
      · split at h
        · cases h
        · rename_i hadds hneeds hbig hcheck
          simp only [List.any_eq_true, not_exists, not_and] at hadds
          simp only [Bool.not_eq_true', Bool.not_eq_false, List.all_eq_true] at hneeds hbig hcheck
          exact ⟨hadds, hneeds, hbig, hcheck⟩

/-- A write adds the keys it says. -/
theorem present_apply (w : Write) (s : Store) (h : ∀ x ∈ w.adds, ¬ s.present x = true) (x : Key) :
    (w.apply s).present x = true ↔ s.present x = true ∨ x ∈ w.adds := by
  have absent : ∀ x ∈ w.adds, s.present x = false := fun x hx => by simpa using h x hx
  cases w with
  | journalEntry r =>
      have hf : s.journalEntries.Fresh r :=
        Table.fresh_of_pk (absent (.row .journalEntry r.id) (by simp [Write.adds])) rfl
      cases x with
      | row t id => cases t <;> simp [Write.apply, Store.present, Write.adds, Table.isSome_get?_insert hf]
      | _ => simp [Write.apply, Store.present, Write.adds]
  | posting r =>
      have hf : s.postings.Fresh r :=
        Table.fresh_of_pk (absent (.row .posting r.id) (by simp [Write.adds])) rfl
      cases x with
      | row t id => cases t <;> simp [Write.apply, Store.present, Write.adds, Table.isSome_get?_insert hf]
      | _ => simp [Write.apply, Store.present, Write.adds]
  | statementLine r =>
      have hf : s.statementLines.Fresh r := by
        refine Table.fresh_of_absent (absent (.row .statementLine r.id) (by simp [Write.adds])) ?_
        rintro u ⟨⟩
        exact absent (.statementLinePosting r.postingId) (by simp [Write.adds])
      cases x with
      | row t id => cases t <;> simp [Write.apply, Store.present, Write.adds, Table.isSome_get?_insert hf]
      | _ => simp [Write.apply, Store.present, Write.adds, Table.isSome_find?_insert hf]
  | transferRequest r =>
      have hf : s.transferRequests.Fresh r := by
        refine Table.fresh_of_absent (absent (.row .transferRequest r.id) (by simp [Write.adds])) ?_
        rintro u ⟨⟩
        exact absent (.transferIdempotencyKey r.idempotencyKey) (by simp [Write.adds])
      cases x with
      | row t id => cases t <;> simp [Write.apply, Store.present, Write.adds, Table.isSome_get?_insert hf]
      | _ => simp [Write.apply, Store.present, Write.adds, Table.isSome_find?_insert hf]
  | idempotencyRecord r =>
      have hf : s.idempotencyRecords.Fresh r := by
        refine Table.fresh_of_absent (absent (.row .idempotencyRecord r.id) (by simp [Write.adds])) ?_
        rintro u ⟨⟩
        exact absent (.idempotencyKey r.operationType r.key) (by simp [Write.adds])
      cases x with
      | row t id => cases t <;> simp [Write.apply, Store.present, Write.adds, Table.isSome_get?_insert hf]
      | _ => simp [Write.apply, Store.present, Write.adds, Table.isSome_find?_insert hf]
  | externalEvent r =>
      have hf : s.externalEvents.Fresh r := by
        refine Table.fresh_of_absent (absent (.row .externalEvent r.id) (by simp [Write.adds])) ?_
        intro u hu
        obtain ⟨e, he, rfl⟩ := Option.map_eq_some_iff.mp hu
        exact absent (.providerEvent r.provider e) (by simp [Write.adds, he])
      cases x with
      | row t id => cases t <;> simp [Write.apply, Store.present, Write.adds, Table.isSome_get?_insert hf]
      | providerEvent p e =>
          cases he : r.providerEventId <;>
            simp [Write.apply, Store.present, Write.adds, Table.isSome_find?_insert hf, he]
      | _ => simp [Write.apply, Store.present, Write.adds]
  | auditEvent r =>
      have hf : s.auditEvents.Fresh r :=
        Table.fresh_of_pk (absent (.row .auditEvent r.id) (by simp [Write.adds])) rfl
      cases x with
      | row t id => cases t <;> simp [Write.apply, Store.present, Write.adds, Table.isSome_get?_insert hf]
      | _ => simp [Write.apply, Store.present, Write.adds]
  | batchRun r =>
      have hf : s.batchRuns.Fresh r :=
        Table.fresh_of_pk (absent (.row .batchRun r.id) (by simp [Write.adds])) rfl
      cases x with
      | row t id => cases t <;> simp [Write.apply, Store.present, Write.adds, Table.isSome_get?_insert hf]
      | _ => simp [Write.apply, Store.present, Write.adds]
  | batchRunItem r =>
      have hf : s.batchRunItems.Fresh r := by
        refine Table.fresh_of_absent (absent (.row .batchRunItem r.id) (by simp [Write.adds])) ?_
        rintro u ⟨⟩
        exact absent (.batchRunItem r.batchRunId r.resourceType r.resourceId) (by simp [Write.adds])
      cases x with
      | row t id => cases t <;> simp [Write.apply, Store.present, Write.adds, Table.isSome_get?_insert hf]
      | _ => simp [Write.apply, Store.present, Write.adds, Table.isSome_find?_insert hf]
  | _ =>
      cases x with
      | row t id => cases t <;> simp [Write.apply, Store.present, Write.adds]
      | _ => simp [Write.apply, Store.present, Write.adds]

theorem violations_none {ws : List Write} {s : Store} (h : s.violations ws = none) :
    database.Admissible s ws :=
  Database.admissible_of_violations (fun w s h x => present_apply w s h x)
    (fun _ _ h => ⟨(violation_none h).1, (violation_none h).2.1⟩) h

/-- A statement that succeeds breaks no constraint. -/
theorem exec_violations {β : Type} {q : Stmt β} {c : Choice} {s : Store} {r : β}
    {ws : List Write} (h : s.exec q c = .ok (r, ws)) : s.violations ws = none := by
  have read : ∀ {r' : β}, Except.ok (r', ([] : List Write)) = (Except.ok (r, ws) : Except TxError _) →
      s.violations ws = none := by
    rintro r' ⟨⟩
    rfl
  have include_ok : ∀ {o : Option TransferRequest} {r' : Option TransferWithSource},
      s.includeSource o = .ok (r', ws) → s.violations ws = none := by
    intro o r' ho
    cases o with
    | none => cases ho; rfl
    | some t =>
        simp only [Store.includeSource] at ho
        split at ho
        · cases ho
          rfl
        · cases ho
  cases q with
  | findTransferRequest id => exact include_ok h
  | findFirstTransferRequest id ref => exact include_ok h
  | upsertBalanceProjections rows =>
      simp only [Store.exec] at h
      split at h
      · obtain ⟨_, rfl, hv⟩ := attempt_ok h
        exact hv
      · cases h
  | updateTransferRequest id data =>
      simp only [Store.exec] at h
      split at h
      · obtain ⟨_, rfl, hv⟩ := attempt_ok h
        exact hv
      · cases h
  | updateBatchRunItemOf b t r data =>
      simp only [Store.exec] at h
      split at h
      · obtain ⟨_, rfl, hv⟩ := attempt_ok h
        exact hv
      · cases h
  | _ =>
      simp only [Store.exec] at h
      first
        | exact read h
        | obtain ⟨_, rfl, hv⟩ := attempt_ok h
          exact hv

theorem lawful_database : database.Lawful where
  present_apply := fun w s h x => present_apply w s h x
  adds_locks := by
    intro w x hx
    cases w <;> first | exact hx | exact absurd hx List.not_mem_nil
  exec_admissible := fun h => violations_none (exec_violations h)

end LedgerCredit
