import LedgerCredit.Effects
import LedgerCredit.Reads
import LedgerCredit.BatchRuns
import LedgerCredit.TransferRuns

/-!
# What the processes run

The rules of the next modules look at commits.  This one says which transactions
the services run.  Outside of the transactions of their methods they send a few
statements only (`Outside`), and a chunk is run on accounts and revenue accounts
that were read before (`Grounded`).  `program_fine` shows this of every call.

`Committed` says, transaction by transaction, what may be committed.
-/

namespace LedgerCredit

open Txn

/-- The statements that the services send outside of a transaction. -/
def Outside : {α : Type} → Stmt α → Prop
  | _, .newDate | _, .randomUUIDs | _, .findActiveAccounts | _, .findLedgerAccountsIn ..
  | _, .findTransferRequest _ | _, .createAuditEvent _ | _, .createBatchRun _ | _, .updateBatchRun ..
  | _, .createBatchRunItems _ | _, .findBatchRunItems .. | _, .countBatchRunItems ..
  | _, .updateBatchRunItemOf .. | _, .publishJob _ => True
  | _, _ => False

/-- What a chunk is run on. -/
structure Store.Grounded (s : Store) (accounts : List BatchAccountSnapshot)
    (interestRevenueAccountIds : List (String × Uuid)) : Prop where
  snapshot : ∀ x ∈ accounts, ∃ a, s.SnapshotOf x a
  revenue : ∀ entry ∈ interestRevenueAccountIds, ∃ l ∈ s.ledgerAccounts.rows,
    l.id = entry.2 ∧ l.currency = entry.1 ∧ l.category = .interestRevenue

/-- The transactions that transfers run. -/
def ofTransfers : {α : Type} → Label α → Prop
  | _, .createTransfer _ | _, .applyNormalizedEvent _ => True
  | _, .statement q => Outside q
  | _, _ => False

/-- What holds of a transaction that a service runs. -/
def grounds (s : Store) : {α : Type} → Label α → Prop
  | _, .processBatchChunk _ accounts interestRevenueAccountIds =>
      s.Grounded accounts interestRevenueAccountIds
  | _, .statement q => Outside q
  | _, _ => True

/-- What a service learns from a statement. -/
def learned (s : Store) : {α : Type} → Label α → α → Prop
  | _, .statement .findActiveAccounts, r => ∀ x ∈ r, ∃ a, s.SnapshotOf x a
  | _, .statement (.findLedgerAccountsIn category _), r =>
      ∀ l ∈ r, l ∈ s.ledgerAccounts.rows ∧ l.category = category
  | _, _, _ => True

/-! ## Processes -/

/-- Rules that ask no more of a transaction than `grounds`, and tell of it what is `learned`. -/
structure Grounding {γ τ : Type} {env : Env} (R : Rules (server env) γ τ) (s : Store) : Prop where
  pre : ∀ {α : Type} (s' : Store) (T : Set τ) (l : Label α), grounds s l → R.pre s' T l
  post : ∀ {α : Type} (s' : Store) (T : Set τ) (l : Label α) (a : α) (s'' : Store) (T'' : Set τ),
    R.post s' T l a s'' T'' → learned s l a

/-- Rules that allow the transactions of transfers. -/
def TransferGrounding {γ τ : Type} {env : Env} (R : Rules (server env) γ τ) : Prop :=
  ∀ {α : Type} (s : Store) (T : Set τ) (l : Label α), ofTransfers l → R.pre s T l

theorem Grounding.transfers {γ τ : Type} {env : Env} {R : Rules (server env) γ τ} {s : Store}
    (hR : Grounding R s) : TransferGrounding R := by
  intro α s' T l hl
  cases l with
  | processBatchChunk _ _ _ => exact False.elim hl
  | processBatchItem _ _ => exact False.elim hl
  | _ => exact hR.pre s' T _ hl

section Fine

variable {γ τ : Type} {env : Env} {s : Store} {R : Rules (server env) γ τ}

theorem transaction_fine (hR : Grounding R s) {α : Type} {l : Label α} (hl : grounds s l) :
    R.Fine (Proc.transaction l) fun a => learned s l a :=
  .transaction (fun _ _ => hR.pre _ _ l hl) fun _ _ _ _ _ h => hR.post _ _ l _ _ _ h

theorem statement_fine (hR : Grounding R s) {α : Type} {q : Stmt α} (hq : Outside q) :
    R.Fine (statement q) fun a => learned s (.statement q) a :=
  transaction_fine hR (l := .statement q) hq

theorem fine_drop {α : Type} {p : Process α} {P : α → Prop} (hp : R.Fine p P) :
    R.Fine p fun _ => True := hp.mono fun _ _ => trivial

/-- A process followed by another, of which nothing is to be known. -/
theorem fine_bind {α β : Type} {p : Process α} {f : α → Process β} {P : α → Prop}
    (hp : R.Fine p P) (hf : ∀ a, R.Fine (f a) fun _ => True) :
    R.Fine (p >>= f) fun _ => True := hp.bind fun a _ => hf a

end Fine

/-! ## Transfers -/

section Uses

variable {p : {α : Type} → Label α → Prop} {env : Env}

/-- The process runs transactions of transfers, and none of `createTransfer`. -/
def ofEvents : {α : Type} → Label α → Prop
  | _, .applyNormalizedEvent _ => True
  | _, .statement q => Outside q
  | _, _ => False

theorem ofTransfers_of_ofEvents {α : Type} (l : Label α) (h : ofEvents l) : ofTransfers l := by
  cases l with
  | createTransfer args => trivial
  | _ => exact h

theorem uses_outside {α : Type} {q : Stmt α} (hq : Outside q) :
    (statement q).Uses ofEvents := .transaction (l := Label.statement q) hq

theorem uses_ofExcept {α : Type} {x : Except AppException α} : (Process.ofExcept x).Uses p := by
  cases x with
  | ok a => exact .pure
  | error e => exact .throw

namespace ExternalRailService

theorem loadTransferOrThrow_uses (id : Uuid) : (loadTransferOrThrow env id).Uses ofEvents := by
  refine .bind (uses_outside trivial) fun transfer => ?_
  cases transfer with
  | some found => exact .pure
  | none => exact .throw

theorem applyNormalizedEvent_uses (event : NormalizedExternalRailEvent) :
    (applyNormalizedEvent event).Uses ofEvents := by
  refine .bind (.transaction trivial) fun transfer => ?_
  have hrest : ∀ correlationId, Proc.Uses ofEvents (do
      auditRecord
        { correlationId
          idempotencyKey := some transfer.idempotencyKey
          actor := some ⟨"external-rail:" ++ event.provider, .system⟩ }
        ⟨mapAuditAction event.eventType transfer.status, "transfer_request", transfer.id⟩
      return mapTransferResponse transfer) :=
    fun _ => .bind (uses_outside trivial) fun _ => .pure
  simp only
  split
  · exact hrest _
  · exact .bind (.bind (uses_outside trivial) fun _ => .pure) hrest

theorem applyEvents_uses (events : List NormalizedExternalRailEvent) :
    (applyEvents events).Uses ofEvents := by
  induction events with
  | nil => exact .pure
  | cons event events ih => exact .bind (applyNormalizedEvent_uses event) fun _ => ih

theorem processQueuedSubmission_uses (id : Uuid) :
    (processQueuedSubmission env id).Uses ofEvents := by
  refine .bind (loadTransferOrThrow_uses id) fun found => ?_
  simp only
  split
  · exact .pure
  · exact .bind uses_ofExcept fun _ => .bind uses_ofExcept fun _ => applyEvents_uses _

theorem enqueueTransferSubmission_uses (id : Uuid) :
    (enqueueTransferSubmission env id).Uses ofEvents := by
  unfold enqueueTransferSubmission
  split
  · exact processQueuedSubmission_uses id
  · exact uses_outside trivial

theorem reconcileTransfer_uses (id : Uuid) (context : RequestContext) :
    (reconcileTransfer env id context).Uses ofEvents := by
  refine .bind (loadTransferOrThrow_uses id) fun found => ?_
  refine .bind uses_ofExcept fun adapter => .bind uses_ofExcept fun forAdapter => ?_
  cases adapter.reconcileTransfer forAdapter with
  | some event =>
      exact .bind (applyNormalizedEvent_uses event) fun _ => .bind (uses_outside trivial) fun _ =>
        .bind (loadTransferOrThrow_uses id) fun _ => .pure
  | none =>
      exact .bind (uses_outside trivial) fun _ =>
        .bind (loadTransferOrThrow_uses id) fun _ => .pure

theorem redriveTransfer_uses (id : Uuid) (context : RequestContext) :
    (redriveTransfer env id context).Uses ofEvents := by
  refine .bind (loadTransferOrThrow_uses id) fun found => ?_
  simp only
  split
  · exact .throw
  · exact .bind (enqueueTransferSubmission_uses id) fun _ => uses_outside trivial

end ExternalRailService

theorem TransfersService.createTransfer_uses (input : CreateTransferRequest)
    (context : RequestContext) :
    (TransfersService.createTransfer env input context).Uses ofTransfers := by
  refine .bind uses_ofExcept fun args => .bind (.transaction trivial) fun result => ?_
  cases truthy result.enqueueTransferId with
  | some id =>
      exact .bind ((ExternalRailService.enqueueTransferSubmission_uses id).mono
        ofTransfers_of_ofEvents) fun _ => .pure
  | none => exact .pure

/-- The calls about transfers. -/
def Call.ofTransfers : Call → Bool
  | .runBatch _ | .retryFailedItems .. => false
  | _ => true

/-- The calls of `createTransfer`. -/
def Call.creates : Call → Bool
  | .createTransfer .. => true
  | _ => false

/-- A call about transfers other than `createTransfer` runs no transaction of it. -/
theorem eventProgram_uses (env : Env) {call : Call} (hcall : call.ofTransfers = true)
    (hcreates : call.creates = false) : (call.program env).Uses ofEvents := by
  cases call with
  | createTransfer input context => cases hcreates
  | applyNormalizedEvent event =>
      exact .bind (ExternalRailService.applyNormalizedEvent_uses event) fun _ => .pure
  | processQueuedSubmission id =>
      exact .bind (ExternalRailService.processQueuedSubmission_uses id) fun _ => .pure
  | reconcileTransfer id context =>
      exact .bind (ExternalRailService.reconcileTransfer_uses id context) fun _ => .pure
  | redriveTransfer id context =>
      exact .bind (ExternalRailService.redriveTransfer_uses id context) fun _ => .pure
  | runBatch triggeredBy => cases hcall
  | retryFailedItems id context => cases hcall

/-- A call about transfers runs the transactions of transfers. -/
theorem transferProgram_uses {call : Call} (hcall : call.ofTransfers = true) :
    (call.program env).Uses ofTransfers := by
  cases call with
  | createTransfer input context =>
      exact .bind (TransfersService.createTransfer_uses input context) fun _ => .pure
  | _ => exact (eventProgram_uses env hcall rfl).mono ofTransfers_of_ofEvents

end Uses

/-! ## Batches -/

section Batch

variable {γ τ : Type} {env : Env} {s : Store} {R : Rules (server env) γ τ}

namespace BatchService

theorem processBatchItem_fine (hR : Grounding R s) (batchRunId accountId : Uuid) :
    R.Fine (processBatchItem env batchRunId accountId) fun _ => True :=
  .orElse (fine_drop (transaction_fine hR trivial)) fun _ => fine_drop (statement_fine hR trivial)

theorem processBatchItems_fine (hR : Grounding R s) (batchRunId : Uuid) (accountIds : List Uuid) :
    R.Fine (processBatchItems env batchRunId accountIds) fun _ => True := by
  unfold processBatchItems
  split
  · exact .pure trivial
  · exact .pool fun id _ => processBatchItem_fine hR batchRunId id

/-- The revenue accounts that are loaded are there. -/
theorem loadInterestRevenueAccounts_fine (hR : Grounding R s) (currencies : List String) :
    R.Fine (loadInterestRevenueAccounts currencies) fun r => ∀ entry ∈ r,
      ∃ l ∈ s.ledgerAccounts.rows,
        l.id = entry.2 ∧ l.currency = entry.1 ∧ l.category = .interestRevenue := by
  refine .bind (statement_fine hR trivial) fun ledgerAccounts hread => ?_
  simp only
  split
  · exact .throw
  · refine .pure fun entry hentry => ?_
    obtain ⟨l, hl, rfl⟩ := List.mem_map.mp hentry
    obtain ⟨hmem, hcategory⟩ := hread l hl
    exact ⟨l, hmem, rfl, rfl, hcategory⟩

theorem mem_of_mem_chunks {α : Type} {size n : Nat} {l chunk : List α} (h : chunk ∈ chunks size n l)
    {a : α} (ha : a ∈ chunk) : a ∈ l := by
  induction n generalizing l with
  | zero => cases h
  | succ n ih =>
      cases l with
      | nil => cases h
      | cons b l =>
          rcases List.mem_cons.mp h with rfl | h
          · exact List.mem_of_mem_take ha
          · exact List.mem_of_mem_drop (ih h)

theorem processChunks_fine (hR : Grounding R s) (batchRunId : Uuid)
    {interestRevenueAccountIds : List (String × Uuid)} {chunks : List (List BatchAccountSnapshot)}
    (h : ∀ chunk ∈ chunks, s.Grounded chunk interestRevenueAccountIds) :
    R.Fine (processChunks env batchRunId interestRevenueAccountIds chunks) fun _ => True := by
  induction chunks with
  | nil => exact .pure trivial
  | cons chunk rest ih =>
      obtain ⟨hchunk, hrest⟩ := List.forall_mem_cons.mp h
      exact fine_bind (.orElse (fine_drop (transaction_fine hR hchunk)) fun _ =>
        processBatchItems_fine hR batchRunId _) fun _ => ih hrest

theorem processBatchRunAccounts_fine (hR : Grounding R s) (batchRunId : Uuid)
    {accounts : List BatchAccountSnapshot} (h : ∀ x ∈ accounts, ∃ a, s.SnapshotOf x a) :
    R.Fine (processBatchRunAccounts env batchRunId accounts) fun _ => True := by
  refine fine_bind (processBatchItems_fine hR batchRunId _) fun _ => ?_
  split
  · exact .pure trivial
  · refine (loadInterestRevenueAccounts_fine hR _).bind fun interestRevenueAccountIds hrevenue => ?_
    refine processChunks_fine hR batchRunId fun chunk hchunk => ⟨fun x hx => ?_, hrevenue⟩
    exact h x (List.mem_filter.mp (mem_of_mem_chunks hchunk hx)).1

theorem runBatch_fine (hR : Grounding R s) (triggeredBy : String) :
    R.Fine (runBatch env triggeredBy) fun _ => True := by
  refine fine_bind (P := fun _ => True) (fine_bind (statement_fine hR trivial) fun _ =>
    .pure trivial) fun _ => ?_
  refine fine_bind (statement_fine hR trivial) fun _ => ?_
  refine fine_bind (statement_fine hR trivial) fun _ => ?_
  refine fine_bind (statement_fine hR trivial) fun batchRun => ?_
  refine .bind (statement_fine hR trivial) fun accounts haccounts => ?_
  refine fine_bind (statement_fine hR trivial) fun _ => ?_
  refine fine_bind (processBatchRunAccounts_fine hR _ haccounts) fun _ => ?_
  refine fine_bind (statement_fine hR trivial) fun _ => ?_
  refine fine_bind (statement_fine hR trivial) fun _ => ?_
  refine fine_bind (statement_fine hR trivial) fun _ => ?_
  refine fine_bind (statement_fine hR trivial) fun _ => ?_
  refine fine_bind (statement_fine hR trivial) fun _ => ?_
  exact fine_bind (statement_fine hR trivial) fun _ => .pure trivial

theorem retryFailedItems_fine (hR : Grounding R s) (batchRunId : Uuid) (context : RequestContext) :
    R.Fine (retryFailedItems env batchRunId context) fun _ => True := by
  refine fine_bind (statement_fine hR trivial) fun failedItems => ?_
  split
  · exact .pure trivial
  · exact fine_bind (processBatchItems_fine hR batchRunId _) fun _ =>
      fine_bind (statement_fine hR trivial) fun _ => .pure trivial

end BatchService

theorem transferProgram_fine (hR : TransferGrounding R) {call : Call}
    (hcall : call.ofTransfers = true) : R.Fine (call.program env) fun _ => True :=
  .of_uses (transferProgram_uses hcall) hR

/-- Every call runs transactions with the grounds that are asked of them. -/
theorem program_fine (hR : Grounding R s) (call : Call) :
    R.Fine (call.program env) fun _ => True := by
  cases call with
  | runBatch triggeredBy =>
      exact fine_bind (BatchService.runBatch_fine hR triggeredBy) fun _ => .pure trivial
  | retryFailedItems id context =>
      exact fine_bind (BatchService.retryFailedItems_fine hR id context) fun _ => .pure trivial
  | _ => exact transferProgram_fine hR.transfers rfl

end Batch

/-! ## Parts of processes -/

/-- The actions that the calls record on their own account. -/
def recordedActions : List String :=
  ["transfer.reconciled", "transfer.redriven", "batch.completed", "batch.retry_requested"]

/-- A statement that a call sends outside of its transactions, apart from the identifiers it draws
and the report of a provider event. -/
def Stmt.plain : {α : Type} → Stmt α → Prop
  | _, .createAuditEvent data => ∃ context action resourceType resourceId,
      action ∈ recordedActions ∧ data = auditData context ⟨action, resourceType, resourceId⟩
  | _, .randomUUIDs => False
  | _, q => Outside q

theorem outside_of_plain {α : Type} {q : Stmt α} (h : q.plain) : Outside q := by
  cases q with
  | createAuditEvent data => trivial
  | randomUUIDs => cases h
  | _ => exact h

/-- A statement that the calls about transfers send outside of their transactions. -/
def Stmt.ofTransferCalls : {α : Type} → Stmt α → Prop
  | _, .findTransferRequest _ | _, .publishJob _ => True
  | _, .createAuditEvent data => (Stmt.createAuditEvent data).plain
  | _, _ => False

theorem plain_of_transferCalls {α : Type} {q : Stmt α} (h : q.ofTransferCalls) : q.plain := by
  cases q with
  | findTransferRequest id => trivial
  | publishJob job => trivial
  | createAuditEvent data => exact h
  | _ => cases h

/-- A property of processes that holds of the parts of the calls about transfers, and that
compositions keep. -/
structure TransferParts (P : {α : Type} → Process α → Prop) : Prop where
  pure : ∀ {α : Type} (a : α), P (.pure a)
  throw : ∀ {α : Type} (e : TxError), P (.throw e : Process α)
  bind : ∀ {α β : Type} {p : Process α} {f : α → Process β}, P p → (∀ a, P (f a)) → P (p >>= f)
  statement : ∀ {α : Type} (q : Stmt α), q.ofTransferCalls → P (statement q)
  event : ∀ event, P (ExternalRailService.applyNormalizedEvent event)
  create : ∀ args, P (Proc.transaction (.createTransfer args))

/-- A property of processes that holds of the parts of all calls, and that compositions keep. -/
structure Parts (P : {α : Type} → Process α → Prop) : Prop extends TransferParts P where
  plain : ∀ {α : Type} (q : Stmt α), q.plain → P (LedgerCredit.statement q)
  orElse : ∀ {l : Label Unit} {f : TxError → Process Unit}, P (Proc.transaction l) →
    (∀ e, P (f e)) → P ((Proc.transaction l).orElse f)
  pool : ∀ {n : Nat} {ids : List Uuid} {body : Uuid → Process Unit}, (∀ id, P (body id)) →
    P (Proc.pool n ids body)
  chunk : ∀ batchRunId accounts interestRevenueAccountIds,
    P (Proc.transaction (.processBatchChunk batchRunId accounts interestRevenueAccountIds))
  item : ∀ batchRunId accountId, P (Proc.transaction (.processBatchItem batchRunId accountId))
  draw : ∀ {f : Uuid → Time → Process Uuid}, (∀ id now, P (f id now)) →
    P (randomUUID >>= fun id => LedgerCredit.statement .newDate >>= f id)

section Parts

variable {P : {α : Type} → Process α → Prop} {env : Env}

theorem TransferParts.ofExcept (hP : TransferParts P) {α : Type} (x : Except AppException α) :
    P (Process.ofExcept x) := by
  cases x with
  | ok a => exact hP.pure a
  | error e => exact hP.throw _

theorem TransferParts.audit (hP : TransferParts P) {action : String} (haction : action ∈ recordedActions)
    (context : RequestContext) (resourceType resourceId : String) :
    P (auditRecord context ⟨action, resourceType, resourceId⟩) :=
  hP.statement _ ⟨context, action, resourceType, resourceId, haction, rfl⟩

namespace ExternalRailService

theorem loadTransferOrThrow_parts (hP : TransferParts P) (id : Uuid) :
    P (loadTransferOrThrow env id) := by
  refine hP.bind (hP.statement (.findTransferRequest id) trivial) fun transfer => ?_
  cases transfer with
  | some found => exact hP.pure _
  | none => exact hP.throw _

theorem applyEvents_parts (hP : TransferParts P) (events : List NormalizedExternalRailEvent) :
    P (applyEvents events) := by
  induction events with
  | nil => exact hP.pure _
  | cons event events ih => exact hP.bind (hP.event event) fun _ => ih

theorem processQueuedSubmission_parts (hP : TransferParts P) (id : Uuid) :
    P (processQueuedSubmission env id) := by
  refine hP.bind (loadTransferOrThrow_parts hP id) fun found => ?_
  simp only
  split
  · exact hP.pure _
  · exact hP.bind (hP.ofExcept _) fun _ => hP.bind (hP.ofExcept _) fun _ => applyEvents_parts hP _

theorem enqueueTransferSubmission_parts (hP : TransferParts P) (id : Uuid) :
    P (enqueueTransferSubmission env id) := by
  unfold enqueueTransferSubmission
  split
  · exact processQueuedSubmission_parts hP id
  · exact hP.statement (.publishJob ⟨id⟩) trivial

theorem reconcileTransfer_parts (hP : TransferParts P) (id : Uuid) (context : RequestContext) :
    P (reconcileTransfer env id context) := by
  refine hP.bind (loadTransferOrThrow_parts hP id) fun found => ?_
  refine hP.bind (hP.ofExcept _) fun adapter => hP.bind (hP.ofExcept _) fun forAdapter => ?_
  have hrest : P (auditRecord context ⟨"transfer.reconciled", "transfer_request", id⟩ >>= fun _ =>
      loadTransferOrThrow env id >>= fun updated =>
        Pure.pure (mapTransferResponse { updated.1 with externalRailProvider := some updated.2 })) :=
    hP.bind (hP.audit (by decide) _ _ _) fun _ =>
      hP.bind (loadTransferOrThrow_parts hP id) fun _ => hP.pure _
  cases adapter.reconcileTransfer forAdapter with
  | some event => exact hP.bind (hP.event event) fun _ => hrest
  | none => exact hrest

theorem redriveTransfer_parts (hP : TransferParts P) (id : Uuid) (context : RequestContext) :
    P (redriveTransfer env id context) := by
  refine hP.bind (loadTransferOrThrow_parts hP id) fun found => ?_
  simp only
  split
  · exact hP.throw _
  · exact hP.bind (enqueueTransferSubmission_parts hP id) fun _ => hP.audit (by decide) _ _ _

end ExternalRailService

theorem TransfersService.createTransfer_parts (hP : TransferParts P) (input : CreateTransferRequest)
    (context : RequestContext) : P (TransfersService.createTransfer env input context) := by
  refine hP.bind (hP.ofExcept _) fun args => hP.bind (hP.create args) fun result => ?_
  cases truthy result.enqueueTransferId with
  | some id =>
      exact hP.bind (ExternalRailService.enqueueTransferSubmission_parts hP id) fun _ => hP.pure _
  | none => exact hP.pure _

/-- What holds of the parts holds of the calls about transfers. -/
theorem transferProgram_parts (hP : TransferParts P) {call : Call} (hcall : call.ofTransfers = true) :
    P (call.program env) := by
  cases call with
  | createTransfer input context =>
      exact hP.bind (TransfersService.createTransfer_parts hP input context) fun _ => hP.pure _
  | applyNormalizedEvent event => exact hP.bind (hP.event event) fun _ => hP.pure _
  | processQueuedSubmission id =>
      exact hP.bind (ExternalRailService.processQueuedSubmission_parts hP id) fun _ => hP.pure _
  | reconcileTransfer id context =>
      exact hP.bind (ExternalRailService.reconcileTransfer_parts hP id context) fun _ => hP.pure _
  | redriveTransfer id context =>
      exact hP.bind (ExternalRailService.redriveTransfer_parts hP id context) fun _ => hP.pure _
  | runBatch triggeredBy => cases hcall
  | retryFailedItems id context => cases hcall

namespace BatchService

theorem processBatchItems_parts (hP : Parts P) (batchRunId : Uuid) (accountIds : List Uuid) :
    P (processBatchItems env batchRunId accountIds) := by
  unfold processBatchItems
  split
  · exact hP.pure _
  · exact hP.pool fun id => hP.orElse (hP.item batchRunId id) fun e =>
      hP.plain (.updateBatchRunItemOf ..) trivial

theorem loadInterestRevenueAccounts_parts (hP : Parts P) (currencies : List String) :
    P (loadInterestRevenueAccounts currencies) := by
  refine hP.bind (hP.plain (.findLedgerAccountsIn ..) trivial) fun ledgerAccounts => ?_
  simp only
  split
  · exact hP.throw _
  · exact hP.pure _

theorem processChunks_parts (hP : Parts P) (batchRunId : Uuid)
    (interestRevenueAccountIds : List (String × Uuid)) (chunks : List (List BatchAccountSnapshot)) :
    P (processChunks env batchRunId interestRevenueAccountIds chunks) := by
  induction chunks with
  | nil => exact hP.pure _
  | cons chunk rest ih =>
      exact hP.bind (hP.orElse (hP.chunk batchRunId chunk interestRevenueAccountIds) fun _ =>
        processBatchItems_parts hP batchRunId _) fun _ => ih

theorem processBatchRunAccounts_parts (hP : Parts P) (batchRunId : Uuid)
    (accounts : List BatchAccountSnapshot) :
    P (processBatchRunAccounts env batchRunId accounts) := by
  refine hP.bind (processBatchItems_parts hP batchRunId _) fun _ => ?_
  split
  · exact hP.pure _
  · exact hP.bind (loadInterestRevenueAccounts_parts hP _) fun _ =>
      processChunks_parts hP batchRunId _ _

theorem runBatch_parts (hP : Parts P) (triggeredBy : String) : P (runBatch env triggeredBy) := by
  refine hP.draw fun correlationId scheduledFor => ?_
  refine hP.bind (hP.plain .newDate trivial) fun startedAt => ?_
  refine hP.bind (hP.plain (.createBatchRun _) trivial) fun batchRun => ?_
  refine hP.bind (hP.plain .findActiveAccounts trivial) fun accounts => ?_
  refine hP.bind (hP.plain (.createBatchRunItems _) trivial) fun _ => ?_
  refine hP.bind (processBatchRunAccounts_parts hP _ accounts) fun _ => ?_
  refine hP.bind (hP.plain (.countBatchRunItems ..) trivial) fun processedCount => ?_
  refine hP.bind (hP.plain (.countBatchRunItems ..) trivial) fun successCount => ?_
  refine hP.bind (hP.plain (.countBatchRunItems ..) trivial) fun failureCount => ?_
  refine hP.bind (hP.plain .newDate trivial) fun completedAt => ?_
  refine hP.bind (hP.plain (.updateBatchRun ..) trivial) fun _ => ?_
  exact hP.bind (hP.audit (by decide) _ _ _) fun _ => hP.pure _

theorem retryFailedItems_parts (hP : Parts P) (batchRunId : Uuid) (context : RequestContext) :
    P (retryFailedItems env batchRunId context) := by
  refine hP.bind (hP.plain (.findBatchRunItems ..) trivial) fun failedItems => ?_
  split
  · exact hP.pure _
  · exact hP.bind (processBatchItems_parts hP batchRunId _) fun _ =>
      hP.bind (hP.audit (by decide) _ _ _) fun _ => hP.pure _

end BatchService

/-- What holds of the parts holds of the calls. -/
theorem program_parts (hP : Parts P) (call : Call) : P (call.program env) := by
  cases call with
  | runBatch triggeredBy =>
      exact hP.bind (BatchService.runBatch_parts hP triggeredBy) fun _ => hP.pure _
  | retryFailedItems id context =>
      exact hP.bind (BatchService.retryFailedItems_parts hP id context) fun _ => hP.pure _
  | _ => exact transferProgram_parts hP.toTransferParts rfl

end Parts

/-! ## Transactions -/

/-- What the transactions of the services may commit. -/
inductive Committed (V : View) (env : Env) : {α : Type} → Label α → α → List Write → Prop where
  | createTransfer {args : CreateTransferArgs} {r : TransferMutationResult} {ws : List Write} :
      TransfersService.TransferRun V env args ws r → Committed V env (.createTransfer args) r ws
  | applyNormalizedEvent {event : NormalizedExternalRailEvent} {r : TransferRequest}
      {ws : List Write} :
      ExternalRailService.EventRun V env event ws r →
      Committed V env (.applyNormalizedEvent event) r ws
  | processBatchChunk {batchRunId : Uuid} {accounts : List BatchAccountSnapshot}
      {interestRevenueAccountIds : List (String × Uuid)} {ws running completed : List Write}
      {effectiveAt : Time} {rows : List BatchService.InterestRows} {u : Unit} :
      BatchService.ChunkRun V env batchRunId accounts interestRevenueAccountIds ws effectiveAt rows
        running completed →
      Committed V env (.processBatchChunk batchRunId accounts interestRevenueAccountIds) u ws
  | processBatchItem {batchRunId accountId : Uuid} {ws : List Write} {u : Unit} :
      BatchService.ItemRun V env batchRunId accountId ws →
      Committed V env (.processBatchItem batchRunId accountId) u ws
  | statement {α : Type} {q : Stmt α} {r : α} {ws : List Write} :
      V [] ⟨q, r, ws⟩ → Committed V env (.statement q) r ws

theorem committed_of_runs {V : View} (hV : Answering V) {env : Env} {α : Type} {l : Label α}
    {a : α} {ws : List Write} (hr : Runs V [] (l.body env) ws a) : Committed V env l a ws := by
  cases l with
  | createTransfer args => exact .createTransfer (TransfersService.createTransfer_runs hV hr)
  | applyNormalizedEvent event =>
      exact .applyNormalizedEvent (ExternalRailService.applyNormalizedEvent_runs hV hr)
  | processBatchChunk batchRunId accounts revenue =>
      obtain ⟨_, _, _, _, hchunk⟩ := BatchService.processBatchChunk_runs hV hr
      exact .processBatchChunk hchunk
  | processBatchItem batchRunId accountId =>
      exact .processBatchItem (BatchService.processBatchItem_runs hV hr)
  | statement q => exact .statement (runs_send.mp hr)

/-- What a transaction read of the static tables is learned. -/
theorem Committed.learned {V : View} {env : Env} {s s' : Store} (hs : s.Extends s')
    (hV : ∀ p e, V p e → Saw s' p e) {α : Type} {l : Label α} {a : α} {ws : List Write}
    (h : Committed V env l a ws) : learned s l a := by
  cases h with
  | @statement _ q r ws hread =>
      cases q with
      | findActiveAccounts =>
          intro x hx
          obtain ⟨account, hmem, hid, hcurrency, hledger⟩ := saw_findActiveAccounts (hV _ _ hread) x hx
          exact ⟨account, hs.accounts ▸ hmem, hid, hcurrency,
            hledger.trans (congrArg (Option.map _) (ledgerAccountOf_eq hs.ledgerAccounts account.id))⟩
      | findLedgerAccountsIn category currencies =>
          intro l hl
          rw [← hs.ledgerAccounts]
          exact saw_findLedgerAccountsIn (hV _ _ hread) l hl
      | _ => trivial
  | _ => trivial

/-- A chunk that was grounded before is grounded now. -/
theorem grounds_of_extends {s s' : Store} (hs : s.Extends s') {α : Type} {l : Label α}
    (h : grounds s l) : grounds s' l := by
  cases l with
  | processBatchChunk batchRunId accounts revenue =>
      refine ⟨fun x hx => ?_, fun entry hentry => hs.ledgerAccounts ▸ h.revenue entry hentry⟩
      obtain ⟨account, hmem, hid, hcurrency, hledger⟩ := h.snapshot x hx
      exact ⟨account, hs.accounts ▸ hmem, hid, hcurrency, hledger.trans
        (congrArg (Option.map _) (ledgerAccountOf_eq hs.ledgerAccounts.symm account.id))⟩
  | _ => exact h

/-- A statement outside of a transaction writes to the tables of batches only. -/
theorem kind_of_outside {V : View} (hV : Answering V) {α : Type} {q : Stmt α} (hq : Outside q)
    {p : List Write} {r : α} {ws : List Write} (h : V p ⟨q, r, ws⟩) :
    ∀ w ∈ ws, w.kind = .batch := by
  have hanswer := hV _ _ _ _ h
  cases q with
  | createBatchRunItems data =>
      obtain ⟨_, rfl⟩ := hanswer
      intro w hw
      obtain ⟨_, _, rfl⟩ := List.mem_map.mp hw
      rfl
  | _ => first
      | exact False.elim hq
      | (obtain rfl := hanswer; simp [Write.kind])
      | (obtain ⟨_, rfl⟩ := hanswer; simp [Write.kind])

/-! ## Atomic transactions -/

/-- What statements answer on the store of now. -/
def Now (s : Store) : View := fun p e =>
  ∃ ch, (database.applyAll p s).exec e.query ch = .ok (e.reply, e.writes)

theorem saw_of_now {s : Store} {p : List Write} {e : Event Stmt Write} (h : Now s p e) : Saw s p e := by
  obtain ⟨ch, hexec⟩ := h
  exact ⟨s, ch, .refl s, hexec⟩

theorem now_findFirstTransferRequest {s : Store} {id ref : Option String}
    {found : TransferWithSource} {ws : List Write}
    (h : Now s [] ⟨.findFirstTransferRequest id ref, some found, ws⟩) :
    found.transfer ∈ s.transferRequests.rows := by
  obtain ⟨ch, hexec⟩ := h
  obtain ⟨hread, -, -⟩ := includeSource_some hexec
  exact (List.mem_filter.mp (mem_arrange.mp (List.mem_of_head? hread))).1

/-- The rules of atomic transactions from the store `s` on. -/
def serialRules (env : Env) (s : Store) (Inv : Store → Prop) : Rules (server env) Unit Empty :=
  Rules.static (server env) Inv Store.Extends (grounds s) (learned s) (fun _ => [()])
    fun s' _ p e => Now s' p e

/-- What a transaction that commits in an atomic schedule may commit. -/
theorem serial_committed {env : Env} {s s' : Store} {Inv : Store → Prop} {α : Type} {T : Set Empty}
    {l : Label α} {h : List (Event Stmt Write)} {a : α}
    (hc : (serialRules env s Inv).Commits s' T l h a) : Committed (Now s') env l a (writes h) :=
  committed_of_runs (answering_of_saw fun _ _ => saw_of_now)
    (runs_of_completes hc.path (hc.evidence.mono fun _ _ _ he => he.2))

/-- An invariant of atomic transactions is kept by what may be committed on the store of now. -/
theorem serialRules_valid {env : Env} {s : Store} {Inv : Store → Prop}
    (hext : ∀ s', Inv s' → s.Extends s')
    (hstep : ∀ {α : Type} (s' : Store) (l : Label α) (a : α) (ws : List Write), Inv s' →
      grounds s' l → database.Admissible s' ws → Committed (Now s') env l a ws →
      Inv (database.applyAll ws s')) :
    (serialRules env s Inv).Valid (server env).Serial := by
  refine Rules.static_valid lawful_database Store.Extends.refl (fun _ _ _ => .trans)
    (Rules.serial_statements (fun _ => rfl) (fun _ _ _ _ => Iff.rfl) fun _ _ h => h) ?_ ?_
  · intro α s' T l h a hc
    obtain hinv : Inv s' := hc.inv
    have hcommitted := serial_committed hc
    exact ⟨hstep s' l a (writes h) hinv (grounds_of_extends (hext s' hinv) hc.pre) hc.admissible
      hcommitted, extends_applyAll (writes h) s',
      hcommitted.learned (hext s' hinv) fun _ _ => saw_of_now⟩
  · intro c call _ _
    exact program_fine ⟨fun _ _ _ hl => hl, fun _ _ _ _ _ _ hpost => hpost⟩ call _ _

/-! ## Any schedule -/

/-- The rules of any schedule from the store `s` on. -/
def openRules (env : Env) (s : Store) (Inv : Store → Prop) : Rules (server env) Unit Empty :=
  Rules.static (server env) Inv Store.Extends (grounds s) (learned s) (fun _ => [])
    fun _ _ _ _ => True

/-- What every commit keeps is an invariant, whatever the transactions read. -/
theorem openRules_valid {env : Env} {s : Store} {Inv : Store → Prop}
    (hext : ∀ s', Inv s' → s.Extends s')
    (hstep : ∀ {α : Type} (s' : Store) (l : Label α) (a : α) (ws : List Write), Inv s' →
      grounds s' l → database.Admissible s' ws → Committed (Saw s') env l a ws →
      Inv (database.applyAll ws s')) :
    (openRules env s Inv).Valid anySchedule := by
  refine Rules.static_valid lawful_database Store.Extends.refl (fun _ _ _ => .trans)
    (Rules.unguarded_statements (fun _ => rfl) fun _ _ _ _ => trivial) ?_ ?_
  · intro α s' T l h a hc
    obtain hinv : Inv s' := hc.inv
    have hsaw : Holds (Saw s') [] h :=
      hc.evidence.mono fun p e _ he => saw_of_seen (fun _ _ h => h) he.1
    have hcommitted : Committed (Saw s') env l a (writes h) :=
      committed_of_runs (answering_of_saw fun _ _ h => h) (runs_of_completes hc.path hsaw)
    exact ⟨hstep s' l a (writes h) hinv (grounds_of_extends (hext s' hinv) hc.pre) hc.admissible
      hcommitted, extends_applyAll (writes h) s',
      hcommitted.learned (hext s' hinv) fun _ _ h => h⟩
  · intro c call _ _
    exact program_fine ⟨fun _ _ _ hl => hl, fun _ _ _ _ _ _ hpost => hpost⟩ call _ _

end LedgerCredit
