import LedgerCredit.Journal

/-!
# What commits do to transfers

A commit does one of four things to the transfers: it creates one, settles one,
compensates one, or leaves them alone.  `TransferEffect` says which, with the
journal entries that go with it.  Between its insert and its last update nobody
sees a new transfer, so only the row that is left counts (`Initiated`).
-/

namespace LedgerCredit

open Txn LedgerService ExternalRailService

/-! ## Tables -/

section Table

variable {α ι υ : Type} {pk : α → ι} {uk : α → Option υ} [DecidableEq ι] {t : Table α pk uk}

/-- Changing a row at the end of a table. -/
theorem rows_modify_append {rows : List α} {r : α} (h : t.rows = rows ++ [r]) (f : α → α) (hp hu) :
    (t.modify (pk r) f hp hu).rows = rows ++ [f r] := by
  have hnodup := t.pk_nodup
  rw [h, List.map_append, List.map_singleton] at hnodup
  have hne : ∀ x ∈ rows, pk x ≠ pk r := fun x hx heq =>
    (List.nodup_append.mp hnodup).2.2 (pk x) (List.mem_map_of_mem hx) (pk r)
      (List.mem_singleton_self _) heq
  have hmap : rows.map (fun x => if pk x = pk r then f x else x) = rows :=
    (List.map_congr_left fun x hx => if_neg (hne x hx)).trans (List.map_id' rows)
  rw [Table.rows_modify, h, List.map_append, hmap]
  simp

end Table

variable {s : Store}

theorem rows_transferRequest {t : TransferRequest}
    (h : database.Admissible s [.transferRequest t]) :
    ((Write.transferRequest t).apply s).transferRequests.rows = s.transferRequests.rows ++ [t] := by
  refine Table.rows_insert (Table.fresh_of_absent
    (absent_of_admissible h (x := .row .transferRequest t.id) (by simp [Write.adds])) ?_)
  rintro u ⟨⟩
  exact absent_of_admissible h (x := .transferIdempotencyKey t.idempotencyKey)
    (by simp [Write.adds])

theorem rows_idempotencyRecord {r : IdempotencyRecord}
    (h : database.Admissible s [.idempotencyRecord r]) :
    ((Write.idempotencyRecord r).apply s).idempotencyRecords.rows =
      s.idempotencyRecords.rows ++ [r] := by
  refine Table.rows_insert (Table.fresh_of_absent
    (absent_of_admissible h (x := .row .idempotencyRecord r.id) (by simp [Write.adds])) ?_)
  rintro u ⟨⟩
  exact absent_of_admissible h (x := .idempotencyKey r.operationType r.key) (by simp [Write.adds])

theorem rows_updateTransferRequest {rows : List TransferRequest} {t : TransferRequest}
    {d : TransferRequestUpdate} (h : s.transferRequests.rows = rows ++ [t]) :
    ((Write.updateTransferRequest t.id d).apply s).transferRequests.rows = rows ++ [d.apply t] :=
  rows_modify_append h d.apply d.apply_id d.apply_uk

theorem rows_updateIdempotencyRecord {rows : List IdempotencyRecord} {r : IdempotencyRecord}
    {d : IdempotencyRecordUpdate} (h : s.idempotencyRecords.rows = rows ++ [r]) :
    ((Write.updateIdempotencyRecord r.id d).apply s).idempotencyRecords.rows = rows ++ [d.apply r] :=
  rows_modify_append h d.apply d.apply_id d.apply_uk

/-- The tables after a new transfer was posted. -/
theorem rows_newTransfer {record : IdempotencyRecord} {t : TransferRequest}
    {d d' : TransferRequestUpdate} {posted after : List Write}
    (hadm : database.Admissible s ([.idempotencyRecord record, .transferRequest t,
      .updateTransferRequest t.id d] ++ [.updateTransferRequest t.id d'] ++ posted ++ after))
    (hposted : ∀ w ∈ posted, w.kind = .ledger) :
    ∃ s', database.applyAll ([.idempotencyRecord record, .transferRequest t,
        .updateTransferRequest t.id d] ++ [.updateTransferRequest t.id d'] ++ posted ++ after) s =
          database.applyAll after s' ∧
      s'.transferRequests.rows = s.transferRequests.rows ++ [d'.apply (d.apply t)] ∧
      s'.idempotencyRecords.rows = s.idempotencyRecords.rows ++ [record] := by
  have hframe : ∀ w ∈ posted, w.kind ≠ .transfer := fun w hw => by simp [hposted w hw]
  simp only [List.cons_append, List.nil_append] at hadm
  obtain ⟨hrecord, hadm⟩ := Database.Admissible.of_cons lawful_database hadm
  obtain ⟨htransfer, -⟩ := Database.Admissible.of_cons lawful_database hadm
  refine ⟨_, Database.applyAll_append .., ?_, ?_⟩
  · rw [Database.applyAll_append, (Store.sameTransfers_applyAll hframe _).transferRequests]
    exact rows_updateTransferRequest (rows_updateTransferRequest (rows_transferRequest htransfer))
  · rw [Database.applyAll_append, (Store.sameTransfers_applyAll hframe _).idempotencyRecords]
    exact rows_idempotencyRecord hrecord

/-! ## Effects -/

/-- The idempotency record of a transfer that was created. -/
def succeededRecord (args : CreateTransferArgs) (u transferId : Uuid) (r : TransferMutationResult) :
    IdempotencyRecord :=
  (IdempotencyService.completeData r.statusCode r.body "transfer_request" transferId).apply
    (IdempotencyService.recordData "transfer.create" args.idempotencyKey args.requestHash u)

/-- The entry of a transfer: it takes the amount from one ledger account and gives it to another. -/
structure Moves (entry : JournalEntry) (postings : List Posting) (transferId : Uuid)
    (operation : String) (debited credited : Uuid) (amountMinor : Int) : Prop where
  transfer : entry.transferRequestId = truthy (some transferId)
  operation : entry.sourceOperationType = operation
  postings : ∃ debit credit, postings = [debit, credit] ∧
    debit.direction = .debit ∧ debit.ledgerAccountId = debited ∧ debit.amountMinor = amountMinor ∧
    credit.direction = .credit ∧ credit.ledgerAccountId = credited ∧
      credit.amountMinor = amountMinor

/-- A new transfer with its idempotency record and its entry. -/
structure Initiated (s s' : Store) (args : CreateTransferArgs) (r : TransferMutationResult)
    (t : TransferRequest) (u : Uuid) (source : LedgerAccount) : Prop where
  transferRequests : s'.transferRequests.rows = s.transferRequests.rows ++ [t]
  idempotencyRecords : s'.idempotencyRecords.rows =
    s.idempotencyRecords.rows ++ [succeededRecord args u t.id r]
  id_ne : t.id ≠ ""
  key : t.idempotencyKey = args.idempotencyKey
  hash : t.requestHash = args.requestHash
  transferType : t.transferType = TransfersService.transferType args.input.destination
  body : ∃ correlationId, r.body = .transfer t.id t.status correlationId
  statusCode : r.statusCode ≠ 0
  source : s.ledgerAccountOf t.sourceAccountId = some source

/-- The entry pays interest: it takes the amount from a revenue account, and gives it to the ledger
account of the account.  It is of no transfer. -/
def PaysInterestTo (s : Store) (e : JournalEntry × List Posting) (accountId : Uuid)
    (amountMinor : Int) : Prop :=
  ∃ revenue ∈ s.ledgerAccounts.rows, revenue.category = .interestRevenue ∧
    ∃ l, s.ledgerAccountOf accountId = some l ∧
      Moves e.1 e.2 "" BatchService.interestOperation revenue.id l.id amountMinor

/-- The entry pays interest to some account. -/
def PaysInterest (s : Store) (e : JournalEntry × List Posting) : Prop :=
  ∃ accountId amountMinor, PaysInterestTo s e accountId amountMinor

/-- An entry that pays interest is of no transfer. -/
theorem PaysInterest.transfer {e : JournalEntry × List Posting} (h : PaysInterest s e) :
    e.1.transferRequestId = none := by
  obtain ⟨_, _, _, _, _, _, _, hmoves⟩ := h
  rw [hmoves.transfer]
  rfl

/-- Interest is between a revenue account and the ledger account of a customer. -/
theorem PaysInterest.accounts {e : JournalEntry × List Posting} (h : PaysInterest s e) :
    ∀ q ∈ e.2, ∃ l ∈ s.ledgerAccounts.rows, l.id = q.ledgerAccountId ∧
      (l.category = .interestRevenue ∨ ∃ accountId, s.ledgerAccountOf accountId = some l) := by
  obtain ⟨accountId, _, revenue, hrevenue, hcategory, l, hl, hmoves⟩ := h
  obtain ⟨debit, credit, hpostings, -, hdebit, -, -, hcredit, -⟩ := hmoves.postings
  rw [hpostings]
  refine List.forall_mem_cons.mpr ⟨⟨revenue, hrevenue, hdebit.symm, Or.inl hcategory⟩, ?_⟩
  exact List.forall_mem_singleton.mpr
    ⟨l, (Table.find?_mem hl).1, hcredit.symm, Or.inr ⟨accountId, hl⟩⟩

/-- The transaction that creates transfers. -/
def Label.creates : {α : Type} → Label α → Bool
  | _, .createTransfer _ => true
  | _, _ => false

/-- The transactions that pay interest. -/
def Label.pays : {α : Type} → Label α → Bool
  | _, .processBatchChunk .. | _, .processBatchItem .. => true
  | _, _ => false

/-- What a commit with a result does to the transfers, and the entries that it adds. -/
inductive TransferEffect (V : View) (env : Env) (s s' : Store) :
    {α : Type} → Label α → α → List (JournalEntry × List Posting) → Prop where
  | other {α : Type} {l : Label α} {a : α} {entries : List (JournalEntry × List Posting)} :
      l.creates = false → s'.transferRequests = s.transferRequests →
      s'.idempotencyRecords = s.idempotencyRecords →
      (∀ e ∈ entries, PaysInterest s e) → (l.pays = false → entries = []) →
      TransferEffect V env s s' l a entries
  | replayed {args : CreateTransferArgs} {existing : IdempotencyRecord} {r : Replay} :
      V [] ⟨.findIdempotencyRecord "transfer.create" args.idempotencyKey, some existing, []⟩ →
      existing.requestHash = args.requestHash → existing.replay? = some r → s' = s →
      TransferEffect V env s s' (.createTransfer args) { statusCode := r.statusCode, body := r.body } []
  | internal {args : CreateTransferArgs} {r : TransferMutationResult} {t : TransferRequest}
      {u destinationId : Uuid} {source destination : LedgerAccount} {entry : JournalEntry}
      {postings : List Posting} :
      Initiated s s' args r t u source → t.status = .settled → t.transferType = .internal →
      s.ledgerAccountOf destinationId = some destination →
      Moves entry postings t.id "INTERNAL_TRANSFER" source.id destination.id t.amountMinor →
      args.input.destination = .internalAccount destinationId →
      TransferEffect V env s s' (.createTransfer args) r [(entry, postings)]
  | external {args : CreateTransferArgs} {r : TransferMutationResult} {t : TransferRequest} {u : Uuid}
      {source clearing : LedgerAccount} {entry : JournalEntry} {postings : List Posting} :
      Initiated s s' args r t u source → t.status = .pendingExternal → t.transferType = .interbank →
      t.settledAt = none → t.failureReason = none → clearing ∈ s.ledgerAccounts.rows →
      clearing.category = .clearing → clearing.currency = t.currency →
      Moves entry postings t.id "INTERBANK_TRANSFER_INITIATED" source.id clearing.id t.amountMinor →
      TransferEffect V env s s' (.createTransfer args) r [(entry, postings)]
  | settled {event : NormalizedExternalRailEvent} {found : TransferWithSource}
      {row : ExternalTransferEvent} {settledAt : Time} {r : TransferRequest} :
      Received V event found row → found.transfer.status = .pendingExternal →
      s'.transferRequests.rows = s.transferRequests.rows.map (fun t =>
        if t.id = found.transfer.id then (settledUpdate settledAt).apply t else t) →
      s'.idempotencyRecords = s.idempotencyRecords → event.eventType = .settled →
      TransferEffect V env s s' (.applyNormalizedEvent event) r []
  | compensated {event : NormalizedExternalRailEvent} {found : TransferWithSource}
      {row : ExternalTransferEvent} {source clearing : LedgerAccount} {entry : JournalEntry}
      {postings : List Posting} {r : TransferRequest} :
      Received V event found row → found.transfer.status = .pendingExternal →
      s'.transferRequests.rows = s.transferRequests.rows.map (fun t =>
        if t.id = found.transfer.id then (TransfersService.statusUpdate .compensated).apply
          ((failedUpdate event).apply t) else t) →
      s'.idempotencyRecords = s.idempotencyRecords →
      found.sourceAccount.ledgerAccount = some source →
      clearing ∈ s.ledgerAccounts.rows → clearing.category = .clearing →
      clearing.currency = found.transfer.currency →
      Moves entry postings found.transfer.id "INTERBANK_TRANSFER_COMPENSATION" clearing.id source.id
        found.transfer.amountMinor →
      event.eventType = .failed →
      TransferEffect V env s s' (.applyNormalizedEvent event) r [(entry, postings)]

/-! ## The effect of a commit -/

section Effect

variable {V : View} {env : Env} {p ws : List Write}

/-- An entry of two postings moves its amount. -/
theorem LedgerService.JournalPosted.moves {input : PostJournalEntryInput} {entry : JournalEntry}
    {postings : List Posting} {ledgerAccounts : List LedgerAccount} {rest : List Write}
    (h : JournalPosted V input p ws entry postings ledgerAccounts rest) {transferId : Uuid}
    (htransfer : truthy input.transferRequestId = truthy (some transferId)) {debited credited : Uuid}
    {amount : Money}
    (hpostings : input.postings = [⟨debited, .debit, amount⟩, ⟨credited, .credit, amount⟩]) :
    Moves entry postings transferId input.sourceOperationType debited credited
      amount.minorUnits := by
  obtain ⟨u, rfl⟩ := h.entry
  refine ⟨htransfer, rfl, ?_⟩
  have hforall := h.posted.rows.1
  rw [hpostings] at hforall
  cases hforall with
  | cons hdebit hrest =>
      cases hrest with
      | cons hcredit hnil =>
          cases hnil
          obtain ⟨_, rfl⟩ := hdebit.data
          obtain ⟨_, rfl⟩ := hcredit.data
          exact ⟨_, _, rfl, rfl, rfl, rfl, rfl, rfl, rfl⟩

namespace TransfersService

variable {args : CreateTransferArgs} {record : IdempotencyRecord} {source : Account}
  {sourceLedger : LedgerAccount} {amount : Money} {b : Option BalanceProjection}
  {transfer : TransferRequest}

theorem Created.initiated (hV : ∀ p e, V p e → Saw s p e)
    (h : Created V env args record source sourceLedger amount b transfer p)
    (r : TransferMutationResult)
    {s' : Store} {t : TransferRequest} (hsame : transfer.Same t)
    (htransfers : s'.transferRequests.rows = s.transferRequests.rows ++ [t])
    (hrecords : s'.idempotencyRecords.rows = s.idempotencyRecords.rows ++
      [(IdempotencyService.completeData r.statusCode r.body "transfer_request" transfer.id).apply
        record])
    (hbody : ∃ correlationId, r.body = .transfer transfer.id t.status correlationId)
    (hcode : r.statusCode ≠ 0) : ∃ u, Initiated s s' args r t u sourceLedger := by
  obtain ⟨u, rfl⟩ := h.recordRow
  obtain ⟨id, createdAt, hid, rfl⟩ := h.transferRow
  obtain ⟨howns, -⟩ := saw_findAccountWithBalance (hV _ _ h.checked.read)
  rw [← hsame.id] at hrecords hbody
  exact ⟨u, htransfers, hrecords, hsame.id ▸ hid, hsame.idempotencyKey, hsame.requestHash,
    hsame.transferType, hbody, hcode, hsame.sourceAccountId ▸ howns.ledgerAccount⟩

variable {posted rest : List Write} {effectiveAt : Time} {entry : JournalEntry}
  {postings : List Posting} {ledgerAccounts : List LedgerAccount}

theorem internal_effect (hV : ∀ p e, V p e → Saw s p e) {destinationId : Uuid}
    {destination : Account} {destinationLedger : LedgerAccount} {settledAt : Time}
    {correlationId : Option String} {u : Uuid}
    (hdest : args.input.destination = .internalAccount destinationId)
    (hcreated : Created V env args record source sourceLedger amount b transfer p)
    (hread : V p ⟨.findAccountWithLedger destinationId,
      some ⟨destination, some destinationLedger⟩, []⟩)
    (hposted : JournalPosted V (postingInput args transfer.id effectiveAt "INTERNAL_TRANSFER"
      sourceLedger.id destinationLedger.id amount)
      (p ++ [.updateTransferRequest transfer.id (statusUpdate .pendingLedger)]) posted entry postings
      ledgerAccounts rest)
    (hws : ws = p ++ [.updateTransferRequest transfer.id (statusUpdate .pendingLedger)] ++ posted ++
      [.updateTransferRequest transfer.id (settledUpdate settledAt),
        .updateIdempotencyRecord record.id (IdempotencyService.completeData 200
          (.transfer transfer.id .settled correlationId) "transfer_request" transfer.id),
        .auditEvent (auditData args.context
          ⟨"transfer.created", "transfer_request", transfer.id⟩ u)])
    (hadm : database.Admissible s ws) :
    TransferEffect V env s (database.applyAll ws s) (.createTransfer args)
      { statusCode := 200, body := .transfer transfer.id .settled correlationId }
      [(entry, postings)] := by
  obtain ⟨id, createdAt, -, hrow⟩ := hcreated.transferRow
  obtain ⟨howns, hid⟩ := saw_findAccountWithLedger (hV _ _ hread)
  obtain rfl := hcreated.writes
  obtain ⟨s₁, heq, htransfers, hrecords⟩ := rows_newTransfer (hws ▸ hadm) hposted.kind
  rw [← hws] at heq
  have hsame : transfer.Same ((settledUpdate settledAt).apply
      ((statusUpdate .pendingLedger).apply ((statusUpdate .validated).apply transfer))) :=
    ⟨rfl, rfl, rfl, rfl, rfl, rfl, rfl, rfl⟩
  have htransfers' := rows_updateTransferRequest (d := settledUpdate settledAt) htransfers
  have hrecords' := rows_updateIdempotencyRecord (d := IdempotencyService.completeData 200
    (.transfer transfer.id .settled correlationId) "transfer_request" transfer.id) hrecords
  obtain ⟨u', hinitiated⟩ := hcreated.initiated hV
    { statusCode := 200, body := .transfer transfer.id .settled correlationId } hsame
    ((congrArg (·.transferRequests.rows) heq).trans htransfers')
    ((congrArg (·.idempotencyRecords.rows) heq).trans hrecords') ⟨correlationId, rfl⟩ (by simp)
  refine .internal hinitiated rfl ?_ (hid ▸ howns.ledgerAccount) ?_ hdest
  · rw [hsame.transferType, hrow, transferData, hdest]
    rfl
  · have hamount : transfer.amountMinor = amount.minorUnits := by rw [hrow, transferData]
    rw [hsame.amountMinor, hamount]
    exact hposted.moves rfl rfl

theorem external_effect (hV : ∀ p e, V p e → Saw s p e) {clearing : LedgerAccount}
    {u u' : Uuid} {provider : Option String}
    {bankCode accountNumber accountName railProvider : String}
    (hdest : args.input.destination = .externalBank provider bankCode accountNumber accountName)
    (hcreated : Created V env args record source sourceLedger amount b transfer p)
    (hread : V p ⟨.findFirstLedgerAccount .clearing amount.currency, some clearing, []⟩)
    (hposted : JournalPosted V (postingInput args transfer.id effectiveAt
      "INTERBANK_TRANSFER_INITIATED" sourceLedger.id clearing.id amount)
      (p ++ [.updateTransferRequest transfer.id (pendingExternalData railProvider transfer.id)])
      posted entry postings ledgerAccounts rest)
    (hws : ws = p ++
        [.updateTransferRequest transfer.id (pendingExternalData railProvider transfer.id)] ++
        posted ++
      [.externalEvent (submittedData transfer.id railProvider u),
        .updateIdempotencyRecord record.id (IdempotencyService.completeData 202
          (.transfer transfer.id .pendingExternal (some args.context.correlationId))
          "transfer_request" transfer.id),
        .auditEvent (auditData args.context
          ⟨"transfer.created", "transfer_request", transfer.id⟩ u')])
    (hadm : database.Admissible s ws) :
    TransferEffect V env s (database.applyAll ws s) (.createTransfer args)
      { statusCode := 202
        body := .transfer transfer.id .pendingExternal (some args.context.correlationId)
        enqueueTransferId := some transfer.id } [(entry, postings)] := by
  obtain ⟨id, createdAt, -, hrow⟩ := hcreated.transferRow
  obtain ⟨hclearing, hcategory, hcurrency⟩ := saw_findFirstLedgerAccount (hV _ _ hread)
  obtain rfl := hcreated.writes
  obtain ⟨s₁, heq, htransfers, hrecords⟩ := rows_newTransfer (hws ▸ hadm) hposted.kind
  rw [← hws] at heq
  have hsame : transfer.Same ((pendingExternalData railProvider transfer.id).apply
      ((statusUpdate .validated).apply transfer)) := ⟨rfl, rfl, rfl, rfl, rfl, rfl, rfl, rfl⟩
  have hrecords' := rows_updateIdempotencyRecord (d := IdempotencyService.completeData 202
    (.transfer transfer.id .pendingExternal (some args.context.correlationId)) "transfer_request"
    transfer.id) hrecords
  obtain ⟨u'', hinitiated⟩ := hcreated.initiated hV
    { statusCode := 202
      body := .transfer transfer.id .pendingExternal (some args.context.correlationId)
      enqueueTransferId := some transfer.id } hsame
    ((congrArg (·.transferRequests.rows) heq).trans htransfers)
    ((congrArg (·.idempotencyRecords.rows) heq).trans hrecords') ⟨_, rfl⟩ (by simp)
  refine .external hinitiated rfl ?_ ?_ ?_ hclearing hcategory ?_ ?_
  · rw [hsame.transferType, hrow, transferData, hdest]
    rfl
  · rw [hrow]
    rfl
  · rw [hrow]
    rfl
  · rw [hsame.currency, hcurrency, hrow, transferData]
  · have hamount : transfer.amountMinor = amount.minorUnits := by rw [hrow, transferData]
    rw [hsame.amountMinor, hamount]
    exact hposted.moves rfl rfl

/-- A transfer that is created is one row, with one record and one entry. -/
theorem TransferRun.effect (hV : ∀ p e, V p e → Saw s p e) {r : TransferMutationResult}
    (h : TransferRun V env args ws r) (hadm : database.Admissible s ws) :
    ∃ entries, Journalled ws entries ∧
      TransferEffect V env s (database.applyAll ws s) (.createTransfer args) r entries := by
  cases h with
  | replay hfind hhash hreplay =>
      exact ⟨[], .nil_of_kind (by simp), .replayed hfind hhash hreplay rfl⟩
  | internal _ _ _ hdest hcreated hread _ hposted =>
      exact ⟨_, hposted.journalled.wrap (hcreated.before rfl) (by simp [Write.kind]),
        internal_effect hV hdest hcreated hread hposted rfl hadm⟩
  | external _ _ hdest _ hcreated hread hposted =>
      exact ⟨_, hposted.journalled.wrap (hcreated.before rfl) (by simp [Write.kind]),
        external_effect hV hdest hcreated hread hposted rfl hadm⟩

end TransfersService

/-- The tables after two updates of one transfer around an entry. -/
theorem rows_updatedTwice {id : Uuid} {d d' : TransferRequestUpdate}
    {row marker : ExternalTransferEvent} {posted : List Write}
    (hposted : ∀ w ∈ posted, w.kind = .ledger) (s : Store) :
    (database.applyAll ([.externalEvent row, .updateTransferRequest id d] ++ posted ++
      [.updateTransferRequest id d', .externalEvent marker]) s).transferRequests.rows =
        s.transferRequests.rows.map (fun t => if t.id = id then d'.apply (d.apply t) else t) ∧
    (database.applyAll ([.externalEvent row, .updateTransferRequest id d] ++ posted ++
      [.updateTransferRequest id d', .externalEvent marker]) s).idempotencyRecords =
        s.idempotencyRecords := by
  have hframe : ∀ w ∈ posted, w.kind ≠ .transfer := fun w hw => by simp [hposted w hw]
  have hsame := Store.sameTransfers_applyAll hframe
    (database.applyAll [.externalEvent row, .updateTransferRequest id d] s)
  rw [← Database.applyAll_append] at hsame
  rw [Database.applyAll_append]
  refine ⟨?_, hsame.idempotencyRecords⟩
  have hrows := congrArg (fun t => t.rows.map fun t => if t.id = id then d'.apply t else t)
    hsame.transferRequests
  refine Eq.trans hrows (Eq.trans (List.map_map ..) (List.map_congr_left fun t _ => ?_))
  by_cases hid : t.id = id <;> simp [hid]

namespace ExternalRailService

variable {event : NormalizedExternalRailEvent}

theorem EventRun.effect (hV : ∀ p e, V p e → Saw s p e) {r : TransferRequest}
    (h : EventRun V env event ws r) :
    ∃ entries, Journalled ws entries ∧
      TransferEffect V env s (database.applyAll ws s) (.applyNormalizedEvent event) r entries := by
  cases h with
  | duplicate _ _ => exact ⟨[], .nil_of_kind (by simp), .other rfl rfl rfl (by simp) fun _ => rfl⟩
  | recorded _ _ =>
      exact ⟨[], .nil_of_kind (by simp [Write.kind]), .other rfl rfl rfl (by simp) fun _ => rfl⟩
  | settled hreceived htype hpending =>
      exact ⟨[], .nil_of_kind (by simp [Write.kind]), .settled hreceived hpending rfl rfl htype⟩
  | compensated hreceived htype hpending hsource hcomp =>
      obtain ⟨hclearing, hcategory, hcurrency⟩ := saw_findFirstLedgerAccount (hV _ _ hcomp.clearingRead)
      refine ⟨_, hcomp.entry.journalled.wrap (by simp [Write.kind]) (by simp [Write.kind]), ?_⟩
      obtain ⟨htransfers, hrecords⟩ := rows_updatedTwice hcomp.entry.kind s
      refine .compensated hreceived hpending htransfers hrecords hsource hclearing hcategory
        hcurrency ?_ htype
      rw [Except.ok.inj (fromMinorUnits_ok hcomp.money).2]
      exact hcomp.entry.moves rfl rfl

end ExternalRailService

namespace BatchService

variable {batchRunId : Uuid}

theorem RowOf.paysInterest {accounts : List BatchAccountSnapshot}
    {interestRevenueAccountIds : List (String × Uuid)}
    (hground : s.Grounded accounts interestRevenueAccountIds) {effectiveAt : Time}
    {x : BatchAccountSnapshot} (hx : x ∈ accounts) {row : InterestRows}
    (h : RowOf env batchRunId interestRevenueAccountIds effectiveAt x row) :
    PaysInterest s (row.journalEntry, [row.debit, row.credit]) := by
  obtain ⟨uuid, ledgerAccountId, revenueId, hledger, hrevenue, rfl⟩ := h
  obtain ⟨a, ha, -, -, haccount⟩ := hground.snapshot x hx
  obtain ⟨l, hl, hid⟩ := Option.map_eq_some_iff.mp (haccount.symm.trans hledger)
  obtain ⟨r, hr, hrid, -, hcategory⟩ := hground.revenue _ (mapGet_mem hrevenue)
  exact ⟨_, _, r, hr, hcategory, l, hl,
    ⟨rfl, rfl, _, _, rfl, rfl, hrid.symm, rfl, rfl, hid.symm, rfl⟩⟩

theorem ItemRun.paysInterest (hV : ∀ p e, V p e → Saw s p e) {accountId : Uuid}
    (h : ItemRun V env batchRunId accountId ws) :
    ∃ entries, Journalled ws entries ∧ ∀ e ∈ entries, PaysInterest s e := by
  cases h with
  | processed _ _ hread hpaid =>
      cases hpaid with
      | none _ => exact ⟨[], .nil_of_kind (by simp [Write.kind]), by simp⟩
      | paid _ hrevenue _ hposted =>
          obtain ⟨howns, -⟩ := saw_findAccountWithBalance (hV _ _ hread)
          obtain ⟨hr, hcategory, -⟩ := saw_findFirstLedgerAccount (hV _ _ hrevenue)
          refine ⟨_, hposted.journalled.wrap (by simp [Write.kind]) (by simp [Write.kind]), ?_⟩
          exact List.forall_mem_singleton.mpr ⟨_, _, _, hr, hcategory, _, howns.ledgerAccount,
            hposted.moves rfl rfl⟩
  | _ => exact ⟨[], .nil_of_kind (by simp), by simp⟩

theorem ItemRun.kind {accountId : Uuid} (h : ItemRun V env batchRunId accountId ws) :
    ∀ w ∈ ws, w.kind ≠ .transfer := by
  cases h with
  | processed _ _ _ hpaid =>
      intro w hw
      simp only [List.mem_append, List.mem_singleton] at hw
      rcases hw with (rfl | hw) | rfl
      · simp [Write.kind]
      · simp [hpaid.kind w hw]
      · simp [Write.kind]
  | _ => simp

theorem ChunkRun.kind (hV : Answering V) {accounts : List BatchAccountSnapshot}
    {interestRevenueAccountIds : List (String × Uuid)} {running completed : List Write}
    {effectiveAt : Time} {rows : List InterestRows}
    (h : ChunkRun V env batchRunId accounts interestRevenueAccountIds ws effectiveAt rows running
      completed) : ∀ w ∈ ws, w.kind ≠ .transfer := by
  intro w hw
  rw [h.writes, List.mem_append, List.mem_append] at hw
  rcases hw with (hw | hw) | hw
  · simp [kind_of_updateBatchRunItems hV h.marked w hw]
  · simp [rowWrites_kind w hw]
  · simp [kind_of_updateBatchRunItems hV h.closed w hw]

end BatchService

/-- The transactions of transfers. -/
def Label.transfers : {α : Type} → Label α → Bool
  | _, .createTransfer _ | _, .applyNormalizedEvent _ => true
  | _, _ => false

/-- The other transactions leave the tables of transfers alone. -/
theorem Committed.kind (hV : Answering V) {α : Type} {l : Label α} (hl : grounds s l) {a : α}
    (h : Committed V env l a ws) (hother : l.transfers = false) : ∀ w ∈ ws, w.kind ≠ .transfer := by
  cases h with
  | createTransfer _ => cases hother
  | applyNormalizedEvent _ => cases hother
  | processBatchChunk hrun => exact hrun.kind hV
  | processBatchItem hrun => exact hrun.kind
  | statement hread =>
      intro w hw
      simp [kind_of_outside hV hl hread w hw]

/-- The effect of every commit. -/
theorem Committed.effect (hV : ∀ p e, V p e → Saw s p e) {α : Type} {l : Label α}
    (hl : grounds s l) {a : α} (h : Committed V env l a ws) (hadm : database.Admissible s ws) :
    ∃ entries, Journalled ws entries ∧ TransferEffect V env s (database.applyAll ws s) l a entries := by
  have hother : ∀ {entries : List (JournalEntry × List Posting)}, l.transfers = false →
      l.creates = false → (∀ e ∈ entries, PaysInterest s e) → (l.pays = false → entries = []) →
      TransferEffect V env s (database.applyAll ws s) l a entries :=
    fun htransfers hl' hentries hnone => by
    have hsame := Store.sameTransfers_applyAll (h.kind (answering_of_saw hV) hl htransfers) s
    exact .other hl' hsame.transferRequests hsame.idempotencyRecords hentries hnone
  cases h with
  | createTransfer hrun => exact hrun.effect hV hadm
  | applyNormalizedEvent hrun => exact hrun.effect hV
  | processBatchChunk hrun =>
      refine ⟨_, hrun.journalled (answering_of_saw hV), hother rfl rfl (fun e he => ?_) (by simp [Label.pays])⟩
      obtain ⟨row, hrow, rfl⟩ := List.mem_map.mp he
      obtain ⟨_, hx, hof⟩ := hrun.rowOf row hrow
      exact hof.paysInterest hl hx
  | processBatchItem hrun =>
      obtain ⟨entries, hjournalled, hentries⟩ := hrun.paysInterest hV
      exact ⟨entries, hjournalled, hother rfl rfl hentries (by simp [Label.pays])⟩
  | statement hread =>
      refine ⟨[], .nil_of_kind fun w hw => ?_, hother rfl rfl (by simp) fun _ => rfl⟩
      simp [kind_of_outside (answering_of_saw hV) hl hread w hw]

end Effect

end LedgerCredit
