import LedgerCredit.LedgerRuns

/-!
# What a transfer does

`TransferRun` says everything the transaction of `createTransfer` can do: replay
a stored response and write nothing, or create a transfer and post it, inside or
to clearing.  `EventRun` says it for `applyNormalizedEvent`.
-/

namespace LedgerCredit

open Txn

/-! ## Idempotency -/

namespace IdempotencyService

/-- What `begin` finds and writes. -/
inductive Began (V : View) (operationType key requestHash : String) (p : List Write) :
    List Write → IdempotencyBeginResult → Prop where
  | replay {existing : IdempotencyRecord} {r : Replay} :
      V p ⟨.findIdempotencyRecord operationType key, some existing, []⟩ →
      existing.requestHash = requestHash → existing.replay? = some r →
      Began V operationType key requestHash p [] (.replay r)
  | fresh {u : Uuid} :
      V p ⟨.findIdempotencyRecord operationType key, none, []⟩ →
      Began V operationType key requestHash p
        [.idempotencyRecord (recordData operationType key requestHash u)] (.recordId u)

theorem begin_runs {V : View} (hV : Answering V) {operationType key requestHash : String}
    {p ws : List Write} {r : IdempotencyBeginResult}
    (hr : Runs V p (begin operationType key requestHash) ws r) :
    Began V operationType key requestHash p ws r := by
  simp only [begin, runs_bind, runs_send] at hr
  obtain ⟨_, o, hfind, _, rfl, hr⟩ := hr
  obtain rfl := hV _ _ _ _ hfind
  cases o with
  | some existing =>
      simp only [runs_bind, assert, runs_ensure, orThrow, runs_require, runs_return] at hr
      obtain ⟨_, _, ⟨rfl, hhash⟩, _, rfl, _, replay, ⟨rfl, hreplay⟩, _, rfl, rfl, rfl⟩ := hr
      exact .replay hfind (by simpa using hhash) hreplay
  | none =>
      simp only [runs_bind, runs_send, runs_return] at hr
      obtain ⟨_, created, hcreate, _, rfl, rfl, rfl⟩ := hr
      obtain ⟨⟨u, rfl⟩, rfl⟩ := hV _ _ _ _ hcreate
      exact .fresh hfind

end IdempotencyService

/-! ## Creation -/

namespace TransfersService

open LedgerService

variable {V : View} {env : Env} {args : CreateTransferArgs}

/-- What the checks on the source account establish. -/
structure SourceChecked (V : View) (env : Env) (args : CreateTransferArgs) (p : List Write)
    (source : Account) (ledgerAccount : LedgerAccount) (amount : Money)
    (b : Option BalanceProjection) : Prop where
  read : V p ⟨.findAccountWithBalance args.input.sourceAccountId,
    some ⟨source, some ledgerAccount, b⟩, []⟩
  owner : assertCustomerOwnsResource args.context source.customerId = .ok ()
  active : source.status = .active
  currency : source.currency = args.input.amount.currency
  money : Money.fromMinorUnits env args.input.amount.currency
    (.number args.input.amount.minorUnits) = .ok amount
  positive : 0 < amount.minorUnits
  funds : amount.minorUnits ≤ balanceOf b

theorem checkSource_runs (hV : Answering V) {p ws : List Write}
    {r : Account × LedgerAccount × Money} (hr : Runs V p (checkSource env args) ws r) :
    ws = [] ∧ ∃ b, SourceChecked V env args p r.1 r.2.1 r.2.2 b := by
  simp only [checkSource, runs_bind, runs_send, orThrow, runs_require, assert, runs_ensure,
    runs_ofExcept, runs_return] at hr
  obtain ⟨_, found, hread, _, rfl, _, ⟨source, ledgerAccount⟩, ⟨rfl, hfound⟩, _, rfl, _, _,
    ⟨rfl, howner⟩, _, rfl, _, _, ⟨rfl, hactive⟩, _, rfl, _, _, ⟨rfl, hcurrency⟩, _, rfl, _, amount,
    ⟨rfl, hmoney⟩, _, rfl, _, _, ⟨rfl, hpos⟩, _, rfl, _, _, ⟨rfl, hfunds⟩, _, rfl, rfl, rfl⟩ := hr
  obtain rfl := hV _ _ _ _ hread
  obtain ⟨⟨account, lo, b⟩, rfl, hledger⟩ := Option.bind_eq_some_iff.mp hfound
  obtain ⟨l, rfl, heq⟩ := Option.map_eq_some_iff.mp hledger
  obtain ⟨rfl, rfl⟩ := Prod.mk.inj heq
  exact ⟨rfl, b, hread, howner, by simpa using hactive, by simpa using hcurrency, hmoney,
    by simpa using hpos, by simpa [balanceOf] using hfunds⟩

/-- The updates of a transfer on its way. -/
def statusUpdate (status : TransferStatus) : TransferRequestUpdate := { status := some status }

/-- What the transaction of a new transfer does up to the point where the destinations part. -/
structure Created (V : View) (env : Env) (args : CreateTransferArgs) (record : IdempotencyRecord)
    (source : Account) (sourceLedger : LedgerAccount) (amount : Money)
    (b : Option BalanceProjection) (transfer : TransferRequest) (p : List Write) : Prop where
  absent : V [] ⟨.findIdempotencyRecord "transfer.create" args.idempotencyKey, none, []⟩
  recordRow : ∃ u, record = IdempotencyService.recordData "transfer.create" args.idempotencyKey
    args.requestHash u
  checked : SourceChecked V env args [.idempotencyRecord record] source sourceLedger amount b
  transferRow : ∃ id createdAt, id ≠ "" ∧ transfer = transferData args source amount id createdAt
  writes : p = [.idempotencyRecord record, .transferRequest transfer,
    .updateTransferRequest transfer.id (statusUpdate .validated)]

/-- What the transaction of `createTransfer` can do. -/
inductive TransferRun (V : View) (env : Env) (args : CreateTransferArgs) :
    List Write → TransferMutationResult → Prop where
  | replay {existing : IdempotencyRecord} {r : Replay} :
      V [] ⟨.findIdempotencyRecord "transfer.create" args.idempotencyKey, some existing, []⟩ →
      existing.requestHash = args.requestHash → existing.replay? = some r →
      TransferRun V env args [] { statusCode := r.statusCode, body := r.body }
  | internal {record : IdempotencyRecord} {source destination : Account}
      {sourceLedger destinationLedger : LedgerAccount} {amount : Money}
      {b : Option BalanceProjection} {transfer : TransferRequest} {p posted rest : List Write}
      {destinationId : Uuid} {effectiveAt : Time} {journalEntry : JournalEntry}
      {postings : List Posting} {ledgerAccounts : List LedgerAccount} (settledAt : Time)
      (correlationId : Option String) (u : Uuid) :
      args.input.destination = .internalAccount destinationId →
      Created V env args record source sourceLedger amount b transfer p →
      V p ⟨.findAccountWithLedger destinationId, some ⟨destination, some destinationLedger⟩, []⟩ →
      destination.currency = amount.currency →
      JournalPosted V (postingInput args transfer.id effectiveAt "INTERNAL_TRANSFER" sourceLedger.id
        destinationLedger.id amount)
        (p ++ [.updateTransferRequest transfer.id (statusUpdate .pendingLedger)]) posted
        journalEntry postings ledgerAccounts rest →
      TransferRun V env args
        (p ++ [.updateTransferRequest transfer.id (statusUpdate .pendingLedger)] ++ posted ++
          [.updateTransferRequest transfer.id
              { status := some .settled, settledAt := some settledAt },
            .updateIdempotencyRecord record.id (IdempotencyService.completeData 200
              (.transfer transfer.id .settled correlationId) "transfer_request" transfer.id),
            .auditEvent (auditData args.context
              ⟨"transfer.created", "transfer_request", transfer.id⟩ u)])
        { statusCode := 200, body := .transfer transfer.id .settled correlationId }
  | external {record : IdempotencyRecord} {source : Account} {sourceLedger clearing : LedgerAccount}
      {amount : Money} {b : Option BalanceProjection} {transfer : TransferRequest}
      {p posted rest : List Write} {effectiveAt : Time} {journalEntry : JournalEntry}
      {postings : List Posting} {ledgerAccounts : List LedgerAccount} (u u' : Uuid)
      {provider : Option String} {bankCode accountNumber accountName railProvider : String} :
      args.input.destination = .externalBank provider bankCode accountNumber accountName →
      railProvider = args.externalRailProvider.getD env.externalRailDefaultProvider →
      Created V env args record source sourceLedger amount b transfer p →
      V p ⟨.findFirstLedgerAccount .clearing amount.currency, some clearing, []⟩ →
      JournalPosted V (postingInput args transfer.id effectiveAt "INTERBANK_TRANSFER_INITIATED"
        sourceLedger.id clearing.id amount)
        (p ++ [.updateTransferRequest transfer.id (pendingExternalData railProvider transfer.id)])
        posted journalEntry postings ledgerAccounts rest →
      TransferRun V env args
        (p ++ [.updateTransferRequest transfer.id (pendingExternalData railProvider transfer.id)] ++
            posted ++
          [.externalEvent (submittedData transfer.id railProvider u),
            .updateIdempotencyRecord record.id (IdempotencyService.completeData 202
              (.transfer transfer.id .pendingExternal (some args.context.correlationId))
              "transfer_request" transfer.id),
            .auditEvent (auditData args.context
              ⟨"transfer.created", "transfer_request", transfer.id⟩ u')])
        { statusCode := 202
          body := .transfer transfer.id .pendingExternal (some args.context.correlationId)
          enqueueTransferId := some transfer.id }

theorem createInternal_runs (hV : Answering V) {record : IdempotencyRecord}
    {source : Account} {sourceLedger : LedgerAccount} {amount : Money}
    {b : Option BalanceProjection} {transfer : TransferRequest} {destinationId : Uuid}
    {p ws : List Write} {r : TransferMutationResult}
    (hdest : args.input.destination = .internalAccount destinationId)
    (hcreated : Created V env args record source sourceLedger amount b transfer p)
    (hr : Runs V p (createInternal args record.id sourceLedger amount transfer destinationId) ws r) :
    TransferRun V env args (p ++ ws) r := by
  simp only [createInternal, runs_bind, runs_send, orThrow, runs_require, assert, runs_ensure,
    IdempotencyService.complete, recordInTransaction, runs_return] at hr
  obtain ⟨_, found, hread, _, rfl, _, ⟨destination, ledgerAccount⟩, ⟨rfl, hfound⟩, _, rfl, _, _,
    ⟨rfl, hcurrency⟩, _, rfl, _, _, hpending, _, rfl, _, effectiveAt, hnow, _, rfl, posted, _, hpost,
    _, rfl, _, settledAt, hnow', _, rfl, _, settled, hsettle, _, rfl, _, _, hcomplete, _, rfl, _, _,
    haudit, _, rfl, rfl, rfl⟩ := hr
  obtain rfl := hV _ _ _ _ hread
  obtain ⟨_, rfl⟩ := hV _ _ _ _ hpending
  obtain rfl := hV _ _ _ _ hnow
  obtain rfl := hV _ _ _ _ hnow'
  obtain ⟨⟨t, ht, rfl⟩, rfl⟩ := hV _ _ _ _ hsettle
  obtain rfl := hV _ _ _ _ hcomplete
  obtain ⟨u, rfl⟩ := hV _ _ _ _ haudit
  obtain ⟨⟨account, lo⟩, rfl, hledger⟩ := Option.bind_eq_some_iff.mp hfound
  obtain ⟨l, rfl, heq⟩ := Option.map_eq_some_iff.mp hledger
  obtain ⟨rfl, rfl⟩ := Prod.mk.inj heq
  simp only [List.append_nil] at hpost
  obtain ⟨ledgerAccounts, rest, hposted⟩ := postJournalEntry_runs hV hpost
  simpa [ht, statusUpdate] using TransferRun.internal settledAt t.correlationId u hdest hcreated
    hread (by simpa using hcurrency) hposted

theorem createExternal_runs (hV : Answering V) {record : IdempotencyRecord}
    {source : Account} {sourceLedger : LedgerAccount} {amount : Money}
    {b : Option BalanceProjection} {transfer : TransferRequest} {p ws : List Write}
    {r : TransferMutationResult} {provider : Option String}
    {bankCode accountNumber accountName : String}
    (hdest : args.input.destination = .externalBank provider bankCode accountNumber accountName)
    (hcreated : Created V env args record source sourceLedger amount b transfer p)
    (hr : Runs V p (createExternal env args record.id sourceLedger amount transfer) ws r) :
    TransferRun V env args (p ++ ws) r := by
  simp only [createExternal, runs_bind, runs_send, IdempotencyService.complete,
    recordInTransaction, runs_return] at hr
  obtain ⟨_, clearing, hclearing, _, rfl, _, _, hpending, _, rfl, _, effectiveAt, hnow, _, rfl,
    posted, _, hpost, _, rfl, _, _, hevent, _, rfl, _, _, hcomplete, _, rfl, _, _, haudit, _, rfl,
    rfl, rfl⟩ := hr
  obtain ⟨rfl, hfind⟩ := findSystemLedgerAccount_runs hV hclearing
  obtain ⟨_, rfl⟩ := hV _ _ _ _ hpending
  obtain rfl := hV _ _ _ _ hnow
  obtain ⟨u, rfl⟩ := hV _ _ _ _ hevent
  obtain rfl := hV _ _ _ _ hcomplete
  obtain ⟨u', rfl⟩ := hV _ _ _ _ haudit
  simp only [List.append_nil] at hpost
  obtain ⟨ledgerAccounts, rest, hposted⟩ := postJournalEntry_runs hV hpost
  simpa using TransferRun.external u u' hdest rfl hcreated hfind hposted

theorem createNew_runs (hV : Answering V) {u : Uuid} {record : IdempotencyRecord}
    (hrecord : record = IdempotencyService.recordData "transfer.create" args.idempotencyKey
      args.requestHash u)
    (habsent : V [] ⟨.findIdempotencyRecord "transfer.create" args.idempotencyKey, none, []⟩)
    {ws : List Write} {r : TransferMutationResult}
    (hr : Runs V [.idempotencyRecord record] (createNew env args record.id) ws r) :
    TransferRun V env args (.idempotencyRecord record :: ws) r := by
  simp only [createNew, runs_bind, runs_send] at hr
  obtain ⟨_, ⟨source, sourceLedger, amount⟩, hcheck, _, rfl, _, transfer, hcreate, _, rfl, _, _,
    hvalidate, _, rfl, hr⟩ := hr
  obtain ⟨rfl, b, hchecked⟩ := checkSource_runs hV hcheck
  obtain ⟨⟨id, createdAt, hid, rfl⟩, rfl⟩ := hV _ _ _ _ hcreate
  obtain ⟨_, rfl⟩ := hV _ _ _ _ hvalidate
  have hcreated : Created V env args record source sourceLedger amount b
      (transferData args source amount id createdAt) _ :=
    ⟨habsent, ⟨u, hrecord⟩, hchecked, ⟨id, createdAt, hid, rfl⟩, rfl⟩
  split at hr
  · rename_i destinationId hdest
    simpa [statusUpdate] using
      createInternal_runs hV hdest hcreated (by simpa [statusUpdate] using hr)
  · rename_i provider bankCode accountNumber accountName hdest
    simpa [statusUpdate] using
      createExternal_runs hV hdest hcreated (by simpa [statusUpdate] using hr)

/-- Everything the transaction of `createTransfer` can do. -/
theorem createTransfer_runs (hV : Answering V) {ws : List Write} {r : TransferMutationResult}
    (hr : Runs V [] (createTransferTx env args) ws r) : TransferRun V env args ws r := by
  simp only [createTransferTx, runs_bind] at hr
  obtain ⟨_, began, hbegin, _, rfl, hr⟩ := hr
  cases IdempotencyService.begin_runs hV hbegin with
  | replay hfind hhash hreplay =>
      obtain ⟨rfl, rfl⟩ := runs_return.mp hr
      exact .replay hfind hhash hreplay
  | fresh habsent => exact createNew_runs hV rfl habsent hr

end TransfersService

/-! ## Provider events -/

namespace ExternalRailService

open LedgerService

variable {V : View} {env : Env} {event : NormalizedExternalRailEvent}

/-- The update that settles a transfer. -/
def settledUpdate (settledAt : Time) : TransferRequestUpdate :=
  { status := some .settled, settledAt := some settledAt }

/-- The update that fails a transfer, before its compensation. -/
def failedUpdate (event : NormalizedExternalRailEvent) : TransferRequestUpdate :=
  { status := some .failed, failureReason := some (failureReason event) }

/-- What a new event finds, and the row under which it is recorded. -/
structure Received (V : View) (event : NormalizedExternalRailEvent) (found : TransferWithSource)
    (row : ExternalTransferEvent) : Prop where
  absent : V [] ⟨.findExternalEvent event.provider event.providerEventId, none, []⟩
  lookup : V [] ⟨.findFirstTransferRequest (truthy event.transferRequestId)
    (truthy event.externalReference), some found, []⟩
  eventRow : ∃ now u, row = eventData found.transfer.id event now u

/-- What the compensation of a transfer does after the writes `p`. -/
structure Compensated (V : View) (env : Env) (event : NormalizedExternalRailEvent)
    (transfer : TransferRequest) (source clearing : LedgerAccount) (amount : Money)
    (effectiveAt : Time) (journalEntry : JournalEntry) (postings : List Posting)
    (ledgerAccounts : List LedgerAccount) (marker : ExternalTransferEvent)
    (p posted rest : List Write) : Prop where
  clearingRead : V p ⟨.findFirstLedgerAccount .clearing transfer.currency, some clearing, []⟩
  money : Money.fromMinorUnits env transfer.currency (.bigint transfer.amountMinor) = .ok amount
  entry : JournalPosted V (compensationInput transfer effectiveAt clearing.id source.id amount)
    (p ++ [.updateTransferRequest transfer.id (failedUpdate event)]) posted journalEntry postings
    ledgerAccounts rest
  markerRow : ∃ now u, marker = compensatedData transfer.id event now u

/-- A new event that changes nothing: it only acknowledges, or the transfer does not wait for its
rail, or there is no ledger account to give its amount back to. -/
def Idle (event : NormalizedExternalRailEvent) (found : TransferWithSource) : Prop :=
  event.eventType = .acknowledged ∨ found.transfer.status ≠ .pendingExternal ∨
    event.eventType = .failed ∧ found.sourceAccount.ledgerAccount = none

/-- What the transaction of `applyNormalizedEvent` can do. -/
inductive EventRun (V : View) (env : Env) (event : NormalizedExternalRailEvent) :
    List Write → TransferRequest → Prop where
  | duplicate {existing : ExternalTransferEvent} {found : TransferWithSource} :
      V [] ⟨.findExternalEvent event.provider event.providerEventId, some existing, []⟩ →
      V [] ⟨.findFirstTransferRequest (truthy event.transferRequestId)
        (truthy event.externalReference), some found, []⟩ →
      EventRun V env event [] found.transfer
  | recorded {found : TransferWithSource} {row : ExternalTransferEvent} :
      Received V event found row → Idle event found →
      EventRun V env event [.externalEvent row] found.transfer
  | settled {found : TransferWithSource} {row : ExternalTransferEvent} {settledAt now : Time} :
      Received V event found row → event.eventType = .settled →
      found.transfer.status = .pendingExternal →
      EventRun V env event
        [.externalEvent row, .updateTransferRequest found.transfer.id (settledUpdate settledAt)]
        { found.transfer with status := .settled, settledAt := some now }
  | compensated {found : TransferWithSource} {row marker : ExternalTransferEvent}
      {source clearing : LedgerAccount} {amount : Money} {effectiveAt : Time}
      {journalEntry : JournalEntry} {postings : List Posting} {ledgerAccounts : List LedgerAccount}
      {posted rest : List Write} :
      Received V event found row → event.eventType = .failed →
      found.transfer.status = .pendingExternal →
      found.sourceAccount.ledgerAccount = some source →
      Compensated V env event found.transfer source clearing amount effectiveAt journalEntry
        postings ledgerAccounts marker [.externalEvent row] posted rest →
      EventRun V env event
        ([.externalEvent row, .updateTransferRequest found.transfer.id (failedUpdate event)] ++
          posted ++ [.updateTransferRequest found.transfer.id
            (TransfersService.statusUpdate .compensated), .externalEvent marker])
        { found.transfer with
          status := .compensated, failureReason := some (failureReason event) }

theorem compensate_runs (hV : Answering V) {transfer r : TransferRequest} {source : LedgerAccount}
    {p ws : List Write} (hr : Runs V p (compensate env event transfer source) ws r) :
    r = { transfer with status := .compensated, failureReason := some (failureReason event) } ∧
    ∃ clearing amount effectiveAt journalEntry postings ledgerAccounts marker posted rest,
      Compensated V env event transfer source clearing amount effectiveAt journalEntry postings
        ledgerAccounts marker p posted rest ∧
      ws = [.updateTransferRequest transfer.id (failedUpdate event)] ++ posted ++
        [.updateTransferRequest transfer.id (TransfersService.statusUpdate .compensated),
          .externalEvent marker] := by
  simp only [compensate, runs_bind, runs_send, runs_ofExcept, runs_return] at hr
  obtain ⟨_, clearing, hclearing, _, rfl, _, amount, ⟨rfl, hmoney⟩, _, rfl, _, _, hfail, _, rfl, _,
    effectiveAt, hnow, _, rfl, posted, _, hpost, _, rfl, _, _, hmark, _, rfl, _, now, hnow', _, rfl,
    _, _, hevent, _, rfl, rfl, rfl⟩ := hr
  obtain ⟨rfl, hfind⟩ := findSystemLedgerAccount_runs hV hclearing
  obtain ⟨_, rfl⟩ := hV _ _ _ _ hfail
  obtain rfl := hV _ _ _ _ hnow
  obtain ⟨_, rfl⟩ := hV _ _ _ _ hmark
  obtain rfl := hV _ _ _ _ hnow'
  obtain ⟨u, rfl⟩ := hV _ _ _ _ hevent
  simp only [List.append_nil] at hpost
  obtain ⟨ledgerAccounts, rest, hposted⟩ := postJournalEntry_runs hV hpost
  refine ⟨rfl, clearing, amount, effectiveAt, _, _, ledgerAccounts, _, posted, rest,
    ⟨hfind, hmoney, hposted, now, u, rfl⟩, ?_⟩
  simp [failedUpdate, TransfersService.statusUpdate]

theorem settle_runs (hV : Answering V) {transfer r : TransferRequest} {p ws : List Write}
    (hr : Runs V p (settle transfer) ws r) :
    (transfer.status ≠ .pendingExternal ∧ ws = [] ∧ r = transfer) ∨
    (transfer.status = .pendingExternal ∧ ∃ settledAt now,
      ws = [.updateTransferRequest transfer.id (settledUpdate settledAt)] ∧
      r = { transfer with status := .settled, settledAt := some now }) := by
  unfold settle at hr
  split at hr
  · rename_i hpending
    simp only [runs_bind, runs_send, runs_return] at hr
    obtain ⟨_, settledAt, hnow, _, rfl, _, _, hupdate, _, rfl, _, now, hnow', _, rfl, rfl, rfl⟩ := hr
    obtain rfl := hV _ _ _ _ hnow
    obtain ⟨_, rfl⟩ := hV _ _ _ _ hupdate
    obtain rfl := hV _ _ _ _ hnow'
    exact Or.inr ⟨hpending, settledAt, now, rfl, rfl⟩
  · rename_i hover
    obtain ⟨rfl, rfl⟩ := runs_return.mp hr
    exact Or.inl ⟨hover, rfl, rfl⟩

theorem applyEvent_runs (hV : Answering V) {found : TransferWithSource}
    {row : ExternalTransferEvent} (hreceived : Received V event found row)
    {ws : List Write} {r : TransferRequest}
    (hr : Runs V [.externalEvent row] (applyEvent env event found) ws r) :
    EventRun V env event (.externalEvent row :: ws) r := by
  unfold applyEvent at hr
  split at hr
  · rename_i htype
    obtain ⟨rfl, rfl⟩ := runs_return.mp hr
    exact .recorded hreceived (Or.inl htype)
  · rename_i htype
    rcases settle_runs hV hr with ⟨hover, rfl, rfl⟩ | ⟨hpending, settledAt, now, rfl, rfl⟩
    · exact .recorded hreceived (Or.inr (Or.inl hover))
    · exact .settled hreceived htype hpending
  · rename_i htype
    split at hr
    · rename_i source hsource
      split at hr
      · rename_i hpending
        obtain ⟨rfl, _, _, _, _, _, _, _, _, _, hcomp, rfl⟩ := compensate_runs hV hr
        exact .compensated hreceived htype hpending hsource hcomp
      · rename_i hover
        obtain ⟨rfl, rfl⟩ := runs_return.mp hr
        exact .recorded hreceived (Or.inr (Or.inl hover))
    · rename_i hnone
      obtain ⟨rfl, rfl⟩ := runs_return.mp hr
      exact .recorded hreceived (Or.inr (Or.inr ⟨htype, hnone⟩))

/-- Everything the transaction of `applyNormalizedEvent` can do. -/
theorem applyNormalizedEvent_runs (hV : Answering V) {ws : List Write} {r : TransferRequest}
    (hr : Runs V [] (applyNormalizedEventTx env event) ws r) : EventRun V env event ws r := by
  simp only [applyNormalizedEventTx, runs_bind, runs_send, orThrow, runs_require] at hr
  obtain ⟨_, existing, hexisting, _, rfl, _, _, hfind, _, rfl, _, found, ⟨rfl, rfl⟩, _, rfl, hr⟩ := hr
  obtain rfl := hV _ _ _ _ hexisting
  obtain rfl := hV _ _ _ _ hfind
  cases existing with
  | some existing =>
      obtain ⟨rfl, rfl⟩ := runs_return.mp hr
      exact .duplicate hexisting hfind
  | none =>
      simp only [runs_bind, runs_send] at hr
      obtain ⟨_, now, hnow, _, rfl, _, _, hcreate, _, rfl, hr⟩ := hr
      obtain rfl := hV _ _ _ _ hnow
      obtain ⟨u, rfl⟩ := hV _ _ _ _ hcreate
      exact applyEvent_runs hV ⟨hexisting, hfind, now, u, rfl⟩ hr

end ExternalRailService

end LedgerCredit
