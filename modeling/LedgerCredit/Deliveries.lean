import LedgerCredit.Clearing

/-!
# Deliveries of provider events

An event that is recorded is never applied again, and of the deliveries of a
transfer the first one of a new terminal event decides how the transfer ends.
`Told` ties the columns and the entries of an external transfer to that event.

`deliveredBy` is the delivery that a step of a schedule commits, and `Delivering`
is a run with its deliveries, oldest first.  The recorded terminal events of a
transfer are the terminal deliveries of the run (`Delivering.terminalEvents`).
-/

namespace LedgerCredit

open Txn LedgerService ExternalRailService

/-! ## Recorded events -/

/-- The event by which a recorded event ends its transfer, if it does. -/
def ExternalTransferEventType.terminal? : ExternalTransferEventType → Option ExternalRailEventType
  | .settled => some .settled
  | .failed => some .failed
  | _ => none

/-- The terminal events of a transfer among some recorded ones. -/
def terminalIn (rows : List ExternalTransferEvent) (id : Uuid) : List ExternalRailEventType :=
  (rows.filter fun e => e.transferRequestId = id).filterMap (·.eventType.terminal?)

/-- The terminal events that are recorded for a transfer, oldest first. -/
def Store.terminalEvents (s : Store) (id : Uuid) : List ExternalRailEventType :=
  terminalIn s.externalEvents.rows id

/-- An event under the provider and the id of this one is recorded. -/
def Store.recorded (s : Store) (event : NormalizedExternalRailEvent) : Bool :=
  (s.externalEvents.find? (event.provider, event.providerEventId)).isSome

/-- The status of a transfer after the first terminal event about it, if there was one. -/
def outcomeOf : Option ExternalRailEventType → TransferStatus
  | some .settled => .settled
  | some .failed => .compensated
  | _ => .pendingExternal

/-- The compensation entries of a transfer. -/
def Store.compensationsOf (s : Store) (id : Uuid) : List JournalEntry :=
  (s.entriesOf id).filter fun e => e.sourceOperationType = "INTERBANK_TRANSFER_COMPENSATION"

/-- An external transfer is as the first terminal event about it tells. -/
structure Store.Told (s : Store) (t : TransferRequest) (first : Option ExternalRailEventType) :
    Prop where
  status : t.status = outcomeOf first
  settledAt : t.settledAt.isSome = true ↔ t.status = .settled
  failureReason : t.failureReason.isSome = true ↔ t.status = .compensated
  compensated : t.status = .compensated → ∃ e source,
    s.ledgerAccountOf t.sourceAccountId = some source ∧ s.compensationsOf t.id = [e] ∧
      s.Refunded t e source
  uncompensated : t.status ≠ .compensated → s.compensationsOf t.id = []

/-! ## Deliveries -/

/-- A delivery of an event, with the transfer it was taken to be about.  It is a duplicate if
the event was recorded before. -/
structure Delivery where
  event : NormalizedExternalRailEvent
  transferRequestId : Uuid
  duplicate : Bool

/-- The terminal events of a transfer among some deliveries, without the duplicates. -/
def terminalDeliveries (log : List Delivery) (id : Uuid) : List ExternalRailEventType :=
  (log.filter fun d => !d.duplicate && d.transferRequestId = id &&
    d.event.eventType ≠ .acknowledged).map (·.event.eventType)

/-- The delivery that a transaction with a result is. -/
def Label.delivery (s : Store) : {α : Type} → Label α → α → Option Delivery
  | _, .applyNormalizedEvent event, r => some ⟨event, r.id, s.recorded event⟩
  | _, _, _ => none

/-- The delivery that an action commits. -/
def deliveredBy (c : ServerConfig) : Action Choice Call → Option Delivery
  | .advance i _ =>
      match c.threads[i]? with
      | some ⟨_, _, .opened l _ (.pure a) _⟩ => l.delivery c.store a
      | _ => none
  | _ => none

/-- A run of atomic transactions from the store `s`, with its deliveries. -/
inductive Delivering (env : Env) (s : Store) : List Delivery → ServerConfig → Prop where
  | initial : Delivering env s [] (.initial s)
  | step {log : List Delivery} {c c' : ServerConfig} {a : Action Choice Call} :
      Delivering env s log c → (server env).Serial c a = true → (server env).step c a = some c' →
      Delivering env s (log ++ (deliveredBy c a).toList) c'

theorem Delivering.steps {env : Env} {s : Store} {log : List Delivery} {c : ServerConfig}
    (h : Delivering env s log c) : Steps (server env) (server env).Serial (.initial s) c := by
  induction h with
  | initial => exact .refl
  | step _ hok hstep ih => exact .tail ih ⟨_, hok, hstep⟩

/-! ## What a commit records -/

section Rows

variable {s : Store} {ws : List Write} {id : Uuid} {V : View} {env : Env}

theorem terminalIn_append {rows rows' : List ExternalTransferEvent} :
    terminalIn (rows ++ rows') id = terminalIn rows id ++ terminalIn rows' id := by
  simp [terminalIn]

theorem terminalEvents_append (hadm : database.Admissible s ws) :
    (database.applyAll ws s).terminalEvents id =
      s.terminalEvents id ++ terminalIn (ws.filterMap Write.externalEvent?) id := by
  rw [Store.terminalEvents, externalEvents_applyAll hadm, terminalIn_append]
  rfl

theorem ne_acknowledged_of_mem {x : ExternalRailEventType} (h : x ∈ s.terminalEvents id) :
    x ≠ .acknowledged := by
  obtain ⟨e, -, he⟩ := List.mem_filterMap.mp h
  rintro rfl
  cases htype : e.eventType <;> simp [htype, ExternalTransferEventType.terminal?] at he

/-- No terminal event is recorded for a transfer that waits for its rail. -/
theorem terminalEvents_nil (h : outcomeOf (s.terminalEvents id).head? = .pendingExternal) :
    s.terminalEvents id = [] := by
  cases hevents : s.terminalEvents id with
  | nil => rfl
  | cons x rest =>
      have hx := ne_acknowledged_of_mem (hevents ▸ List.mem_cons_self .. : x ∈ s.terminalEvents id)
      rw [hevents] at h
      cases x with
      | acknowledged => exact absurd rfl hx
      | settled => cases h
      | failed => cases h

theorem externalEvent?_of_kind {w : Write} (h : w.kind ≠ .transfer) : w.externalEvent? = none := by
  cases w <;> first | rfl | exact absurd rfl h

theorem externalEvents_of_kind (h : ∀ w ∈ ws, w.kind ≠ .transfer) :
    ws.filterMap Write.externalEvent? = [] :=
  List.filterMap_eq_nil_iff.mpr fun w hw => externalEvent?_of_kind (h w hw)

theorem externalEvents_of_ledger (h : ∀ w ∈ ws, w.kind = .ledger) :
    ws.filterMap Write.externalEvent? = [] :=
  externalEvents_of_kind fun w hw => by simp [h w hw]

/-- A new transfer records its submission, and no more. -/
theorem TransfersService.TransferRun.terminalIn {args : CreateTransferArgs}
    {r : TransferMutationResult} (h : TransferRun V env args ws r) :
    LedgerCredit.terminalIn (ws.filterMap Write.externalEvent?) id = [] := by
  cases h with
  | replay _ _ _ => rfl
  | internal _ _ _ _ hcreated _ _ hjournal =>
      rw [hcreated.writes, List.filterMap_append, List.filterMap_append,
        externalEvents_of_ledger hjournal.kind]
      rfl
  | @external _ _ _ _ _ _ transfer _ _ _ _ _ _ _ u _ _ _ _ _ railProvider _ _ hcreated _ hjournal =>
      rw [hcreated.writes, List.filterMap_append, List.filterMap_append,
        externalEvents_of_ledger hjournal.kind]
      show LedgerCredit.terminalIn [submittedData transfer.id railProvider u] id = []
      by_cases hid : transfer.id = id <;>
        simp [LedgerCredit.terminalIn, submittedData, ExternalTransferEventType.terminal?, hid]

/-- The row of a new event counts as its delivery. -/
theorem terminalIn_eventData {event : NormalizedExternalRailEvent} {found : Uuid} {now : Time}
    {u : Uuid} :
    terminalIn [eventData found event now u] id = terminalDeliveries [⟨event, found, false⟩] id := by
  by_cases hid : found = id
  · cases htype : event.eventType <;>
      simp [terminalIn, terminalDeliveries, eventData, recordedType, htype, hid,
        ExternalTransferEventType.terminal?]
  · simp [terminalIn, terminalDeliveries, eventData, hid]

theorem terminalIn_compensatedData {event : NormalizedExternalRailEvent} {found : Uuid} {now : Time}
    {u : Uuid} : terminalIn [compensatedData found event now u] id = [] := by
  by_cases hid : found = id <;>
    simp [terminalIn, compensatedData, ExternalTransferEventType.terminal?, hid]

/-- A delivery records the event that it is about, unless it was recorded before. -/
theorem ExternalRailService.EventRun.terminalIn {event : NormalizedExternalRailEvent}
    {r : TransferRequest} (h : EventRun V env event ws r) (id : Uuid) :
    (∃ existing, ws = [] ∧
      V [] ⟨.findExternalEvent event.provider event.providerEventId, some existing, []⟩) ∨
    V [] ⟨.findExternalEvent event.provider event.providerEventId, none, []⟩ ∧
      LedgerCredit.terminalIn (ws.filterMap Write.externalEvent?) id =
        terminalDeliveries [⟨event, r.id, false⟩] id := by
  cases h with
  | duplicate hfind _ => exact Or.inl ⟨_, rfl, hfind⟩
  | recorded hreceived _ =>
      obtain ⟨now, u, rfl⟩ := hreceived.eventRow
      exact Or.inr ⟨hreceived.absent, terminalIn_eventData⟩
  | settled hreceived _ _ =>
      obtain ⟨now, u, rfl⟩ := hreceived.eventRow
      exact Or.inr ⟨hreceived.absent, terminalIn_eventData⟩
  | compensated hreceived _ _ _ hcomp =>
      obtain ⟨now, u, rfl⟩ := hreceived.eventRow
      obtain ⟨now', u', rfl⟩ := hcomp.markerRow
      refine Or.inr ⟨hreceived.absent, ?_⟩
      rw [List.filterMap_append, List.filterMap_append,
        externalEvents_of_ledger hcomp.entry.kind, terminalIn_append]
      exact (congrArg₂ _ terminalIn_eventData terminalIn_compensatedData).trans
        (List.append_nil _)

end Rows

/-! ## What a delivery commits -/

section Commit

variable {s : Store} {ws : List Write} {id : Uuid} {env : Env}

theorem now_findExternalEvent {provider providerEventId : String}
    {r : Option ExternalTransferEvent}
    (h : Now s [] ⟨.findExternalEvent provider providerEventId, r, []⟩) :
    r = s.externalEvents.find? (provider, providerEventId) := by
  obtain ⟨ch, hexec⟩ := h
  cases hexec
  rfl

theorem terminalDeliveries_append {log log' : List Delivery} :
    terminalDeliveries (log ++ log') id = terminalDeliveries log id ++ terminalDeliveries log' id := by
  simp [terminalDeliveries]

theorem terminalDeliveries_other {d : Delivery} (h : d.transferRequestId ≠ id) :
    terminalDeliveries [d] id = [] := by
  simp [terminalDeliveries, h]

theorem terminalDeliveries_own {d : Delivery} (hnew : d.duplicate = false)
    (htype : d.event.eventType ≠ .acknowledged) :
    terminalDeliveries [d] d.transferRequestId = [d.event.eventType] := by
  simp [terminalDeliveries, hnew, htype]

/-- A new event is not recorded. -/
theorem ExternalRailService.Received.recorded_eq {event : NormalizedExternalRailEvent}
    {found : TransferWithSource} {row : ExternalTransferEvent}
    (h : Received (Now s) event found row) : s.recorded event = false := by
  rw [Store.recorded, ← now_findExternalEvent h.absent]
  rfl

/-- A delivery of a recorded event writes nothing. -/
theorem ExternalRailService.EventRun.duplicate_nil {event : NormalizedExternalRailEvent}
    {r : TransferRequest} (h : EventRun (Now s) env event ws r) (hrecorded : s.recorded event = true) :
    ws = [] := by
  rcases h.terminalIn r.id with ⟨_, rfl, _⟩ | ⟨habsent, _⟩
  · rfl
  · rw [Store.recorded, ← now_findExternalEvent habsent] at hrecorded
    cases hrecorded

/-- A delivery adds its event to those of its transfer. -/
theorem ExternalRailService.EventRun.terminalEvents {event : NormalizedExternalRailEvent}
    {r : TransferRequest} (h : EventRun (Now s) env event ws r) (hadm : database.Admissible s ws)
    (id : Uuid) : (database.applyAll ws s).terminalEvents id =
      s.terminalEvents id ++ terminalDeliveries [⟨event, r.id, s.recorded event⟩] id := by
  rw [terminalEvents_append hadm]
  rcases h.terminalIn id with ⟨existing, rfl, hfind⟩ | ⟨habsent, hrows⟩
  · have hrecorded : s.recorded event = true := by
      rw [Store.recorded, ← now_findExternalEvent hfind]
      rfl
    simp [LedgerCredit.terminalIn, terminalDeliveries, hrecorded]
  · have hrecorded : s.recorded event = false := by
      rw [Store.recorded, ← now_findExternalEvent habsent]
      rfl
    rw [hrows, hrecorded]

theorem Committed.duplicate_nil {α : Type} {l : Label α} {a : α} {d : Delivery}
    (h : Committed (Now s) env l a ws) (hdelivery : l.delivery s a = some d)
    (hduplicate : d.duplicate = true) : ws = [] := by
  cases h with
  | applyNormalizedEvent hrun =>
      obtain rfl := Option.some.inj hdelivery
      exact hrun.duplicate_nil hduplicate
  | _ => cases hdelivery

/-- A commit adds its delivery to the terminal events of a transfer. -/
theorem Committed.terminalEvents {α : Type} {l : Label α} {a : α}
    (h : Committed (Now s) env l a ws) (hl : grounds s l) (hadm : database.Admissible s ws)
    (id : Uuid) : (database.applyAll ws s).terminalEvents id =
      s.terminalEvents id ++ terminalDeliveries (l.delivery s a).toList id := by
  have hother : l.transfers = false → (database.applyAll ws s).terminalEvents id =
      s.terminalEvents id ++ [] := fun htransfers => by
    have hkind := h.kind (answering_of_saw fun _ _ => saw_of_now) hl htransfers
    rw [terminalEvents_append hadm, externalEvents_of_kind hkind]
    rfl
  cases h with
  | createTransfer hrun =>
      rw [terminalEvents_append hadm, hrun.terminalIn]
      rfl
  | applyNormalizedEvent hrun => exact hrun.terminalEvents hadm id
  | _ => exact hother rfl

end Commit

/-! ## Invariant -/

/-- The external transfers are as their events tell, with what this rests on. -/
structure Store.Consistent (s₀ s : Store) : Prop where
  extended : s₀.Extends s
  keys : s.ForeignKeys
  event : ∀ e ∈ s.externalEvents.rows, s.present (.row .transferRequest e.transferRequestId) = true
  id_ne : ∀ t ∈ s.transferRequests.rows, t.id ≠ ""
  internal : ∀ t ∈ s.transferRequests.rows, t.transferType = .internal → t.status = .settled
  source : ∀ t ∈ s.transferRequests.rows,
    ∃ source, s.ledgerAccountOf t.sourceAccountId = some source
  told : ∀ t ∈ s.transferRequests.rows, t.transferType = .interbank →
    s.Told t (s.terminalEvents t.id).head?

section Invariant

variable {s₀ s : Store} {ws : List Write} {entries : List (JournalEntry × List Posting)}

/-- The parts of the invariant that every commit keeps. -/
theorem Store.Consistent.frame (h : s₀.Consistent s) (hadm : database.Admissible s ws) :
    s₀.Extends (database.applyAll ws s) ∧ (database.applyAll ws s).ForeignKeys ∧
      ∀ e ∈ (database.applyAll ws s).externalEvents.rows,
        (database.applyAll ws s).present (.row .transferRequest e.transferRequestId) = true := by
  refine ⟨h.extended.trans (extends_applyAll ws s), foreignKeys_applyAll hadm h.keys, ?_⟩
  intro e he
  rw [externalEvents_applyAll hadm] at he
  rcases List.mem_append.mp he with he | he
  · exact present_applyAll hadm (h.event e he)
  · obtain ⟨w, hw, hr⟩ := List.mem_filterMap.mp he
    cases w <;> cases hr
    exact needs_applyAll hadm hw (by simp [Write.needs])

/-- Entries of other transfers leave the compensations of a transfer alone. -/
theorem compensationsOf_other {id : Uuid} (hadm : database.Admissible s ws)
    (hj : Journalled ws entries) (hne : ∀ e ∈ entries, e.1.transferRequestId ≠ some id) :
    (database.applyAll ws s).compensationsOf id = s.compensationsOf id :=
  congrArg (List.filter _) (entriesOf_other hadm hj hne)

theorem Store.Told.step {t : TransferRequest} {first : Option ExternalRailEventType}
    (hadm : database.Admissible s ws) (hj : Journalled ws entries)
    (hne : ∀ e ∈ entries, e.1.transferRequestId ≠ some t.id) (h : s.Told t first) :
    (database.applyAll ws s).Told t first := by
  have hcompensations := compensationsOf_other hadm hj hne
  refine ⟨h.status, h.settledAt, h.failureReason, fun hcomp => ?_, fun hcomp => ?_⟩
  · obtain ⟨e, source, howned, hof, hrefunded⟩ := h.compensated hcomp
    have he : e ∈ s.compensationsOf t.id := hof ▸ List.mem_singleton_self e
    refine ⟨e, source, ?_, hcompensations.trans hof,
      hrefunded.step hadm hj (.refl t) (mem_of_entriesOf (List.mem_filter.mp he).1)⟩
    rw [ledgerAccountOf_eq (applyAll_ledgerAccounts ws s)]
    exact howned
  · exact hcompensations.trans (h.uncompensated hcomp)

/-- A transfer is settled by a first event that says so. -/
theorem Store.Told.settled {t : TransferRequest} {first : Option ExternalRailEventType}
    (h : s.Told t first) (hpending : t.status = .pendingExternal) (settledAt : Time)
    (hcompensations : (database.applyAll ws s).compensationsOf t.id = s.compensationsOf t.id) :
    (database.applyAll ws s).Told ((settledUpdate settledAt).apply t) (some .settled) := by
  have hfailureReason : t.failureReason.isSome ≠ true := fun hsome =>
    nomatch hpending.symm.trans (h.failureReason.mp hsome)
  refine ⟨rfl, by simp [settledUpdate, TransferRequestUpdate.apply], ?_, nofun, fun _ => ?_⟩
  · simpa [settledUpdate, TransferRequestUpdate.apply] using hfailureReason
  · exact hcompensations.trans (h.uncompensated (by simp [hpending]))

/-- A transfer is compensated by a first event that says that it failed. -/
theorem Store.Told.refunded {t : TransferRequest} {first : Option ExternalRailEventType}
    {event : NormalizedExternalRailEvent} {source : LedgerAccount} {clearing : Uuid}
    {entry : JournalEntry} {postings : List Posting}
    (h : s.Told t first) (hpending : t.status = .pendingExternal) (hadm : database.Admissible s ws)
    (hj : Journalled ws [(entry, postings)]) (hkeys : s.ForeignKeys)
    (hentry : entry.transferRequestId = some t.id)
    (howned : s.ledgerAccountOf t.sourceAccountId = some source)
    (hclearing : s.IsClearing t.currency clearing)
    (hmoves : Moves entry postings t.id "INTERBANK_TRANSFER_COMPENSATION" clearing source.id
      t.amountMinor) :
    (database.applyAll ws s).Told ((TransfersService.statusUpdate .compensated).apply
      ((failedUpdate event).apply t)) (some .failed) := by
  have hsettledAt : t.settledAt.isSome ≠ true := fun hsome =>
    nomatch hpending.symm.trans (h.settledAt.mp hsome)
  refine ⟨rfl, ?_, ?_, fun _ => ⟨entry, source, ?_, ?_, clearing, ?_, ?_⟩, fun hcomp => ?_⟩
  · simpa [TransfersService.statusUpdate, failedUpdate, TransferRequestUpdate.apply] using hsettledAt
  · simp [TransfersService.statusUpdate, failedUpdate, TransferRequestUpdate.apply]
  · rw [ledgerAccountOf_eq (applyAll_ledgerAccounts ws s)]
    exact howned
  · refine (congrArg (List.filter _) (entriesOf_own hadm hj hentry)).trans ?_
    rw [List.filter_append]
    refine (congrArg₂ _ (h.uncompensated (by simp [hpending])) ?_).trans (List.nil_append _)
    simp [hmoves.operation]
  · rw [isClearing_congr (applyAll_ledgerAccounts ws s)]
    exact hclearing
  · exact moves_new hkeys hadm hj hmoves
  · exact absurd rfl hcomp

/-- A commit that leaves the transfers, and the first event about each of them, alone. -/
theorem Store.Consistent.unchanged (h : s₀.Consistent s) (hadm : database.Admissible s ws)
    (hj : Journalled ws entries) (hne : ∀ e ∈ entries, e.1.transferRequestId = none)
    (htransfers : (database.applyAll ws s).transferRequests = s.transferRequests)
    (hfirst : ∀ t ∈ s.transferRequests.rows, t.transferType = .interbank →
      ((database.applyAll ws s).terminalEvents t.id).head? = (s.terminalEvents t.id).head?) :
    s₀.Consistent (database.applyAll ws s) := by
  obtain ⟨hext, hkeys, hevent⟩ := h.frame hadm
  refine ⟨hext, hkeys, hevent, htransfers ▸ h.id_ne, htransfers ▸ h.internal, fun t ht => ?_,
    fun t ht htype => ?_⟩
  · rw [ledgerAccountOf_eq (applyAll_ledgerAccounts ws s)]
    exact h.source t (htransfers ▸ ht)
  · rw [htransfers] at ht
    rw [hfirst t ht htype]
    exact (h.told t ht htype).step hadm hj fun e he => by simp [hne e he]

/-- A transfer that is not there yet has no events. -/
theorem Store.Consistent.terminalEvents_fresh (h : s₀.Consistent s) {id : Uuid}
    (hid : ∀ t ∈ s.transferRequests.rows, t.id ≠ id) : s.terminalEvents id = [] := by
  refine List.filterMap_eq_nil_iff.mpr fun e he => ?_
  obtain ⟨he, htransfer⟩ := List.mem_filter.mp he
  obtain ⟨t, ht⟩ := Option.isSome_iff_exists.mp (h.event e he)
  obtain ⟨hmem, heq⟩ := Table.get?_eq_some.mp ht
  exact absurd (heq.trans (by simpa using htransfer)) (hid t hmem)

/-- A commit that creates a transfer. -/
theorem Store.Consistent.created (h : s₀.Consistent s) (hadm : database.Admissible s ws)
    {args : CreateTransferArgs} {r : TransferMutationResult} {t : TransferRequest} {u : Uuid}
    {source : LedgerAccount} {entry : JournalEntry} {postings : List Posting}
    (hj : Journalled ws [(entry, postings)])
    (hinitiated : Initiated s (database.applyAll ws s) args r t u source)
    (hentry : entry.transferRequestId = some t.id)
    (hinternal : t.transferType = .internal → t.status = .settled)
    (hrows : ∀ id, (database.applyAll ws s).terminalEvents id = s.terminalEvents id)
    (htold : t.transferType = .interbank → (database.applyAll ws s).Told t none) :
    s₀.Consistent (database.applyAll ws s) := by
  obtain ⟨hext, hkeys, hevent⟩ := h.frame hadm
  have htransfers := hinitiated.transferRequests
  have hledger := ledgerAccountOf_eq (applyAll_ledgerAccounts ws s)
  refine ⟨hext, hkeys, hevent, ?_, ?_, ?_, ?_⟩
  · rw [htransfers]
    exact List.forall_mem_append.mpr ⟨h.id_ne, List.forall_mem_singleton.mpr hinitiated.id_ne⟩
  · rw [htransfers]
    exact List.forall_mem_append.mpr ⟨h.internal, List.forall_mem_singleton.mpr hinternal⟩
  · rw [htransfers]
    simp only [hledger]
    exact List.forall_mem_append.mpr
      ⟨h.source, List.forall_mem_singleton.mpr ⟨source, hinitiated.source⟩⟩
  · rw [htransfers]
    simp only [hrows]
    refine List.forall_mem_append.mpr ⟨fun t' ht' htype => ?_, List.forall_mem_singleton.mpr ?_⟩
    · refine (h.told t' ht' htype).step hadm hj (List.forall_mem_singleton.mpr fun heq => ?_)
      exact hinitiated.fresh t' ht' (Option.some.inj (hentry.symm.trans heq)).symm
    · rw [h.terminalEvents_fresh hinitiated.fresh]
      exact htold

/-- Only external transfers wait for a rail. -/
theorem Store.Consistent.interbank (h : s₀.Consistent s) {t : TransferRequest}
    (ht : t ∈ s.transferRequests.rows) (hpending : t.status = .pendingExternal) :
    t.transferType = .interbank := by
  cases hty : t.transferType with
  | interbank => rfl
  | internal => exact nomatch (h.internal t ht hty).symm.trans hpending

/-- A commit that changes a transfer that waits for its rail. -/
theorem Store.Consistent.changed (h : s₀.Consistent s) (hadm : database.Admissible s ws)
    (hj : Journalled ws entries) {t : TransferRequest} (ht : t ∈ s.transferRequests.rows)
    (hpending : t.status = .pendingExternal) {f : TransferRequest → TransferRequest}
    (hrows : (database.applyAll ws s).transferRequests.rows =
      s.transferRequests.rows.map fun t' => if t'.id = t.id then f t' else t')
    (hsame : t.Same (f t)) (hothers : ∀ e ∈ entries, e.1.transferRequestId = some t.id)
    (hevents : ∀ id, id ≠ t.id → (database.applyAll ws s).terminalEvents id = s.terminalEvents id)
    (htold : (database.applyAll ws s).Told (f t)
      ((database.applyAll ws s).terminalEvents t.id).head?) :
    s₀.Consistent (database.applyAll ws s) := by
  obtain ⟨hext, hkeys, hevent⟩ := h.frame hadm
  have hunique : ∀ t' ∈ s.transferRequests.rows, t'.id = t.id → t' = t := fun t' ht' hid =>
    Table.eq_of_pk ht' ht hid
  have hledger := ledgerAccountOf_eq (applyAll_ledgerAccounts ws s)
  have htype := h.interbank ht hpending
  refine ⟨hext, hkeys, hevent, ?_, ?_, ?_, ?_⟩ <;> rw [hrows]
  · refine forall_mem_changed (fun t' ht' _ => h.id_ne t' ht') fun t' ht' hid => ?_
    rw [hunique t' ht' hid, hsame.id]
    exact h.id_ne t ht
  · refine forall_mem_changed (fun t' ht' _ => h.internal t' ht') fun t' ht' hid hty => ?_
    rw [hunique t' ht' hid, hsame.transferType, htype] at hty
    cases hty
  · simp only [hledger]
    refine forall_mem_changed (fun t' ht' _ => h.source t' ht') fun t' ht' hid => ?_
    rw [hunique t' ht' hid, hsame.sourceAccountId]
    exact h.source t ht
  · refine forall_mem_changed (fun t' ht' hne hty => ?_) fun t' ht' hid _ => ?_
    · rw [hevents t'.id hne]
      refine (h.told t' ht' hty).step hadm hj fun e he heq => hne ?_
      exact Option.some.inj (heq.symm.trans (hothers e he))
    · rw [hunique t' ht' hid, hsame.id]
      exact htold

variable {env : Env}

/-- A commit that creates or replays a transfer keeps the invariant. -/
theorem Store.Consistent.creates (h : s₀.Consistent s) (hadm : database.Admissible s ws)
    (hj : Journalled ws entries) {V : View} {α : Type} {l : Label α} {a : α}
    (heffect : TransferEffect V env s (database.applyAll ws s) l a entries)
    (hcreates : l.creates = true)
    (hrows : ∀ id, (database.applyAll ws s).terminalEvents id = s.terminalEvents id) :
    s₀.Consistent (database.applyAll ws s) := by
  cases heffect with
  | other hl _ _ _ => exact nomatch hl.symm.trans hcreates
  | settled _ _ _ _ => cases hcreates
  | compensated _ _ _ _ _ _ _ _ _ => cases hcreates
  | replayed _ _ _ hsame =>
      rw [hsame]
      exact h
  | internal hinitiated hstatus htype _ hmoves =>
      exact h.created hadm hj hinitiated (hmoves.transferId hinitiated.id_ne) (fun _ => hstatus) hrows
        fun hty => nomatch htype.symm.trans hty
  | external hinitiated hstatus htype hsettledAt hfailureReason _ _ _ hmoves =>
      have hentry := hmoves.transferId hinitiated.id_ne
      refine h.created hadm hj hinitiated hentry (fun hty => nomatch htype.symm.trans hty) hrows
        fun _ => ⟨hstatus, ?_, ?_, fun hcomp => ?_, fun _ => ?_⟩
      · simp [hsettledAt, hstatus]
      · simp [hfailureReason, hstatus]
      · exact nomatch hstatus.symm.trans hcomp
      · rw [Store.compensationsOf, entriesOf_own hadm hj hentry,
          entriesOf_fresh h.keys hinitiated.fresh]
        simp [hmoves.operation]

/-- An event without effect does not come first for its transfer, or does not count. -/
theorem Store.Consistent.idle (h : s₀.Consistent s) {event : NormalizedExternalRailEvent}
    {found : TransferWithSource} (hidle : Idle event found) (hfound : s.Found found)
    (hmem : found.transfer ∈ s.transferRequests.rows)
    (htype : found.transfer.transferType = .interbank) (duplicate : Bool) :
    (s.terminalEvents found.transfer.id ++
      terminalDeliveries [⟨event, found.transfer.id, duplicate⟩] found.transfer.id).head? =
      (s.terminalEvents found.transfer.id).head? := by
  rcases hidle with hack | hover | ⟨-, hnone⟩
  · simp [terminalDeliveries, hack]
  · have htold := (h.told _ hmem htype).status
    cases hevents : s.terminalEvents found.transfer.id with
    | nil =>
        rw [hevents] at htold
        exact absurd htold hover
    | cons x rest => rfl
  · -- its source account has a ledger account
    obtain ⟨source, hsource⟩ := h.source _ hmem
    rw [← hfound.sourceId, hfound.source.ledgerAccount, hnone] at hsource
    cases hsource

/-- A transaction of `applyNormalizedEvent` keeps the invariant. -/
theorem Store.Consistent.applyNormalizedEvent (h : s₀.Consistent s)
    (hadm : database.Admissible s ws) {event : NormalizedExternalRailEvent} {r : TransferRequest}
    (hrun : EventRun (Now s) env event ws r) : s₀.Consistent (database.applyAll ws s) := by
  have hevents : ∀ id, _ := fun id => hrun.terminalEvents hadm id
  cases hrun with
  | duplicate _ _ => exact h
  | @recorded found _ hreceived hidle =>
      have hmem := now_findFirstTransferRequest hreceived.lookup
      refine h.unchanged hadm (.nil_of_kind (by simp [Write.kind])) (by simp) rfl
        fun t ht htype => ?_
      rw [hevents]
      by_cases hid : found.transfer.id = t.id
      · obtain rfl := Table.eq_of_pk hmem ht hid
        exact h.idle hidle (saw_findFirstTransferRequest (saw_of_now hreceived.lookup)) hmem htype _
      · rw [terminalDeliveries_other hid, List.append_nil]
  | @settled found _ settledAt _ hreceived htype hpending =>
      have hmem := now_findFirstTransferRequest hreceived.lookup
      have htold := h.told _ hmem (h.interbank hmem hpending)
      refine h.changed hadm (.nil_of_kind (by simp [Write.kind])) hmem hpending rfl
        (TransferRequestUpdate.apply_same (settledUpdate settledAt) found.transfer) (by simp)
        (fun id hne => by rw [hevents, terminalDeliveries_other hne.symm, List.append_nil]) ?_
      rw [hevents, terminalEvents_nil (htold.status ▸ hpending), hreceived.recorded_eq,
        terminalDeliveries_own rfl (by simp [htype]), htype]
      exact htold.settled hpending settledAt
        (compensationsOf_other hadm (.nil_of_kind (by simp [Write.kind])) (by simp))
  | @compensated found row marker source clearing amount _ entry postings _ posted _ hreceived htype hpending
      hsource hcomp =>
      have hmem := now_findFirstTransferRequest hreceived.lookup
      have hfound := saw_findFirstTransferRequest (saw_of_now hreceived.lookup)
      have htold := h.told _ hmem (h.interbank hmem hpending)
      obtain ⟨hclearing, hcategory, hcurrency⟩ :=
        saw_findFirstLedgerAccount (saw_of_now hcomp.clearingRead)
      have hmoves : Moves entry postings found.transfer.id "INTERBANK_TRANSFER_COMPENSATION"
          clearing.id source.id found.transfer.amountMinor := by
        rw [Except.ok.inj (fromMinorUnits_ok hcomp.money).2]
        exact hcomp.entry.moves rfl rfl
      have hentry := hmoves.transferId (h.id_ne _ hmem)
      have hj : Journalled ([.externalEvent row, .updateTransferRequest found.transfer.id
          (failedUpdate event)] ++ posted ++ [.updateTransferRequest found.transfer.id
          (TransfersService.statusUpdate .compensated), .externalEvent marker]) [(entry, postings)] :=
        hcomp.entry.journalled.wrap (by simp [Write.kind]) (by simp [Write.kind])
      refine h.changed hadm hj hmem hpending (rows_updatedTwice hcomp.entry.kind s).1
        ⟨rfl, rfl, rfl, rfl, rfl, rfl, rfl, rfl⟩ (List.forall_mem_singleton.mpr hentry)
        (fun id hne => by rw [hevents, terminalDeliveries_other hne.symm, List.append_nil]) ?_
      rw [hevents, terminalEvents_nil (htold.status ▸ hpending), hreceived.recorded_eq,
        terminalDeliveries_own rfl (by simp [htype]), htype]
      refine htold.refunded hpending hadm hj h.keys hentry ?_
        ((isClearing_iff hclearing).mpr ⟨hcategory, hcurrency⟩) hmoves
      rw [← hfound.sourceId, hfound.source.ledgerAccount, hsource]

/-- Every commit keeps the invariant. -/
theorem Store.Consistent.step (h : s₀.Consistent s) (hadm : database.Admissible s ws) {α : Type}
    {l : Label α} {a : α} (hl : grounds s l) (hcommitted : Committed (Now s) env l a ws) :
    s₀.Consistent (database.applyAll ws s) := by
  obtain ⟨entries, hj, heffect⟩ := hcommitted.effect (fun _ _ => saw_of_now) hl hadm
  have hevents : ∀ id, _ := fun id => hcommitted.terminalEvents hl hadm id
  have hother : l.transfers = false → l.delivery s a = none →
      s₀.Consistent (database.applyAll ws s) := fun htransfers hnone => by
    have hkind := hcommitted.kind (answering_of_saw fun _ _ => saw_of_now) hl htransfers
    refine h.unchanged hadm hj ?_ (Store.sameTransfers_applyAll hkind s).transferRequests
      fun t _ _ => ?_
    · cases heffect with
      | other _ _ _ hentries => exact fun e he => (hentries e he).transfer
      | _ => cases htransfers
    · rw [hevents, hnone]
      exact congrArg List.head? (List.append_nil _)
  cases hcommitted with
  | createTransfer hrun =>
      exact h.creates hadm hj heffect rfl fun id => (hevents id).trans (List.append_nil _)
  | applyNormalizedEvent hrun => exact h.applyNormalizedEvent hadm hrun
  | _ => exact hother rfl rfl

end Invariant

/-! ## Runs -/

section Run

variable {env : Env} {s : Store} {log : List Delivery} {c : ServerConfig}

theorem consistent_valid : (serialRules env s s.Consistent).Valid (server env).Serial :=
  serialRules_valid (fun _ hinv => hinv.extended)
    fun _ _ _ _ hinv hl hadm hcommitted => hinv.step hadm hl hcommitted

/-- A delivery is committed by a thread that is done with its transaction. -/
theorem deliveredBy_some {a : Action Choice Call} {d : Delivery} (h : deliveredBy c a = some d) :
    ∃ i ch call pool event hist r k, a = .advance i ch ∧
      c.threads[i]? = some ⟨call, pool, .opened (.applyNormalizedEvent event) hist (.pure r) k⟩ ∧
      d = ⟨event, r.id, c.store.recorded event⟩ := by
  cases a with
  | advance i ch =>
      simp only [deliveredBy] at h
      split at h
      · rename_i call pool β l hist r k hth
        cases l with
        | applyNormalizedEvent event =>
            exact ⟨i, ch, call, pool, event, hist, r, k, rfl, hth, (Option.some.inj h).symm⟩
        | _ => cases h
      · cases h
  | _ => cases h

/-- A step adds the delivery that it commits to the terminal events of a transfer. -/
theorem terminalEvents_step {c' : ServerConfig} {a : Action Choice Call} {own : Owner → Set Empty}
    (hc : (serialRules env s s.Consistent).Sound c own) (hstep : (server env).step c a = some c')
    (id : Uuid) :
    c'.store.terminalEvents id =
      c.store.terminalEvents id ++ terminalDeliveries (deliveredBy c a).toList id := by
  have hcommit : ∀ {i ch call pool} {α : Type} {l : Label α} {hist r k},
      c.threads[i]? = some ⟨call, pool, .opened l hist (.pure r) k⟩ →
      (database.applyAll (writes hist) c.store).terminalEvents id = c.store.terminalEvents id ++
        terminalDeliveries (deliveredBy c (.advance i ch)).toList id := by
    intro i ch call pool α l hist r k hth
    have hcommits := hc.commits consistent_valid hth
    rw [deliveredBy, hth]
    exact (serial_committed hcommits).terminalEvents
      (grounds_of_extends hcommits.inv.extended hcommits.pre) hcommits.admissible id
  cases hdelivered : deliveredBy c a with
  | some d =>
      obtain ⟨i, ch, call, pool, event, hist, r, k, rfl, hth, rfl⟩ := deliveredBy_some hdelivered
      rw [step_commit hth] at hstep
      obtain rfl := Option.some.inj hstep
      rw [← hdelivered]
      exact hcommit hth
  | none =>
      have hsame : c.store.terminalEvents id =
          c.store.terminalEvents id ++ terminalDeliveries (none : Option Delivery).toList id :=
        (List.append_nil _).symm
      cases step_cases hstep with
      | commit hth =>
          rw [← hdelivered]
          exact hcommit hth
      | _ => exact hsame

/-- The terminal events that are recorded for a transfer are those of the deliveries. -/
theorem Delivering.terminalEvents (h : Delivering env s log c) (hs : s.Consistent s)
    (hevents : s.externalEvents.rows = []) (id : Uuid) :
    c.store.terminalEvents id = terminalDeliveries log id := by
  induction h with
  | initial => simp [Store.terminalEvents, terminalIn, terminalDeliveries, Config.initial, hevents]
  | step hrun _ hstep ih =>
      obtain ⟨⟨own, hsound⟩, -⟩ := Rules.sound_of_steps consistent_valid hs hrun.steps
      rw [terminalEvents_step hsound hstep, ih, terminalDeliveries_append]

/-- The first new terminal event about a transfer decides how it ends, and delivering a recorded
event changes nothing, in every run of atomic transactions. -/
theorem first_event_wins (hkeys : s.ForeignKeys) (htransfers : s.transferRequests.rows = [])
    (hevents : s.externalEvents.rows = []) (hrun : Delivering env s log c) :
    (∀ t ∈ c.store.transferRequests.rows, t.transferType = .interbank →
      c.store.Told t (terminalDeliveries log t.id).head?) ∧
    ∀ a c' d, (server env).step c a = some c' → deliveredBy c a = some d → d.duplicate = true →
      c'.store = c.store := by
  have hinit : s.Consistent s :=
    ⟨.refl s, hkeys, by simp [hevents], by simp [htransfers], by simp [htransfers],
      by simp [htransfers], by simp [htransfers]⟩
  obtain ⟨⟨own, hsound⟩, -⟩ := Rules.sound_of_steps consistent_valid hinit hrun.steps
  refine ⟨fun t ht htype => ?_, fun a c' d hstep hdelivered hduplicate => ?_⟩
  · rw [← hrun.terminalEvents hinit hevents]
    exact hsound.inv.told t ht htype
  · obtain ⟨i, ch, call, pool, event, hist, r, k, rfl, hth, rfl⟩ := deliveredBy_some hdelivered
    rw [step_commit hth] at hstep
    obtain rfl := Option.some.inj hstep
    have hcommitted := serial_committed (hsound.commits consistent_valid hth)
    show database.applyAll (writes hist) c.store = c.store
    rw [hcommitted.duplicate_nil rfl hduplicate]
    rfl

end Run

/-- Every run of atomic transactions is a run with deliveries. -/
theorem exists_delivering {env : Env} {s : Store} {c : ServerConfig}
    (h : Steps (server env) (server env).Serial (.initial s) c) : ∃ log, Delivering env s log c := by
  induction h with
  | refl => exact ⟨[], .initial⟩
  | tail _ hstep ih =>
      obtain ⟨log, hrun⟩ := ih
      obtain ⟨a, hok, hs⟩ := hstep
      exact ⟨_, .step hrun hok hs⟩

/-- The rail rejects the transfer, then claims that it settled, and delivers the first event
again. -/
def contradictedSchedule : List (Action Choice Call) :=
  let event (providerEventId : String) (eventType : ExternalRailEventType) : Call :=
    .applyNormalizedEvent
      { terminalEvent providerEventId eventType with transferRequestId := some "id-a4-0" }
  returnedSchedule ++ .start (event "settled" .settled) :: advances 2 "c" 6 ++
    .start (event "failed" .failed) :: advances 3 "d" 3

theorem first_event_wins_contradicted :
    ∃ log c a c', Delivering testEnvironment demoStore log c ∧
      (∃ t ∈ c.store.transferRequests.rows, t.status = .compensated ∧
        c.store.Told t (terminalDeliveries log t.id).head?) ∧
      (server testEnvironment).step c a = some c' ∧ c'.store = c.store := by
  let a : Action Choice Call := .advance 3 (choiceOf "e")
  obtain ⟨c, hrun, ⟨t, ht, htype, hstatus⟩, hduplicate, hstep⟩ := exists_of_play
    (server testEnvironment) (server testEnvironment).Serial (.initial demoStore)
    contradictedSchedule
    (fun c => (∃ t ∈ c.store.transferRequests.rows,
        t.transferType = .interbank ∧ t.status = .compensated) ∧
      (deliveredBy c a).any (·.duplicate) = true ∧
      ((server testEnvironment).step c a).isSome = true) (by decide +kernel)
  obtain ⟨log, hlog⟩ := exists_delivering hrun
  obtain ⟨d, hdelivered, hd⟩ := (Option.any_eq_true ..).mp hduplicate
  obtain ⟨c', hstep⟩ := Option.isSome_iff_exists.mp hstep
  obtain ⟨htold, hsame⟩ := first_event_wins
    (seedBaseData_foreignKeys "customer" "ledger-checking" "ledger-savings") rfl rfl hlog
  exact ⟨log, c, a, c', hlog, ⟨t, ht, hstatus, htold t ht htype⟩, hstep,
    hsame a c' d hstep hdelivered hd⟩

end LedgerCredit
