import LedgerCredit.EventsAlone

/-!
# Events and the transfers they are about

Provider events carry an id of the provider, and one or two identifiers of the
transfer they are about.  `applyNormalizedEvent` takes an event as a replay by
its id alone, and it looks the transfer up by either identifier and without the
provider.  The two theorems say exactly when this does what it should.

`replays_skipped_iff` is about the ids: an event is skipped only as a true
replay, and a rejection that is not one compensates.  `own_transfer_iff` is about
the lookup: an event changes no transfer but its own.
-/

namespace LedgerCredit

open Txn LedgerService ExternalRailService

/-- The transaction of `applyNormalizedEvent` ends so when it runs alone on the store. -/
abbrev Applies (env : Env) (event : NormalizedExternalRailEvent) (s : Store)
    (o : Except TxError (TransferRequest × Store)) : Prop :=
  Alone (applyNormalizedEventTx env event) s o

/-! ## Replays -/

/-- The event identifies this transfer and no other. -/
def Store.Addressed (s : Store) (event : NormalizedExternalRailEvent) (t : TransferRequest) : Prop :=
  ∀ t' ∈ s.transferRequests.rows, event.identifies t' = true ↔ t' = t

/-- An event with the same provider, provider event id and type is recorded for the transfer. -/
def Store.Replayed (s : Store) (event : NormalizedExternalRailEvent) (t : TransferRequest) : Prop :=
  ∃ row ∈ s.externalEvents.rows, row.provider = event.provider ∧
    row.providerEventId = some event.providerEventId ∧
    row.eventType = recordedType event.eventType ∧ row.transferRequestId = t.id

/-- The event is treated as already applied only if it is a replay, and a rejection of the
transfer that is no replay compensates it. -/
structure Store.Heeds (s : Store) (env : Env) (event : NormalizedExternalRailEvent)
    (t : TransferRequest) : Prop where
  skipped : ∀ r, Applies env event s (.ok (r, s)) → s.Replayed event t
  rejected : event.eventType = .failed → ¬ s.Replayed event t →
    ∀ o, Applies env event s o → ∃ r s', o = .ok (r, s') ∧ s'.statusOf t.id = some .compensated

/-- The ids of the event are not taken: what is recorded under its own id is the event itself,
and a new rejection finds the id of its mark free and can be posted. -/
structure Store.Distinguishes (s : Store) (event : NormalizedExternalRailEvent)
    (t : TransferRequest) : Prop where
  own : ∀ row ∈ s.externalEvents.rows, row.provider = event.provider →
    row.providerEventId = some event.providerEventId →
    row.eventType = recordedType event.eventType ∧ row.transferRequestId = t.id
  refundable : event.eventType = .failed → s.recorded event = false →
    ∀ clearing ∈ s.ledgerAccounts.rows, clearing.clears t.currency →
      s.Refundable event t clearing

section Replay

variable {s : Store} {env : Env} {event : NormalizedExternalRailEvent} {t : TransferRequest}

theorem recorded_iff : s.recorded event = true ↔ ∃ row ∈ s.externalEvents.rows,
    row.provider = event.provider ∧ row.providerEventId = some event.providerEventId := by
  rw [Store.recorded, Option.isSome_iff_exists]
  refine exists_congr fun row => ?_
  rw [Table.find?_eq_some, Option.map_eq_some_iff]
  refine and_congr_right fun _ => ?_
  constructor
  · rintro ⟨id, hid, heq⟩
    obtain ⟨hprovider, rfl⟩ := Prod.mk.inj heq
    exact ⟨hprovider, hid⟩
  · rintro ⟨hprovider, hid⟩
    exact ⟨_, hid, by rw [hprovider]⟩

theorem Store.Replayed.recorded (h : s.Replayed event t) : s.recorded event = true := by
  obtain ⟨row, hrow, hprovider, hid, -⟩ := h
  exact recorded_iff.mpr ⟨row, hrow, hprovider, hid⟩

/-- What is recorded under the id of the event is one row. -/
theorem row_unique {row row' : ExternalTransferEvent} (hrow : row ∈ s.externalEvents.rows)
    (hrow' : row' ∈ s.externalEvents.rows) (hprovider : row.provider = row'.provider) {id : String}
    (hid : row.providerEventId = some id) (hid' : row'.providerEventId = some id) : row = row' :=
  Table.eq_of_uk (u := (row.provider, id)) hrow hrow' (by rw [hid]; rfl)
    (by rw [hid', ← hprovider]; rfl)

/-- An event that is not recorded is recorded. -/
theorem row_of_eventRun (hnew : s.recorded event = false) {r : TransferRequest} {ws : List Write}
    (h : EventRun (Now s) env event ws r) : ∃ row, .externalEvent row ∈ ws := by
  cases h with
  | duplicate hfind _ =>
      rw [Store.recorded, ← now_findExternalEvent hfind] at hnew
      cases hnew
  | recorded _ _ => exact ⟨_, List.mem_singleton_self _⟩
  | settled _ _ _ => exact ⟨_, List.mem_cons_self ..⟩
  | @compensated _ row _ _ _ _ _ _ _ _ _ _ _ _ _ _ _ => exact ⟨row, by simp⟩

/-- The runs of the transaction that a result comes from. -/
theorem Applies.eventRun {r : TransferRequest} {s' : Store}
    (h : Applies env event s (.ok (r, s'))) : ∃ ws, EventRun (Now s) env event ws r ∧
      s' = database.applyAll ws s ∧ database.Admissible s ws := by
  obtain ⟨ws, hruns, hs', hadm⟩ :=
    Ends.runs (V := Now s) lawful_database (fun p e ch _ hexec => ⟨ch, hexec⟩) h
  exact ⟨ws, applyNormalizedEvent_runs (answering_of_saw fun _ _ => saw_of_now) hruns, hs', hadm⟩

/-- A result of an event that is not recorded changes the store. -/
theorem Applies.changes (hnew : s.recorded event = false) {r : TransferRequest} {s' : Store}
    (h : Applies env event s (.ok (r, s'))) : s' ≠ s := by
  obtain ⟨ws, hrun, rfl, hadm⟩ := h.eventRun
  obtain ⟨row, hrow⟩ := row_of_eventRun hnew hrun
  intro hsame
  have hrows := externalEvents_applyAll hadm
  rw [hsame, eq_comm, List.append_right_eq_self] at hrows
  have hmem : row ∈ ws.filterMap Write.externalEvent? := List.mem_filterMap.mpr ⟨_, hrow, rfl⟩
  simp [hrows] at hmem

variable {s₀ : Store}

/-- A rejection of a transfer that waits, found by its lookup. -/
theorem rejects_of_lookup (hs : s₀.Settleable s) (hlinked : s.Linked)
    {found : TransferWithSource} {row : ExternalTransferEvent} (hlook : s.LooksUp event found)
    (hrejected : event.eventType = .failed) (hpending : found.transfer.status = .pendingExternal)
    (hrow : ∃ now u, row = eventData found.transfer.id event now u)
    (hadm : database.Admissible s [.externalEvent row]) : s.Rejects event found row :=
  ⟨hs.keys, hlinked, hs.placed _ hlook.transfer, hlook, hrejected, hpending, hrow, hadm⟩

/-- Events whose ids are not taken are heeded. -/
theorem Store.Distinguishes.heeds (h : s.Distinguishes event t) (hs : s₀.Settleable s)
    (hlinked : s.Linked) (ht : t ∈ s.transferRequests.rows) (hpending : t.status = .pendingExternal)
    (haddressed : s.Addressed event t)
    (hany : ∃ clearing ∈ s.ledgerAccounts.rows, clearing.clears t.currency) :
    s.Heeds env event t := by
  have hreplayed : s.recorded event = true → s.Replayed event t := by
    intro hrecorded
    obtain ⟨row, hrow, hprovider, hid⟩ := recorded_iff.mp hrecorded
    exact ⟨row, hrow, hprovider, hid, h.own row hrow hprovider hid⟩
  refine ⟨fun r hr => ?_, fun hrejected hnot o ho => ?_⟩
  · cases hrecorded : s.recorded event with
    | true => exact hreplayed hrecorded
    | false => exact absurd rfl (hr.changes hrecorded)
  · have hnew : s.recorded event = false := by
      simpa using fun hrecorded => hnot (hreplayed hrecorded)
    have hsurely : Surely (applyNormalizedEventTx env event) s
        (fun _ s' => s'.statusOf t.id = some .compensated) fun _ => False := by
      refine new_surely hs.placed hnew ⟨t, ht, (haddressed t ht).mpr rfl⟩ ?_
      intro found row hlook hrow hadm
      obtain rfl := (haddressed _ hlook.transfer).mp hlook.identified
      refine ((rejects_of_lookup hs hlinked hlook hrejected hpending hrow hadm).surely env).mono
        (fun _ _ hok => hok.2) fun _ herr => ?_
      obtain ⟨clearing, hmem, hclears, hnot⟩ := herr hany
      exact hnot (h.refundable hrejected hnew clearing hmem hclears)
    cases o with
    | error e => exact (hsurely.error ho).elim
    | ok x => exact ⟨x.1, x.2, rfl, hsurely.result ho⟩

/-- Events that are heeded have ids that are not taken. -/
theorem Store.Heeds.distinguishes (h : s.Heeds env event t) (hs : s₀.Settleable s)
    (hlinked : s.Linked) (ht : t ∈ s.transferRequests.rows) (hpending : t.status = .pendingExternal)
    (haddressed : s.Addressed event t) : s.Distinguishes event t := by
  have hidentified := (haddressed t ht).mpr rfl
  constructor
  · intro row hrow hprovider hid
    obtain ⟨r, _, hr, rfl, -⟩ := (recorded_surely env hs.placed
      (recorded_iff.mpr ⟨row, hrow, hprovider, hid⟩) ⟨t, ht, hidentified⟩).exists_result exists_fresh
    obtain ⟨row', hrow', hprovider', hid', htype, htransfer⟩ := h.skipped r hr
    obtain rfl := row_unique hrow hrow' (hprovider.trans hprovider'.symm) hid hid'
    exact ⟨htype, htransfer⟩
  · intro hrejected hnew clearing hmem hclears
    have hnot : ¬ s.Replayed event t := fun hreplayed =>
      nomatch hnew.symm.trans hreplayed.recorded
    have hsurely : Surely (applyNormalizedEventTx env event) s (fun _ _ => True) fun _ => False := by
      refine always_of_ends (fun _ _ _ => trivial) fun e he => ?_
      obtain ⟨_, _, herr, -⟩ := h.rejected hrejected hnot _ he
      cases herr
    obtain ⟨found, row, rfl, hlook, hrow, hadm, happly⟩ :=
      choose_transfer hs.placed hnew hsurely ht hidentified
    by_contra hrefundable
    obtain ⟨e, herr⟩ := ((rejects_of_lookup hs hlinked hlook hrejected hpending hrow hadm).choose
      happly hmem hclears).2 hrefundable
    exact herr

end Replay

/-- In every reachable state, an event about a transfer that waits is heeded if and only if its ids
are not taken and its refund can be posted. -/
theorem replays_skipped_iff {s : Store} {env : Env} (hkeys : s.ForeignKeys) (hlinked : s.Linked)
    (htransfers : s.transferRequests.rows = []) {c : ServerConfig}
    (hrun : Steps (server env) anySchedule (.initial s) c) {t : TransferRequest}
    (ht : t ∈ c.store.transferRequests.rows) (hpending : t.status = .pendingExternal)
    {event : NormalizedExternalRailEvent} (haddressed : c.store.Addressed event t)
    (hclearing : ∃ clearing ∈ c.store.ledgerAccounts.rows, clearing.clears t.currency) :
    c.store.Heeds env event t ↔ c.store.Distinguishes event t := by
  have hs := settleable_of_steps hkeys htransfers hrun
  have hlinked' := hlinked.of_extends hs.extended
  exact ⟨fun h => h.distinguishes hs hlinked' ht hpending haddressed,
    fun h => h.heeds hs hlinked' ht hpending haddressed hclearing⟩

/-! ## Own transfers -/

/-- The transfer is of the provider, and every identifier that the event carries is its own. -/
structure NormalizedExternalRailEvent.IsAbout (event : NormalizedExternalRailEvent)
    (t : TransferRequest) : Prop where
  provider : t.externalRailProvider = some event.provider
  transferRequestId : ∀ id, truthy event.transferRequestId = some id → t.id = id
  externalReference : ∀ reference, truthy event.externalReference = some reference →
    t.externalReference = some reference

/-- The transfer has another status in the new store, or a new entry. -/
def Store.Affects (s s' : Store) (t : TransferRequest) : Prop :=
  s'.statusOf t.id ≠ some t.status ∨
    ∃ e ∈ s'.journalEntries.rows, e ∉ s.journalEntries.rows ∧ e.transferRequestId = some t.id

/-- The event changes no transfer but the one it is about. -/
def Store.Confines (s : Store) (env : Env) (event : NormalizedExternalRailEvent) : Prop :=
  ∀ r s', Applies env event s (.ok (r, s')) →
    ∀ t ∈ s.transferRequests.rows, s.Affects s' t → event.IsAbout t

/-- The event would settle the transfer, or its refund can be posted. -/
def Store.Finishes (s : Store) (event : NormalizedExternalRailEvent) (t : TransferRequest) : Prop :=
  t.status = .pendingExternal ∧ (event.eventType = .settled ∨ event.eventType = .failed ∧
    ∃ clearing ∈ s.ledgerAccounts.rows, clearing.clears t.currency ∧ s.Refundable event t clearing)

/-- The event is recorded, or the transfers that it would finish by one identifier agree with all
it carries. -/
def Store.Pinpoints (s : Store) (event : NormalizedExternalRailEvent) : Prop :=
  s.recorded event = false → ∀ t ∈ s.transferRequests.rows, event.identifies t = true →
    s.Finishes event t → event.IsAbout t

section Own

variable {s s₀ : Store} {env : Env} {event : NormalizedExternalRailEvent} {t : TransferRequest}

/-- Updates of one transfer affect no other one. -/
theorem id_of_affects {s' : Store} {id : Uuid} {f : TransferRequest → TransferRequest}
    {entries : List JournalEntry} (hrows : s'.transferRequests.rows =
      s.transferRequests.rows.map fun t => if t.id = id then f t else t)
    (hentries : s'.journalEntries.rows = s.journalEntries.rows ++ entries)
    (hof : ∀ e ∈ entries, e.transferRequestId = truthy (some id))
    (ht : t ∈ s.transferRequests.rows) (h : s.Affects s' t) : t.id = id := by
  rcases h with hstatus | ⟨e, he, hnew, hid⟩
  · by_contra hne
    exact hstatus (statusOf_other hrows hne (statusOf_eq_some.mpr ⟨t, ht, rfl, rfl⟩))
  · rw [hentries] at he
    have hof' := hof e ((List.mem_append.mp he).resolve_left hnew)
    exact Option.some.inj (truthy_eq_some (hof'.symm.trans hid)).symm

/-- Nothing is affected where nothing changes. -/
theorem not_affects {s' : Store} (htransfers : s'.transferRequests = s.transferRequests)
    (hentries : s'.journalEntries = s.journalEntries) (ht : t ∈ s.transferRequests.rows) :
    ¬ s.Affects s' t := by
  rintro (hstatus | ⟨e, he, hnew, -⟩)
  · exact hstatus ((statusOf_congr htransfers).trans (statusOf_eq_some.mpr ⟨t, ht, rfl, rfl⟩))
  · rw [hentries] at he
    exact hnew he

theorem rows_settled (s : Store) (row : ExternalTransferEvent) (id : Uuid) (settledAt : Time) :
    (database.applyAll [.externalEvent row,
      .updateTransferRequest id (settledUpdate settledAt)] s).transferRequests.rows =
      s.transferRequests.rows.map fun t =>
        if t.id = id then (settledUpdate settledAt).apply t else t := rfl

/-- The transfer that a run affects is the one that it looked up, and it was pending. -/
theorem affects_eventRun {ws : List Write} {r : TransferRequest}
    (h : EventRun (Now s) env event ws r) (hadm : database.Admissible s ws)
    (ht : t ∈ s.transferRequests.rows) (haffects : s.Affects (database.applyAll ws s) t) :
    ∃ found row, Received (Now s) event found row ∧ found.transfer.id = t.id ∧ r.id = t.id ∧
      found.transfer.status = .pendingExternal ∧
      (event.eventType = .settled ∨ event.eventType = .failed) := by
  cases h with
  | duplicate _ _ => exact (not_affects rfl rfl ht haffects).elim
  | recorded _ _ => exact (not_affects rfl rfl ht haffects).elim
  | @settled found row settledAt _ hreceived htype hpending =>
      have hrows := rows_settled s row found.transfer.id settledAt
      have hid := id_of_affects hrows (List.append_nil _).symm (by simp) ht haffects
      exact ⟨found, row, hreceived, hid.symm, hid.symm, hpending, Or.inl htype⟩
  | @compensated found row _ _ _ _ _ journalEntry _ _ _ _ hreceived htype hpending _ hcomp =>
      have hjournal := journalEntries_of_journalled hadm
        (hcomp.entry.journalled.wrap (by simp [Write.kind]) (by simp [Write.kind]))
      have hof : journalEntry.transferRequestId = truthy (some found.transfer.id) := by
        obtain ⟨_, rfl⟩ := hcomp.entry.entry
        rfl
      have hid := id_of_affects (rows_updatedTwice hcomp.entry.kind s).1 hjournal
        (List.forall_mem_singleton.mpr hof) ht haffects
      exact ⟨found, row, hreceived, hid.symm, hid.symm, hpending, Or.inr htype⟩

/-- The lookup of a run. -/
theorem looksUp_of_received (hplaced : ∀ t ∈ s.transferRequests.rows, s.Placed t)
    {found : TransferWithSource} {row : ExternalTransferEvent}
    (h : Received (Now s) event found row) : s.LooksUp event found := by
  obtain ⟨ch, hexec⟩ := h.lookup
  obtain ⟨reply, hexec', -, hfound⟩ := exec_lookup event hplaced ch rfl
  cases hexec'.symm.trans hexec
  exact hfound found rfl

/-- The run that affects a transfer found its event new. -/
theorem new_of_received {found : TransferWithSource} {row : ExternalTransferEvent}
    (h : Received (Now s) event found row) : s.recorded event = false := by
  rw [Store.recorded, ← now_findExternalEvent h.absent]
  rfl

/-- The transfer that a new event is applied to is the one that is returned. -/
theorem applyEvent_returns {found : TransferWithSource} :
    Surely (applyEvent env event found) s (fun r _ => r.id = found.transfer.id) fun _ => True := by
  refine Always.of_runs (V := Now s) lawful_database (fun p e ch _ hexec => ⟨ch, hexec⟩)
    fun r ws hruns _ => ?_
  have hV : Answering (Now s) := answering_of_saw fun _ _ => saw_of_now
  unfold applyEvent at hruns
  split at hruns
  · exact congrArg _ (runs_return.mp hruns).2.symm
  · rcases settle_runs hV hruns with ⟨-, -, rfl⟩ | ⟨-, _, _, -, rfl⟩ <;> rfl
  · split at hruns
    · split at hruns
      · obtain ⟨rfl, -⟩ := compensate_runs hV hruns
        rfl
      · exact congrArg _ (runs_return.mp hruns).2.symm
    · exact congrArg _ (runs_return.mp hruns).2.symm

/-- A rejection that compensates a transfer could post its refund. -/
theorem refunds_surely (hs : s₀.Settleable s) (hlinked : s.Linked) (hnew : s.recorded event = false)
    (hrejected : event.eventType = .failed)
    (hany : ∃ t ∈ s.transferRequests.rows, event.identifies t = true) :
    Surely (applyNormalizedEventTx env event) s (fun r _ => ∃ t ∈ s.transferRequests.rows,
      event.identifies t = true ∧ t.id = r.id ∧
        (t.status = .pendingExternal → s.Finishes event t)) fun _ => True := by
  refine new_surely hs.placed hnew hany ?_
  intro found row hlook hrow hadm
  by_cases hpending : found.transfer.status = .pendingExternal
  · refine (((rejects_of_lookup hs hlinked hlook hrejected hpending hrow hadm).surely env).and
      applyEvent_returns).mono ?_ fun _ _ => trivial
    rintro r _ ⟨⟨hclearing, -⟩, hr⟩
    exact ⟨_, hlook.transfer, hlook.identified, hr.symm, fun _ =>
      ⟨hpending, Or.inr ⟨hrejected, hclearing⟩⟩⟩
  · refine applyEvent_returns.mono ?_ fun _ _ => trivial
    exact fun r _ hr => ⟨_, hlook.transfer, hlook.identified, hr.symm, fun h => absurd h hpending⟩

theorem settle_surely (htransfer : s.present (.row .transferRequest t.id) = true)
    (hpending : t.status = .pendingExternal) :
    Surely (settle t) s (fun _ s' => s'.statusOf t.id = some .settled) fun _ => False := by
  unfold settle
  rw [if_pos hpending]
  refine Always.bind (surely_newDate _) ?_ fun _ h => h.elim
  rintro settledAt _ rfl
  refine Always.bind (surely_updateTransferRequest htransfer) ?_ fun _ h => h.elim
  rintro _ _ ⟨-, rfl⟩
  refine Always.bind (surely_newDate _) ?_ fun _ h => h.elim
  rintro _ _ rfl
  exact statusOf_updated htransfer rfl

theorem Store.Pinpoints.confines (h : s.Pinpoints event) (hs : s₀.Settleable s)
    (hlinked : s.Linked) : s.Confines env event := by
  intro r s' happlies t ht haffects
  obtain ⟨ws, hrun, rfl, hadm⟩ := happlies.eventRun
  obtain ⟨found, row, hreceived, hid, hr, hpending, htype⟩ := affects_eventRun hrun hadm ht haffects
  have hnew := new_of_received hreceived
  have hlook := looksUp_of_received hs.placed hreceived
  obtain rfl := Table.eq_of_pk hlook.transfer ht hid
  refine h hnew _ ht hlook.identified ?_
  rcases htype with hsettled | hrejected
  · exact ⟨hpending, Or.inl hsettled⟩
  · obtain ⟨t', ht', -, hid', hfinishes⟩ :=
      (refunds_surely hs hlinked hnew hrejected ⟨_, ht, hlook.identified⟩).result happlies
    obtain rfl := Table.eq_of_pk ht' ht (hid'.trans hr)
    exact hfinishes hpending

theorem Store.Confines.pinpoints (h : s.Confines env event) (hs : s₀.Settleable s)
    (hlinked : s.Linked) : s.Pinpoints event := by
  rintro hnew t ht hidentified ⟨hpending, hfinishes⟩
  have hall : Surely (applyNormalizedEventTx env event) s
      (fun _ s' => s.Affects s' t → event.IsAbout t) fun _ => True :=
    always_of_ends (fun r s' happlies => h r s' happlies t ht) fun _ _ => trivial
  obtain ⟨found, row, rfl, hlook, hrow, hadm, happly⟩ :=
    choose_transfer hs.placed hnew hall ht hidentified
  have hchanged : ∀ {s' : Store} {status : TransferStatus}, s'.statusOf found.transfer.id = some status →
      status ≠ .pendingExternal → s.Affects s' found.transfer := by
    intro s' status hstatus hne
    refine Or.inl fun hsame => hne ?_
    rw [← hpending]
    exact Option.some.inj (hstatus.symm.trans hsame)
  rcases hfinishes with hsettled | ⟨hrejected, clearing, hmem, hclears, hrefundable⟩
  · have htransfer : s.present (.row .transferRequest found.transfer.id) = true :=
      Option.isSome_iff_exists.mpr ⟨_, Table.get?_eq_some.mpr ⟨ht, rfl⟩⟩
    have hsettle := settle_surely (present_applyAll hadm htransfer) hpending
    simp only [applyEvent, hsettled] at happly
    obtain ⟨_, _, -, habout, hstatus⟩ := ((happly.and hsettle).mono (fun _ _ h => h)
      fun _ h => h.2).exists_result exists_fresh
    exact habout (hchanged hstatus (by decide))
  · obtain ⟨_, _, habout, hstatus⟩ := ((rejects_of_lookup hs hlinked hlook hrejected hpending hrow
      hadm).choose happly hmem hclears).1 hrefundable
    exact habout (hchanged hstatus (by decide))

end Own

/-- In every reachable state, an event changes only the transfer it is about if and only if the
identifiers by which it would finish a transfer agree. -/
theorem own_transfer_iff {s : Store} {env : Env} (hkeys : s.ForeignKeys) (hlinked : s.Linked)
    (htransfers : s.transferRequests.rows = []) {c : ServerConfig}
    (hrun : Steps (server env) anySchedule (.initial s) c) (event : NormalizedExternalRailEvent) :
    c.store.Confines env event ↔ c.store.Pinpoints event := by
  have hs := settleable_of_steps hkeys htransfers hrun
  have hlinked' := hlinked.of_extends hs.extended
  exact ⟨fun h => h.pinpoints hs hlinked', fun h => h.confines hs hlinked'⟩

/-! ## A transfer that was sent -/

/-- An external transfer of 2500 from the checking account, up to its commit. -/
def sentSchedule : List (Action Choice Call) :=
  .start (.createTransfer (demoTransfer (.externalBank none "NATL" "1099" "Jane Doe") 2500)
    (demoContext "k")) :: advances 0 "a" 21

/-- The transfer of `sentSchedule`. -/
def sentTransfer : TransferRequest :=
  { pendingTransfer with
    id := "id-a4-0"
    amountMinor := 2500
    requestHash := "0d76f071-8dbf-4d01-aec5-11d448bcb5b1//NATL/1099/Jane Doe/USD/2500/1/"
    correlationId := some "correlation"
    externalReference := some "simulator_id-a4-0" }

/-- The submission that `createTransfer` records for it. -/
def sentSubmission : ExternalTransferEvent where
  id := "id-a16-0"
  transferRequestId := "id-a4-0"
  provider := "simulator"
  providerEventId := some "id-a4-0:submitted"
  eventType := .submitted
  processedAt := none

/-- An event of the rail about the transfer. -/
def sentEvent (providerEventId : String) (eventType : ExternalRailEventType) :
    NormalizedExternalRailEvent :=
  { terminalEvent providerEventId eventType with transferRequestId := some "id-a4-0" }

/-- What `sentSchedule` leaves. -/
structure Store.Sent (s : Store) : Prop where
  transfers : s.transferRequests.rows = [sentTransfer]
  events : s.externalEvents.rows = [sentSubmission]
  ledgerAccounts : s.ledgerAccounts.rows = demoStore.ledgerAccounts.rows
  projected : s.projected demoData.checkingAccountId = 247500

theorem sent_run : ∃ c, Steps (server testEnvironment) anySchedule (.initial demoStore) c ∧
    c.store.Sent := by
  obtain ⟨c, hrun, htransfers, hevents, hledger, hprojected⟩ := exists_of_play
    (server testEnvironment) anySchedule (.initial demoStore) sentSchedule
    (fun c => c.store.transferRequests.rows = [sentTransfer] ∧
      c.store.externalEvents.rows = [sentSubmission] ∧
      c.store.ledgerAccounts.rows = demoStore.ledgerAccounts.rows ∧
      c.store.projected demoData.checkingAccountId = 247500) (by decide +kernel)
  exact ⟨c, hrun, htransfers, hevents, hledger, hprojected⟩

section Sent

variable {s : Store}

theorem Store.Sent.transfer (h : s.Sent) : sentTransfer ∈ s.transferRequests.rows := by
  simp [h.transfers]

/-- The event identifies the transfer. -/
theorem Store.Sent.addressed (h : s.Sent) (providerEventId : String)
    (eventType : ExternalRailEventType) :
    s.Addressed (sentEvent providerEventId eventType) sentTransfer := by
  intro t ht
  rw [h.transfers, List.mem_singleton] at ht
  subst ht
  exact iff_of_true rfl rfl

/-- The clearing account of the seed. -/
theorem Store.Sent.clearing (h : s.Sent) :
    ∃ clearing ∈ s.ledgerAccounts.rows, clearing.clears sentTransfer.currency := by
  rw [h.ledgerAccounts]
  exact ⟨⟨demoData.clearingLedgerAccountId, none, .clearing, "USD", .debit⟩, by decide +kernel,
    rfl, rfl⟩

/-- The amount of the transfer can be given back. -/
theorem Store.Sent.refundable (h : s.Sent) {event : NormalizedExternalRailEvent}
    (hmarked : s.marked event = false) {clearing : LedgerAccount}
    (hmem : clearing ∈ s.ledgerAccounts.rows) (hclears : clearing.clears sentTransfer.currency) :
    s.Refundable event sentTransfer clearing := by
  have hseed : ∀ l ∈ demoStore.ledgerAccounts.rows, l.category = .clearing →
      l.id ≠ "ledger-checking" ∧ l.accountId = none := by decide +kernel
  rw [h.ledgerAccounts] at hmem
  obtain ⟨hne, hnone⟩ := hseed clearing hmem hclears.1
  let source : LedgerAccount :=
    ⟨"ledger-checking", some demoData.checkingAccountId, .customer, "USD", .credit⟩
  refine ⟨⟨source, ?_, hne, ⟨by decide, by decide, by simp [hnone]⟩, by decide, by decide, ?_⟩, hmarked⟩
  · refine ledgerAccountOf_some.mpr ⟨?_, rfl⟩
    rw [h.ledgerAccounts]
    decide +kernel
  · rintro _ ⟨⟩
    rw [h.projected]
    decide

end Sent

/-- A new rejection of the transfer is heeded. -/
theorem replays_skipped_rejected :
    ∃ c event, Steps (server testEnvironment) anySchedule (.initial demoStore) c ∧
      event.eventType = .failed ∧ c.store.Heeds testEnvironment event sentTransfer := by
  obtain ⟨c, hrun, hsent⟩ := sent_run
  refine ⟨c, sentEvent "event" .failed, hrun, rfl, ?_⟩
  refine (replays_skipped_iff (seedBaseData_foreignKeys _ _ _) demoStore_linked rfl hrun
    hsent.transfer rfl (hsent.addressed _ _) hsent.clearing).mpr ⟨?_, fun _ _ clearing => ?_⟩
  · intro row hrow _ hid
    rw [hsent.events, List.mem_singleton] at hrow
    subst hrow
    exact absurd (Option.some.inj hid) (by decide)
  · refine hsent.refundable ?_
    rw [Store.marked, Option.isSome_eq_false_iff, Option.isNone_iff_eq_none, Table.find?_eq_none]
    intro row hrow
    rw [hsent.events, List.mem_singleton] at hrow
    subst hrow
    decide

/-- A rejection under the id that `createTransfer` gave the submission is skipped. -/
theorem rejection_unheeded :
    ∃ c t event, Steps (server testEnvironment) anySchedule (.initial demoStore) c ∧
      t ∈ c.store.transferRequests.rows ∧ t.status = .pendingExternal ∧
      c.store.Addressed event t ∧
      (∃ clearing ∈ c.store.ledgerAccounts.rows, clearing.clears t.currency) ∧
      ¬ c.store.Heeds testEnvironment event t := by
  obtain ⟨c, hrun, hsent⟩ := sent_run
  refine ⟨c, sentTransfer, sentEvent "id-a4-0:submitted" .failed, hrun, hsent.transfer, rfl,
    hsent.addressed _ _, hsent.clearing, fun hheeds => ?_⟩
  have hs := settleable_of_steps (seedBaseData_foreignKeys _ _ _) rfl hrun
  have hown := (hheeds.distinguishes hs (demoStore_linked.of_extends hs.extended) hsent.transfer rfl
    (hsent.addressed _ _)).own sentSubmission (by simp [hsent.events]) rfl rfl
  exact absurd hown.1 (by decide)

/-- An event of the rail about the transfer changes no other one. -/
theorem own_transfer_settled :
    ∃ c event, Steps (server testEnvironment) anySchedule (.initial demoStore) c ∧
      event.eventType = .settled ∧ c.store.Confines testEnvironment event := by
  obtain ⟨c, hrun, hsent⟩ := sent_run
  refine ⟨c, sentEvent "event" .settled, hrun, rfl, (own_transfer_iff
    (seedBaseData_foreignKeys _ _ _) demoStore_linked rfl hrun _).mpr fun _ t ht _ _ => ?_⟩
  rw [hsent.transfers, List.mem_singleton] at ht
  subst ht
  exact ⟨rfl, fun id hid => Option.some.inj (truthy_eq_some hid), fun reference h => by cases h⟩

/-- Another provider settles the transfer. -/
theorem foreign_event_settles :
    ∃ c event, Steps (server testEnvironment) anySchedule (.initial demoStore) c ∧
      ¬ c.store.Confines testEnvironment event := by
  obtain ⟨c, hrun, hsent⟩ := sent_run
  refine ⟨c, { sentEvent "event" .settled with provider := "mock-bank" }, hrun, fun hconfines => ?_⟩
  have hs := settleable_of_steps (seedBaseData_foreignKeys _ _ _) rfl hrun
  have hnew : c.store.recorded
      { sentEvent "event" .settled with provider := "mock-bank" } = false := by
    rw [Store.recorded, Option.isSome_eq_false_iff, Option.isNone_iff_eq_none, Table.find?_eq_none]
    intro row hrow
    rw [hsent.events, List.mem_singleton] at hrow
    subst hrow
    decide
  have habout := hconfines.pinpoints hs (demoStore_linked.of_extends hs.extended) hnew sentTransfer
    hsent.transfer rfl ⟨rfl, Or.inl rfl⟩
  exact absurd habout.provider (by decide)

end LedgerCredit
