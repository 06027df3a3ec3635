import LedgerCredit.EventsAlone
import LedgerCredit.TransferStates

/-!
# The audit trail of transfers

`applyNormalizedEvent` writes its audit event after its transaction, and names it
after the type of the provider event.  It does so too when the transaction
changed nothing, so a replay and a late event leave a report of a transition that
did not happen.

`Store.Truthful` says that the reports are right.  A commit that ends a transfer
creates a token, the id of the transfer, and the report of the end has to own it
(`Supported`).  Where every provider event finds its transfer waiting
(`Store.awaits`), each report has one.
-/

namespace LedgerCredit

open Txn LedgerService ExternalRailService

/-! ## Reports -/

/-- The audit event that a write adds. -/
def Write.auditEvent? : Write → Option AuditEvent
  | .auditEvent r => some r
  | _ => none

/-- The audit events of an action on a transfer. -/
def Store.reports (s : Store) (actionType : String) (id : Uuid) : List AuditEvent :=
  s.auditEvents.rows.filter fun e => e.actionType = actionType ∧ e.resourceId = id

/-- The actions that report the end of an external transfer. -/
def endings : List String := ["transfer.settled", "transfer.compensated", "transfer.failed"]

/-- The action that reports how a transfer ended. -/
def TransferStatus.reported : TransferStatus → Option String
  | .settled => some "transfer.settled"
  | .compensated => some "transfer.compensated"
  | _ => none

/-- The audit trail reports the ends of transfers that happened, and each at most once. -/
structure Store.Truthful (s : Store) : Prop where
  settled : ∀ id, s.reports "transfer.settled" id ≠ [] → s.statusOf id = some .settled
  settledOnce : ∀ id, (s.reports "transfer.settled" id).length ≤ 1
  compensated : ∀ id, s.reports "transfer.compensated" id ≠ [] → s.statusOf id = some .compensated
  compensatedOnce : ∀ id, (s.reports "transfer.compensated" id).length ≤ 1
  failed : ∀ id, s.reports "transfer.failed" id ≠ [] →
    s.statusOf id = some .failed ∨ s.statusOf id = some .compensated

/-- No end of the transfer is reported. -/
def Store.Silent (s : Store) (id : Uuid) : Prop := ∀ a ∈ endings, s.reports a id = []

/-- The statuses that no commit changes any more are kept. -/
def Store.KeepsEnds (s s' : Store) : Prop :=
  ∀ id status, s.statusOf id = some status → status ≠ .pendingExternal →
    s'.statusOf id = some status

/-- An audit event reports no end of a transfer, or one that happened and was not reported, of a
transfer among `T`. -/
def Supported (s : Store) (T : Set Uuid) (e : AuditEvent) : Prop :=
  e.actionType ∈ endings → e.resourceId ∈ T ∧ s.reports e.actionType e.resourceId = [] ∧
    ∃ status, s.statusOf e.resourceId = some status ∧ status.reported = some e.actionType

section Reports

variable {s s' : Store} {id : Uuid} {a : String} {ws : List Write}

theorem auditEvents_applyAll (h : database.Admissible s ws) :
    (database.applyAll ws s).auditEvents.rows =
      s.auditEvents.rows ++ ws.filterMap Write.auditEvent? := by
  refine rows_applyAll (·.auditEvents) _ (fun w s r hr hw => ?_) (fun w s hr => ?_) h
  · cases w <;> cases hr
    exact Table.rows_insert (Table.fresh_of_pk
      (absent_of_admissible hw (x := .row .auditEvent r.id) (by simp [Write.adds])) rfl)
  · cases w <;> first | rfl | cases hr

theorem reports_applyAll (h : database.Admissible s ws) (a : String) (id : Uuid) :
    (database.applyAll ws s).reports a id = s.reports a id ++
      (ws.filterMap Write.auditEvent?).filter fun e => e.actionType = a ∧ e.resourceId = id := by
  rw [Store.reports, auditEvents_applyAll h, List.filter_append]
  rfl

/-- Writes without a report leave the reports alone. -/
theorem reports_eq (h : database.Admissible s ws) (ha : a ∈ endings)
    (hws : ∀ e ∈ ws.filterMap Write.auditEvent?, e.actionType ∉ endings) :
    (database.applyAll ws s).reports a id = s.reports a id := by
  rw [reports_applyAll h a id, List.append_right_eq_self, List.filter_eq_nil_iff]
  rintro e he hcontra
  obtain ⟨rfl, -⟩ : e.actionType = a ∧ e.resourceId = id := by simpa using hcontra
  exact hws e he ha

theorem Store.Truthful.frame (h : s.Truthful) (hends : s.KeepsEnds s')
    (hreports : ∀ id, ∀ a ∈ endings, s'.reports a id = s.reports a id) : s'.Truthful := by
  have hsettled : ∀ id, s'.reports "transfer.settled" id = s.reports "transfer.settled" id :=
    fun id => hreports id _ (by simp [endings])
  have hcompensated : ∀ id, s'.reports "transfer.compensated" id =
      s.reports "transfer.compensated" id := fun id => hreports id _ (by simp [endings])
  have hfailed : ∀ id, s'.reports "transfer.failed" id = s.reports "transfer.failed" id :=
    fun id => hreports id _ (by simp [endings])
  constructor
  · intro id hid
    exact hends _ _ (h.settled id (hsettled id ▸ hid)) (by decide)
  · intro id
    exact hsettled id ▸ h.settledOnce id
  · intro id hid
    exact hends _ _ (h.compensated id (hcompensated id ▸ hid)) (by decide)
  · intro id
    exact hcompensated id ▸ h.compensatedOnce id
  · intro id hid
    exact (h.failed id (hfailed id ▸ hid)).imp (fun hf => hends _ _ hf (by decide))
      fun hc => hends _ _ hc (by decide)

/-- One audit event more. -/
theorem reports_auditEvent {e : AuditEvent} (h : database.Admissible s [.auditEvent e])
    (hnone : s.reports e.actionType e.resourceId = []) (a : String) (id : Uuid) :
    (database.applyAll [.auditEvent e] s).reports a id = s.reports a id ∨
      a = e.actionType ∧ id = e.resourceId ∧
        (database.applyAll [.auditEvent e] s).reports a id = [e] := by
  have hrows := reports_applyAll h a id
  by_cases he : e.actionType = a ∧ e.resourceId = id
  · obtain ⟨rfl, rfl⟩ := he
    exact Or.inr ⟨rfl, rfl, by simpa [hnone, Write.auditEvent?] using hrows⟩
  · exact Or.inl (hrows.trans (by simpa [Write.auditEvent?] using not_and.mp he))

theorem Store.Truthful.report {T : Set Uuid} {e : AuditEvent} (h : s.Truthful)
    (hadm : database.Admissible s [.auditEvent e]) (hsupported : Supported s T e) :
    (database.applyAll [.auditEvent e] s).Truthful := by
  have hends : s.KeepsEnds (database.applyAll [.auditEvent e] s) := fun _ _ hs _ => hs
  by_cases he : e.actionType ∈ endings
  · obtain ⟨-, hnone, status, hstatus, hreported⟩ := hsupported he
    have hone := reports_auditEvent hadm hnone
    have hstatus' : (database.applyAll [.auditEvent e] s).statusOf e.resourceId = some status :=
      hstatus
    constructor
    · intro id hid
      rcases hone "transfer.settled" id with heq | ⟨haction, rfl, -⟩
      · exact h.settled id (heq ▸ hid)
      · rw [← haction] at hreported
        cases status <;> first | exact hstatus' | simp [TransferStatus.reported] at hreported
    · intro id
      rcases hone "transfer.settled" id with heq | ⟨-, -, heq⟩
      · exact heq ▸ h.settledOnce id
      · exact (congrArg List.length heq).le
    · intro id hid
      rcases hone "transfer.compensated" id with heq | ⟨haction, rfl, -⟩
      · exact h.compensated id (heq ▸ hid)
      · rw [← haction] at hreported
        cases status <;> first | exact hstatus' | simp [TransferStatus.reported] at hreported
    · intro id
      rcases hone "transfer.compensated" id with heq | ⟨-, -, heq⟩
      · exact heq ▸ h.compensatedOnce id
      · exact (congrArg List.length heq).le
    · intro id hid
      rcases hone "transfer.failed" id with heq | ⟨haction, rfl, -⟩
      · exact h.failed id (heq ▸ hid)
      · rw [← haction] at hreported
        cases status <;> simp [TransferStatus.reported] at hreported
  · refine h.frame hends fun id a ha => reports_eq hadm ha ?_
    simpa [Write.auditEvent?] using he

end Reports

/-! ## What a commit reports -/

/-- The audit event that a statement outside of a transaction creates. -/
def Label.audits : {α : Type} → Label α → Option (Uuid → AuditEvent)
  | _, .statement (.createAuditEvent data) => some data
  | _, _ => none

/-- Every transfer that the event identifies waits for its rail, and can be given back its amount
if the event rejects it.  The event is new. -/
def Store.awaits (s : Store) (event : NormalizedExternalRailEvent) : Bool :=
  !s.recorded event && s.transferRequests.rows.all fun t => !event.identifies t ||
    (t.status = .pendingExternal &&
      (event.eventType = .settled || (s.ledgerAccountOf t.sourceAccountId).isSome))

section Commit

variable {env : Env} {s : Store} {id : Uuid} {ws : List Write}

theorem auditEvents_of_ledger (h : ∀ w ∈ ws, w.kind = .ledger) :
    ws.filterMap Write.auditEvent? = [] :=
  List.filterMap_eq_nil_iff.mpr fun w hw => by
    have hkind := h w hw
    cases w <;> first | rfl | cases hkind

/-- A new transfer is reported as created. -/
theorem TransfersService.TransferRun.reports {V : View} {args : CreateTransferArgs}
    {r : TransferMutationResult} (h : TransferRun V env args ws r) :
    ∀ e ∈ ws.filterMap Write.auditEvent?, e.actionType ∉ endings := by
  have hcreated : "transfer.created" ∉ endings := by decide
  cases h with
  | replay _ _ _ => simp
  | internal _ _ _ _ hcreated' _ _ hposted =>
      rw [hcreated'.writes, List.filterMap_append, List.filterMap_append,
        auditEvents_of_ledger hposted.kind]
      exact List.forall_mem_singleton.mpr hcreated
  | external _ _ _ _ hcreated' _ hposted =>
      rw [hcreated'.writes, List.filterMap_append, List.filterMap_append,
        auditEvents_of_ledger hposted.kind]
      exact List.forall_mem_singleton.mpr hcreated

/-- The transaction of an event reports nothing. -/
theorem ExternalRailService.EventRun.reports {V : View} {event : NormalizedExternalRailEvent}
    {r : TransferRequest} (h : EventRun V env event ws r) : ws.filterMap Write.auditEvent? = [] := by
  cases h with
  | compensated _ _ _ _ hcomp =>
      rw [List.filterMap_append, List.filterMap_append, auditEvents_of_ledger hcomp.entry.kind]
      rfl
  | _ => rfl

/-- A commit reports no end, or it is the audit event of a call. -/
theorem Committed.reports {V : View} (hV : Answering V) {α : Type} {l : Label α}
    (hl : ofTransfers l) {a : α} (h : Committed V env l a ws) :
    (∀ e ∈ ws.filterMap Write.auditEvent?, e.actionType ∉ endings) ∨
      ∃ data u, l.audits = some data ∧ ws = [.auditEvent (data u)] := by
  cases h with
  | createTransfer hrun => exact Or.inl hrun.reports
  | applyNormalizedEvent hrun => exact Or.inl (by simp [hrun.reports])
  | processBatchChunk _ => exact False.elim hl
  | processBatchItem _ => exact False.elim hl
  | @statement _ q r ws hread =>
      have hanswer := hV _ _ _ _ hread
      cases q with
      | createAuditEvent data =>
          obtain ⟨u, rfl⟩ := hanswer
          exact Or.inr ⟨data, u, rfl, rfl⟩
      | createBatchRunItems data =>
          obtain ⟨_, rfl⟩ := hanswer
          left
          simp [List.filterMap_map, Function.comp_def, Write.auditEvent?]
      | _ => first
          | exact False.elim hl
          | (obtain rfl := hanswer; exact Or.inl (by simp [Write.auditEvent?]))
          | (obtain ⟨_, rfl⟩ := hanswer; exact Or.inl (by simp [Write.auditEvent?]))

end Commit

/-! ## Statuses and reports after a commit -/

section Effect

variable {env : Env} {s : Store} {id : Uuid} {ws : List Write}

theorem RowEffect.keeps {o : Option TransferRequest} {rows : List RowWrite} (h : RowEffect o rows)
    {status : TransferStatus} (ho : o.map (·.status) = some status)
    (hstatus : status ≠ .pendingExternal) :
    (rows.foldl RowWrite.apply o).map (·.status) = some status := by
  cases h with
  | none => exact ho
  | internal _ hnone _ _ => simp [hnone] at ho
  | external _ hnone _ _ => simp [hnone] at ho
  | settled _ hsome hpending =>
      subst hsome
      exact absurd ((Option.some.inj ho).symm.trans hpending) hstatus
  | compensated _ hsome hpending =>
      subst hsome
      exact absurd ((Option.some.inj ho).symm.trans hpending) hstatus

/-- A commit keeps the statuses of the transfers that do not wait. -/
theorem Committed.keepsEnds {α : Type} {l : Label α} (hl : grounds s l) {a : α}
    (h : Committed (Now s) env l a ws) (hadm : database.Admissible s ws) :
    s.KeepsEnds (database.applyAll ws s) := by
  intro id status hs hstatus
  rw [Store.statusOf, get?_transferWrites hadm]
  exact (h.rowEffect hl hadm).keeps hs hstatus

theorem grounds_of_transfers {α : Type} {l : Label α} (h : ofTransfers l) : grounds s l := by
  cases l with
  | processBatchChunk _ _ _ => exact False.elim h
  | statement q => exact h
  | _ => trivial

/-- No end is reported of a transfer that waits. -/
theorem Store.Truthful.silent (h : s.Truthful) (hpending : s.statusOf id = some .pendingExternal) :
    s.Silent id := by
  have hnone : ∀ {a : String} {status : TransferStatus}, status ≠ .pendingExternal →
      (s.reports a id ≠ [] → s.statusOf id = some status) → s.reports a id = [] := by
    intro a status hne himp
    by_contra hreports
    exact hne (Option.some.inj ((himp hreports).symm.trans hpending))
  simp only [Store.Silent, endings, List.forall_mem_cons, List.not_mem_nil, false_implies,
    implies_true, and_true]
  refine ⟨hnone (by decide) (h.settled id), hnone (by decide) (h.compensated id), ?_⟩
  by_contra hreports
  rcases h.failed id hreports with hfailed | hfailed <;> cases hfailed.symm.trans hpending

/-- The transfer that the lookup replies is one that the event identifies. -/
theorem looksUp_of_now {event : NormalizedExternalRailEvent} {found : TransferWithSource}
    (h : Now s [] ⟨lookup event, some found, []⟩) : s.LooksUp event found := by
  obtain ⟨ch, hexec⟩ := h
  obtain ⟨hread, haccount, hledger⟩ := includeSource_some hexec
  obtain ⟨hmem, hid⟩ := List.mem_filter.mp (mem_arrange.mp (List.mem_of_head? hread))
  rw [(Table.get?_eq_some.mp haccount).2] at hledger
  exact ⟨hmem, hid, hledger⟩

/-- On a store that awaits the event, the transfer that is found waits. -/
theorem awaits_found {event : NormalizedExternalRailEvent} {found : TransferWithSource}
    (h : s.awaits event = true) (hfound : s.LooksUp event found) :
    found.transfer.status = .pendingExternal ∧
      (event.eventType = .settled ∨ found.sourceAccount.ledgerAccount ≠ none) := by
  simp only [Store.awaits, Bool.and_eq_true, List.all_eq_true] at h
  have hfacts := h.2 _ hfound.transfer
  rw [hfound.identified, ← hfound.ledgerAccount] at hfacts
  simpa [Option.isSome_iff_ne_none] using hfacts

/-- The report that is due after the transaction of an event. -/
def Due (event : NormalizedExternalRailEvent) (r : TransferRequest) (s : Store) (T : Set Uuid) :
    Prop :=
  event.eventType = .acknowledged ∨ r.id ∈ T ∧ s.Silent r.id ∧ s.statusOf r.id = some r.status ∧
    r.status.reported = some (mapAuditAction event.eventType r.status)

/-- The transfers that do not wait for a rail. -/
def Store.over (s : Store) : Set Uuid :=
  {id | ∃ status, s.statusOf id = some status ∧ status ≠ .pendingExternal}

/-- An event that is awaited ends its transfer, and the report of it is due. -/
theorem ExternalRailService.EventRun.due {event : NormalizedExternalRailEvent}
    {r : TransferRequest} (h : EventRun (Now s) env event ws r) (hs : s.Truthful)
    (hadm : database.Admissible s ws)
    (hawaited : event.eventType = .acknowledged ∨ s.awaits event = true) :
    Due event r (database.applyAll ws s) ((database.applyAll ws s).over \ s.over) := by
  by_cases hack : event.eventType = .acknowledged
  · exact Or.inl hack
  have hawaits := hawaited.resolve_left hack
  have hsilent : s.statusOf r.id = some .pendingExternal →
      (database.applyAll ws s).Silent r.id := fun hid a ha => by
    rw [reports_eq hadm ha (by simp [h.reports])]
    exact hs.silent hid a ha
  have hdue : s.statusOf r.id = some .pendingExternal →
      (database.applyAll ws s).statusOf r.id = some r.status →
      r.status.reported = some (mapAuditAction event.eventType r.status) →
      Due event r (database.applyAll ws s) ((database.applyAll ws s).over \ s.over) := by
    intro hold hstatus hreported
    have hne : r.status ≠ .pendingExternal := fun heq => by
      rw [heq] at hreported
      cases hreported
    refine Or.inr ⟨⟨⟨r.status, hstatus, hne⟩, ?_⟩, hsilent hold, hstatus, hreported⟩
    rintro ⟨status, hstatus', hne'⟩
    exact hne' (Option.some.inj (hstatus'.symm.trans hold))
  cases h with
  | duplicate hfind _ =>
      simp only [Store.awaits, Store.recorded, ← now_findExternalEvent hfind] at hawaits
      cases hawaits
  | recorded hreceived hidle =>
      obtain ⟨hpending, hledger⟩ := awaits_found hawaits (looksUp_of_now hreceived.lookup)
      rcases hidle with hack' | hover | ⟨hfailed, hnone⟩
      · exact absurd hack' hack
      · exact absurd hpending hover
      · rw [hfailed] at hledger
        simp [hnone] at hledger
  | settled hreceived htype hpending =>
      have hfound := get?_of_received hreceived
      refine hdue ?_ ?_ (by rw [htype]; rfl)
      · rw [Store.statusOf, hfound, Option.map_some, hpending]
      · rw [Store.statusOf, get?_transferWrites hadm, hfound]
        simp [transferWrites_cons, Write.toTransfer, RowWrite.apply, settledUpdate,
          TransferRequestUpdate.apply]
  | compensated hreceived htype hpending _ hcomp =>
      have hfound := get?_of_received hreceived
      refine hdue ?_ ?_ (by rw [htype]; rfl)
      · rw [Store.statusOf, hfound, Option.map_some, hpending]
      · rw [Store.statusOf, get?_transferWrites hadm, hfound]
        simp [transferWrites_append, transferWrites_cons, Write.toTransfer, RowWrite.apply,
          transferWrites_of_ledger hcomp.entry.kind, failedUpdate, TransfersService.statusUpdate,
          TransferRequestUpdate.apply]

end Effect

/-! ## Rules -/

/-- The transaction of a provider event is run where the event is awaited, unless the event only
acknowledges. -/
def Label.awaited (s : Store) : {α : Type} → Label α → Bool
  | _, .applyNormalizedEvent event => event.eventType = .acknowledged || s.awaits event
  | _, _ => true

/-- The schedules in which each provider event finds its transfer waiting. -/
def awaitedEvents (c : ServerConfig) : Action Choice Call → Bool
  | .advance i _ =>
      match c.threads[i]? with
      | some ⟨_, _, .opened l _ _ _⟩ => l.awaited c.store
      | _ => true
  | _ => true

/-- The schedules of calls about transfers, with atomic transactions, in which each provider event
finds its transfer waiting. -/
def awaitedSchedule (env : Env) (c : ServerConfig) (a : Action Choice Call) : Bool :=
  (server env).Serial c a && awaitedEvents c a && Starts Call.ofTransfers a

/-- What is due after a transaction. -/
def Label.due (s : Store) (T : Set Uuid) : {α : Type} → Label α → α → Prop
  | _, .applyNormalizedEvent event, r => Due event r s T
  | _, _, _ => True

/-- The rules of the audit trail.  A thread that owns a transfer is the only one that may report
its end. -/
def trailRules (env : Env) : Rules (server env) Unit Uuid where
  Inv := Store.Truthful
  le := Store.KeepsEnds
  born := Store.over
  rely := fun T s s' => ∀ id ∈ T, s.Silent id → s'.Silent id
  pre := fun s T l => ofTransfers l ∧ ∀ data, l.audits = some data → ∀ u, Supported s T (data u)
  post := fun s T l a s' T' =>
    (l.audits = none → T ⊆ T' ∧ ∀ id ∈ T, s.Silent id → s'.Silent id) ∧ l.due s' T' a
  done := fun _ _ _ _ => True
  guard := fun _ => [()]
  Cur := fun s l p e => Now s p e ∧ l.awaited s = true

section Rules

variable {env : Env} {s : Store} {T T' : Set Uuid}

section Commits

variable {α : Type} {l : Label α} {h : List (Event Stmt Write)} {a : α}

theorem trail_committed (hc : (trailRules env).Commits s T l h a) :
    Committed (Now s) env l a (writes h) :=
  committed_of_runs (answering_of_saw fun _ _ => saw_of_now)
    (runs_of_completes hc.path (hc.evidence.mono fun _ _ _ he => he.2.1))

/-- A commit keeps the reports of the transfers that its thread does not own. -/
theorem trail_reports (hc : (trailRules env).Commits s T l h a) :
    (∀ id, ∀ x ∈ endings, (database.applyAll (writes h) s).reports x id = s.reports x id) ∨
      ∃ data u, l.audits = some data ∧ writes h = [.auditEvent (data u)] := by
  refine ((trail_committed hc).reports (answering_of_saw fun _ _ => saw_of_now) hc.pre.1).imp_left ?_
  intro hnone id x hx
  exact reports_eq hc.admissible hx hnone

theorem trail_truthful (hc : (trailRules env).Commits s T l h a) :
    (database.applyAll (writes h) s).Truthful := by
  have hinv : s.Truthful := hc.inv
  rcases trail_reports hc with heq | ⟨data, u, haudits, hws⟩
  · exact hinv.frame ((trail_committed hc).keepsEnds (grounds_of_transfers hc.pre.1) hc.admissible)
      heq
  · rw [hws]
    exact hinv.report (hws ▸ hc.admissible) (hc.pre.2 data haudits u)

theorem trail_silent (hc : (trailRules env).Commits s T l h a) {id : Uuid} (hid : id ∉ T)
    (hs : s.Silent id) : (database.applyAll (writes h) s).Silent id := by
  intro x hx
  rcases trail_reports hc with heq | ⟨data, u, haudits, hws⟩
  · exact (heq id x hx).trans (hs x hx)
  · have hsupported := hc.pre.2 data haudits u
    have hkept := reports_applyAll hc.admissible x id
    rw [hws] at hkept ⊢
    rw [hkept, hs x hx, List.nil_append, List.filter_eq_nil_iff]
    intro e he hcontra
    obtain rfl : e = data u := by simpa [Write.auditEvent?] using he
    obtain ⟨rfl, rfl⟩ : (data u).actionType = x ∧ (data u).resourceId = id := by simpa using hcontra
    exact hid (hsupported hx).1

/-- The transaction of an event found it awaited: it read before it committed. -/
theorem trail_awaited (hc : (trailRules env).Commits s T l h a) : l.awaited s = true := by
  cases l with
  | applyNormalizedEvent event =>
      cases h with
      | cons e rest => exact hc.evidence.1.2.2
      | nil =>
          have hpath : Completes (applyNormalizedEventTx env event) ([] : List (Event Stmt Write)) a :=
            hc.path
          generalize hbody : applyNormalizedEventTx env event = body at hpath
          cases hpath
          cases hbody
  | _ => rfl

theorem Committed.due {ws : List Write} (hrun : Committed (Now s) env l a ws) (hs : s.Truthful)
    (hadm : database.Admissible s ws) (hawaited : l.awaited s = true) :
    l.due (database.applyAll ws s) (T ∪ ((database.applyAll ws s).over \ s.over)) a := by
  cases hrun with
  | applyNormalizedEvent hrun =>
      refine (hrun.due hs hadm (by simpa [Label.awaited] using hawaited)).imp_right fun hdue => ?_
      exact ⟨Or.inr hdue.1, hdue.2⟩
  | _ => trivial

end Commits

/-- The rules of the audit trail are kept. -/
theorem trailRules_valid (hprogram : ∀ call : Call, call.ofTransfers = true →
    (trailRules env).Fine (call.program env) fun _ => True) :
    (trailRules env).Valid (awaitedSchedule env) where
  lawful := lawful_database
  le_refl := fun _ _ _ h _ => h
  le_trans := fun _ _ _ h h' id status hs hne => h' id status (h id status hs hne) hne
  rely_refl := fun _ _ _ _ h => h
  rely_trans := fun _ _ _ _ h h' id hid hs => h' id hid (h id hid hs)
  born_mono := fun _ _ h id ⟨status, hs, hne⟩ => ⟨status, h id status hs hne, hne⟩
  statements := by
    refine Rules.serial_statements_when (P := fun s l => l.awaited s = true) (fun _ => rfl)
      (fun _ _ _ _ => Iff.rfl) (fun c a hok => ?_) ?_
    · exact (Bool.and_eq_true_iff.mp (Bool.and_eq_true_iff.mp hok).1).1
    · intro c i ch call pool β l h t k hok hth
      have hawaited := (Bool.and_eq_true_iff.mp (Bool.and_eq_true_iff.mp hok).1).2
      simpa [awaitedEvents, hth] using hawaited
  commit := fun s T l h a hc => ⟨trail_truthful hc,
    (trail_committed hc).keepsEnds (grounds_of_transfers hc.pre.1) hc.admissible⟩
  guarantee := fun s T l h a T' hc hdis id hid hs =>
    trail_silent hc (fun hT => Set.disjoint_left.mp hdis hT hid) hs
  result := by
    intro β s T l h a hc
    refine ⟨_, Set.Subset.refl _, fun haudits => ⟨Set.subset_union_left, fun id _ hs x hx => ?_⟩,
      (trail_committed hc).due hc.inv hc.admissible (trail_awaited hc)⟩
    rcases trail_reports hc with heq | ⟨data, u, hsome, -⟩
    · exact (heq id x hx).trans (hs x hx)
    · rw [hsome] at haudits
      cases haudits
  start := fun c call hok _ => by
    have hcall : call.ofTransfers = true := (Bool.and_eq_true_iff.mp hok).2
    exact Or.inl (hprogram call hcall c.store ∅)
  done_le := fun _ _ _ _ _ _ _ _ => trivial
  done_idle := fun _ _ _ => trivial

/-! ## Processes -/

/-- A report that is due stays due while its thread owns the transfer. -/
theorem Due.move {event : NormalizedExternalRailEvent} {r : TransferRequest} {s' : Store}
    (h : Due event r s T) (hT : T ⊆ T') (hle : s.KeepsEnds s')
    (hsilent : ∀ id ∈ T, s.Silent id → s'.Silent id) : Due event r s' T' := by
  refine h.imp_right fun ⟨hid, hs, hstatus, hreported⟩ => ?_
  refine ⟨hT hid, hsilent _ hid hs, hle _ _ hstatus fun hpending => ?_, hreported⟩
  rw [hpending] at hreported
  cases hreported

/-- What the report needs. -/
theorem Due.supported {event : NormalizedExternalRailEvent} {r : TransferRequest}
    (h : Due event r s T) (context : RequestContext) (u : Uuid) :
    Supported s T (auditData context
      ⟨mapAuditAction event.eventType r.status, "transfer_request", r.id⟩ u) := by
  intro hending
  rcases h with hack | ⟨hid, hs, hstatus, hreported⟩
  · simp only [auditData, hack, mapAuditAction] at hending
    exact absurd hending (by decide)
  · exact ⟨hid, hs _ hending, r.status, hstatus, hreported⟩

/-- A transaction that reports no end. -/
theorem trail_transaction {α : Type} {l : Label α} (hl : ofTransfers l)
    (haudits : ∀ data, l.audits = some data → ∀ u, (data u).actionType ∉ endings) :
    (trailRules env).Fine (Proc.transaction l) fun _ => True :=
  .transaction (fun _ _ => ⟨hl, fun data hdata u hending => absurd hending (haudits data hdata u)⟩)
    fun _ _ _ _ _ _ => trivial

namespace ExternalRailService

/-- The process of an event reports an end only where the transaction made it. -/
theorem applyNormalizedEvent_trail (event : NormalizedExternalRailEvent) :
    (trailRules env).Fine (applyNormalizedEvent event) fun _ => True := by
  have hreport : ∀ (r : TransferRequest) (correlationId : String) (s : Store) (T : Set Uuid),
      Due event r s T → (trailRules env).Safe (auditRecord
        { correlationId
          idempotencyKey := some r.idempotencyKey
          actor := some ⟨"external-rail:" ++ event.provider, .system⟩ }
        ⟨mapAuditAction event.eventType r.status, "transfer_request", r.id⟩ >>= fun _ =>
          pure (mapTransferResponse r)) (fun _ _ _ => True) (fun _ _ _ => True) s T := by
    intro r correlationId s T hdue
    refine Rules.Safe.bind (Rules.Safe.transaction (fun s' hmove => ⟨trivial, ?_⟩)
      (fun _ _ _ => trivial) fun _ _ _ _ _ _ _ _ => trivial)
    rintro _ ⟨⟩ u
    exact (hdue.move (Set.Subset.refl T) hmove.le hmove.rely).supported _ u
  intro s T
  refine Rules.Safe.bind (Rules.Safe.transaction (fun _ _ => ⟨trivial, fun _ h => by cases h⟩)
    (fun _ _ _ => trivial) fun s' _ r s'' T'' hinv hle hpost => ?_)
  have hdue : Due event r s'' T'' := hpost.2
  cases hcorrelation : r.correlationId with
  | some correlationId => exact hreport r correlationId s'' T'' hdue
  | none =>
      refine Rules.Safe.bind (Rules.Safe.bind (Rules.Safe.transaction
        (fun _ _ => ⟨trivial, fun _ h => by cases h⟩) (fun _ _ _ => trivial) ?_))
      intro s₁ hmove uuid s₂ T₂ hinv₂ hle₂ hpost₂
      obtain ⟨hT, hsilent⟩ := hpost₂.1 rfl
      exact hreport r (uuid 0) s₂ T₂
        ((hdue.move (Set.Subset.refl T'') hmove.le hmove.rely).move hT hle₂ hsilent)

end ExternalRailService

/-- What the calls record on their own account is no end of a transfer. -/
theorem not_ending_of_recorded : ∀ a ∈ recordedActions, a ∉ endings := by decide

theorem trail_parts : TransferParts fun p => (trailRules env).Fine p fun _ => True where
  pure := fun _ => .pure trivial
  throw := fun _ => .throw
  bind := fine_bind
  statement := fun q hq =>
    trail_transaction (outside_of_plain (plain_of_transferCalls hq)) fun data hdata u => by
    cases q with
    | createAuditEvent data' =>
        obtain ⟨context, action, resourceType, resourceId, haction, rfl⟩ := hq
        cases hdata
        exact not_ending_of_recorded action haction
    | _ => cases hdata
  event := ExternalRailService.applyNormalizedEvent_trail
  create := fun _ => trail_transaction trivial fun _ h => by cases h

end Rules

/-- Where every provider event finds its transfer waiting, the audit trail stays right. -/
theorem trail_truthful_of_awaited {env : Env} {s : Store} {c : ServerConfig} (hs : s.Truthful)
    (h : Steps (server env) (awaitedSchedule env) (.initial s) c) : c.store.Truthful := by
  obtain ⟨⟨own, hsound⟩, -⟩ :=
    Rules.sound_of_steps
    (trailRules_valid fun _ hcall => transferProgram_parts trail_parts hcall) hs h
  exact hsound.inv

/-! ### A replay and a late event -/

/-- The transfer is settled, and the report follows. -/
def settledSchedule : List (Action Choice Call) :=
  .start (.applyNormalizedEvent (terminalEvent "evt-1" .settled)) :: advances 0 "a" 15

/-- The event comes again, and then a late rejection. -/
def misreportedSchedule : List (Action Choice Call) :=
  settledSchedule ++
    .start (.applyNormalizedEvent (terminalEvent "evt-1" .settled)) :: advances 1 "b" 10 ++
    .start (.applyNormalizedEvent (terminalEvent "evt-2" .failed)) :: advances 2 "c" 12

/-- The demo trail is empty. -/
theorem truthful_pendingStore : pendingStore.Truthful := by
  have hnone : ∀ a id, pendingStore.reports a id = [] := fun _ _ => rfl
  constructor <;> simp [hnone]

theorem settled_reported : ∃ c, Steps (server testEnvironment) (awaitedSchedule testEnvironment)
    (.initial pendingStore) c ∧ (c.store.reports "transfer.settled" "transfer").length = 1 ∧
      c.store.Truthful := by
  obtain ⟨c, hrun, hreports⟩ := exists_of_play (server testEnvironment)
    (awaitedSchedule testEnvironment) (.initial pendingStore) settledSchedule
    (fun c => (c.store.reports "transfer.settled" "transfer").length = 1) (by decide +kernel)
  exact ⟨c, hrun, hreports, trail_truthful_of_awaited truthful_pendingStore hrun⟩

/-- A replay reports the settlement again, and a late rejection reports a failure. -/
theorem misreported : pendingStore.Truthful ∧ ∃ c, Steps (server testEnvironment)
    (fun c a => (server testEnvironment).Serial c a && Starts Call.ofTransfers a)
      (.initial pendingStore) c ∧
    (c.store.reports "transfer.settled" "transfer").length = 2 ∧
    c.store.reports "transfer.failed" "transfer" ≠ [] ∧
    c.store.statusOf "transfer" = some .settled ∧ ¬ c.store.Truthful := by
  refine ⟨truthful_pendingStore, ?_⟩
  obtain ⟨c, hrun, htwice, hfailed, hstatus⟩ := exists_of_play (server testEnvironment)
    (fun c a => (server testEnvironment).Serial c a && Starts Call.ofTransfers a)
    (.initial pendingStore) misreportedSchedule
    (fun c => (c.store.reports "transfer.settled" "transfer").length = 2 ∧
      c.store.reports "transfer.failed" "transfer" ≠ [] ∧
      c.store.statusOf "transfer" = some .settled) (by decide +kernel)
  refine ⟨c, hrun, htwice, hfailed, hstatus, fun htruthful => ?_⟩
  have honce := htruthful.settledOnce "transfer"
  omega

end LedgerCredit
