import LedgerCredit.AuditTrail
import LedgerCredit.Txn.Duties

/-!
# The evidence of transfers

`createTransfer` writes its audit event in its transaction, so a new transfer
always has one.  `applyNormalizedEvent` writes the audit event of the end of a
transfer after its transaction, outside of it.  If the process stops in between,
or the statement fails, then a redelivered job finds the transfer over and returns,
and the end is never reported.

*Duties.*  The report is a duty that the commit brings.  `Auditing` says which
transactions owe reports and which ones write audit events, for any services that
share this audit trail.  In runs where no failure meets the last thread that has a
missing report, the report is made or about to be made.
-/

namespace LedgerCredit

open Txn LedgerService ExternalRailService

/-! ## The duty to report -/

/-- Transactions that owe reports, and transactions that make them. -/
structure Auditing (L : Type → Type 1) (S : Type) where
  /-- The store with the audit trail. -/
  trail : S → Store
  /-- The transactions that write no audit event of their own. -/
  calls : {α : Type} → L α → Prop
  /-- The report that the process of a transaction owes after it. -/
  owes : {α : Type} → L α → α → Option (Uuid × String)
  /-- The audit event that a transaction writes, for the id of its row. -/
  audits : {α : Type} → L α → Option (Uuid → AuditEvent)
  /-- The identifiers that are drawn before a report. -/
  drawn : {α : Type} → L α → Option α

namespace Auditing

variable {Q : Type → Type} {L : Type → Type 1} {S W ι K ρ : Type} (A : Auditing L S)

/-- The transactions that are run: audit events are of a context and an input. -/
def runs {α : Type} (l : L α) : Prop :=
  match A.audits l with
  | some data => ∃ context input, data = auditData context input
  | none => A.calls l

/-- The duty to make the reports that are owed. -/
def duties : Duties L S (Uuid × String) where
  runs := A.runs
  brings := A.owes
  discharges := fun l => (A.audits l).map fun data => ((data "").resourceId, (data "").actionType)
  between := A.drawn
  met := fun s d => !((A.trail s).reports d.2 d.1).isEmpty

/-- The report is made, or a thread is about to make it. -/
abbrev Reported (c : Config Q L TxError S W ι K ρ) (id : Uuid) (action : String) : Prop :=
  A.duties.Kept c (id, action)

/-- No failure meets the last thread that is about to make the report while it is missing. -/
def undisturbed (sys : System Q L TxError S W Choice PrimaryKey ι K ρ) (id : Uuid)
    (action : String) : Config Q L TxError S W ι K ρ → Action Choice K → Bool :=
  A.duties.undisturbed sys (id, action)

variable {A}

theorem met_iff {s : S} {d : Uuid × String} :
    A.duties.met s d = true ↔ (A.trail s).reports d.2 d.1 ≠ [] := by
  simp [duties]

/-- A report that is reported is there when nothing is left to do. -/
theorem Reported.made {c : Config Q L TxError S W ι K ρ} {id : Uuid} {action : String}
    (h : A.Reported c id action) (hquiet : c.quiet = true) :
    (A.trail c.store).reports action id ≠ [] := met_iff.mp (Duties.Kept.met_of_quiet h hquiet)

/-- Reports that are made stay where the trail grows, and an audit event makes its report. -/
theorem respects {s s' : S} {α : Type} {l : L α}
    (hgrows : (A.trail s).auditEvents.rows ⊆ (A.trail s').auditEvents.rows) (hl : A.runs l)
    (hwritten : ∀ context input, A.audits l = some (auditData context input) →
      ∃ u, auditData context input u ∈ (A.trail s').auditEvents.rows) :
    A.duties.Respects s s' l where
  met := fun d hd => by
    obtain ⟨e, he⟩ := List.exists_mem_of_ne_nil _ (met_iff.mp hd)
    obtain ⟨he, hkind⟩ := List.mem_filter.mp he
    exact met_iff.mpr (List.ne_nil_of_mem (List.mem_filter.mpr ⟨hgrows he, hkind⟩))
  discharged := fun d hd => by
    obtain ⟨data, hdata, rfl⟩ := Option.map_eq_some_iff.mp hd
    rw [runs, hdata] at hl
    obtain ⟨context, input, rfl⟩ := hl
    obtain ⟨u, hu⟩ := hwritten context input hdata
    refine met_iff.mpr (List.ne_nil_of_mem (a := auditData context input u) ?_)
    exact List.mem_filter.mpr ⟨hu, by simp [auditData]⟩

end Auditing

/-- The report that the process of an event owes after its transaction. -/
def Label.owes : {α : Type} → Label α → α → Option (Uuid × String)
  | _, .applyNormalizedEvent event, r => some (r.id, mapAuditAction event.eventType r.status)
  | _, _, _ => none

/-- The identifiers that are drawn before a report. -/
def Label.drawn : {α : Type} → Label α → Option α
  | _, .statement .randomUUIDs => some fun _ => ""
  | _, _ => none

/-- The reports of the ends of transfers. -/
def endReports : Auditing Label Store where
  trail := id
  calls := fun _ => True
  owes := Label.owes
  audits := Label.audits
  drawn := Label.drawn

theorem follows_statement {α : Type} {q : Stmt α} (h : q.plain) :
    endReports.duties.Follows (statement q) := by
  refine Duties.Follows.transaction (l := Label.statement q) ?_ (fun _ => rfl) ?_
  · cases q with
    | createAuditEvent data =>
        obtain ⟨context, action, resourceType, resourceId, -, rfl⟩ := h
        exact ⟨context, _, rfl⟩
    | _ => trivial
  · cases q with
    | randomUUIDs => cases h
    | _ => rfl

/-- The report of a provider event, and the response. -/
def reportEvent (event : NormalizedExternalRailEvent) (transfer : TransferRequest)
    (correlationId : String) : Process TransferResponse :=
  auditRecord
    { correlationId
      idempotencyKey := some transfer.idempotencyKey
      actor := some ⟨"external-rail:" ++ event.provider, .system⟩ }
    ⟨mapAuditAction event.eventType transfer.status, "transfer_request", transfer.id⟩ >>= fun _ =>
      pure (mapTransferResponse transfer)

/-- What `applyNormalizedEvent` does after its transaction. -/
def afterEvent (event : NormalizedExternalRailEvent) (transfer : TransferRequest) :
    Process TransferResponse :=
  match transfer.correlationId with
  | some correlationId => reportEvent event transfer correlationId
  | none => randomUUID >>= reportEvent event transfer

theorem applyNormalizedEvent_eq (event : NormalizedExternalRailEvent) :
    applyNormalizedEvent event =
      Proc.transaction (.applyNormalizedEvent event) >>= afterEvent event := by
  refine congrArg (Proc.call _) (funext fun x => ?_)
  cases x with
  | error e => rfl
  | ok r =>
      show _ = afterEvent event r
      unfold afterEvent
      cases h : r.correlationId with
      | some correlationId => simp only [Proc.ofResult, bind, Proc.bind, h]; rfl
      | none => simp only [Proc.ofResult, bind, Proc.bind, h]; rfl

theorem reportEvent_follows (event : NormalizedExternalRailEvent) (r : TransferRequest)
    (correlationId : String) : endReports.duties.Follows (reportEvent event r correlationId) :=
  .bind (Duties.Follows.transaction (l := Label.statement (.createAuditEvent _))
    ⟨_, _, rfl⟩ (fun _ => rfl) rfl) fun _ => trivial

theorem afterEvent_follows (event : NormalizedExternalRailEvent) (r : TransferRequest) :
    endReports.duties.Follows (afterEvent event r) ∧ endReports.duties.due (afterEvent event r) =
      some (r.id, mapAuditAction event.eventType r.status) := by
  unfold afterEvent
  cases hcorrelation : r.correlationId with
  | some correlationId => exact ⟨reportEvent_follows event r correlationId, rfl⟩
  | none =>
      refine ⟨⟨trivial, fun x => ?_, fun _ _ hb => (by cases hb), fun _ _ uuid => ⟨rfl, rfl⟩⟩, rfl⟩
      cases x with
      | error e => trivial
      | ok uuid => exact reportEvent_follows event r (uuid 0)

/-- The process of an event reports what its transaction did. -/
theorem applyNormalizedEvent_follows (event : NormalizedExternalRailEvent) :
    endReports.duties.Follows (applyNormalizedEvent event) := by
  rw [applyNormalizedEvent_eq]
  refine ⟨trivial, fun x => ?_, fun r d hd => ?_, fun _ hb => by cases hb⟩
  · cases x with
    | error e => trivial
    | ok r => exact (afterEvent_follows event r).1
  · cases hd
    exact (afterEvent_follows event r).2

/-- Identifiers that are drawn before another statement. -/
theorem follows_draw {f : Uuid → Time → Process Uuid}
    (hf : ∀ id now, endReports.duties.Follows (f id now)) :
    endReports.duties.Follows (randomUUID >>= fun id => statement .newDate >>= f id) := by
  refine ⟨trivial, fun x => ?_, fun _ _ hb => (by cases hb), fun _ _ _ => ⟨rfl, rfl⟩⟩
  cases x with
  | error e => trivial
  | ok uuid =>
      show endReports.duties.Follows (statement .newDate >>= f (uuid 0))
      exact .bind (follows_statement (q := .newDate) trivial) (hf (uuid 0))

theorem follows_parts : Parts fun p => endReports.duties.Follows p where
  pure := fun _ => trivial
  throw := fun _ => trivial
  bind := .bind
  statement := fun _ hq => follows_statement (plain_of_transferCalls hq)
  plain := fun _ => follows_statement
  event := applyNormalizedEvent_follows
  create := fun _ => .transaction trivial (fun _ => rfl) rfl
  orElse := fun hl hf => hl.orElse hf
  pool := .pool
  chunk := fun _ _ _ => .transaction trivial (fun _ => rfl) rfl
  item := fun _ _ => .transaction trivial (fun _ => rfl) rfl
  draw := follows_draw

/-! ## What a commit owes -/

section Commit

variable {V : View} {env : Env} {s : Store} {ws : List Write} {id : Uuid} {status : TransferStatus}
  {action : String}

/-- A row that is written by none has its status. -/
theorem statusOf_of_unwritten (hadm : database.Admissible s ws) (h : transferWrites id ws = []) :
    (database.applyAll ws s).statusOf id = s.statusOf id := by
  rw [Store.statusOf, get?_transferWrites hadm, h]
  rfl

/-- The transaction of an event that ends a transfer owes the report. -/
theorem ExternalRailService.EventRun.owes {event : NormalizedExternalRailEvent} {r : TransferRequest}
    (h : EventRun V env event ws r) (hadm : database.Admissible s ws)
    (hstatus : (database.applyAll ws s).statusOf id = some status)
    (hreported : status.reported = some action) :
    s.statusOf id = some status ∨ r.id = id ∧ mapAuditAction event.eventType r.status = action := by
  cases h with
  | duplicate _ _ => exact Or.inl hstatus
  | recorded _ _ => exact Or.inl ((statusOf_of_unwritten hadm rfl).symm.trans hstatus)
  | @settled found row settledAt now _ htype _ =>
      by_cases hid : found.transfer.id = id
      · refine Or.inr ⟨hid, ?_⟩
        rw [Store.statusOf, get?_transferWrites hadm] at hstatus
        cases hget : s.transferRequests.get? id with
        | none =>
            simp [hget, transferWrites_cons, Write.toTransfer, hid, RowWrite.apply] at hstatus
        | some t =>
            obtain rfl : TransferStatus.settled = status := by
              simpa [hget, transferWrites_cons, Write.toTransfer, hid, RowWrite.apply, settledUpdate,
                TransferRequestUpdate.apply] using hstatus
            cases hreported
            rw [htype]
            rfl
      · refine Or.inl ((statusOf_of_unwritten hadm ?_).symm.trans hstatus)
        simp [transferWrites_cons, Write.toTransfer, hid]
  | @compensated found row marker source clearing amount effectiveAt journalEntry postings
      ledgerAccounts posted rest _ htype _ _ hcomp =>
      have hposted : transferWrites id posted = [] := transferWrites_of_ledger hcomp.entry.kind
      by_cases hid : found.transfer.id = id
      · refine Or.inr ⟨hid, ?_⟩
        rw [Store.statusOf, get?_transferWrites hadm] at hstatus
        cases hget : s.transferRequests.get? id with
        | none =>
            simp [hget, transferWrites_append, transferWrites_cons, Write.toTransfer, hid, hposted,
              RowWrite.apply] at hstatus
        | some t =>
            obtain rfl : TransferStatus.compensated = status := by
              simpa [hget, transferWrites_append, transferWrites_cons, Write.toTransfer, hid, hposted,
                RowWrite.apply, TransfersService.statusUpdate, TransferRequestUpdate.apply]
                using hstatus
            cases hreported
            rw [htype]
            rfl
      · refine Or.inl ((statusOf_of_unwritten hadm ?_).symm.trans hstatus)
        simp [transferWrites_append, transferWrites_cons, Write.toTransfer, hid, hposted]

/-- What the transactions of transfers can do. -/
def Label.ran (V : View) (env : Env) (ws : List Write) : {α : Type} → Label α → α → Prop
  | _, .createTransfer args, r => TransfersService.TransferRun V env args ws r
  | _, .applyNormalizedEvent event, r => EventRun V env event ws r
  | _, _, _ => True

theorem Committed.ran {α : Type} {l : Label α} {a : α} (h : Committed V env l a ws) :
    l.ran V env ws a := by
  cases h with
  | createTransfer hrun => exact hrun
  | applyNormalizedEvent hrun => exact hrun
  | _ => trivial

/-- A commit that ends a transfer owes the report. -/
theorem Committed.owes (hV : ∀ p e, V p e → Saw s p e) {α : Type} {l : Label α} (hl : grounds s l)
    {a : α} (h : Committed V env l a ws) (hadm : database.Admissible s ws)
    (hold : (s.statusOf id).isSome = true)
    (hstatus : (database.applyAll ws s).statusOf id = some status)
    (hreported : status.reported = some action) :
    s.statusOf id = some status ∨ l.owes a = some (id, action) := by
  obtain ⟨old, hold⟩ := Option.isSome_iff_exists.mp hold
  have hkept : (database.applyAll ws s).statusOf id = some old →
      s.statusOf id = some status ∨ l.owes a = some (id, action) := fun hkept =>
    Or.inl (hold.trans (hkept.symm.trans hstatus))
  obtain ⟨entries, -, heffect⟩ := h.effect hV hl hadm
  have howes : ∀ {event : NormalizedExternalRailEvent} {r : TransferRequest},
      EventRun V env event ws r → s.statusOf id = some status ∨
        Label.owes (.applyNormalizedEvent event) r = some (id, action) := fun hrun => by
    refine (hrun.owes hadm hstatus hreported).imp_right ?_
    rintro ⟨rfl, rfl⟩
    rfl
  cases heffect with
  | other _ hrows _ _ => exact hkept ((statusOf_congr hrows).trans hold)
  | replayed _ _ _ hsame => exact hkept ((congrArg (Store.statusOf · id) hsame).trans hold)
  | internal h₀ _ _ _ _ => exact hkept (statusOf_append h₀.transferRequests hold).1
  | external h₀ _ _ _ _ _ _ _ _ => exact hkept (statusOf_append h₀.transferRequests hold).1
  | settled _ _ _ _ => exact howes h.ran
  | compensated _ _ _ _ _ _ _ _ _ => exact howes h.ran

/-- The response to a new transfer tells which transfer was reported as created. -/
theorem TransfersService.TransferRun.announces {args : CreateTransferArgs}
    {r : TransferMutationResult} (h : TransferRun V env args ws r) {correlationId : Option String}
    (hbody : r.body = .transfer id status correlationId) :
    ws = [] ∨ ∃ e, .auditEvent e ∈ ws ∧ e.actionType = "transfer.created" ∧ e.resourceId = id := by
  cases h with
  | replay _ _ _ => exact Or.inl rfl
  | internal _ _ u _ _ _ _ _ =>
      cases hbody
      exact Or.inr ⟨auditData args.context ⟨"transfer.created", "transfer_request", _⟩ u,
        by simp, rfl, rfl⟩
  | external _ u _ _ _ _ _ =>
      cases hbody
      exact Or.inr ⟨auditData args.context ⟨"transfer.created", "transfer_request", _⟩ u,
        by simp, rfl, rfl⟩

/-- An audit event that is written is a report. -/
theorem reports_of_mem (hadm : database.Admissible s ws) {e : AuditEvent} (he : .auditEvent e ∈ ws) :
    (database.applyAll ws s).reports e.actionType e.resourceId ≠ [] := by
  rw [reports_applyAll hadm]
  refine List.append_ne_nil_of_right_ne_nil _ (List.ne_nil_of_mem (a := e) ?_)
  exact List.mem_filter.mpr ⟨List.mem_filterMap.mpr ⟨_, he, rfl⟩, by simp⟩

/-- A commit that adds a transfer reports it as created. -/
theorem Committed.announces (hV : ∀ p e, V p e → Saw s p e) {α : Type} {l : Label α}
    (hl : grounds s l) {a : α} (h : Committed V env l a ws) (hadm : database.Admissible s ws)
    (hnone : s.statusOf id = none) (hsome : (database.applyAll ws s).statusOf id ≠ none) :
    (database.applyAll ws s).reports "transfer.created" id ≠ [] := by
  obtain ⟨entries, -, heffect⟩ := h.effect hV hl hadm
  have hnew : ∀ {args : CreateTransferArgs} {r : TransferMutationResult} {t : TransferRequest}
      {u : Uuid} {source : LedgerAccount}, TransfersService.TransferRun V env args ws r →
      Initiated s (database.applyAll ws s) args r t u source →
      (database.applyAll ws s).reports "transfer.created" id ≠ [] := by
    intro args r t u source hrun hinitiated
    obtain ⟨status, hstatus⟩ := Option.ne_none_iff_exists'.mp hsome
    obtain ⟨t', ht', rfl, -⟩ := statusOf_eq_some.mp hstatus
    rw [hinitiated.transferRequests] at ht'
    rcases List.mem_append.mp ht' with ht' | ht'
    · cases hnone.symm.trans (statusOf_eq_some.mpr ⟨t', ht', rfl, rfl⟩)
    · obtain rfl := List.mem_singleton.mp ht'
      obtain ⟨correlationId, hbody⟩ := hinitiated.body
      rcases hrun.announces hbody with rfl | ⟨e, he, haction, hresource⟩
      · exact absurd hnone hsome
      · have hreports := reports_of_mem hadm he
        rwa [haction, hresource] at hreports
  have hunmapped : ∀ (id' : Uuid) (f : TransferRequest → TransferRequest), (∀ t, (f t).id = t.id) →
      (database.applyAll ws s).transferRequests.rows = s.transferRequests.rows.map (fun t =>
        if t.id = id' then f t else t) → False := by
    intro id' f hf hrows
    obtain ⟨status, hstatus⟩ := Option.ne_none_iff_exists'.mp hsome
    obtain ⟨t', ht', hid, -⟩ := statusOf_eq_some.mp hstatus
    rw [hrows] at ht'
    obtain ⟨t, ht, rfl⟩ := List.mem_map.mp ht'
    have hsame : t.id = id := by
      split at hid
      · exact (hf t).symm.trans hid
      · exact hid
    cases hnone.symm.trans (statusOf_eq_some.mpr ⟨t, ht, hsame, rfl⟩)
  cases heffect with
  | other _ hrows _ _ => exact absurd ((statusOf_congr hrows).trans hnone) hsome
  | replayed _ _ _ hsame =>
      exact absurd ((congrArg (Store.statusOf · id) hsame).trans hnone) hsome
  | settled _ _ hrows _ => exact False.elim (hunmapped _ _ (fun t => (settledUpdate _).apply_id t) hrows)
  | compensated _ _ hrows _ _ _ _ _ _ =>
      exact False.elim (hunmapped _ (fun t => (TransfersService.statusUpdate .compensated).apply
        ((failedUpdate _).apply t)) (fun _ => rfl) hrows)
  | internal h₀ _ _ _ _ => exact hnew h.ran h₀
  | external h₀ _ _ _ _ _ _ _ _ => exact hnew h.ran h₀

/-- The audit trail grows. -/
theorem auditEvents_apply (w : Write) (s : Store) :
    s.auditEvents.rows ⊆ (w.apply s).auditEvents.rows := by
  cases w with
  | auditEvent e =>
      by_cases hfresh : s.auditEvents.Fresh e
      · show _ ⊆ (s.auditEvents.insert e).rows
        rw [Table.rows_insert hfresh]
        exact List.subset_append_left ..
      · show _ ⊆ (s.auditEvents.insert e).rows
        rw [Table.insert, dif_neg hfresh]
        exact List.Subset.refl _
  | _ => exact List.Subset.refl _

/-- Stores grow, and no report is lost. -/
structure Store.Retains (s s' : Store) : Prop where
  grows : s.Extends s'
  reports : ∀ a id, s.reports a id ≠ [] → s'.reports a id ≠ []

theorem retains_applyAll {ws : List Write} (hadm : database.Admissible s ws) :
    s.Retains (database.applyAll ws s) where
  grows := extends_applyAll ws s
  reports := fun a id h => by
    rw [reports_applyAll hadm]
    exact List.append_ne_nil_of_left_ne_nil h _

/-- A report that is made stays, and the statement that makes one makes it. -/
theorem Committed.respects (hV : ∀ p e, V p e → Saw s p e) {α : Type} {l : Label α} {a : α}
    (h : Committed V env l a ws) (hadm : database.Admissible s ws) (hl : endReports.runs l) :
    endReports.duties.Respects s (database.applyAll ws s) l := by
  refine Auditing.respects (A := endReports) ?_ hl fun context input haudits => ?_
  · show s.auditEvents.rows ⊆ (database.applyAll ws s).auditEvents.rows
    rw [auditEvents_applyAll hadm]
    exact List.subset_append_left ..
  · show ∃ u, auditData context input u ∈ (database.applyAll ws s).auditEvents.rows
    cases h with
    | @statement _ q r ws hread =>
        cases q with
        | createAuditEvent data =>
            obtain ⟨u, rfl⟩ := answering_of_saw hV _ _ _ _ hread
            cases haudits
            refine ⟨u, ?_⟩
            rw [auditEvents_applyAll hadm]
            exact List.mem_append_right _ (by simp [Write.auditEvent?])
        | _ => cases haudits
    | _ => cases haudits

end Commit

/-! ## Runs -/

/-- What a call is known to have reported when it returned. -/
def Call.delivered (s : Store) : Call → Reply → Prop
  | .applyNormalizedEvent event, .transfer r =>
      s.reports (mapAuditAction event.eventType r.status) r.transferRequestId ≠ []
  | _, _ => True

/-- The rules of any schedule from the store `s` on. -/
def deliveryRules (env : Env) (s : Store) : Rules (server env) Empty Empty where
  Inv := s.Extends
  le := Store.Retains
  born := fun _ => ∅
  rely := fun _ _ _ => True
  pre := fun _ _ l => grounds s l
  post := fun _ _ l a s' _ => learned s l a ∧
    (endReports.runs l → ∀ d, endReports.duties.discharges l = some d → s'.reports d.2 d.1 ≠ [])
  done := fun call a s _ => call.delivered s a
  guard := fun _ => []
  Cur := fun _ _ _ _ => True

/-- What may be committed on a store that grew. -/
structure Commitable (env : Env) (s : Store) {α : Type} (l : Label α) (a : α) (ws : List Write) :
    Prop where
  grounds : grounds s l
  committed : ∃ V : View, (∀ p e, V p e → Saw s p e) ∧ Committed V env l a ws
  admissible : database.Admissible s ws

section Run

variable {env : Env} {s s₀ : Store} {c c₁ c₂ : ServerConfig} {id : Uuid}

theorem commitable_of_commits {α : Type} {T : Set Empty} {l : Label α} {h : List (Event Stmt Write)}
    {a : α} (hc : (deliveryRules env s₀).Commits s T l h a) : Commitable env s l a (writes h) := by
  have hV : ∀ p e, (deliveryRules env s₀).Evidence s l p e → Saw s p e :=
    fun p e he => saw_of_seen (fun _ _ h => h.grows) he.1
  exact ⟨grounds_of_extends hc.inv hc.pre, ⟨_, hV, committed_of_runs (answering_of_saw hV)
    (runs_of_completes hc.path hc.evidence)⟩, hc.admissible⟩

/-- A delivery of a provider event reports before it returns. -/
theorem applyNormalizedEvent_delivers (event : NormalizedExternalRailEvent) {T : Set Empty} :
    (deliveryRules env s₀).Safe (applyNormalizedEvent event)
      (fun r s _ => s.reports (mapAuditAction event.eventType r.status) r.transferRequestId ≠ [])
      (fun _ _ _ => True) s T := by
  have hreport : ∀ (r : TransferRequest) (correlationId : String) (s : Store) (T : Set Empty),
      (deliveryRules env s₀).Safe (reportEvent event r correlationId)
        (fun r s _ => s.reports (mapAuditAction event.eventType r.status) r.transferRequestId ≠ [])
        (fun _ _ _ => True) s T := fun r correlationId s T =>
    Rules.Safe.bind (Rules.Safe.transaction (fun _ _ => trivial) (fun _ _ _ => trivial)
      fun _ _ _ _ _ _ _ hpost => hpost.2 ⟨_, _, rfl⟩ _ rfl)
  rw [applyNormalizedEvent_eq]
  refine Rules.Safe.bind (Rules.Safe.transaction (fun _ _ => trivial) (fun _ _ _ => trivial)
    fun _ _ r s' T' _ _ _ => ?_)
  unfold afterEvent
  cases hcorrelation : r.correlationId with
  | some correlationId => exact hreport r correlationId s' T'
  | none =>
      exact Rules.Safe.bind (Rules.Safe.bind (Rules.Safe.transaction (fun _ _ => trivial)
        (fun _ _ _ => trivial) fun _ _ uuid s' T' _ _ _ => hreport r (uuid 0) s' T'))

theorem deliveryRules_valid : (deliveryRules env s₀).Valid anySchedule where
  lawful := lawful_database
  le_refl := fun s => ⟨.refl s, fun _ _ h => h⟩
  le_trans := fun _ _ _ h h' =>
    ⟨h.grows.trans h'.grows, fun a id hs => h'.reports a id (h.reports a id hs)⟩
  rely_refl := fun _ _ => trivial
  rely_trans := fun _ _ _ _ _ _ => trivial
  born_mono := fun _ _ _ => Set.Subset.refl _
  statements := Rules.unguarded_statements (fun _ => rfl) fun _ _ _ _ => trivial
  commit := fun s T l h a hc =>
    ⟨Store.Extends.trans hc.inv (extends_applyAll (writes h) s), retains_applyAll hc.admissible⟩
  guarantee := fun _ _ _ _ _ _ _ _ => trivial
  result := by
    intro α s T l h a hc
    obtain ⟨V, hV, hcommitted⟩ := (commitable_of_commits hc).committed
    exact ⟨∅, Set.empty_subset _, hcommitted.learned hc.inv hV, fun hl d hd =>
      Auditing.met_iff.mp ((hcommitted.respects hV hc.admissible hl).discharged d hd)⟩
  start := by
    intro c call _ _
    have hfine := program_fine (R := deliveryRules env s₀) (s := s₀)
      ⟨fun _ _ _ hl => hl, fun _ _ _ _ _ _ hpost => hpost.1⟩ call c.store ∅
    refine Or.inl ?_
    cases call with
    | applyNormalizedEvent event =>
        exact Rules.Safe.bind ((applyNormalizedEvent_delivers event).mono (fun _ _ _ h => h)
          fun _ _ _ h => h)
    | _ => exact hfine.mono (fun _ _ _ _ => trivial) fun _ _ _ h => h
  done_le := by
    intro call a s s' _ hdone _ hle
    cases call with
    | applyNormalizedEvent event =>
        cases a with
        | transfer r => exact hle.reports _ _ hdone
        | _ => trivial
    | _ => trivial
  done_idle := by
    intro call s T
    cases call <;> trivial

/-- Every transaction that commits may be committed. -/
theorem commitable_of_steps {ok : ServerConfig → Action Choice Call → Bool}
    (hrun : Steps (server env) ok (.initial s) c) {i : Nat} {call : Call} {pool : Option Nat}
    {α : Type} {l : Label α} {h : List (Event Stmt Write)} {a : α}
    {k : Except TxError α → Process Reply}
    (hth : c.threads[i]? = some ⟨call, pool, .opened l h (.pure a) k⟩) :
    Commitable env c.store l a (writes h) := by
  have hany : Steps (server env) anySchedule (.initial s) c := hrun.mono fun _ _ _ => rfl
  obtain ⟨⟨own, hsound⟩, -⟩ := Rules.sound_of_steps deliveryRules_valid (.refl s) hany
  exact commitable_of_commits (hsound.commits deliveryRules_valid hth)

theorem extends_of_steps {ok : ServerConfig → Action Choice Call → Bool}
    (hrun : Steps (server env) ok c₁ c) :
    c₁.store.Extends c.store := by
  induction hrun with
  | refl => exact .refl _
  | tail _ hstep ih =>
      obtain ⟨a, -, hs⟩ := hstep
      cases step_cases hs with
      | commit _ => exact ih.trans (extends_applyAll _ _)
      | _ => exact ih

/-- In every run the transfers that are new are reported as created. -/
theorem created_reported {ok : ServerConfig → Action Choice Call → Bool}
    (hrun : Steps (server env) ok (.initial s) c) (hnone : s.statusOf id = none)
    (hsome : c.store.statusOf id ≠ none) : c.store.reports "transfer.created" id ≠ [] := by
  induction hrun with
  | refl => exact absurd hnone hsome
  | @tail c₁ c₂ hrun hstep ih =>
      obtain ⟨a, -, hs⟩ := hstep
      cases step_cases hs with
      | @commit i _ call pool _ l h a k hth =>
          have hcommit := commitable_of_steps hrun hth
          obtain ⟨V, hV, hcommitted⟩ := hcommit.committed
          by_cases hold : c₁.store.statusOf id = none
          · exact hcommitted.announces hV hcommit.grounds hcommit.admissible hold hsome
          · exact (retains_applyAll hcommit.admissible).reports _ _ (ih hold)
      | _ => exact ih hsome

theorem respects_of_steps {ok : ServerConfig → Action Choice Call → Bool}
    (hrun : Steps (server env) ok (.initial s) c) :
    endReports.duties.Commits (server env) c fun s s' l _ => endReports.duties.Respects s s' l := by
  intro i call pool α l h a k hth hl
  have hcommit := commitable_of_steps hrun hth
  obtain ⟨V, hV, hcommitted⟩ := hcommit.committed
  exact hcommitted.respects hV hcommit.admissible hl

/-- The end of a transfer is reported in runs that do not disturb its report. -/
theorem ended_reported {status : TransferStatus} {action : String}
    (h₁ : Steps (server env) anySchedule (.initial s) c₁)
    (h₂ : Steps (server env) (endReports.undisturbed (server env) id action) c₁ c₂)
    (h : Steps (server env) (endReports.undisturbed (server env) id action) c₂ c)
    (hpending : c₁.store.statusOf id = some .pendingExternal)
    (hended : c₂.store.statusOf id = some status) (hreported : status.reported = some action) :
    endReports.Reported c id action := by
  have hprogram : ∀ call : Call, endReports.duties.Follows (call.program env) :=
    program_parts follows_parts
  have hany : Steps (server env) anySchedule c₁ c₂ := h₂.mono fun _ _ _ => rfl
  refine Duties.kept_of_steps hprogram (h₁.trans hany) (fun _ _ _ => rfl)
    (fun _ => respects_of_steps) h ?_
  refine Duties.kept_of_arises (fun s => s.statusOf id = some status) hprogram h₁ (fun _ _ _ => rfl)
    (fun _ => respects_of_steps) h₂ ?_ ?_ hended
  · intro c' hrun i call pool α l h a k hth hl hstatus
    have hcommit := commitable_of_steps (h₁.trans hrun) hth
    obtain ⟨V, hV, hcommitted⟩ := hcommit.committed
    obtain ⟨t, ht, rfl, -⟩ := statusOf_eq_some.mp hpending
    obtain ⟨t', ht', hsame⟩ := (extends_of_steps hrun).transferRequests t ht
    refine hcommitted.owes hV hcommit.grounds hcommit.admissible ?_ hstatus hreported
    rw [statusOf_eq_some.mpr ⟨t', ht', hsame.id, rfl⟩]
    rfl
  · intro hstatus
    cases hpending.symm.trans hstatus
    cases hreported

/-- In every run a delivery of a provider event that returned has reported. -/
theorem delivered_reported {ok : ServerConfig → Action Choice Call → Bool}
    (hrun : Steps (server env) ok (.initial s) c) {i : Nat} {pool : Option Nat}
    {event : NormalizedExternalRailEvent} {r : TransferResponse}
    (hth : c.threads[i]? = some ⟨.applyNormalizedEvent event, pool, .run (.pure (.transfer r))⟩) :
    c.store.reports (mapAuditAction event.eventType r.status) r.transferRequestId ≠ [] := by
  have hany : Steps (server env) anySchedule (.initial s) c := hrun.mono fun _ _ _ => rfl
  obtain ⟨⟨own, hsound⟩, -⟩ := Rules.sound_of_steps deliveryRules_valid (.refl s) hany
  exact hsound.thread i _ hth

end Run

end LedgerCredit
