import LedgerCredit.Credit.Reviews
import LedgerCredit.Evidence

/-!
# The evidence of reviews

`reviewAssessment` updates the assessment first and writes the audit event of the
decision afterwards, in another statement.  If the process stops in between, or the
second statement fails, then a retry finds the assessment decided and is rejected,
and the decision is never reported.

As for transfers, the report is a duty that the update brings.
-/

namespace LedgerCredit.Credit

open Txn

/-! ## The duty to report -/

/-- The action that reports a decision. -/
def CreditAssessmentStatus.reported : CreditAssessmentStatus → Option String
  | .approved => some "credit_assessment.approved"
  | .rejected => some "credit_assessment.rejected"
  | _ => none

/-- The report that a review owes after its update. -/
def Label.owes : {α : Type} → Label α → α → Option (Uuid × String)
  | _, .statement (.reviewAssessment _ data), r => data.status.reported.map (Prod.mk r.1.id)
  | _, _, _ => none

/-- The audit event that a statement creates. -/
def Label.audits : {α : Type} → Label α → Option (Uuid → AuditEvent)
  | _, .statement (.createAuditEvent data) => some data
  | _, _ => none

/-- The reports of the decisions on assessments. -/
def decisionReports : Auditing Label Store where
  trail := Store.ledger
  calls := Label.ofCalls
  owes := Label.owes
  audits := Label.audits
  drawn := fun _ => none

section Follows

variable {env : Env} {α : Type}

/-- A statement that brings no duty. -/
def Stmt.plain : {α : Type} → Stmt α → Prop
  | _, .createAuditEvent _ | _, .reviewAssessment .. => False
  | _, q => (Label.statement q).ofCalls

theorem follows_statement {q : Stmt α} (h : q.plain) : decisionReports.duties.Follows (statement q) := by
  refine Duties.Follows.transaction (l := Label.statement q) ?_ (fun _ => ?_) rfl
  · cases q <;> first | exact h | cases h
  · cases q <;> first | rfl | cases h

theorem follows_audit (context : RequestContext) (input : AuditRecordInput) :
    decisionReports.duties.Follows (auditRecord context input) :=
  Duties.Follows.transaction (l := Label.statement (.createAuditEvent _)) ⟨_, _, rfl⟩
    (fun _ => rfl) rfl

theorem follows_ofExcept {x : Except AppException α} :
    decisionReports.duties.Follows (Process.ofExcept x) := by
  cases x with
  | ok a => trivial
  | error e => trivial

theorem follows_orThrow {o : Option α} {e : AppException} :
    decisionReports.duties.Follows (Process.orThrow o e) := by
  cases o with
  | some a => trivial
  | none => trivial

theorem follows_reply {x : Process α} {f : α → Reply} (hx : decisionReports.duties.Follows x) :
    decisionReports.duties.Follows (x >>= fun r => pure (f r) : Process Reply) :=
  hx.bind fun _ => trivial

/-- A review reports its decision after the update. -/
theorem reviewAssessment_follows (id : Uuid) (reviewRationale : String)
    (decision : CreditService.Decision) (context : RequestContext) :
    decisionReports.duties.Follows
      (CreditService.reviewAssessment id reviewRationale decision context) := by
  refine .bind follows_ofExcept fun _ => ?_
  refine .bind (follows_statement (q := .findAssessment _) trivial) fun found => ?_
  refine .bind follows_orThrow fun found => ?_
  show decisionReports.duties.Follows (if found.1.status ≠ .underReview then _ else _ : Process _)
  split
  · trivial
  · refine .bind (follows_statement (q := .newDate) trivial) fun now => ?_
    refine ⟨⟨decision, rfl⟩, fun x => ?_, fun r d hd => ?_, fun _ hb => by cases hb⟩
    · cases x with
      | error e => trivial
      | ok r =>
          show decisionReports.duties.Follows (auditRecord context _ >>= fun _ => pure _)
          exact .bind (follows_audit context _) fun _ => trivial
    · cases decision with
      | approved => exact hd
      | rejected => exact hd

theorem program_follows (call : Call) : decisionReports.duties.Follows (call.program env) := by
  cases call with
  | getTransferById transferRequestId context =>
      refine follows_reply (.bind (follows_statement (q := .findTransferRequest _) trivial)
        fun _ => ?_)
      exact .bind follows_orThrow fun _ => .bind follows_ofExcept fun _ => trivial
  | getBalance accountId context =>
      refine follows_reply (.bind (follows_statement (q := .findAccount _) trivial) fun _ => ?_)
      refine .bind follows_orThrow fun _ => .bind follows_ofExcept fun _ => ?_
      exact .bind (follows_audit ..) fun _ => trivial
  | getLedgerEntries accountId context cursor limit =>
      refine follows_reply (.bind (follows_statement (q := .findAccount _) trivial) fun _ => ?_)
      refine .bind follows_orThrow fun _ => .bind follows_ofExcept fun _ => ?_
      refine .bind follows_ofExcept fun _ => ?_
      refine .bind (follows_statement (q := .findStatementLines ..) trivial) fun _ => ?_
      exact .bind (follows_audit ..) fun _ => trivial
  | createAssessment input context =>
      exact follows_reply (.bind follows_ofExcept fun args =>
        .transaction trivial (fun _ => rfl) rfl)
  | getAssessmentById creditAssessmentId context =>
      refine follows_reply (.bind (follows_statement (q := .findAssessment _) trivial) fun _ => ?_)
      exact .bind follows_orThrow fun _ => .bind follows_ofExcept fun _ => trivial
  | reviewAssessment creditAssessmentId reviewRationale decision context =>
      exact follows_reply (reviewAssessment_follows _ reviewRationale decision context)

end Follows

/-! ## Commits -/

section Commit

variable {env : Env} {s : Store} {id : Uuid} {ws : List Write}

/-- The audit trail grows. -/
theorem auditEvents_applyAll (ws : List Write) (s : Store) :
    s.ledger.auditEvents.rows ⊆ (database.applyAll ws s).ledger.auditEvents.rows := by
  induction ws generalizing s with
  | nil => exact List.Subset.refl _
  | cons w ws ih =>
      refine List.Subset.trans ?_ (ih (w.apply s))
      cases w with
      | ledger w => exact LedgerCredit.auditEvents_apply w s.ledger
      | _ => exact List.Subset.refl _

/-- The status of an assessment. -/
def Store.statusOf (s : Store) (id : Uuid) : Option CreditAssessmentStatus :=
  (s.assessments.get? id).map (·.status)

/-- A new assessment is under review, and no other one changes. -/
theorem Assessed.statusOf {row : CreditAssessment} (h : Assessed row ws) (id : Uuid)
    (hadm : database.Admissible s ws) : (database.applyAll ws s).statusOf id = s.statusOf id ∨
      (database.applyAll ws s).statusOf id = some .underReview := by
  obtain ⟨record, snapshot, scored, d, event, rfl⟩ := h.writes
  by_cases hid : row.id = id
  · subst hid
    right
    have hfresh : s.assessments.Fresh row := by
      have habsent : ¬ database.present s (.assessment row.id) = true :=
        hadm.absent (w := .assessment row) (by simp) (by simp [database, Write.adds])
      exact Table.fresh_of_pk (by simpa [database, Store.present] using habsent) rfl
    simp [Store.statusOf, Database.applyAll, database, Write.apply, Table.get?_modify,
      Table.get?_insert hfresh, CreditAssessmentUpdate.apply]
  · left
    rw [Store.statusOf, get?_applyAll ?_ s]
    · rfl
    · simp [Database.locksOf, database, Write.locks, Write.adds, Ne.symm hid]

/-- The status after an update is the one of the update. -/
theorem status_of_updated {data : CreditAssessmentUpdate} {status : CreditAssessmentStatus}
    (h : (database.applyAll [.updateAssessment id data] s).statusOf id = some status) :
    data.status = status := by
  have hrow : (((Write.updateAssessment id data).apply s).assessments.get? id).map (·.status) =
      some status := h
  rw [get?_updateAssessment] at hrow
  cases hold : s.assessments.get? id with
  | none => simp [hold] at hrow
  | some x => simpa [hold, CreditAssessmentUpdate.apply] using hrow

/-- The rules of any schedule. -/
def evidenceRules (env : Env) : Rules (services env) Unit Empty :=
  Rules.static (services env) (fun _ => True) (fun _ _ => True) Label.ofCalls (fun _ _ => True)
    (fun _ => []) fun _ _ _ _ => True

theorem evidenceRules_valid : (evidenceRules env).Valid fun _ _ => true :=
  Rules.static_valid lawful_database (fun _ => trivial) (fun _ _ _ _ _ => trivial)
    (Rules.unguarded_statements (fun _ => rfl) fun _ _ _ _ => trivial)
    (fun _ _ _ _ _ _ => ⟨trivial, trivial, trivial⟩)
    fun c call _ _ => Rules.Fine.of_uses (program_uses call) (fun _ _ _ hl => hl) c.store ∅

variable {α : Type} {T : Set Empty} {l : Label α} {h : List (Event Stmt Write)} {a : α}

/-- What a transaction that commits was sent. -/
theorem evidence_replying : Replying ((evidenceRules env).Evidence s l) := by
  rintro p β q r ws ⟨⟨_, _, _, _, hexec⟩, -⟩
  exact replies_of_exec hexec

theorem evidence_replies {q : Stmt α}
    (hc : (evidenceRules env).Commits s T (.statement q) h a) : Replies q a (writes h) :=
  evidence_replying _ _ _ _ (runs_send.mp (runs_of_completes hc.path hc.evidence))

/-- A commit that decides on an assessment owes the report. -/
theorem evidence_owes (hc : (evidenceRules env).Commits s T l h a)
    {status : CreditAssessmentStatus} {action : String}
    (hstatus : (database.applyAll (writes h) s).statusOf id = some status)
    (hreported : status.reported = some action) :
    s.statusOf id = some status ∨ l.owes a = some (id, action) := by
  cases l with
  | createAssessment args =>
      rcases createAssessment_runs evidence_replying (runs_of_completes hc.path hc.evidence) with
        hnil | ⟨row, hrow⟩
      · rw [hnil] at hstatus
        exact Or.inl hstatus
      · rcases hrow.statusOf id hc.admissible with heq | heq
        · exact Or.inl (heq.symm.trans hstatus)
        · cases heq.symm.trans hstatus
          cases hreported
  | statement q =>
      have hreplies := evidence_replies hc
      cases hreviews : q.reviews id with
      | false =>
          left
          rw [← hstatus, Store.statusOf, Store.statusOf,
            get?_applyAll (untouched_of_replies hc.pre hreviews hreplies)]
      | true =>
          right
          cases q with
          | reviewAssessment id' data =>
              obtain rfl : id' = id := by simpa [Stmt.reviews] using hreviews
              obtain ⟨⟨x, hx, hr⟩, hws⟩ := hreplies
              rw [hws] at hstatus
              obtain rfl := status_of_updated hstatus
              simp [Label.owes, hreported, hr, hx]
          | _ => cases hreviews

/-- A report that is made stays, and the statement that makes one makes it. -/
theorem evidence_respects (hc : (evidenceRules env).Commits s T l h a)
    (hl : decisionReports.runs l) :
    decisionReports.duties.Respects s (database.applyAll (writes h) s) l := by
  refine Auditing.respects (A := decisionReports) (auditEvents_applyAll _ s) hl
    fun context input haudits => ?_
  show ∃ u, auditData context input u ∈ (database.applyAll (writes h) s).ledger.auditEvents.rows
  cases l with
  | createAssessment args => cases haudits
  | statement q =>
      cases q with
      | createAuditEvent data =>
          cases haudits
          obtain ⟨u, hws⟩ := evidence_replies hc
          have hadm : database.Admissible s (writes h) := hc.admissible
          rw [hws] at hadm ⊢
          have hledger : LedgerCredit.database.Admissible s.ledger
              [.auditEvent (auditData context input u)] :=
            ⟨fun x hx => hadm.1 _ (List.mem_map_of_mem hx),
              fun x hx => hadm.2.1 _ (List.mem_map_of_mem hx), trivial⟩
          have hrows := LedgerCredit.auditEvents_applyAll hledger
          refine ⟨u, ?_⟩
          have hmem : auditData context input u ∈ (LedgerCredit.database.applyAll
              [.auditEvent (auditData context input u)] s.ledger).auditEvents.rows := by
            rw [hrows]
            exact List.mem_append_right _ (by simp [LedgerCredit.Write.auditEvent?])
          exact hmem
      | _ => cases haudits

end Commit

/-! ## Runs -/

section Run

variable {env : Env} {s : Store} {c c₁ c₂ : ServerConfig} {id : Uuid}

/-- Every transaction that commits keeps to the rules. -/
theorem commits_of_steps {ok : ServerConfig → Action Choice Call → Bool}
    (hrun : Steps (services env) ok (.initial s) c)
    {i : Nat} {call : Call} {pool : Option Nat} {α : Type} {l : Label α}
    {h : List (Event Stmt Write)} {a : α} {k : Except TxError α → Process Reply}
    (hth : c.threads[i]? = some ⟨call, pool, .opened l h (.pure a) k⟩) :
    ∃ T, (evidenceRules env).Commits c.store T l h a := by
  have hany : Steps (services env) (fun _ _ => true) (.initial s) c := hrun.mono fun _ _ _ => rfl
  obtain ⟨⟨own, hsound⟩, -⟩ := Rules.sound_of_steps evidenceRules_valid trivial hany
  exact ⟨_, hsound.commits evidenceRules_valid hth⟩

theorem respects_of_steps {ok : ServerConfig → Action Choice Call → Bool}
    (hrun : Steps (services env) ok (.initial s) c) :
    decisionReports.duties.Commits (services env) c fun s s' l _ =>
      decisionReports.duties.Respects s s' l := by
  intro i call pool α l h a k hth hl
  obtain ⟨T, hc⟩ := commits_of_steps hrun hth
  exact evidence_respects hc hl

/-- A decision on an assessment is reported in runs that do not disturb its report. -/
theorem decided_reported {status : CreditAssessmentStatus} {action : String}
    (h₁ : Steps (services env) (fun _ _ => true) (.initial s) c₁)
    (h₂ : Steps (services env) (decisionReports.undisturbed (services env) id action) c₁ c₂)
    (h : Steps (services env) (decisionReports.undisturbed (services env) id action) c₂ c)
    (hbefore : c₁.store.statusOf id ≠ some status)
    (hdecided : c₂.store.statusOf id = some status) (hreported : status.reported = some action) :
    decisionReports.Reported c id action := by
  have hany : Steps (services env) (fun _ _ => true) c₁ c₂ := h₂.mono fun _ _ _ => rfl
  refine Duties.kept_of_steps program_follows (h₁.trans hany) (fun _ _ _ => rfl)
    (fun _ => respects_of_steps) h ?_
  refine Duties.kept_of_arises (fun s => s.statusOf id = some status) program_follows h₁
    (fun _ _ _ => rfl) (fun _ => respects_of_steps) h₂ ?_ hbefore hdecided
  intro c' hrun i call pool α l h a k hth hl hstatus
  obtain ⟨T, hc⟩ := commits_of_steps (h₁.trans hrun) hth
  exact evidence_owes hc hstatus hreported

end Run

end LedgerCredit.Credit

namespace LedgerCredit

open Txn

/-! ## The evidence of all changes -/

/-- If no failure meets the last call that is about to report the end of a transfer or the
decision on an assessment, then it is reported, or about to be.  New transfers, and deliveries of
provider events that returned, are reported in every run. -/
theorem evidence_kept (env : Env) (creditEnv : Credit.Env) :
    (∀ s c₁ c₂ c id status action,
      Steps (server env) anySchedule (.initial s) c₁ →
      Steps (server env) (endReports.undisturbed (server env) id action) c₁ c₂ →
      Steps (server env) (endReports.undisturbed (server env) id action) c₂ c →
      c₁.store.statusOf id = some .pendingExternal → c₂.store.statusOf id = some status →
      status.reported = some action → endReports.Reported c id action ∧
        (c.quiet = true → c.store.reports action id ≠ [])) ∧
    (∀ s c₁ c₂ c id status action,
      Steps (Credit.services creditEnv) (fun _ _ => true) (.initial s) c₁ →
      Steps (Credit.services creditEnv)
        (Credit.decisionReports.undisturbed (Credit.services creditEnv) id action) c₁ c₂ →
      Steps (Credit.services creditEnv)
        (Credit.decisionReports.undisturbed (Credit.services creditEnv) id action) c₂ c →
      c₁.store.statusOf id ≠ some status → c₂.store.statusOf id = some status →
      status.reported = some action → Credit.decisionReports.Reported c id action ∧
        (c.quiet = true → c.store.ledger.reports action id ≠ [])) ∧
    (∀ s c id, Steps (server env) anySchedule (.initial s) c → s.statusOf id = none →
      c.store.statusOf id ≠ none → c.store.reports "transfer.created" id ≠ []) ∧
    (∀ (s : Store) (c : ServerConfig) (i : Nat) (pool : Option Nat)
        (event : NormalizedExternalRailEvent) (r : TransferResponse),
      Steps (server env) anySchedule (.initial s) c →
      c.threads[i]? = some ⟨.applyNormalizedEvent event, pool, .run (.pure (.transfer r))⟩ →
      c.store.reports (ExternalRailService.mapAuditAction event.eventType r.status)
        r.transferRequestId ≠ []) := by
  refine ⟨?_, ?_, fun _ _ _ => created_reported, fun _ _ _ _ _ _ hrun => delivered_reported hrun⟩
  · intro s c₁ c₂ c id status action h₁ h₂ h hpending hended hreported
    have hkept := ended_reported h₁ h₂ h hpending hended hreported
    exact ⟨hkept, hkept.made⟩
  · intro s c₁ c₂ c id status action h₁ h₂ h hbefore hdecided hreported
    have hkept := Credit.decided_reported h₁ h₂ h hbefore hdecided hreported
    exact ⟨hkept, hkept.made⟩

/-! ### Stops before a report -/

/-- The job submits the pending transfer, which its rail rejects. -/
def submission (tag : String) (n : Nat) : List (Action Choice Call) :=
  .start (.processQueuedSubmission "transfer") :: advances 0 tag n

/-- The reviewer approves the assessment. -/
def approval (tag : String) (n : Nat) : List (Action Choice Credit.Call) :=
  Credit.review .approved :: Credit.reviewSteps 0 tag n

/-- A submission that stops after its acknowledgement and is run again, and a review. -/
theorem evidence_kept_undisturbed :
    (∃ c, Steps (server testEnvironment)
      (endReports.undisturbed (server testEnvironment) "transfer" "transfer.compensated")
      (.initial pendingStore) c ∧ c.store.statusOf "transfer" = some .compensated ∧
      c.store.reports "transfer.compensated" "transfer" ≠ []) ∧
    ∃ c, Steps (Credit.services Credit.testEnvironment)
      (Credit.decisionReports.undisturbed (Credit.services Credit.testEnvironment) "assessment"
        "credit_assessment.approved") (.initial Credit.reviewStore) c ∧
      c.store.statusOf "assessment" = some .approved ∧
      c.store.ledger.reports "credit_assessment.approved" "assessment" ≠ [] := by
  obtain ⟨hends, hdecisions, -, -⟩ := evidence_kept testEnvironment Credit.testEnvironment
  constructor
  · obtain ⟨c, hrun, hstatus, hquiet⟩ := exists_of_play (server testEnvironment)
      (endReports.undisturbed (server testEnvironment) "transfer" "transfer.compensated")
      (.initial pendingStore) (submission "a" 9 ++ .crash :: submission "b" 38)
      (fun c => c.store.statusOf "transfer" = some .compensated ∧ c.quiet = true)
      (by decide +kernel)
    exact ⟨c, hrun, hstatus, (hends pendingStore _ c c "transfer" .compensated _ .refl hrun .refl rfl
      hstatus rfl).2 hquiet⟩
  · obtain ⟨c, hrun, hstatus, hquiet⟩ := exists_of_play (Credit.services Credit.testEnvironment)
      (Credit.decisionReports.undisturbed (Credit.services Credit.testEnvironment) "assessment"
        "credit_assessment.approved") (.initial Credit.reviewStore) (approval "a" 12)
      (fun c => c.store.statusOf "assessment" = some .approved ∧ c.quiet = true) (by decide +kernel)
    have hunder : Credit.reviewStore.statusOf "assessment" ≠ some .approved := by decide
    exact ⟨c, hrun, hstatus, (hdecisions Credit.reviewStore _ c c "assessment" .approved _ .refl hrun
      .refl hunder hstatus rfl).2 hquiet⟩

/-- The process stops between a commit and its report.  The redelivered job returns, and the review
that is tried again is rejected, and nothing is reported. -/
theorem evidence_lost :
    (∃ c, Steps (server testEnvironment) anySchedule (.initial pendingStore) c ∧ c.quiet = true ∧
      c.outcome 0 = some (.ok .done) ∧ c.store.statusOf "transfer" = some .compensated ∧
      c.store.reports "transfer.compensated" "transfer" = []) ∧
    ∃ c, Steps (Credit.services Credit.testEnvironment) (fun _ _ => true)
      (.initial Credit.reviewStore) c ∧ c.quiet = true ∧
      c.outcome 0 = some (.error (.app ⟨409, "credit_assessment_not_reviewable",
        "Only assessments under review may be approved or rejected."⟩)) ∧
      c.store.statusOf "assessment" = some .approved ∧
      c.store.ledger.reports "credit_assessment.approved" "assessment" = [] := by
  constructor
  · exact exists_of_play (server testEnvironment) anySchedule (.initial pendingStore)
      (submission "a" 34 ++ .crash :: submission "b" 3)
      (fun c => c.quiet = true ∧ c.outcome 0 = some (.ok .done) ∧
        c.store.statusOf "transfer" = some .compensated ∧
        c.store.reports "transfer.compensated" "transfer" = []) (by decide +kernel)
  · exact exists_of_play (Credit.services Credit.testEnvironment) (fun _ _ => true)
      (.initial Credit.reviewStore) (approval "a" 9 ++ .crash :: approval "b" 3)
      (fun c => c.quiet = true ∧
        c.outcome 0 = some (.error (.app ⟨409, "credit_assessment_not_reviewable",
          "Only assessments under review may be approved or rejected."⟩)) ∧
        c.store.statusOf "assessment" = some .approved ∧
        c.store.ledger.reports "credit_assessment.approved" "assessment" = []) (by decide +kernel)

end LedgerCredit
