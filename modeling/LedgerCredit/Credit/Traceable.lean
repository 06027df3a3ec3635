import LedgerCredit.Credit.Reviews
import LedgerCredit.Txn.Family

/-!
# Traceable decisions

The score of an assessment is computed in memory.  The profile it is computed from
is stored in a snapshot, the thresholds on the assessment, and the score itself
only by the third of four writes.  Later a review updates the row again.  A commit
has one of three effects on assessments and snapshots (`Effect`), and each keeps
what is stored in agreement (`Effect.traceable`).

Every call brings its environment, so the thresholds may change between two calls.
-/

namespace LedgerCredit.Credit

open Txn

/-! ## What is stored -/

/-- The profile that is stored. -/
def CreditProfileSnapshot.profile (x : CreditProfileSnapshot) : CreditProfileInput where
  paymentHistoryPoints := x.paymentHistoryPoints
  averageBalanceMinor := x.averageBalanceMinor
  transactionFrequency := x.transactionFrequency

/-- The assessment has the score of the snapshot, with its own thresholds. -/
structure CreditAssessment.Follows (x : CreditAssessment) (snapshot : CreditProfileSnapshot) :
    Prop where
  own : snapshot.id = x.creditProfileSnapshotId
  thresholds : x.rejectedThreshold < x.approvedThreshold
  decision : ∃ d, computeCreditDecision snapshot.profile
      ⟨x.approvedThreshold, x.rejectedThreshold⟩ = .ok d ∧
    x.score = some d.score ∧ x.rationaleSummary = some d.rationaleSummary

/-- The assessment is under review or decided, and has all of a decision or nothing of it. -/
structure CreditAssessment.Signed (x : CreditAssessment) : Prop where
  status : x.status = .underReview ∨ x.status = .approved ∨ x.status = .rejected
  actorId : (truthy x.reviewedByActorId).isSome = x.decided
  set : x.reviewedByActorId.isSome = x.decided
  actorType : x.reviewedByActorType.isSome = x.decided
  decisionedAt : x.reviewDecisionedAt.isSome = x.decided
  rationale : x.reviewRationale.isSome = x.decided

structure Store.Traceable (s : Store) : Prop where
  signed : ∀ x ∈ s.assessments.rows, x.Signed
  follows : ∀ x ∈ s.assessments.rows, ∃ snapshot ∈ s.snapshots.rows, x.Follows snapshot
  alone : ∀ x ∈ s.assessments.rows, ∀ y ∈ s.assessments.rows,
    x.creditProfileSnapshotId = y.creditProfileSnapshotId → x = y

/-- The row `y` is the row `x`, perhaps after reviews. -/
structure CreditAssessment.Keeps (x y : CreditAssessment) : Prop where
  id : y.id = x.id
  score : y.score = x.score
  rationaleSummary : y.rationaleSummary = x.rationaleSummary
  snapshot : y.creditProfileSnapshotId = x.creditProfileSnapshotId
  approvedThreshold : y.approvedThreshold = x.approvedThreshold
  rejectedThreshold : y.rejectedThreshold = x.rejectedThreshold

/-- Assessments keep their scores, thresholds and snapshots. -/
structure Store.KeepsScores (s s' : Store) : Prop where
  assessments : ∀ x ∈ s.assessments.rows, ∃ y ∈ s'.assessments.rows, x.Keeps y
  snapshots : s.snapshots.rows ⊆ s'.snapshots.rows

section Stored

variable {x y : CreditAssessment} {snapshot : CreditProfileSnapshot}

theorem CreditAssessment.Keeps.refl (x : CreditAssessment) : x.Keeps x :=
  ⟨rfl, rfl, rfl, rfl, rfl, rfl⟩

theorem CreditAssessment.Keeps.trans {z : CreditAssessment} (h : x.Keeps y) (h' : y.Keeps z) :
    x.Keeps z where
  id := h'.id.trans h.id
  score := h'.score.trans h.score
  rationaleSummary := h'.rationaleSummary.trans h.rationaleSummary
  snapshot := h'.snapshot.trans h.snapshot
  approvedThreshold := h'.approvedThreshold.trans h.approvedThreshold
  rejectedThreshold := h'.rejectedThreshold.trans h.rejectedThreshold

theorem CreditAssessment.Follows.keeps (h : x.Follows snapshot) (hkeeps : x.Keeps y) :
    y.Follows snapshot where
  own := h.own.trans hkeeps.snapshot.symm
  thresholds := by
    rw [hkeeps.approvedThreshold, hkeeps.rejectedThreshold]
    exact h.thresholds
  decision := by
    rw [hkeeps.approvedThreshold, hkeeps.rejectedThreshold, hkeeps.score, hkeeps.rationaleSummary]
    exact h.decision

theorem Store.KeepsScores.refl (s : Store) : s.KeepsScores s where
  assessments := fun x hx => ⟨x, hx, .refl x⟩
  snapshots := List.Subset.refl _

theorem Store.KeepsScores.trans {s s' s'' : Store} (h : s.KeepsScores s')
    (h' : s'.KeepsScores s'') : s.KeepsScores s'' where
  assessments := by
    intro x hx
    obtain ⟨y, hy, hkeeps⟩ := h.assessments x hx
    obtain ⟨z, hz, hkeeps'⟩ := h'.assessments y hy
    exact ⟨z, hz, hkeeps.trans hkeeps'⟩
  snapshots := List.Subset.trans h.snapshots h'.snapshots

/-- The response has a decision exactly when one is stored. -/
theorem CreditAssessment.Signed.reviewDecision (h : x.Signed) (snapshot : CreditProfileSnapshot) :
    (CreditService.mapAssessment x snapshot).reviewDecision.isSome = x.decided := by
  have hactorId := h.actorId
  have hactorType := h.actorType
  have hdecisionedAt := h.decisionedAt
  cases hd : x.decided <;> simp only [hd, Option.isSome_eq_false_iff, Option.isNone_iff_eq_none,
    Option.isSome_iff_exists] at hactorId hactorType hdecisionedAt
  · simp [CreditService.mapAssessment, hdecisionedAt]
  · obtain ⟨actorId, hactorId⟩ := hactorId
    obtain ⟨actorType, hactorType⟩ := hactorType
    obtain ⟨decisionedAt, hdecisionedAt⟩ := hdecisionedAt
    simp [CreditService.mapAssessment, hactorId, hactorType, hdecisionedAt]

/-- A review signs the row. -/
theorem signed_reviewData {decision : CreditService.Decision} {actor : RequestActor} {now : Time}
    {reviewRationale : String} (hactor : actor.actorId ≠ "") (x : CreditAssessment) :
    ((reviewData decision actor now reviewRationale).apply x).Signed := by
  have hactorId : (truthy (some actor.actorId)).isSome = true := by
    simp [truthy, hactor]
  have hstatus : decision.status = .approved ∨ decision.status = .rejected := by
    cases decision <;> decide
  have hdecided : ((reviewData decision actor now reviewRationale).apply x).decided = true := by
    cases decision <;> rfl
  exact ⟨Or.inr hstatus, hactorId.trans hdecided.symm, hdecided.symm, hdecided.symm, hdecided.symm,
    hdecided.symm⟩

theorem keeps_reviewData {decision : CreditService.Decision} {actor : RequestActor} {now : Time}
    {reviewRationale : String} (x : CreditAssessment) :
    x.Keeps ((reviewData decision actor now reviewRationale).apply x) :=
  ⟨rfl, rfl, rfl, rfl, rfl, rfl⟩

/-- The row and the snapshot of a new assessment. -/
theorem AssessmentRun.scored {V : View} {env : Env} {args : CreateAssessmentArgs} {ws : List Write}
    {row : CreditAssessment} {decision : CreditDecision}
    (h : AssessmentRun V env args ws row snapshot decision) :
    (scoredRow row decision).Signed ∧ (scoredRow row decision).Follows snapshot := by
  obtain ⟨_, _, _, profile, _, _, -, hscored, ⟨u, rfl⟩, ⟨u', rfl⟩, -⟩ := h.found
  have hthresholds : (env.scoreRejectThreshold : Int) < env.scoreApproveThreshold := by
    by_contra hnot
    have hle : (env.scoreApproveThreshold : Int) ≤ env.scoreRejectThreshold := Int.not_lt.mp hnot
    have hdecided := hscored.decided
    rw [computeCreditDecision, if_pos hle] at hdecided
    cases hdecided
  exact ⟨⟨Or.inl rfl, rfl, rfl, rfl, rfl, rfl⟩, rfl, hthresholds, decision, hscored.decided, rfl,
    rfl⟩

end Stored

/-! ## Effects -/

/-- What a commit does to the assessments and the snapshots. -/
inductive Effect (s s' : Store) : Prop
  | none (hassessments : s'.assessments.rows = s.assessments.rows)
      (hsnapshots : s'.snapshots.rows = s.snapshots.rows)
  | created (x : CreditAssessment) (snapshot : CreditProfileSnapshot) (signed : x.Signed)
      (follows : x.Follows snapshot) (fresh : ∀ old ∈ s.snapshots.rows, old.id ≠ snapshot.id)
      (hassessments : s'.assessments.rows = s.assessments.rows ++ [x])
      (hsnapshots : s'.snapshots.rows = s.snapshots.rows ++ [snapshot])
  | reviewed (f : CreditAssessment → CreditAssessment) (signed : ∀ x, (f x).Signed)
      (keeps : ∀ x : CreditAssessment, x.Keeps (f x)) (id : Uuid)
      (hassessments : s'.assessments.rows =
        s.assessments.rows.map fun x => if x.id = id then f x else x)
      (hsnapshots : s'.snapshots.rows = s.snapshots.rows)

section Effects

variable {s s' : Store}

theorem Effect.traceable (h : Effect s s') (hs : s.Traceable) : s'.Traceable := by
  cases h with
  | none hassessments hsnapshots =>
      exact ⟨hassessments ▸ hs.signed, hassessments ▸ hsnapshots ▸ hs.follows,
        hassessments ▸ hs.alone⟩
  | created x snapshot signed follows fresh hassessments hsnapshots =>
      -- an older assessment has an older snapshot
      have hne : ∀ y ∈ s.assessments.rows, y.creditProfileSnapshotId ≠ x.creditProfileSnapshotId := by
        intro y hy heq
        obtain ⟨old, hold, hfollows⟩ := hs.follows y hy
        exact fresh old hold ((hfollows.own.trans heq).trans follows.own.symm)
      refine ⟨?_, ?_, ?_⟩
      · intro y hy
        rw [hassessments, List.mem_append, List.mem_singleton] at hy
        rcases hy with hy | rfl
        · exact hs.signed y hy
        · exact signed
      · intro y hy
        rw [hassessments, List.mem_append, List.mem_singleton] at hy
        rw [hsnapshots]
        rcases hy with hy | rfl
        · obtain ⟨old, hold, hfollows⟩ := hs.follows y hy
          exact ⟨old, List.mem_append_left _ hold, hfollows⟩
        · exact ⟨snapshot, by simp, follows⟩
      · intro y hy z hz heq
        rw [hassessments, List.mem_append, List.mem_singleton] at hy hz
        rcases hy with hy | rfl
        · rcases hz with hz | rfl
          · exact hs.alone y hy z hz heq
          · exact absurd heq (hne y hy)
        · rcases hz with hz | rfl
          · exact absurd heq.symm (hne z hz)
          · rfl
  | reviewed f signed keeps id hassessments hsnapshots =>
      have hkeeps : ∀ x : CreditAssessment, x.Keeps (if x.id = id then f x else x) := by
        intro x
        split
        · exact keeps x
        · exact .refl x
      refine ⟨?_, ?_, ?_⟩
      · intro y hy
        rw [hassessments] at hy
        obtain ⟨x, hx, rfl⟩ := List.mem_map.mp hy
        show (if x.id = id then f x else x).Signed
        split
        · exact signed x
        · exact hs.signed x hx
      · intro y hy
        rw [hassessments] at hy
        obtain ⟨x, hx, rfl⟩ := List.mem_map.mp hy
        obtain ⟨snapshot, hsnapshot, hfollows⟩ := hs.follows x hx
        exact ⟨snapshot, hsnapshots ▸ hsnapshot, hfollows.keeps (hkeeps x)⟩
      · intro y hy z hz heq
        rw [hassessments] at hy hz
        obtain ⟨x, hx, rfl⟩ := List.mem_map.mp hy
        obtain ⟨x', hx', rfl⟩ := List.mem_map.mp hz
        have hsame : x.creditProfileSnapshotId = x'.creditProfileSnapshotId :=
          ((hkeeps x).snapshot.symm.trans heq).trans (hkeeps x').snapshot
        rw [hs.alone x hx x' hx' hsame]

theorem Effect.keepsScores (h : Effect s s') : s.KeepsScores s' := by
  cases h with
  | none hassessments hsnapshots =>
      exact ⟨fun x hx => ⟨x, hassessments ▸ hx, .refl x⟩, hsnapshots ▸ List.Subset.refl _⟩
  | created x snapshot signed follows fresh hassessments hsnapshots =>
      refine ⟨fun y hy => ⟨y, ?_, .refl y⟩, ?_⟩
      · rw [hassessments]
        exact List.mem_append_left _ hy
      · rw [hsnapshots]
        exact List.subset_append_left _ _
  | reviewed f signed keeps id hassessments hsnapshots =>
      refine ⟨fun x hx => ⟨if x.id = id then f x else x, ?_, ?_⟩, hsnapshots ▸ List.Subset.refl _⟩
      · rw [hassessments]
        exact List.mem_map_of_mem (f := fun x => if x.id = id then f x else x) hx
      · split
        · exact keeps x
        · exact .refl x

end Effects

/-! ## Commits -/

/-- The services, where every call brings its environment. -/
def configured : Family Env Stmt Label TxError Store Write Choice Key Unit Call Reply where
  database := database
  body := Label.body
  program := fun env call => call.program env
  idle := .done

abbrev ConfiguredConfig :=
  Config Stmt (fun β => Env × Label β) TxError Store Write Unit (Env × Call) Reply

def Call.context : Call → RequestContext
  | .getTransferById _ context => context
  | .getBalance _ context => context
  | .getLedgerEntries _ context _ _ => context
  | .createAssessment _ context => context
  | .getAssessmentById _ context => context
  | .reviewAssessment _ _ _ context => context

/-- The callers have been provisioned. -/
def provisioned (_ : ConfiguredConfig) : Action Choice (Env × Call) → Bool
  | .start call => call.2.context.actor.all fun actor => actor.actorId ≠ ""
  | _ => true

/-- The transactions of the calls, with a reviewer that has an id. -/
def Label.traced : {α : Type} → Label α → Prop
  | _, .statement (.createSnapshot _) => False
  | _, .statement (.createAssessment _) => False
  | _, .statement (.updateAssessment _ _) => False
  | _, .statement (.reviewAssessment _ data) => ∃ decision actor now reviewRationale,
      actor.actorId ≠ "" ∧ data = reviewData decision actor now reviewRationale
  | _, _ => True

/-- The rules of traceable decisions. -/
def traceRules : Rules configured.system Unit Empty :=
  .static configured.system Store.Traceable Store.KeepsScores (fun l => l.2.traced)
    (fun _ _ => True) (fun _ => []) fun _ _ _ _ => True

section Commits

variable {s : Store} {T : Set Empty} {α : Type}

theorem replying_trace (l : Env × Label α) : Replying (traceRules.Evidence s l) := by
  rintro p β q r ws ⟨⟨_, _, _, _, hexec⟩, -⟩
  exact replies_of_exec hexec

/-- The effect of a statement outside of the transactions. -/
theorem effect_of_replies {q : Stmt α} (hq : (Label.statement q).traced) {r : α} {ws : List Write}
    (h : Replies q r ws) : Effect s (database.applyAll ws s) := by
  cases q with
  | createSnapshot data | createAssessment data => exact False.elim hq
  | updateAssessment id data => exact False.elim hq
  | reviewAssessment id data =>
      obtain ⟨-, rfl⟩ := h
      obtain ⟨decision, actor, now, reviewRationale, hactor, rfl⟩ := hq
      exact .reviewed (reviewData decision actor now reviewRationale).apply
        (signed_reviewData hactor) keeps_reviewData id rfl rfl
  | createAuditEvent data =>
      obtain ⟨u, rfl⟩ := h
      exact .none rfl rfl
  | createIdempotencyRecord data =>
      obtain ⟨-, rfl⟩ := h
      exact .none rfl rfl
  | updateIdempotencyRecord id data =>
      obtain rfl := h
      exact .none rfl rfl
  | _ =>
      obtain rfl := h
      exact .none rfl rfl

/-- A new assessment takes the id of no older snapshot. -/
theorem AssessmentRun.effect {V : View} {env : Env} {args : CreateAssessmentArgs}
    {ws : List Write} {row : CreditAssessment} {snapshot : CreditProfileSnapshot}
    {decision : CreditDecision} (h : AssessmentRun V env args ws row snapshot decision)
    (hadm : database.Admissible s ws) : Effect s (database.applyAll ws s) := by
  obtain ⟨hassessments, hsnapshots⟩ := h.rows hadm
  refine .created _ snapshot h.scored.1 h.scored.2 ?_ hassessments hsnapshots
  intro old hold heq
  obtain ⟨record, _, _, _, _, _, -, -, -, -, d, event, rfl⟩ := h.found
  have habsent : ¬ database.present s (.snapshot snapshot.id) = true :=
    hadm.absent (w := .snapshot snapshot) (by simp) (by simp [database, Write.adds])
  refine habsent (Option.isSome_iff_exists.mpr ⟨old, ?_⟩)
  exact Table.get?_eq_some.mpr ⟨hold, heq⟩

theorem effect_of_commits {l : Env × Label α} {h : List (Event Stmt Write)} {a : α}
    (hc : traceRules.Commits s T l h a) : Effect s (database.applyAll (writes h) s) := by
  obtain ⟨env, l⟩ := l
  have hruns := runs_of_completes hc.path hc.evidence
  have hadm : database.Admissible s (writes h) := hc.admissible
  cases l with
  | createAssessment args =>
      rcases createAssessmentTx_runs (replying_trace _) hruns with
        hnil | ⟨row, snapshot, decision, hrun⟩
      · rw [hnil]
        exact .none rfl rfl
      · exact hrun.effect hadm
  | statement q =>
      obtain ⟨⟨_, _, _, _, hexec⟩, -⟩ := runs_send.mp hruns
      exact effect_of_replies hc.pre (replies_of_exec hexec)

end Commits

/-! ## Runs -/

theorem common_traced : Common Label.traced where
  create := fun _ => trivial
  statement := by
    intro α q hq
    cases q with
    | createSnapshot | createAssessment | updateAssessment | reviewAssessment => cases hq
    | _ => trivial

theorem program_traced {env : Env} {call : Call}
    (hcall : call.context.actor.all fun actor => actor.actorId ≠ "") :
    (call.program env).Uses Label.traced := by
  refine program_uses_of common_traced call ?_
  rintro id reviewRationale decision context actor now rfl hactor
  have hactor : actor.actorId ≠ "" := by
    simpa [Call.context, hactor] using hcall
  exact ⟨decision, actor, now, reviewRationale, hactor, rfl⟩

theorem traceRules_valid : traceRules.Valid provisioned := by
  refine Rules.static_valid lawful_database Store.KeepsScores.refl
    (fun _ _ _ h h' => h.trans h') ?_ ?_ ?_
  · exact Rules.unguarded_statements (fun _ => rfl) fun _ _ _ _ => trivial
  · intro β s T l h a hc
    have heffect : Effect s (database.applyAll (writes h) s) := effect_of_commits hc
    exact ⟨heffect.traceable hc.inv, heffect.keepsScores, trivial⟩
  · intro c call hok _
    have huses : (configured.system.program call).Uses fun {β} (l : Env × Label β) => l.2.traced :=
      (program_traced (by simpa [provisioned] using hok)).relabel fun _ hl => hl
    exact Rules.Fine.of_uses huses (fun _ _ _ hl => hl) c.store ∅

/-- Whatever the thresholds were when the calls started, every assessment can be traced to its own
snapshot, has all of a decision or nothing of it, and keeps its score. -/
theorem assessments_traceable {s : Store} (hempty : s.assessments.rows = [])
    {c c' : ConfiguredConfig} (h : Steps configured.system provisioned (.initial s) c)
    (h' : Steps configured.system provisioned c c') :
    (∀ x ∈ c.store.assessments.rows, x.Signed ∧
      (∀ snapshot, (CreditService.mapAssessment x snapshot).reviewDecision.isSome = x.decided) ∧
      (∃ snapshot ∈ c.store.snapshots.rows, x.Follows snapshot) ∧
      ∀ y ∈ c.store.assessments.rows,
        x.creditProfileSnapshotId = y.creditProfileSnapshotId → x = y) ∧
    c.store.KeepsScores c'.store := by
  have hs : s.Traceable := ⟨by simp [hempty], by simp [hempty], by simp [hempty]⟩
  obtain ⟨⟨own, hsound⟩, -⟩ := Rules.sound_of_steps traceRules_valid hs h
  have hinv : c.store.Traceable := hsound.inv
  refine ⟨fun x hx => ⟨hinv.signed x hx, fun snapshot => ?_, hinv.follows x hx, hinv.alone x hx⟩,
    (hsound.steps traceRules_valid h').2⟩
  exact (hinv.signed x hx).reviewDecision snapshot

/-! ### Two configurations -/

/-- The test environment with other thresholds. -/
def raisedEnvironment : Env :=
  { testEnvironment with scoreApproveThreshold := 800, scoreRejectThreshold := 600 }

/-- The thread makes `n` steps, with new identifiers in each. -/
def configuredSteps (i : Nat) (tag : String) (n : Nat) : List (Action Choice (Env × Call)) :=
  (List.range n).map fun k => .advance i (choiceOf (tag ++ toString k ++ "-"))

/-- An assessment, and another one after the thresholds are raised. -/
def raisedSchedule : List (Action Choice (Env × Call)) :=
  .start (testEnvironment, .createAssessment ⟨"customer", "officer"⟩ (demoContext "k")) ::
    .start (raisedEnvironment, .createAssessment ⟨"customer", "officer"⟩ (demoContext "l")) ::
    (configuredSteps 0 "a" 14 ++ configuredSteps 1 "b" 14)

/-- A review of the first assessment. -/
def reviewSchedule : List (Action Choice (Env × Call)) :=
  .start (raisedEnvironment, .reviewAssessment "id-a7-0" "reason" .approved reviewer) ::
    configuredSteps 2 "c" 12

/-- The review keeps the score, and the threshold of the time when the assessment was made. -/
theorem assessments_traceable_raised : ∃ c c' : ConfiguredConfig,
    c.store.assessments.rows.map (fun x => (x.status, x.score, x.approvedThreshold)) =
      [(.underReview, some 570, 700), (.underReview, some 570, 800)] ∧
    c'.store.assessments.rows.map (fun x => (x.status, x.score, x.approvedThreshold)) =
      [(.approved, some 570, 700), (.underReview, some 570, 800)] ∧
    c.store.KeepsScores c'.store ∧
    ∀ x ∈ c'.store.assessments.rows, ∃ snapshot ∈ c'.store.snapshots.rows,
      x.Follows snapshot := by
  obtain ⟨c, hplay, hrows⟩ := play_of_decide configured.system provisioned
    (.initial (.over demoStore)) raisedSchedule
    (fun c => c.store.assessments.rows.map (fun x => (x.status, x.score, x.approvedThreshold)) =
      [(.underReview, some 570, 700), (.underReview, some 570, 800)]) (by decide +kernel)
  obtain ⟨c', hwhole, hrows'⟩ := play_of_decide configured.system provisioned
    (.initial (.over demoStore)) (raisedSchedule ++ reviewSchedule)
    (fun c => c.store.assessments.rows.map (fun x => (x.status, x.score, x.approvedThreshold)) =
      [(.approved, some 570, 700), (.underReview, some 570, 800)]) (by decide +kernel)
  have hreview : Steps configured.system provisioned c c' :=
    play_steps ((play_append hplay).symm.trans hwhole)
  obtain ⟨-, hkeeps⟩ := assessments_traceable rfl (play_steps hplay) hreview
  obtain ⟨htraceable, -⟩ := assessments_traceable rfl (play_steps hwhole) .refl
  exact ⟨c, c', hrows, hrows', hkeeps, fun x hx => (htraceable x hx).2.2.1⟩

end LedgerCredit.Credit
