import LedgerCredit.Credit.Ownership
import LedgerCredit.Credit.Runs

/-!
# Reviews of an assessment

`reviewAssessment` reads the status of the assessment and updates it by its id
later, in another statement.  Two reviews that both read `UNDER_REVIEW` both
decide, and the second decision replaces the first.

If every update finds the assessment still under review, one review at most
decides.  The proof gives a token to the thread whose commit stored the decision.
A thread needs the token to return, and no two threads own it.
-/

namespace LedgerCredit.Credit

open Txn

/-- The final decision on an assessment is stored. -/
def CreditAssessment.decided (x : CreditAssessment) : Bool :=
  x.status = .approved || x.status = .rejected

def Store.Decided (s : Store) (id : Uuid) : Prop :=
  ∃ x, s.assessments.get? id = some x ∧ x.decided = true

/-- A decision on the assessment stays as it is. -/
def Store.KeepsDecision (id : Uuid) (s s' : Store) : Prop :=
  ∀ x, s.assessments.get? id = some x → x.decided = true → s'.assessments.get? id = some x

/-- The statement decides on the assessment. -/
def Stmt.reviews (id : Uuid) : {α : Type} → Stmt α → Bool
  | _, .reviewAssessment id' _ => id' = id
  | _, _ => false

/-- A statement outside of transactions that is no decision. -/
def Stmt.common : {α : Type} → Stmt α → Bool
  | _, .createSnapshot _ | _, .createAssessment _ | _, .updateAssessment ..
  | _, .reviewAssessment .. | _, .createIdempotencyRecord _ | _, .updateIdempotencyRecord .. => false
  | _, _ => true

def Label.reviews (id : Uuid) : {α : Type} → Label α → Bool
  | _, .statement q => q.reviews id
  | _, _ => false

/-- The transactions that the calls run. -/
def Label.ofCalls : {α : Type} → Label α → Prop
  | _, .statement (.createAssessment _) => False
  | _, .statement (.updateAssessment _ _) => False
  | _, .statement (.reviewAssessment _ data) =>
      ∃ decision : CreditService.Decision, data.status = decision.status
  | _, _ => True

abbrev ServerConfig := Config Stmt Label TxError Store Write Unit Call Reply

/-- Every update by a review finds the assessment under review. -/
def reviewsUndecided (env : Env) (id : Uuid) (c : ServerConfig) (a : Action Choice Call) : Bool :=
  match a with
  | .advance i ch =>
      match (services env).nextEvent c i ch with
      | some e => !e.query.reviews id ||
          (c.store.assessments.get? id).all fun x => x.status = .underReview
      | none => true
  | _ => true

/-- The call is a review of the assessment. -/
def Call.Reviews (id : Uuid) : Call → Prop
  | .reviewAssessment id' .. => id' = id
  | _ => False

/-! ## Rules -/

section Rules

variable {env : Env} {id : Uuid}

/-- The rules of reviews.  The token is born with the decision. -/
def reviewRules (env : Env) (id : Uuid) : Rules (services env) Unit Unit where
  Inv := fun _ => True
  le := Store.KeepsDecision id
  born := fun s _ => s.Decided id
  rely := fun _ _ _ => True
  pre := fun _ _ l => l.ofCalls
  post := fun _ T l _ _ T' => T ⊆ T' ∧ (l.reviews id = true → () ∈ T')
  done := fun call a _ T => call.Reviews id → a ≠ .done → () ∈ T
  guard := fun _ => []
  Cur := fun s _ _ e => e.query.reviews id = true →
    Key.assessment id ∈ database.locksOf e.writes ∧ ¬ s.Decided id

theorem Store.KeepsDecision.decided {s s' : Store} (h : s.KeepsDecision id s') (hs : s.Decided id) :
    s'.Decided id := by
  obtain ⟨x, hx, hdecided⟩ := hs
  exact ⟨x, h x hx hdecided, hdecided⟩

theorem keepsDecision_of_eq {s s' : Store} (h : s'.assessments.get? id = s.assessments.get? id) :
    s.KeepsDecision id s' :=
  fun _ hx _ => h.trans hx

/-- What a transaction that commits was sent. -/
theorem replying_evidence {s : Store} {α : Type} (l : Label α) :
    Replying ((reviewRules env id).Evidence s l) := by
  rintro p β q r ws ⟨⟨_, _, _, _, hexec⟩, -⟩
  exact replies_of_exec hexec

/-- A statement outside of the transactions writes to an assessment only when it reviews it. -/
theorem untouched_of_replies {α : Type} {q : Stmt α} (hcalls : (Label.statement q).ofCalls)
    (hreviews : q.reviews id = false) {r : α} {ws : List Write} (h : Replies q r ws) :
    Key.assessment id ∉ database.locksOf ws := by
  have hnil : Key.assessment id ∉ database.locksOf [] := by simp [Database.locksOf]
  cases q with
  | createAssessment data => exact False.elim hcalls
  | updateAssessment id' data => exact False.elim hcalls
  | reviewAssessment id' data =>
      obtain ⟨-, rfl⟩ := h
      have hne : id' ≠ id := by simpa [Stmt.reviews] using hreviews
      simp [Database.locksOf, database, Write.locks, Ne.symm hne]
  | createAuditEvent data =>
      obtain ⟨u, rfl⟩ := h
      simp [Database.locksOf, database, Write.locks]
  | createSnapshot data =>
      obtain ⟨-, rfl⟩ := h
      simp [Database.locksOf, database, Write.locks, Write.adds]
  | createIdempotencyRecord data =>
      obtain ⟨-, rfl⟩ := h
      simp [Database.locksOf, database, Write.locks, Write.adds]
  | updateIdempotencyRecord id' data =>
      obtain rfl := h
      simp [Database.locksOf, database, Write.locks]
  | _ =>
      obtain rfl := h
      exact hnil

variable {s : Store} {T : Set Unit} {α : Type} {l : Label α} {h : List (Event Stmt Write)} {a : α}

/-- The one statement of a transaction that is a statement. -/
theorem commits_statement {q : Stmt α}
    (hc : (reviewRules env id).Commits s T (.statement q) h a) : Replies q a (writes h) ∧
      (q.reviews id = true → ¬ s.Decided id) := by
  have hruns := runs_of_completes hc.path hc.evidence
  obtain ⟨⟨_, _, _, _, hexec⟩, hcur⟩ := runs_send.mp hruns
  exact ⟨replies_of_exec hexec, fun hreviews => (hcur hreviews).2⟩

/-- A commit keeps a decision. -/
theorem commits_keepsDecision (hc : (reviewRules env id).Commits s T l h a) :
    s.KeepsDecision id (database.applyAll (writes h) s) := by
  cases l with
  | createAssessment args =>
      have hruns := runs_of_completes hc.path hc.evidence
      rcases createAssessment_runs (replying_evidence _) hruns with hnil | ⟨row, hrow⟩
      · rw [hnil]
        exact keepsDecision_of_eq rfl
      · intro x hx hdecided
        have hsome : (s.assessments.get? id).isSome := by rw [hx]; rfl
        exact (hrow.untouched hc.admissible hsome).trans hx
  | statement q =>
      obtain ⟨hreplies, hcur⟩ := commits_statement hc
      cases hreviews : q.reviews id with
      | false =>
          exact keepsDecision_of_eq (get?_applyAll (untouched_of_replies hc.pre hreviews hreplies) s)
      | true =>
          intro x hx hdecided
          exact absurd ⟨x, hx, hdecided⟩ (hcur hreviews)

/-- A review that commits stores a decision. -/
theorem commits_decides (hc : (reviewRules env id).Commits s T l h a) (hl : l.reviews id = true) :
    ¬ s.Decided id ∧ (database.applyAll (writes h) s).Decided id := by
  cases l with
  | createAssessment args => cases hl
  | statement q =>
      obtain ⟨hreplies, hcur⟩ := commits_statement hc
      refine ⟨hcur hl, ?_⟩
      cases q with
      | reviewAssessment id' data =>
          obtain rfl : id' = id := by simpa [Label.reviews, Stmt.reviews] using hl
          obtain ⟨-, hwrites⟩ := hreplies
          obtain ⟨decision, hdecision⟩ : ∃ decision : CreditService.Decision,
              data.status = decision.status := hc.pre
          have hadm : database.Admissible s (writes h) := hc.admissible
          rw [hwrites] at hadm ⊢
          obtain ⟨x, hx⟩ := Option.isSome_iff_exists.mp (hadm.2.1 (.assessment id') (by
            simp [database, Write.needs]))
          refine ⟨data.apply x, ?_, ?_⟩
          · show ((Write.updateAssessment id' data).apply s).assessments.get? id' = _
            rw [get?_updateAssessment, hx]
            simp
          · show (data.status = .approved || data.status = .rejected) = true
            rw [hdecision]
            cases decision <;> rfl
      | _ => cases hl

/-! ## Calls -/

theorem uses_statement {P : ∀ {α : Type}, Label α → Prop} {q : Stmt α}
    (hq : P (Label.statement q)) : (statement q).Uses P := .transaction (l := Label.statement q) hq

theorem uses_ofExcept {P : ∀ {α : Type}, Label α → Prop} {x : Except AppException α} :
    (Process.ofExcept x).Uses P := by
  cases x with
  | ok a => exact .pure
  | error e => exact .throw

theorem uses_orThrow {P : ∀ {α : Type}, Label α → Prop} {o : Option α} {e : AppException} :
    (Process.orThrow o e).Uses P := by
  cases o with
  | some a => exact .pure
  | none => exact .throw

theorem uses_reply {P : ∀ {α : Type}, Label α → Prop} {x : Process α} {f : α → Reply}
    (hx : x.Uses P) : (x >>= fun r => pure (f r) : Process Reply).Uses P :=
  .bind hx fun _ => .pure

/-- What the calls run, besides the update of a review. -/
structure Common (P : ∀ {α : Type}, Label α → Prop) : Prop where
  create : ∀ args, P (.createAssessment args)
  statement : ∀ {α : Type} (q : Stmt α), q.common = true → P (.statement q)

/-- The columns that a review sets. -/
def reviewData (decision : CreditService.Decision) (actor : RequestActor) (now : Time)
    (reviewRationale : String) : CreditAssessmentUpdate where
  status := decision.status
  reviewedByActorId := some (some actor.actorId)
  reviewedByActorType := some (some actor.actorType)
  reviewDecisionedAt := some now
  reviewRationale := some reviewRationale

theorem reviewAssessment_uses {P : ∀ {α : Type}, Label α → Prop} (hP : Common P)
    (reviewRationale : String) (decision : CreditService.Decision) (context : RequestContext)
    (hreview : ∀ actor now, context.actor = some actor →
      P (.statement (.reviewAssessment id (reviewData decision actor now reviewRationale)))) :
    (CreditService.reviewAssessment id reviewRationale decision context).Uses P := by
  obtain ⟨correlationId, idempotencyKey, o⟩ := context
  cases o with
  | none => exact .throw
  | some actor =>
      refine .bind uses_ofExcept fun _ => ?_
      refine .bind (uses_statement (hP.statement (.findAssessment _) rfl)) fun found => ?_
      refine .bind uses_orThrow fun found => ?_
      show (if found.1.status ≠ .underReview then _ else _ : Process _).Uses _
      split
      · exact .throw
      · refine .bind (uses_statement (hP.statement .newDate rfl)) fun now => ?_
        refine .bind (uses_statement (hreview actor now rfl)) fun _ => ?_
        exact .bind (uses_statement (hP.statement (.createAuditEvent _) rfl)) fun _ => .pure

/-- The calls run the transactions they are made of. -/
theorem program_uses_of {P : ∀ {α : Type}, Label α → Prop} (hP : Common P) (call : Call)
    (hreview : ∀ id reviewRationale decision context actor now,
      call = .reviewAssessment id reviewRationale decision context → context.actor = some actor →
      P (.statement (.reviewAssessment id (reviewData decision actor now reviewRationale)))) :
    (call.program env).Uses P := by
  cases call with
  | getTransferById transferRequestId context =>
      refine uses_reply (.bind (uses_statement (hP.statement (.findTransferRequest _) rfl)) fun _ => ?_)
      exact .bind uses_orThrow fun _ => .bind uses_ofExcept fun _ => .pure
  | getBalance accountId context =>
      refine uses_reply (.bind (uses_statement (hP.statement (.findAccount _) rfl)) fun _ => ?_)
      refine .bind uses_orThrow fun _ => .bind uses_ofExcept fun _ => ?_
      exact .bind (uses_statement (hP.statement (.createAuditEvent _) rfl)) fun _ => .pure
  | getLedgerEntries accountId context cursor limit =>
      refine uses_reply (.bind (uses_statement (hP.statement (.findAccount _) rfl)) fun _ => ?_)
      refine .bind uses_orThrow fun _ => .bind uses_ofExcept fun _ => .bind uses_ofExcept fun _ => ?_
      refine .bind (uses_statement (hP.statement (.findStatementLines ..) rfl)) fun _ => ?_
      exact .bind (uses_statement (hP.statement (.createAuditEvent _) rfl)) fun _ => .pure
  | createAssessment input context =>
      exact uses_reply (.bind uses_ofExcept fun args => .transaction (hP.create args))
  | getAssessmentById creditAssessmentId context =>
      refine uses_reply (.bind (uses_statement (hP.statement (.findAssessment _) rfl)) fun _ => ?_)
      exact .bind uses_orThrow fun _ => .bind uses_ofExcept fun _ => .pure
  | reviewAssessment creditAssessmentId reviewRationale decision context =>
      exact uses_reply (reviewAssessment_uses hP reviewRationale decision context fun actor now =>
        hreview _ _ _ _ actor now rfl)

theorem common_ofCalls : Common Label.ofCalls where
  create := fun _ => trivial
  statement := by
    intro α q hq
    cases q with
    | createAssessment | updateAssessment | reviewAssessment => cases hq
    | _ => trivial

theorem program_uses (call : Call) : (call.program env).Uses Label.ofCalls :=
  program_uses_of common_ofCalls call fun _ _ decision _ _ _ _ _ => ⟨decision, rfl⟩

theorem safe_statement {q : Stmt α} (hq : (Label.statement q).ofCalls)
    {A : α → Store → Set Unit → Prop}
    (hA : ∀ r s' T', T ⊆ T' → (q.reviews id = true → () ∈ T') → A r s' T') :
    (reviewRules env id).Safe (statement q) A (fun _ _ _ => True) s T :=
  Rules.Safe.transaction (fun _ _ => hq) (fun _ _ _ => trivial)
    fun _ _ a s'' T'' _ _ hpost => hA a s'' T'' hpost.1 hpost.2

/-- A review that returns has the token. -/
theorem reviewAssessment_safe (reviewRationale : String) (decision : CreditService.Decision)
    (context : RequestContext) :
    (reviewRules env id).Safe (CreditService.reviewAssessment id reviewRationale decision context)
      (fun _ _ T => () ∈ T) (fun _ _ _ => True) s T := by
  refine Rules.Safe.bind ?_
  cases hactor : assertAuthenticated context with
  | error e => trivial
  | ok _ =>
      refine Rules.Safe.bind (p := statement (.findAssessment id)) ?_
      refine safe_statement (q := .findAssessment id) trivial fun found s T _ _ => ?_
      cases found with
      | none => trivial
      | some found =>
          show (reviewRules env id).Safe (if _ then _ else _) _ _ s T
          split
          · trivial
          · refine Rules.Safe.bind (p := statement .newDate) ?_
            refine safe_statement (q := .newDate) trivial fun now s T _ _ => ?_
            refine Rules.Safe.bind (p := statement (.reviewAssessment id _)) ?_
            refine safe_statement (q := .reviewAssessment id _) (by exact ⟨decision, rfl⟩)
              fun updated s T _ hreviewed => ?_
            have htoken : () ∈ T := hreviewed (decide_eq_true rfl)
            refine Rules.Safe.bind (p := statement (.createAuditEvent _)) ?_
            exact safe_statement (q := .createAuditEvent _) (by exact trivial)
              fun _ s' T' hsub _ => hsub htoken

theorem program_safe (call : Call) :
    (reviewRules env id).Safe (call.program env) ((reviewRules env id).done call)
      (fun _ _ _ => True) s ∅ := by
  have huses : (reviewRules env id).Safe (call.program env) (fun _ _ _ => True)
      (fun _ _ _ => True) s ∅ :=
    Rules.Fine.of_uses (program_uses call) (fun _ _ _ hl => hl) s ∅
  cases call with
  | reviewAssessment id' reviewRationale decision context =>
      by_cases heq : id' = id
      · subst heq
        refine Rules.Safe.bind ((reviewAssessment_safe reviewRationale decision context).mono
          (fun r s T hr => ?_) fun _ _ _ h => h)
        exact fun _ _ => hr
      · exact huses.mono (fun a s T _ hreviews => absurd hreviews heq) fun _ _ _ h => h
  | _ => exact huses.mono (fun a s T _ hreviews => False.elim hreviews) fun _ _ _ h => h

/-- A review that was executed locks the assessment. -/
theorem locks_of_replies {q : Stmt α} {r : α} {ws : List Write} (hreviews : q.reviews id = true)
    (h : Replies q r ws) : Key.assessment id ∈ database.locksOf ws := by
  cases q with
  | reviewAssessment id' data =>
      obtain ⟨-, rfl⟩ := h
      have heq : id' = id := by simpa [Stmt.reviews] using hreviews
      simp [Database.locksOf, database, Write.locks, heq]
  | _ => cases hreviews

theorem reviewRules_statements :
    (reviewRules env id).Statements (reviewsUndecided env id) where
  guarded := by
    intros
    exact List.disjoint_nil_right _
  current := by
    intro c i ch call pool β α l h q k' k r ws T hok hth hexec _ _ hreviews
    have hreplies : Replies q r ws := replies_of_exec hexec
    refine ⟨locks_of_replies hreviews hreplies, ?_⟩
    rintro ⟨x, hx, hdecided⟩
    simp only [reviewsUndecided, nextEvent_statement hth hexec] at hok
    rw [hx, show q.reviews id = true from hreviews] at hok
    have hstatus : x.status = .underReview := by simpa using hok
    simp [CreditAssessment.decided, hstatus] at hdecided
  frame := by
    intro β β' s T l h a T' l' p e hc _ _ hlocks _ hcur hreviews
    obtain ⟨hlock, hundecided⟩ := hcur hreviews
    refine ⟨hlock, fun hdecided => hundecided ?_⟩
    -- the update holds the lock of the row that the commit would write
    have hfree : Key.assessment id ∉ database.locksOf (writes h) := fun hmem =>
      hlocks hmem (by
        rw [Database.locksOf, List.flatMap_append]
        exact List.mem_append_right _ hlock)
    obtain ⟨x, hx, hdecided⟩ := hdecided
    exact ⟨x, (get?_applyAll hfree s).symm.trans hx, hdecided⟩

theorem reviewRules_valid : (reviewRules env id).Valid (reviewsUndecided env id) where
  lawful := lawful_database
  le_refl := fun _ _ hx _ => hx
  le_trans := fun _ _ _ h h' x hx hdecided => h' x (h x hx hdecided) hdecided
  rely_refl := fun _ _ => trivial
  rely_trans := fun _ _ _ _ _ _ => trivial
  born_mono := fun _ _ h _ hs => h.decided hs
  statements := reviewRules_statements
  commit := fun _ _ _ _ _ hc => ⟨trivial, commits_keepsDecision hc⟩
  guarantee := fun _ _ _ _ _ _ _ _ => trivial
  result := by
    intro β s T l h a hc
    cases hl : l.reviews id with
    | false => exact ⟨T, Set.subset_union_left, Set.Subset.refl T, by simp [hl]⟩
    | true =>
        obtain ⟨hundecided, hdecided⟩ := commits_decides hc hl
        refine ⟨T ∪ {()}, Set.union_subset_union_right T ?_, Set.subset_union_left, fun _ => ?_⟩
        · rintro t -
          exact ⟨hdecided, hundecided⟩
        · exact Or.inr rfl
  start := fun c call _ _ => Or.inl (program_safe call)
  done_le := fun _ _ _ _ _ h _ _ => h
  done_idle := fun _ _ _ _ hne => absurd rfl hne

end Rules

/-! ## One decision -/

section Runs

variable {env : Env} {id : Uuid} {s : Store}

/-- The thread has returned the result of a review of the assessment. -/
def Reviewed (id : Uuid) (c : ServerConfig) (i : Nat) : Bool :=
  match c.threads[i]? with
  | some ⟨.reviewAssessment id' _ _ _, _, .run (.pure (.assessment _))⟩ => id' = id
  | _ => false

theorem thread_of_reviewed {c : ServerConfig} {i : Nat} (h : Reviewed id c i = true) :
    ∃ call pool r, c.threads[i]? = some ⟨call, pool, .run (.pure (.assessment r))⟩ ∧
      call.Reviews id := by
  unfold Reviewed at h
  split at h
  · rename_i hth
    exact ⟨_, _, _, hth, (of_decide_eq_true h : _ = id)⟩
  · cases h

/-- If every update by a review finds the assessment under review, one review at most returns a
result, and a stored decision stays. -/
theorem reviewed_once {c c' : ServerConfig}
    (h : Steps (services env) (reviewsUndecided env id) (.initial s) c)
    (h' : Steps (services env) (reviewsUndecided env id) c c') :
    (∀ i j, Reviewed id c i = true → Reviewed id c j = true → i = j) ∧
      ∀ x, c.store.assessments.get? id = some x → x.status = .approved ∨ x.status = .rejected →
        c'.store.assessments.get? id = some x := by
  obtain ⟨⟨own, hsound⟩, -⟩ := Rules.sound_of_steps reviewRules_valid trivial h
  have hkeeps : c.store.KeepsDecision id c'.store := (hsound.steps reviewRules_valid h').2
  refine ⟨fun i j hi hj => ?_, fun x hx hstatus => hkeeps x hx (by
    simpa [CreditAssessment.decided] using hstatus)⟩
  have howns : ∀ {i : Nat}, Reviewed id c i = true → () ∈ own (.thread i) := by
    intro i hi
    obtain ⟨call, pool, r, hth, hreviews⟩ := thread_of_reviewed hi
    have hdone : (reviewRules env id).done call (.assessment r) c.store (own (.thread i)) :=
      hsound.thread i _ hth
    exact hdone hreviews (by simp)
  by_contra hne
  have hdis := hsound.disjoint (.thread i) (.thread j) (by simpa using hne)
  exact Set.disjoint_left.mp hdis (howns hi) (howns hj)

end Runs

/-! ### Two reviews -/

/-- The demo store with one assessment that is under review. -/
def reviewStore : Store :=
  { Store.over demoStore with
    snapshots := Table.empty.insert ⟨"snapshot", "customer", 100, 0, 0, "v1", 0, 0⟩
    assessments := Table.empty.insert
      { id := "assessment"
        customerId := "customer"
        creditProfileSnapshotId := "snapshot"
        status := .underReview
        score := some 600
        rationaleSummary := none
        policyVersion := "v1"
        requestedBy := "officer"
        reviewedByActorId := none
        reviewedByActorType := none
        reviewDecisionedAt := none
        reviewRationale := none
        approvedThreshold := 700
        rejectedThreshold := 550 } }

def reviewer : RequestContext := ⟨"correlation", none, some ⟨"reviewer", .ops⟩⟩

def review (decision : CreditService.Decision) : Action Choice Call :=
  .start (.reviewAssessment "assessment" "reason" decision reviewer)

/-- Thread `i` makes `n` steps, with new identifiers in each. -/
def reviewSteps (i : Nat) (tag : String) (n : Nat) : List (Action Choice Call) :=
  (List.range n).map fun k => .advance i (choiceOf (tag ++ toString k ++ "-"))

/-- Both reviews find the assessment under review, and the first stores its decision. -/
def approvedSchedule : List (Action Choice Call) :=
  review .approved :: review .rejected ::
    (reviewSteps 0 "a" 3 ++ reviewSteps 1 "b" 3 ++ reviewSteps 0 "c" 9)

/-- The decision that is stored. -/
def decision (c : ServerConfig) : Option CreditAssessmentStatus :=
  (c.store.assessments.get? "assessment").map (·.status)

/-- The second review finds the decision of the first and throws. -/
theorem reviewed_once_in_turn : ∃ c c' : ServerConfig,
    Steps (services testEnvironment) (reviewsUndecided testEnvironment "assessment") c c' ∧
      Reviewed "assessment" c 0 = true ∧
      (∀ i j, Reviewed "assessment" c i = true → Reviewed "assessment" c j = true → i = j) ∧
      c'.store.assessments.get? "assessment" = c.store.assessments.get? "assessment" := by
  obtain ⟨c, hplay, hreviewed, hdecision⟩ := play_of_decide (services testEnvironment)
    (reviewsUndecided testEnvironment "assessment") (.initial reviewStore)
    (review .approved :: reviewSteps 0 "a" 12)
    (fun c => Reviewed "assessment" c 0 = true ∧ decision c = some .approved) (by decide +kernel)
  obtain ⟨c', hwhole, -⟩ := play_of_decide (services testEnvironment)
    (reviewsUndecided testEnvironment "assessment") (.initial reviewStore)
    (review .approved :: reviewSteps 0 "a" 12 ++ review .rejected :: reviewSteps 1 "b" 3)
    (fun _ => True) (by decide +kernel)
  have hrun : Steps (services testEnvironment) (reviewsUndecided testEnvironment "assessment") c c' :=
    play_steps ((play_append hplay).symm.trans hwhole)
  obtain ⟨honce, hkeeps⟩ := reviewed_once (play_steps hplay) hrun
  refine ⟨c, c', hrun, hreviewed, honce, ?_⟩
  obtain ⟨x, hx, hstatus⟩ := Option.map_eq_some_iff.mp hdecision
  rw [hx]
  exact hkeeps x hx (Or.inl hstatus)

/-- Both reviews return a result, and the second replaces the decision of the first. -/
theorem decision_replaced : ∃ c c' : ServerConfig,
    Steps (services testEnvironment) (fun _ _ => true) (.initial reviewStore) c ∧
      Steps (services testEnvironment) (fun _ _ => true) c c' ∧
      decision c = some .approved ∧ decision c' = some .rejected ∧
      Reviewed "assessment" c' 0 = true ∧ Reviewed "assessment" c' 1 = true := by
  obtain ⟨c, hplay, hdecision⟩ := play_of_decide (services testEnvironment) (fun _ _ => true)
    (.initial reviewStore) approvedSchedule (fun c => decision c = some .approved)
    (by decide +kernel)
  obtain ⟨c', hwhole, hdecision', hfirst, hsecond⟩ := play_of_decide (services testEnvironment)
    (fun _ _ => true) (.initial reviewStore) (approvedSchedule ++ reviewSteps 1 "d" 9)
    (fun c => decision c = some .rejected ∧ Reviewed "assessment" c 0 = true ∧
      Reviewed "assessment" c 1 = true) (by decide +kernel)
  exact ⟨c, c', play_steps hplay, play_steps ((play_append hplay).symm.trans hwhole), hdecision,
    hdecision', hfirst, hsecond⟩

end LedgerCredit.Credit
