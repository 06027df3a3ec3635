import LedgerCredit.Keys
import LedgerCredit.Txn.Stages

/-!
# Submission of accepted transfers

`createTransfer` commits an external transfer first and publishes the job that
submits it afterwards.  If the process stops in between, or the publication
fails, then nobody publishes the job: a retry finds the stored response and
returns it.  `CreateStage` lists where a call of `createTransfer` can be, and
`undisturbed` schedules let it finish its publication.  On them every response
that accepts a transfer has a job behind it, or one that is about to be.
-/

namespace LedgerCredit

open Txn

/-! ## Stages of a creation -/

/-- What is left of a call of `createTransfer`, where jobs are published to the queue. -/
inductive CreateStage : Process Reply → Prop where
  | threw {e : TxError} : CreateStage (.throw e)
  | creating {args : CreateTransferArgs}
      {k : Except TxError TransferMutationResult → Process Reply} :
      (∀ r, CreateStage (k r)) →
      (∀ r id, truthy r.enqueueTransferId = some id →
        ∃ k', k (.ok r) = .call (.statement (.publishJob ⟨id⟩)) k') →
      CreateStage (.call (.createTransfer args) k)
  | publishing {job : SubmitJob} {k : Except TxError Unit → Process Reply} :
      (∀ r, CreateStage (k r)) → CreateStage (.call (.statement (.publishJob job)) k)
  | returned {r : Replay} : CreateStage (.pure (.created r))

theorem createStage_stages : Stages CreateStage where
  call := by
    intro α l k h r
    cases h with
    | creating hk _ => exact hk r
    | publishing hk => exact hk r
  single := by
    intro n ids body k h
    cases h

theorem createStage_program {env : Env} (henv : env.nodeEnv ≠ .test) (input : CreateTransferRequest)
    (context : RequestContext) : CreateStage (Call.program env (.createTransfer input context)) := by
  rw [Call.program, TransfersService.createTransfer]
  cases TransfersService.transferArgs env input context with
  | error e => exact .threw
  | ok args =>
      refine .creating (fun x => ?_) fun r id henqueue => ?_
      · cases x with
        | error e => exact .threw
        | ok r =>
            simp only [Proc.ofResult, Proc.bind]
            cases truthy r.enqueueTransferId with
            | none => exact .returned
            | some id =>
                simp only [ExternalRailService.enqueueTransferSubmission, henv, if_false]
                refine .publishing fun y => ?_
                cases y with
                | error e => exact .threw
                | ok _ => exact .returned
      · simp only [Proc.ofResult, Proc.bind, bind, henqueue,
          ExternalRailService.enqueueTransferSubmission, henv, if_false]
        exact ⟨_, rfl⟩

/-! ## Publications -/

/-- The transfer whose submission a statement publishes. -/
def Label.publishes : {α : Type} → Label α → Option Uuid
  | _, .statement (.publishJob job) => some job.transferRequestId
  | _, _ => none

/-- The transfer whose submission a call of `createTransfer` is about to publish. -/
def publishing (th : Thread Stmt Label TxError Write Uuid Call Reply) : Option Uuid :=
  match th.call, th.code with
  | .createTransfer .., .run (.call l _) => l.publishes
  | .createTransfer .., .opened l _ _ _ => l.publishes
  | _, _ => none

/-- No failure meets a call of `createTransfer` that is about to publish: the process does not stop
then, and the publication does not fail. -/
def undisturbed (c : ServerConfig) : Action Choice Call → Bool
  | .crash => c.threads.all fun th => (publishing th).isNone
  | .abort i => (c.threads[i]?.bind publishing).isNone
  | _ => true

/-- The submission of the transfer is published, or about to be. -/
def InHand (c : ServerConfig) (id : Uuid) : Prop :=
  ⟨id⟩ ∈ c.store.jobs ∨ ∃ th ∈ c.threads, publishing th = some id

/-- A response that accepts the transfer is stored. -/
def Store.Promised (s : Store) (id : Uuid) : Prop :=
  ∃ record ∈ s.idempotencyRecords.rows, ∃ status correlationId,
    record.replay? = some ⟨202, .transfer id status correlationId⟩

section Commit

variable {s s' : Store} {ws : List Write} {V : View} {env : Env} {id : Uuid}

/-- Jobs stay published. -/
theorem jobs_applyAll (ws : List Write) (s : Store) : s.jobs ⊆ (database.applyAll ws s).jobs := by
  induction ws generalizing s with
  | nil => exact List.Subset.refl _
  | cons w ws ih =>
      refine List.Subset.trans ?_ (ih (w.apply s))
      cases w <;> first | exact List.Subset.refl _ | exact List.subset_append_left ..

/-- The response of a commit accepts the transfer. -/
def Label.accepts (id : Uuid) : {α : Type} → Label α → α → Prop
  | _, .createTransfer _, r => r.statusCode = 202 ∧
      ∃ status correlationId, r.body = .transfer id status correlationId
  | _, _, _ => False

/-- A commit that accepts a transfer asks for its submission, unless it replays. -/
theorem Committed.enqueues {α : Type} {l : Label α} {a : α} (h : Committed V env l a ws)
    (haccepts : l.accepts id a) : ws = [] ∨ l.enqueues a = some id := by
  cases h with
  | createTransfer hrun =>
      obtain ⟨hcode, status, correlationId, hbody⟩ := haccepts
      cases hrun with
      | replay _ _ _ => exact Or.inl rfl
      | internal _ _ _ _ _ _ _ _ => cases hcode
      | external _ _ _ _ _ _ _ =>
          cases hbody
          exact Or.inr rfl
  | _ => cases haccepts

/-- A commit promises the submissions that were promised before, and the one that it asks for. -/
theorem Committed.promised (hV : ∀ p e, V p e → Saw s p e) {α : Type} {l : Label α} {a : α}
    (hl : grounds s l) (h : Committed V env l a ws) (hadm : database.Admissible s ws)
    (hpromised : (database.applyAll ws s).Promised id) :
    s.Promised id ∨ truthy (l.enqueues a) = some id := by
  obtain ⟨record, hmem, status, correlationId, hreplay⟩ := hpromised
  obtain ⟨entries, -, heffect⟩ := h.effect hV hl hadm
  have hold : (database.applyAll ws s).idempotencyRecords = s.idempotencyRecords → s.Promised id :=
    fun hsame => ⟨record, hsame ▸ hmem, status, correlationId, hreplay⟩
  have hnew : l.accepts id a → id ≠ "" → s.Promised id ∨ truthy (l.enqueues a) = some id :=
    fun haccepts hne => by
      rcases h.enqueues haccepts with rfl | henqueues
      · exact Or.inl (hold rfl)
      · exact Or.inr (by simp [henqueues, truthy, hne])
  have hinitiated : ∀ {args : CreateTransferArgs} {r : TransferMutationResult} {t : TransferRequest}
      {u : Uuid} {source : LedgerAccount}, Initiated s (database.applyAll ws s) args r t u source →
      s.Promised id ∨ id ≠ "" ∧ Label.accepts id (.createTransfer args) r := by
    intro args r t u source hinitiated
    rw [hinitiated.idempotencyRecords] at hmem
    rcases List.mem_append.mp hmem with hmem | hmem
    · exact Or.inl ⟨record, hmem, status, correlationId, hreplay⟩
    · obtain rfl := List.mem_singleton.mp hmem
      obtain ⟨_, hbody⟩ := hinitiated.body
      simp [succeededRecord, IdempotencyRecord.replay?, IdempotencyRecordUpdate.apply,
        IdempotencyService.completeData, hinitiated.statusCode, hbody] at hreplay
      obtain ⟨hcode, rfl, rfl, rfl⟩ := hreplay
      exact Or.inr ⟨hinitiated.id_ne, hcode, _, _, hbody⟩
  cases heffect with
  | other _ _ hrecords _ => exact Or.inl (hold hrecords)
  | settled _ _ _ hrecords => exact Or.inl (hold hrecords)
  | compensated _ _ _ hrecords _ _ _ _ _ => exact Or.inl (hold hrecords)
  | replayed _ _ _ hsame => exact Or.inl (hold (congrArg _ hsame))
  | internal h₀ _ _ _ _ =>
      rcases hinitiated h₀ with hpromised | ⟨hne, haccepts⟩
      · exact Or.inl hpromised
      · exact hnew haccepts hne
  | external h₀ _ _ _ _ _ _ _ _ =>
      rcases hinitiated h₀ with hpromised | ⟨hne, haccepts⟩
      · exact Or.inl hpromised
      · exact hnew haccepts hne

/-- A publication publishes its job. -/
theorem Committed.publishes (hV : Answering V) {α : Type} {l : Label α} {a : α}
    (h : Committed V env l a ws) (hpublishes : l.publishes = some id) :
    ⟨id⟩ ∈ (database.applyAll ws s).jobs := by
  cases h with
  | @statement _ q _ _ hread =>
      cases q with
      | publishJob job =>
          obtain rfl := hV _ _ _ _ hread
          obtain rfl := Option.some.inj hpublishes
          exact List.mem_append_right _ (List.mem_singleton_self _)
      | _ => cases hpublishes
  | _ => cases hpublishes

end Commit

/-! ## Undisturbed runs -/

section Run

variable {env : Env} {s : Store} {c c' : ServerConfig} {id : Uuid}

/-- What is left of a call about transfers. -/
def stageOf : Call → Process Reply → Prop
  | .createTransfer .. => CreateStage
  | _ => Proc.Uses ofEvents

/-- No stage forks a pool. -/
theorem stage_single {call : Call} {n : Nat} {ids : List Uuid} {body : Uuid → Process Unit}
    {k : Except TxError Unit → Process Reply} : ¬ stageOf call (.all n ids body k) := by
  cases call with
  | createTransfer input context => exact createStage_stages.single
  | _ => exact stages_uses.single

/-- A call that asks for a submission publishes it next. -/
theorem stage_enqueues {call : Call} {α : Type} {l : Label α} {k : Except TxError α → Process Reply}
    {a : α} (h : stageOf call (.call l k)) (henqueues : truthy (l.enqueues a) = some id) :
    ∃ input context, call = .createTransfer input context ∧
      ∃ k', k (.ok a) = .call (.statement (.publishJob ⟨id⟩)) k' := by
  have hevents : ¬ Proc.Uses (L := Label) ofEvents (.call l k) := by
    intro huses
    cases huses with
    | call hl _ =>
        cases l with
        | createTransfer args => exact hl
        | _ => cases henqueues
  cases call with
  | createTransfer input context =>
      cases h with
      | creating _ hnext => exact ⟨input, context, rfl, hnext a id henqueues⟩
      | publishing _ => cases henqueues
  | _ => exact absurd h hevents

/-- The schedules of calls about transfers, without the failures that meet a publication. -/
def undisturbedTransfers (c : ServerConfig) (a : Action Choice Call) : Bool :=
  undisturbed c a && Starts Call.ofTransfers a

/-- Every thread is of a call about transfers, and at a stage of it. -/
theorem staged_of_steps (henv : env.nodeEnv ≠ .test)
    (h : Steps (server env) undisturbedTransfers (.initial s) c) :
    ∀ th ∈ c.threads, th.pool = none ∧ th.code.At (stageOf th.call) := by
  have hcalls := calls_of_steps (h.mono fun _ _ hok => (Bool.and_eq_true_iff.mp hok).2)
  have hat : ∀ th ∈ c.threads, th.At (fun call => call.ofTransfers = true) stageOf := by
    refine at_of_steps (fun call hcall => ?_) h
    cases call with
    | createTransfer input context =>
        exact ⟨createStage_stages, createStage_program henv input context⟩
    | _ => exact ⟨stages_uses, eventProgram_uses env hcall rfl⟩
  exact fun th hth => hat th hth (hcalls th hth)

/-- What a step leaves in hand: what others publish, and what is published. -/
theorem InHand.other {i : Nat} {th th' : Thread Stmt Label TxError Write Uuid Call Reply}
    (h : InHand c id) (hth : c.threads[i]? = some th)
    (hjobs : c.store.jobs ⊆ c'.store.jobs) (hthreads : c.threads.set i th' ⊆ c'.threads)
    (hkept : publishing th = some id → ⟨id⟩ ∈ c'.store.jobs ∨ publishing th' = some id) :
    InHand c' id := by
  rcases h with hjob | ⟨x, hx, hpublishing⟩
  · exact Or.inl (hjobs hjob)
  · obtain ⟨j, hj⟩ := List.mem_iff_getElem?.mp hx
    by_cases hij : i = j
    · subst hij
      obtain rfl := Option.some.inj (hth.symm.trans hj)
      rcases hkept hpublishing with hjob | hpublishing'
      · exact Or.inl hjob
      · refine Or.inr ⟨th', hthreads ?_, hpublishing'⟩
        exact List.mem_of_getElem? (List.getElem?_set_self (List.getElem?_eq_some_iff.mp hth).1)
    · refine Or.inr ⟨x, hthreads ?_, hpublishing⟩
      exact List.mem_of_getElem? ((List.getElem?_set_ne hij).trans hj)

/-- A publication that is open neither throws nor fails. -/
theorem not_fails_of_publishes {α : Type} {l : Label α} {i : Nat} {h : List (Event Stmt Write)}
    {t : Transaction α} {a : Action Choice Call} {e : TxError} (hpublishes : l.publishes = some id)
    (hpath : Path (l.body env) h t) (hfails : Fails (server env) c i h t a e) : a = .abort i := by
  cases l with
  | statement q =>
      cases q with
      | publishJob job =>
          have hsent : t = .query (.publishJob job) .pure ∨ t = .pure () := by
            cases hpath with
            | nil => exact Or.inl rfl
            | cons hrest =>
                cases hrest
                exact Or.inr rfl
          cases hfails with
          | abort => rfl
          | throw hthrow =>
              subst hthrow
              rcases hsent with hsent | hsent <;> cases hsent
          | statement hquery hexec =>
              subst hquery
              rcases hsent with hsent | hsent
              · cases hsent
                simp [server, database, Store.exec, Store.attempt, Store.violations, Store.violation,
                  Write.adds, Write.needs, Write.bigInts, Write.check] at hexec
              · cases hsent
      | _ => cases hpublishes
  | _ => cases hpublishes

/-- An undisturbed step keeps every promised submission in hand. -/
theorem inHand_step {a : Action Choice Call} {own : Owner → Set Empty}
    (hsound : (keyRules env s).Sound c own)
    (hstaged : ∀ th ∈ c.threads, th.pool = none ∧ th.code.At (stageOf th.call))
    (hok : undisturbed c a = true) (hstep : (server env).step c a = some c')
    (hc : ∀ id, c.store.Promised id → InHand c id) : c'.store.Promised id → InHand c' id := by
  intro hpromised
  cases step_cases hstep with
  | start call =>
      exact (hc id hpromised).imp_right fun ⟨th, hth, hpublishing⟩ =>
        ⟨th, List.mem_append_left _ hth, hpublishing⟩
  | crash =>
      refine (hc id hpromised).imp_right fun ⟨th, hth, hpublishing⟩ => ?_
      have hnone := List.all_eq_true.mp hok th hth
      simp [hpublishing] at hnone
  | @begin i _ call _ _ l k hth =>
      refine (hc id hpromised).other hth (List.Subset.refl _) (List.Subset.refl _) fun h => ?_
      cases call <;> exact Or.inr h
  | @statement i _ call _ _ _ l h q k' k r ws hth _ _ =>
      refine (hc id hpromised).other hth (List.Subset.refl _) (List.Subset.refl _) fun h => ?_
      cases call <;> exact Or.inr h
  | @rollback i _ call pool _ l h t k e hth hfails =>
      refine (hc id hpromised).other hth (List.Subset.refl _) (List.Subset.refl _) fun hpub => ?_
      have hpublishes : l.publishes = some id := by cases call <;> first | exact hpub | cases hpub
      obtain rfl := not_fails_of_publishes hpublishes (hsound.thread i _ hth).2 hfails
      simp [undisturbed, hth, hpub] at hok
  | @commit i ch call pool _ l h b k hth =>
      have hV : ∀ p e, seen env s c.store p e → Saw c.store p e := fun _ _ => saw_of_keyed
      have hcommits := hsound.commits keyRules_valid hth
      obtain ⟨hcommitted, -⟩ := keyed_effect hcommits
      have hl : grounds c.store l := grounds_of_extends hcommits.inv.extended hcommits.pre
      rcases hcommitted.promised hV hl hcommits.admissible hpromised with hold | henqueues
      · refine (hc id hold).other hth (jobs_applyAll _ _) (List.Subset.refl _) fun hpub => Or.inl ?_
        have hpublishes : l.publishes = some id := by cases call <;> first | exact hpub | cases hpub
        exact hcommitted.publishes (answering_of_saw hV) hpublishes
      · -- the thread goes on to publish
        refine Or.inr ⟨_, List.mem_of_getElem? (List.getElem?_set_self
          (List.getElem?_eq_some_iff.mp hth).1), ?_⟩
        obtain ⟨input, context, rfl, k', hk⟩ :=
          stage_enqueues (hstaged _ (List.mem_of_getElem? hth)).2 henqueues
        simp [publishing, hk, Label.publishes]
  | fork hth => exact absurd (hstaged _ (List.mem_of_getElem? hth)).2 stage_single
  | take hth _ =>
      cases (hstaged _ (List.mem_of_getElem? hth)).1
  | resume hth _ => exact False.elim (hstaged _ (List.mem_of_getElem? hth)).2

/-- In every undisturbed run the promised submissions are in hand. -/
theorem inHand_of_steps (henv : env.nodeEnv ≠ .test) (hkeyed : s.Keyed s)
    (hrecords : s.idempotencyRecords.rows = [])
    (hrun : Steps (server env) undisturbedTransfers (.initial s) c) :
    ∀ id, c.store.Promised id → InHand c id := by
  induction hrun with
  | refl =>
      rintro id ⟨record, hmem, -⟩
      simp [Config.initial, hrecords] at hmem
  | tail hrun hstep ih =>
      obtain ⟨a, hok, hs⟩ := hstep
      obtain ⟨⟨own, hsound⟩, -⟩ :=
        Rules.sound_of_steps keyRules_valid hkeyed (Steps.mono hrun fun _ _ _ => rfl)
      exact fun id => inHand_step hsound (staged_of_steps henv hrun)
        (Bool.and_eq_true_iff.mp hok).1 hs ih

/-- Nobody is about to publish when nothing is left to do. -/
theorem not_publishing_of_quiet (hquiet : c.quiet = true)
    {th : Thread Stmt Label TxError Write Uuid Call Reply} (hth : th ∈ c.threads) :
    publishing th = none := by
  have hrest := List.all_eq_true.mp hquiet th hth
  obtain ⟨call, pool, code⟩ := th
  cases code with
  | run p =>
      cases p with
      | call l k => cases hrest
      | _ => cases call <;> rfl
  | opened l h t k => cases hrest
  | await n k => cases call <;> rfl

/-- Every response that accepts a transfer has a published job behind it, or one that is about to
be published, if no failure meets a publication. -/
theorem accepted_transfer_submitted (henv : env.nodeEnv ≠ .test) (hkeys : s.ForeignKeys)
    (htransfers : s.transferRequests.rows = []) (hrecords : s.idempotencyRecords.rows = [])
    (hrun : Steps (server env) undisturbedTransfers (.initial s) c)
    {input : CreateTransferRequest} {context : RequestContext} {r : Replay}
    (hreturned : Returned c input context r) (hcode : r.statusCode = 202) :
    ∀ id status correlationId, r.body = .transfer id status correlationId →
      InHand c id ∧ (c.quiet = true → ⟨id⟩ ∈ c.store.jobs) := by
  intro id status correlationId hbody
  have hkeyed := keyed_of_empty hkeys htransfers hrecords
  obtain ⟨⟨own, hsound⟩, -⟩ :=
    Rules.sound_of_steps keyRules_valid hkeyed (hrun.mono fun _ _ _ => rfl)
  obtain ⟨key, -, record, hmem, -, -, -, hreplay⟩ := hreturned.answered hsound
  have hpromised : c.store.Promised id :=
    ⟨record, hmem, status, correlationId, by rw [hreplay, ← hcode, ← hbody]⟩
  have hinHand := inHand_of_steps henv hkeyed hrecords hrun id hpromised
  refine ⟨hinHand, fun hquiet => hinHand.resolve_right ?_⟩
  rintro ⟨th, hth, hpublishing⟩
  rw [not_publishing_of_quiet hquiet hth] at hpublishing
  cases hpublishing

end Run

/-! ## Examples -/

/-- The test environment with a job queue. -/
def productionEnvironment : Env := { testEnvironment with nodeEnv := .production }

/-- The request of the demo customer to send an amount to another bank. -/
def externalRequest (minorUnits : Int) : CreateTransferRequest :=
  demoTransfer (.externalBank none "NATL" "1099" "Jane Doe") minorUnits

/-- An external transfer whose submission is published, and a retry. -/
def submittedSchedule : List (Action Choice Call) :=
  .start (.createTransfer (externalRequest 2500) (demoContext "k")) :: advances 0 "a" 23 ++
    .start (.createTransfer (externalRequest 2500) (demoContext "k")) :: advances 1 "b" 3

/-- The process stops between the commit and the publication, and the customer tries again. -/
def stoppedSchedule : List (Action Choice Call) :=
  .start (.createTransfer (externalRequest 2500) (demoContext "k")) :: advances 0 "a" 20 ++
    .crash :: .start (.createTransfer (externalRequest 2500) (demoContext "k")) :: advances 0 "b" 3

/-- A response of thread `i` that accepts a transfer. -/
def acceptedBy (c : ServerConfig) (i : Nat) :
    Option (CreateTransferRequest × RequestContext × Uuid) :=
  match returnedOf c i with
  | some (input, context, ⟨202, .transfer id _ _⟩) => some (input, context, id)
  | _ => none

theorem returned_of_accepted {c : ServerConfig} {i : Nat} {input : CreateTransferRequest}
    {context : RequestContext} {id : Uuid} (h : acceptedBy c i = some (input, context, id)) :
    ∃ status correlationId, Returned c input context ⟨202, .transfer id status correlationId⟩ := by
  unfold acceptedBy at h
  split at h
  · rename_i status correlationId hreturned
    cases h
    exact ⟨status, correlationId, returned_of hreturned⟩
  · cases h

theorem accepted_transfer_submitted_retry :
    ∃ c input context id, Steps (server productionEnvironment) undisturbedTransfers
      (.initial demoStore) c ∧ acceptedBy c 1 = some (input, context, id) ∧ ⟨id⟩ ∈ c.store.jobs := by
  obtain ⟨c, hrun, haccepted, hquiet⟩ := exists_of_play (server productionEnvironment)
    undisturbedTransfers (.initial demoStore) submittedSchedule
    (fun c => (acceptedBy c 1).isSome = true ∧ c.quiet = true) (by decide +kernel)
  obtain ⟨⟨input, context, id⟩, haccepted⟩ := Option.isSome_iff_exists.mp haccepted
  obtain ⟨status, correlationId, hreturned⟩ := returned_of_accepted haccepted
  have hsubmitted := accepted_transfer_submitted (by decide)
    (seedBaseData_foreignKeys "customer" "ledger-checking" "ledger-savings") rfl rfl hrun hreturned
    rfl id status correlationId rfl
  exact ⟨c, input, context, id, hrun, haccepted, hsubmitted.2 hquiet⟩

/-- A retry after a stop returns 202, nothing is left to do, and no job was ever published. -/
theorem accepted_transfer_unsubmitted :
    ∃ c input context id, Steps (server productionEnvironment) anySchedule (.initial demoStore) c ∧
      c.quiet = true ∧ acceptedBy c 0 = some (input, context, id) ∧ c.store.jobs = [] := by
  obtain ⟨c, hrun, hquiet, haccepted, hjobs⟩ := exists_of_play (server productionEnvironment)
    anySchedule (.initial demoStore) stoppedSchedule
    (fun c => c.quiet = true ∧ (acceptedBy c 0).isSome = true ∧ c.store.jobs = [])
    (by decide +kernel)
  obtain ⟨⟨input, context, id⟩, haccepted⟩ := Option.isSome_iff_exists.mp haccepted
  exact ⟨c, input, context, id, hrun, hquiet, haccepted, hjobs⟩

end LedgerCredit
