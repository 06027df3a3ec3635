import LedgerCredit.Credit.Services
import LedgerCredit.Keys
import LedgerCredit.Choices
import LedgerCredit.Seed

/-!
# Answers about own resources

Six calls answer a customer about transfers, accounts and assessments.  Four
check the owner of what they read before they answer.  `createTransfer` and
`createAssessment` check the owner too, but only after the idempotency record:
a stored response is replayed whoever asks for it.

`own_answers_iff` says exactly when all answers of a call are about resources of
the customer that makes it.
-/

namespace LedgerCredit.Credit

open Txn

/-! ## Calls and answers -/

/-- A call that answers a customer. -/
inductive Request where
  | createTransfer (input : CreateTransferRequest)
  | getTransferById (transferRequestId : Uuid)
  | getBalance (accountId : Uuid)
  | getLedgerEntries (accountId : Uuid) (cursor : Option String) (limit : Option Int)
  | createAssessment (input : CreateCreditAssessmentRequest)
  | getAssessmentById (creditAssessmentId : Uuid)

/-- The call of a request, other than `createTransfer`. -/
def Request.call? (context : RequestContext) : Request → Option Call
  | .createTransfer _ => none
  | .getTransferById id => some (.getTransferById id context)
  | .getBalance id => some (.getBalance id context)
  | .getLedgerEntries id cursor limit => some (.getLedgerEntries id context cursor limit)
  | .createAssessment input => some (.createAssessment input context)
  | .getAssessmentById id => some (.getAssessmentById id context)

inductive Answer where
  | created (r : LedgerCredit.Replay)
  | replied (r : Reply)

/-- The request returns the answer, run alone on the store. -/
inductive Answers (env : Env) (s : Store) (context : RequestContext) :
    Request → Answer → Store → Prop where
  | createTransfer {input : CreateTransferRequest} {r : LedgerCredit.Replay}
      {ledger : LedgerCredit.Store} :
      Finishes (server env.toEnv) (fun _ _ => True)
        (TransfersService.createTransfer env.toEnv input context) s.ledger (.ok (r, ledger)) →
      Answers env s context (.createTransfer input) (.created r) { s with ledger := ledger }
  | call {request : Request} {call : Call} {r : Reply} {s' : Store} :
      request.call? context = some call →
      Finishes (services env) (fun _ _ => True) (call.program env) s (.ok (r, s')) →
      Answers env s context request (.replied r) s'

/-- The account belongs to the customer. -/
def Store.Owns (s : Store) (customerId accountId : Uuid) : Prop :=
  ∃ a ∈ s.ledger.accounts.rows, a.id = accountId ∧ a.customerId = customerId

/-- The answer is about a resource of the customer. -/
def Store.About (s : Store) (customerId : Uuid) : Request → Answer → Prop
  | _, .created ⟨_, .transfer id _ _⟩ =>
      ∃ t ∈ s.ledger.transferRequests.rows, t.id = id ∧ s.Owns customerId t.sourceAccountId
  | _, .replied (.transfer r) => s.Owns customerId r.sourceAccountId
  | _, .replied (.balance r) => s.Owns customerId r.accountId
  | .getLedgerEntries accountId _ _, .replied (.ledgerEntries r) =>
      s.Owns customerId accountId ∨ ∃ item ∈ r.items, s.Owns customerId item.accountId
  | _, .replied (.assessmentCreated r) =>
      ∃ x ∈ s.assessments.rows, x.id = r.body.creditAssessmentId ∧ x.customerId = customerId
  | _, .replied (.assessment r) => r.customerId = customerId
  | _, _ => False

/-- The answer is about resources of the customer only. -/
def Store.Own (s : Store) (customerId : Uuid) (request : Request) (answer : Answer) : Prop :=
  ∀ id, s.About id request answer → id = customerId

/-- Every answer to the request is about resources of the customer only. -/
def Store.AnswersOwn (s : Store) (env : Env) (context : RequestContext) (request : Request)
    (customerId : Uuid) : Prop :=
  ∀ answer s', Answers env s context request answer s' → s'.Own customerId request answer

/-- A stored response to the request, if there is one, is about resources of the customer only. -/
def Store.ReplaysOwn (s : Store) (env : Env) (context : RequestContext) (customerId : Uuid) :
    Request → Prop
  | .createTransfer input => ∀ args record r,
      TransfersService.transferArgs env.toEnv input context = .ok args →
      s.ledger.idempotencyRecords.find? ("transfer.create", args.idempotencyKey) = some record →
      record.requestHash = args.requestHash → record.replay? = some r →
      s.Own customerId (.createTransfer input) (.created r)
  | .createAssessment input => ∀ args record r,
      CreditService.assessmentArgs env input context = .ok args →
      s.idempotencyRecords.find? ("credit-assessment.create", args.idempotencyKey) = some record →
      record.requestHash = args.requestHash → record.replay? = some r →
      s.Own customerId (.createAssessment input) (.replied (.assessmentCreated r))
  | _ => True

/-! ## Statements and checks -/

section Rules

variable {ok : Store → Choice → Prop} {s : Store} {α : Type}

/-- What a statement replies, if it does not throw. -/
theorem always_reply {q : Stmt α} {A : α → Store → Prop}
    (h : ∀ ch r ws, s.exec q ch = .ok (r, ws) → A r (database.applyAll ws s)) :
    Always database ok (Tx.send q) s A fun _ => True :=
  always_send.mpr fun ch _ => ⟨fun _ _ => trivial, fun r ws => h ch r ws⟩

theorem always_orThrow (o : Option α) (e : AppException) :
    Always database ok (orThrow o e) s (fun a s' => s' = s ∧ o = some a) fun _ => True := by
  cases o with
  | none => trivial
  | some a => exact ⟨rfl, rfl⟩

theorem always_ofExcept (x : Except AppException α) :
    Always database ok (ofExcept x) s (fun a s' => s' = s ∧ x = .ok a) fun _ => True := by
  cases x with
  | error e => trivial
  | ok a => exact ⟨rfl, rfl⟩

theorem always_assert (c : Bool) (e : AppException) :
    Always database ok (assert c e) s (fun _ s' => s' = s ∧ c = true) fun _ => True := by
  cases c with
  | false => trivial
  | true => exact ⟨rfl, rfl⟩

theorem absent_of_violation {x : CreditAssessment} (h : s.violation (.assessment x) = none) :
    s.present (.assessment x.id) = false := by
  by_contra hpresent
  rw [Bool.not_eq_false] at hpresent
  simp [Store.violation, Write.adds, hpresent] at h

/-- A new assessment is a row of the store. -/
theorem always_createAssessment {data : Uuid → CreditAssessment} :
    Always database ok (Tx.send (.createAssessment data)) s
      (fun r s' => (∃ u, r = data u) ∧ r ∈ s'.assessments.rows) fun _ => True := by
  refine always_reply fun ch r ws hexec => ?_
  obtain ⟨hv, rfl, rfl⟩ := attempt_eq_ok hexec
  refine ⟨⟨_, rfl⟩, ?_⟩
  have hrows := Table.rows_insert (t := s.assessments)
    (Table.fresh_of_absent (absent_of_violation hv) (by simp))
  exact hrows ▸ List.mem_append_right _ (List.mem_singleton_self _)

/-- An update of an assessment replies the row that it leaves. -/
theorem always_updateAssessment {x : CreditAssessment} {data : CreditAssessmentUpdate}
    (hx : x ∈ s.assessments.rows) :
    Always database ok (Tx.send (.updateAssessment x.id data)) s
      (fun r s' => r = data.apply x ∧ r ∈ s'.assessments.rows) fun _ => True := by
  refine always_reply fun ch r ws hexec => ?_
  have hget : s.assessments.get? x.id = some x := Table.get?_eq_some.mpr ⟨hx, rfl⟩
  simp only [Store.exec, hget] at hexec
  obtain ⟨-, rfl, rfl⟩ := attempt_eq_ok hexec
  exact ⟨rfl, List.mem_map.mpr ⟨x, hx, if_pos rfl⟩⟩

end Rules

section Processes

variable {env : Env} {ok : Store → Choice → Prop} {s : Store} {α : Type} {A : α → Store → Prop}

theorem returns_statement {q : Stmt α}
    (h : ∀ ch r ws, s.exec q ch = .ok (r, ws) → A r (database.applyAll ws s)) :
    Returns (services env) ok (statement q) s A :=
  Returns.transaction (E := fun _ => True) (always_reply h)

theorem returns_orThrow {o : Option α} {e : AppException} (h : ∀ a, o = some a → A a s) :
    Returns (services env) ok (Process.orThrow o e) s A := by
  cases o with
  | none => trivial
  | some a => exact h a rfl

theorem returns_ofExcept {x : Except AppException α} (h : ∀ a, x = .ok a → A a s) :
    Returns (services env) ok (Process.ofExcept x) s A := by
  cases x with
  | error e => trivial
  | ok a => exact h a rfl

/-- An audit event leaves the accounts alone. -/
theorem returns_auditRecord {context : RequestContext} {input : AuditRecordInput} :
    Returns (services env) ok (auditRecord context input) s fun _ s' =>
      s'.ledger.accounts = s.ledger.accounts := by
  refine returns_statement fun ch r ws hexec => ?_
  obtain ⟨-, -, rfl⟩ := attempt_eq_ok hexec
  rfl

end Processes

/-! ## Owners -/

/-- A customer passes the check for its own resources only. -/
theorem owner_of_check {context : RequestContext} {actor : RequestActor} {ownerCustomerId : Uuid}
    (hactor : context.actor = some actor) (hcustomer : actor.actorType = .customer)
    (h : assertCustomerOwnsResource context ownerCustomerId = .ok ()) :
    ownerCustomerId = actor.actorId := by
  by_contra hne
  simp [assertCustomerOwnsResource, hactor, hcustomer, Ne.symm hne] at h

/-- An account belongs to one customer. -/
theorem Store.Owns.eq {s : Store} {customerId accountId : Uuid} {a : Account}
    (h : s.Owns customerId accountId) (ha : a ∈ s.ledger.accounts.rows) (hid : a.id = accountId) :
    customerId = a.customerId := by
  obtain ⟨a', ha', hid', rfl⟩ := h
  rw [Table.eq_of_pk ha ha' (hid.trans hid'.symm)]

theorem Store.Owns.congr {s s' : Store} {customerId accountId : Uuid}
    (h : s'.Owns customerId accountId) (hs : s'.ledger.accounts = s.ledger.accounts) :
    s.Owns customerId accountId := by
  obtain ⟨a, ha, howns⟩ := h
  exact ⟨a, hs ▸ ha, howns⟩

/-! ## Calls that check the owner first -/

section Reads

variable {env : Env} {ok : Store → Choice → Prop} {s : Store} {context : RequestContext}
  {customerId : Uuid}

theorem getTransferById_own (hchecked : ∀ owner,
      assertCustomerOwnsResource context owner = .ok () → owner = customerId)
    (transferRequestId : Uuid) :
    Returns (services env) ok (TransfersService.getTransferById env transferRequestId context) s
      fun r s' => s'.Own customerId (.getTransferById transferRequestId) (.replied (.transfer r)) := by
  refine Returns.bind (returns_statement fun ch found ws hexec => ?_)
  refine Returns.bind (returns_orThrow fun row hrow => ?_)
  refine Returns.bind (returns_ofExcept fun _ howner => ?_)
  subst hrow
  obtain ⟨transfer, sourceAccount⟩ := row
  obtain ⟨hsource, rfl⟩ : s.ledger.accounts.get? transfer.sourceAccountId = some sourceAccount ∧
      ws = [] := by
    simp only [Store.exec, withRow] at hexec
    split at hexec
    · cases hexec
    · split at hexec
      · rename_i hsource
        cases hexec
        exact ⟨hsource, rfl⟩
      · cases hexec
  intro id habout
  obtain ⟨hmem, hid⟩ := Table.get?_eq_some.mp hsource
  exact (Store.Owns.eq habout hmem hid).trans (hchecked _ howner)

/-- The account that a read finds. -/
theorem exec_findAccount {id : Uuid} {ch : Choice} {account : Account}
    {b : Option BalanceProjection} {ws : List Write}
    (h : s.exec (.findAccount id) ch = .ok (some (account, b), ws)) :
    account ∈ s.ledger.accounts.rows ∧ account.id = id ∧ ws = [] := by
  simp only [Store.exec, Except.ok.injEq, Prod.mk.injEq, Option.map_eq_some_iff] at h
  obtain ⟨⟨account', haccount, rfl, -⟩, hws⟩ := h
  obtain ⟨hmem, hid⟩ := Table.get?_eq_some.mp haccount
  exact ⟨hmem, hid, hws.symm⟩

theorem getBalance_own (hchecked : ∀ owner,
      assertCustomerOwnsResource context owner = .ok () → owner = customerId) (accountId : Uuid) :
    Returns (services env) ok (AccountsService.getBalance accountId context) s fun r s' =>
      s'.Own customerId (.getBalance accountId) (.replied (.balance r)) := by
  refine Returns.bind (returns_statement fun ch found ws hexec => ?_)
  refine Returns.bind (returns_orThrow fun row hrow => ?_)
  refine Returns.bind (returns_ofExcept fun _ howner => ?_)
  subst hrow
  obtain ⟨account, b⟩ := row
  obtain ⟨hmem, -, rfl⟩ := exec_findAccount hexec
  refine Returns.bind (returns_auditRecord.mono fun _ s' hs' id habout => ?_)
  exact (Store.Owns.eq (Store.Owns.congr habout hs') hmem rfl).trans (hchecked _ howner)

/-- The lines that are taken are rows of the account. -/
theorem mem_takeRows {accountId : Uuid} {before : Option CursorPayload} {take : Int}
    {line : AccountStatementProjection × JournalEntry}
    (h : line ∈ takeRows take
      (Store.withJournalEntries s.ledger (Store.linesOf s.ledger accountId before))) :
    line.1 ∈ s.ledger.statementLines.rows ∧ line.1.accountId = accountId := by
  have htaken : line ∈ Store.withJournalEntries s.ledger (Store.linesOf s.ledger accountId before) := by
    unfold takeRows at h
    split at h
    · exact List.mem_of_mem_take h
    · exact List.mem_of_mem_drop h
  obtain ⟨line', hline', hentry⟩ := List.mem_filterMap.mp htaken
  obtain ⟨_, -, rfl⟩ := Option.map_eq_some_iff.mp hentry
  obtain ⟨hmem, hfilter⟩ := List.mem_filter.mp ((List.mem_insertionSort _).mp hline')
  simp only [Bool.and_eq_true, decide_eq_true_eq] at hfilter
  exact ⟨hmem, hfilter.1⟩

/-- The lines of a read are lines of the account. -/
theorem exec_findStatementLines {accountId : Uuid} {before : Option CursorPayload} {take : Int}
    {ch : Choice} {lines : List (AccountStatementProjection × JournalEntry)} {ws : List Write}
    (h : s.exec (.findStatementLines accountId before take) ch = .ok (lines, ws)) :
    (∀ line ∈ lines, line.1.accountId = accountId) ∧ ws = [] := by
  cases h
  exact ⟨fun line hline => (mem_takeRows hline).2, rfl⟩

theorem getLedgerEntries_own (hchecked : ∀ owner,
      assertCustomerOwnsResource context owner = .ok () → owner = customerId)
    (accountId : Uuid) (cursor : Option String) (limit : Option Int) :
    Returns (services env) ok
      (AccountsService.getLedgerEntries env accountId context cursor limit) s fun r s' =>
        s'.Own customerId (.getLedgerEntries accountId cursor limit)
          (.replied (.ledgerEntries r)) := by
  refine Returns.bind (returns_statement fun ch found ws hexec => ?_)
  refine Returns.bind (returns_orThrow fun row hrow => ?_)
  refine Returns.bind (returns_ofExcept fun _ howner => ?_)
  subst hrow
  obtain ⟨account, b⟩ := row
  obtain ⟨hmem, hid, rfl⟩ := exec_findAccount hexec
  refine Returns.bind (returns_ofExcept fun _ _ => ?_)
  refine Returns.bind (returns_statement fun ch lines ws hlines => ?_)
  obtain ⟨haccount, rfl⟩ := exec_findStatementLines hlines
  refine Returns.bind (returns_auditRecord.mono fun _ s' hs' id habout => ?_)
  have hown : s'.Owns id accountId := by
    rcases habout with hown | ⟨item, hitem, hown⟩
    · exact hown
    · obtain ⟨line, hline, rfl⟩ := List.mem_map.mp hitem
      exact haccount line (List.mem_of_mem_take hline) ▸ hown
  exact ((hown.congr hs').eq hmem hid).trans (hchecked _ howner)

theorem getAssessmentById_own (hchecked : ∀ owner,
      assertCustomerOwnsResource context owner = .ok () → owner = customerId)
    (creditAssessmentId : Uuid) :
    Returns (services env) ok (CreditService.getAssessmentById creditAssessmentId context) s
      fun r s' => s'.Own customerId (.getAssessmentById creditAssessmentId)
        (.replied (.assessment r)) := by
  refine Returns.bind (returns_statement fun ch found ws hexec => ?_)
  refine Returns.bind (returns_orThrow fun row hrow => ?_)
  refine Returns.bind (returns_ofExcept fun _ howner => ?_)
  rintro _ rfl
  exact hchecked _ howner

end Reads

/-! ## Assessments -/

section Assessments

variable {env : Env} {ok : Store → Choice → Prop} {s : Store} {args : CreateAssessmentArgs}

/-- The response is about an assessment of the customer. -/
def Store.Assessed (s : Store) (customerId : Uuid) (r : Replay) : Prop :=
  ∃ x ∈ s.assessments.rows, x.id = r.body.creditAssessmentId ∧ x.customerId = customerId

theorem Store.Assessed.own {customerId customerId' : Uuid} {r : Replay}
    (h : s.Assessed customerId r) (heq : customerId = customerId') (request : Request) :
    s.Own customerId' request (.replied (.assessmentCreated r)) := by
  obtain ⟨x, hx, hid, rfl⟩ := h
  subst heq
  intro id habout
  obtain ⟨x', hx', hid', rfl⟩ : ∃ x' ∈ s.assessments.rows,
      x'.id = r.body.creditAssessmentId ∧ x'.customerId = id := by
    cases request <;> exact habout
  rw [Table.eq_of_pk hx' hx (hid'.trans hid.symm)]

/-- What `begin` finds. -/
theorem begin_always (operationType key requestHash : String) :
    Always database ok (IdempotencyService.begin operationType key requestHash) s
      (fun b s' => ∀ r, b = .replay r → s' = s ∧ ∃ record,
        s.idempotencyRecords.find? (operationType, key) = some record ∧
          record.requestHash = requestHash ∧ record.replay? = some r) fun _ => True := by
  refine Always.bind (always_reply (A := fun o s' =>
    s' = s ∧ o = s.idempotencyRecords.find? (operationType, key)) fun ch o ws hexec => ?_)
    (fun o s' ho => ?_) fun _ h => h
  · cases hexec
    exact ⟨rfl, rfl⟩
  · obtain ⟨rfl, rfl⟩ := ho
    cases hfind : s'.idempotencyRecords.find? (operationType, key) with
    | none =>
        refine Always.bind (always_reply (A := fun _ _ => True) fun _ _ _ _ => trivial)
          (fun created s₁ _ r hr => ?_) fun _ h => h
        cases hr
    | some record =>
        refine Always.bind (always_assert _ _) (fun _ s₁ hhash => ?_) fun _ h => h
        obtain ⟨rfl, hhash⟩ := hhash
        refine Always.bind (always_orThrow _ _) (fun r s₂ hr => ?_) fun _ h => h
        obtain ⟨rfl, hr⟩ := hr
        rintro _ ⟨⟩
        exact ⟨rfl, record, rfl, of_decide_eq_true hhash, hr⟩

theorem createScored_always (recordId customerId : Uuid) (balances : List (Option BalanceProjection)) :
    Always database ok (CreditService.createScored env args recordId customerId balances) s
      (fun r s' => s'.Assessed customerId r) fun _ => True := by
  refine Always.bind (A := fun _ _ => True)
    (always_of_ends (fun _ _ _ => trivial) fun _ _ => trivial) (fun scored s₁ _ => ?_) fun _ h => h
  obtain ⟨profile, settled, failed, decision⟩ := scored
  refine Always.bind (always_reply (A := fun _ _ => True) fun _ _ _ _ => trivial)
    (fun snapshot s₂ _ => ?_) fun _ h => h
  refine Always.bind always_createAssessment (fun x s₃ hx => ?_) fun _ h => h
  obtain ⟨⟨u, rfl⟩, hx⟩ := hx
  refine Always.bind (always_updateAssessment hx) (fun x s₄ hx => ?_) fun _ h => h
  obtain ⟨rfl, hx⟩ := hx
  refine Always.bind (always_updateAssessment hx) (fun x s₅ hx => ?_) fun _ h => h
  obtain ⟨rfl, hx⟩ := hx
  refine Always.bind (always_updateAssessment hx) (fun x s₆ hx => ?_) fun _ h => h
  obtain ⟨rfl, hx⟩ := hx
  refine Always.bind (always_reply (A := fun _ s' => s'.assessments = s₆.assessments)
    fun _ _ _ hexec => ?_) (fun _ s₇ hs₇ => ?_) fun _ h => h
  · obtain ⟨-, -, rfl⟩ := attempt_eq_ok hexec
    rfl
  refine Always.bind (always_reply (A := fun _ s' => s'.assessments = s₇.assessments)
    fun _ _ _ hexec => ?_) (fun _ s₈ hs₈ => ?_) fun _ h => h
  · obtain ⟨-, -, rfl⟩ := attempt_eq_ok hexec
    rfl
  · exact ⟨_, (hs₈.trans hs₇) ▸ hx, rfl, rfl⟩

theorem createNew_always (recordId : Uuid) :
    Always database ok (CreditService.createNew env args recordId) s (fun r s' =>
      ∃ owner, assertCustomerOwnsResource args.context owner = .ok () ∧ s'.Assessed owner r)
      fun _ => True := by
  refine Always.bind (always_reply (A := fun _ _ => True) fun _ _ _ _ => trivial)
    (fun found s₁ _ => ?_) fun _ h => h
  refine Always.bind (always_orThrow _ _) (fun row s₂ _ => ?_) fun _ h => h
  obtain ⟨customer, balances⟩ := row
  refine Always.bind (always_ofExcept _) (fun _ s₃ howner => ?_) fun _ h => h
  exact (createScored_always recordId customer.id balances).mono
    (fun r s' h => ⟨customer.id, howner.2, h⟩) fun _ h => h

/-- A new assessment is the customer's own, and a replay is what is stored. -/
theorem createAssessmentTx_always :
    Always database ok (CreditService.createAssessmentTx env args) s (fun r s' =>
      (∃ owner, assertCustomerOwnsResource args.context owner = .ok () ∧ s'.Assessed owner r) ∨
      (s' = s ∧ ∃ record,
        s.idempotencyRecords.find? ("credit-assessment.create", args.idempotencyKey) = some record ∧
          record.requestHash = args.requestHash ∧ record.replay? = some r)) fun _ => True := by
  refine Always.bind (begin_always _ _ _) (fun b s₁ hb => ?_) fun _ h => h
  cases b with
  | recordId recordId => exact (createNew_always recordId).mono (fun _ _ h => Or.inl h) fun _ h => h
  | replay r => exact Or.inr (hb r rfl)

end Assessments

/-! ## Transfers -/

section Transfers

variable {env : LedgerCredit.Env} {s s' : LedgerCredit.Store} {args : CreateTransferArgs}
  {context : RequestContext} {customerId : Uuid}

/-- The response is about a transfer of the customer. -/
def Transferred (s : LedgerCredit.Store) (customerId : Uuid) (r : LedgerCredit.Replay) : Prop :=
  ∃ t ∈ s.transferRequests.rows, (∃ status correlationId, r.body = .transfer t.id status correlationId) ∧
    ∃ a ∈ s.accounts.rows, a.id = t.sourceAccountId ∧ a.customerId = customerId

theorem Transferred.extends {r : LedgerCredit.Replay} (h : Transferred s customerId r)
    (hs : s.Extends s') : Transferred s' customerId r := by
  obtain ⟨t, ht, ⟨status, correlationId, hbody⟩, a, ha, hid, hcustomer⟩ := h
  obtain ⟨t', ht', hsame⟩ := hs.transferRequests t ht
  exact ⟨t', ht', ⟨status, correlationId, hsame.id ▸ hbody⟩, a, hs.accounts ▸ ha,
    hid.trans hsame.sourceAccountId.symm, hcustomer⟩

/-- A transfer that was written is still there, up to what updates change. -/
theorem exists_of_written {ws : List LedgerCredit.Write} {t : TransferRequest}
    (hadm : LedgerCredit.database.Admissible s ws) (h : .transferRequest t ∈ ws) :
    ∃ t' ∈ (LedgerCredit.database.applyAll ws s).transferRequests.rows, t.Same t' := by
  induction ws generalizing s with
  | nil => cases h
  | cons w ws ih =>
      obtain ⟨hw, hrest⟩ := Database.Admissible.of_cons LedgerCredit.lawful_database hadm
      rcases List.mem_cons.mp h with rfl | htail
      · refine (extends_applyAll ws _).transferRequests t ?_
        exact rows_transferRequest hw ▸ List.mem_append_right _ (List.mem_singleton_self t)
      · exact ih hrest htail

/-- A transfer that is created is from an account of the owner that was checked. -/
theorem transferred_of_created {record : LedgerCredit.IdempotencyRecord} {source : Account}
    {sourceLedger : LedgerAccount} {amount : Money} {b : Option BalanceProjection}
    {transfer : TransferRequest} {p ws : List LedgerCredit.Write} {r : LedgerCredit.Replay}
    (h : TransfersService.Created (Now s) env args record source sourceLedger amount b transfer p)
    (hp : p ⊆ ws) (hadm : LedgerCredit.database.Admissible s ws)
    (hbody : ∃ status correlationId, r.body = .transfer transfer.id status correlationId) :
    ∃ owner, assertCustomerOwnsResource args.context owner = .ok () ∧
      Transferred (LedgerCredit.database.applyAll ws s) owner r := by
  obtain ⟨status, correlationId, hbody⟩ := hbody
  obtain ⟨howns, -⟩ := saw_findAccountWithBalance (saw_of_now h.checked.read)
  have hmem : LedgerCredit.Write.transferRequest transfer ∈ p := by simp [h.writes]
  obtain ⟨t, ht, hsame⟩ := exists_of_written hadm (hp hmem)
  obtain ⟨id, createdAt, -, hrow⟩ := h.transferRow
  refine ⟨source.customerId, h.checked.owner, t, ht, ⟨status, correlationId, ?_⟩, source, ?_, ?_,
    rfl⟩
  · rw [hbody, hsame.id]
  · rw [applyAll_accounts]
    exact howns.account
  · rw [hsame.sourceAccountId, hrow]
    rfl

/-- A stored response to the request. -/
def Replays (s : LedgerCredit.Store) (args : CreateTransferArgs) (r : LedgerCredit.Replay) : Prop :=
  ∃ record, s.idempotencyRecords.find? ("transfer.create", args.idempotencyKey) = some record ∧
    record.requestHash = args.requestHash ∧ record.replay? = some r

theorem createTransferTx_always {ok : LedgerCredit.Store → Choice → Prop} :
    Always LedgerCredit.database ok (TransfersService.createTransferTx env args) s (fun r s' =>
      (∃ owner, assertCustomerOwnsResource args.context owner = .ok () ∧
        Transferred s' owner ⟨r.statusCode, r.body⟩) ∨
      (s' = s ∧ r.enqueueTransferId = none ∧ Replays s args ⟨r.statusCode, r.body⟩))
      fun _ => True := by
  refine Always.of_runs (V := Now s) LedgerCredit.lawful_database (fun p e ch _ hexec => ⟨ch, hexec⟩)
    fun r ws hruns hadm => ?_
  cases TransfersService.createTransfer_runs (answering_of_saw fun _ _ => saw_of_now) hruns with
  | replay hfind hhash hreplay =>
      obtain ⟨ch, hexec⟩ := hfind
      exact Or.inr ⟨rfl, rfl, _, (Prod.mk.inj (Except.ok.inj hexec)).1, hhash, hreplay⟩
  | internal _ _ _ _ hcreated _ _ _ =>
      exact Or.inl (transferred_of_created hcreated (by simp) hadm ⟨_, _, rfl⟩)
  | external _ _ _ _ hcreated _ _ =>
      exact Or.inl (transferred_of_created hcreated (by simp) hadm ⟨_, _, rfl⟩)

/-- Every transaction only adds to the ledger. -/
theorem transaction_extends {ok : LedgerCredit.Store → Choice → Prop} {α : Type}
    (t : LedgerCredit.Transaction α) :
    Always LedgerCredit.database ok t s (fun _ s' => s.Extends s') fun _ => True := by
  refine Always.of_runs (V := Now s) LedgerCredit.lawful_database (fun p e ch _ hexec => ⟨ch, hexec⟩)
    fun r ws _ _ => extends_applyAll ws s

/-- A new transfer is the customer's own, and a replay is what is stored. -/
theorem createTransfer_returns {ok : LedgerCredit.Store → Choice → Prop}
    (input : CreateTransferRequest) :
    Returns (server env) ok (TransfersService.createTransfer env input context) s (fun r s' =>
      (∃ owner, assertCustomerOwnsResource context owner = .ok () ∧ Transferred s' owner r) ∨
      (s' = s ∧ ∃ args, TransfersService.transferArgs env input context = .ok args ∧
        Replays s args r)) := by
  unfold TransfersService.createTransfer
  cases hargs : TransfersService.transferArgs env input context with
  | error e => trivial
  | ok args =>
      obtain ⟨-, -, rfl⟩ := transferArgs_ok hargs
      refine Returns.bind (p := .pure args) (Returns.bind (Returns.transaction
        (createTransferTx_always.mono (fun result s₁ h => ?_) fun _ h => h)))
      rcases h with ⟨owner, howner, htransferred⟩ | ⟨rfl, hnone, hreplays⟩
      · -- the submission only adds to the store
        have hkeep : ∀ {β : Type} (l : LedgerCredit.Label β) s₂, s₁.Extends s₂ →
            Always LedgerCredit.database ok (l.body env) s₂ (fun _ s₃ => s₁.Extends s₃)
              fun _ => True := fun l s₂ h =>
          (transaction_extends _).mono (fun _ _ h' => h.trans h') fun _ h => h
        have hdone : ∀ {s₂ : LedgerCredit.Store}, s₁.Extends s₂ →
            Transferred s₂ owner ⟨result.statusCode, result.body⟩ := htransferred.extends
        cases truthy result.enqueueTransferId with
        | none => exact Or.inl ⟨owner, howner, htransferred⟩
        | some id =>
            refine Returns.bind ((Returns.keep hkeep _ (.refl s₁)).mono fun _ s₂ hs₂ => ?_)
            exact Or.inl ⟨owner, howner, hdone hs₂⟩
      · rw [hnone]
        exact Or.inr ⟨rfl, args, rfl, hreplays⟩

end Transfers

/-! ## Own answers -/

section Own

variable {env : Env} {s : Store} {context : RequestContext} {customerId : Uuid}

theorem Transferred.own {r : LedgerCredit.Replay} (h : Transferred s.ledger customerId r)
    (input : CreateTransferRequest) : s.Own customerId (.createTransfer input) (.created r) := by
  obtain ⟨t, ht, ⟨status, correlationId, hbody⟩, a, ha, hid, rfl⟩ := h
  obtain ⟨statusCode, body⟩ := r
  obtain rfl : body = _ := hbody
  rintro id ⟨t', ht', hid', howns⟩
  obtain rfl := Table.eq_of_pk ht' ht hid'
  exact howns.eq ha hid

theorem assessmentArgs_ok {input : CreateCreditAssessmentRequest} {args : CreateAssessmentArgs}
    (h : CreditService.assessmentArgs env input context = .ok args) :
    args.context = context ∧ args.input = input := by
  obtain ⟨_, -, h⟩ := bind_ok h
  dsimp only at h
  split at h
  · cases h
    exact ⟨rfl, rfl⟩
  · cases h

theorem createAssessment_own {ok : Store → Choice → Prop} (hchecked : ∀ owner,
      assertCustomerOwnsResource context owner = .ok () → owner = customerId)
    {input : CreateCreditAssessmentRequest}
    (h : s.ReplaysOwn env context customerId (.createAssessment input)) :
    Returns (services env) ok (CreditService.createAssessment env input context) s fun r s' =>
      s'.Own customerId (.createAssessment input) (.replied (.assessmentCreated r)) := by
  unfold CreditService.createAssessment
  cases hargs : CreditService.assessmentArgs env input context with
  | error e => trivial
  | ok args =>
      obtain ⟨rfl, -⟩ := assessmentArgs_ok hargs
      refine Returns.bind (p := .pure args) (Returns.transaction
        (createAssessmentTx_always.mono (fun r s' hr => ?_) fun _ h => h))
      rcases hr with ⟨owner, howner, hassessed⟩ | ⟨rfl, record, hfind, hhash, hreplay⟩
      · exact hassessed.own (hchecked owner howner) _
      · exact h args record r hargs hfind hhash hreplay

/-- The calls of these services answer about own resources, if replays do. -/
theorem call_own {ok : Store → Choice → Prop} (hchecked : ∀ owner,
      assertCustomerOwnsResource context owner = .ok () → owner = customerId)
    {request : Request} (h : s.ReplaysOwn env context customerId request) {call : Call}
    (hcall : request.call? context = some call) :
    Returns (services env) ok (call.program env) s fun r s' =>
      s'.Own customerId request (.replied r) := by
  cases request with
  | createTransfer input => cases hcall
  | getTransferById id =>
      cases hcall
      exact Returns.bind (getTransferById_own hchecked id)
  | getBalance id =>
      cases hcall
      exact Returns.bind (getBalance_own hchecked id)
  | getLedgerEntries id cursor limit =>
      cases hcall
      exact Returns.bind (getLedgerEntries_own hchecked id cursor limit)
  | createAssessment input =>
      cases hcall
      exact Returns.bind (createAssessment_own hchecked h)
  | getAssessmentById id =>
      cases hcall
      exact Returns.bind (getAssessmentById_own hchecked id)

theorem Store.ReplaysOwn.answers {request : Request} (hchecked : ∀ owner,
      assertCustomerOwnsResource context owner = .ok () → owner = customerId)
    (h : s.ReplaysOwn env context customerId request) :
    s.AnswersOwn env context request customerId := by
  intro answer s' hanswers
  cases hanswers with
  | @createTransfer input r ledger hfinishes =>
      rcases (createTransfer_returns input).result hfinishes with
        ⟨owner, howner, htransferred⟩ | ⟨rfl, args, hargs, record, hfind, hhash, hreplay⟩
      · obtain rfl := hchecked owner howner
        exact Transferred.own (s := { s with ledger := ledger }) htransferred input
      · exact h args record r hargs hfind hhash hreplay
  | call hcall hfinishes => exact (call_own hchecked h hcall).result hfinishes

/-- A stored response of a transfer is replayed. -/
theorem createTransfer_replays {env : LedgerCredit.Env} {s : LedgerCredit.Store}
    {input : CreateTransferRequest} {args : CreateTransferArgs} {r : LedgerCredit.Replay}
    (hargs : TransfersService.transferArgs env input context = .ok args) (h : Replays s args r) :
    Finishes (server env) (fun _ _ => True) (TransfersService.createTransfer env input context) s
      (.ok (r, s)) := by
  obtain ⟨record, hfind, hhash, hreplay⟩ := h
  have hbegin : Ends LedgerCredit.database (fun _ _ => True) (LedgerCredit.IdempotencyService.begin
      "transfer.create" args.idempotencyKey args.requestHash) s (.ok (.replay r, s)) := by
    have hexec : LedgerCredit.database.exec (.findIdempotencyRecord "transfer.create"
        args.idempotencyKey) (freshChoice s 0 []) s = .ok (some record, []) :=
      congrArg (fun o => Except.ok (o, [])) hfind
    have hsend : Ends LedgerCredit.database (fun _ _ => True) (Tx.send (.findIdempotencyRecord
        "transfer.create" args.idempotencyKey)) s (.ok (some record, s)) :=
      .query trivial hexec .pure
    refine Ends.bind hsend (Ends.bind (?_ : Ends _ _ _ _ (.ok ((), s)))
      (Ends.bind (?_ : Ends _ _ _ s (.ok (r, s))) .pure))
    · rw [decide_eq_true hhash]
      exact .pure
    · rw [hreplay]
      exact .pure
  have hends : Ends LedgerCredit.database (fun _ _ => True)
      (TransfersService.createTransferTx env args) s
      (.ok ({ statusCode := r.statusCode, body := r.body }, s)) := hbegin.bind .pure
  unfold TransfersService.createTransfer
  rw [hargs]
  exact .result hends .pure

/-- A stored response of an assessment is replayed. -/
theorem createAssessment_replays {input : CreateCreditAssessmentRequest}
    {args : CreateAssessmentArgs} {record : IdempotencyRecord} {r : Replay}
    (hargs : CreditService.assessmentArgs env input context = .ok args)
    (hfind : s.idempotencyRecords.find? ("credit-assessment.create", args.idempotencyKey) =
      some record) (hhash : record.requestHash = args.requestHash)
    (hreplay : record.replay? = some r) :
    Finishes (services env) (fun _ _ => True)
      (Call.program env (.createAssessment input context)) s
      (.ok (.assessmentCreated r, s)) := by
  have hbegin : Ends database (fun _ _ => True) (IdempotencyService.begin
      "credit-assessment.create" args.idempotencyKey args.requestHash) s
      (.ok (.replay r, s)) := by
    have hexec : database.exec (.findIdempotencyRecord "credit-assessment.create"
        args.idempotencyKey) (freshChoice s.ledger 0 []) s = .ok (some record, []) :=
      congrArg (fun o => Except.ok (o, [])) hfind
    have hsend : Ends database (fun _ _ => True) (Tx.send (.findIdempotencyRecord
        "credit-assessment.create" args.idempotencyKey)) s (.ok (some record, s)) :=
      .query trivial hexec .pure
    refine Ends.bind hsend (Ends.bind (?_ : Ends _ _ _ _ (.ok ((), s)))
      (Ends.bind (?_ : Ends _ _ _ s (.ok (r, s))) .pure))
    · rw [decide_eq_true hhash]
      exact .pure
    · rw [hreplay]
      exact .pure
  have hends : Ends database (fun _ _ => True) (CreditService.createAssessmentTx env args) s
      (.ok (r, s)) := hbegin.bind .pure
  show Finishes _ _ (CreditService.createAssessment env input context >>=
    fun r => pure (Reply.assessmentCreated r)) _ _
  unfold CreditService.createAssessment
  rw [hargs]
  exact .result hends .pure

/-- A stored response is replayed. -/
theorem Store.AnswersOwn.replays {request : Request}
    (h : s.AnswersOwn env context request customerId) :
    s.ReplaysOwn env context customerId request := by
  cases request with
  | createTransfer input =>
      intro args record r hargs hfind hhash hreplay
      exact h (.created r) s (.createTransfer (createTransfer_replays hargs
        ⟨record, hfind, hhash, hreplay⟩))
  | createAssessment input =>
      intro args record r hargs hfind hhash hreplay
      exact h _ s (.call rfl (createAssessment_replays hargs hfind hhash hreplay))
  | _ => trivial

end Own

/-- A customer gets answers about own resources only, if and only if no stored response of another
customer is replayed. -/
theorem own_answers_iff (s : Store) (env : Env) (request : Request) (context : RequestContext)
    (actor : RequestActor) (hactor : context.actor = some actor)
    (hcustomer : actor.actorType = .customer) :
    s.AnswersOwn env context request actor.actorId ↔
      s.ReplaysOwn env context actor.actorId request :=
  ⟨fun h => h.replays, fun h => h.answers fun _ => owner_of_check hactor hcustomer⟩

/-! ## A stored response -/

/-- The test environment of these services. -/
def testEnvironment : Env :=
  { LedgerCredit.testEnvironment with
    scoreApproveThreshold := 700
    scoreRejectThreshold := 550
    hashAssessmentPayload := fun customerId requestedBy => customerId ++ "/" ++ requestedBy
    decodeCursor := fun cursor => .ok ⟨0, cursor⟩
    encodeCursor := fun cursor => cursor.id }

/-- The ledger with two customers and no assessments. -/
def Store.over (ledger : LedgerCredit.Store) : Store where
  ledger := ledger
  customers := (Table.empty.insert ⟨"customer", some "demo-customer-1", "ACTIVE"⟩).insert
    ⟨"stranger", some "demo-customer-2", "ACTIVE"⟩
  snapshots := .empty
  assessments := .empty
  idempotencyRecords := .empty

/-- A transfer of 100 to the savings account, up to its commit. -/
def storedSchedule : List (Action Choice LedgerCredit.Call) :=
  .start (.createTransfer (demoRequest 100) (demoContext "k")) :: advances 0 "a" 24

def storedResponse : LedgerCredit.Replay :=
  ⟨200, .transfer "id-a4-0" .settled (some "correlation")⟩

/-- What `storedSchedule` leaves. -/
structure Stored (s : LedgerCredit.Store) : Prop where
  record : (s.idempotencyRecords.find? ("transfer.create", "k")).map
    (fun r => (r.requestHash, r.replay?)) = some (requestText (demoRequest 100), some storedResponse)
  transfers : s.transferRequests.rows.map (fun t => (t.id, t.sourceAccountId)) =
    [("id-a4-0", demoData.checkingAccountId)]
  accounts : s.accounts.rows = demoStore.accounts.rows

theorem stored_run : ∃ c, Steps (server LedgerCredit.testEnvironment) anySchedule
    (.initial demoStore) c ∧ Stored c.store := by
  obtain ⟨c, hrun, hrecord, htransfers, haccounts⟩ := exists_of_play
    (server LedgerCredit.testEnvironment) anySchedule (.initial demoStore) storedSchedule
    (fun c => (c.store.idempotencyRecords.find? ("transfer.create", "k")).map
        (fun r => (r.requestHash, r.replay?)) =
          some (requestText (demoRequest 100), some storedResponse) ∧
      c.store.transferRequests.rows.map (fun t => (t.id, t.sourceAccountId)) =
        [("id-a4-0", demoData.checkingAccountId)] ∧
      c.store.accounts.rows = demoStore.accounts.rows) (by decide +kernel)
  exact ⟨c, hrun, hrecord, htransfers, haccounts⟩

/-- The stored response is about an account of the demo customer. -/
theorem Stored.transferred {s : LedgerCredit.Store} (h : Stored s) :
    Transferred s "customer" storedResponse := by
  obtain ⟨t, ht, heq⟩ := List.mem_map.mp (h.transfers ▸ List.mem_singleton_self _)
  obtain ⟨hid, hsource⟩ := Prod.mk.inj heq
  have haccount : ∃ a ∈ demoStore.accounts.rows, a.id = demoData.checkingAccountId ∧
      a.customerId = "customer" := by decide +kernel
  refine ⟨t, ht, ⟨_, _, by rw [hid]; rfl⟩, ?_⟩
  rw [h.accounts, hsource]
  exact haccount

theorem Stored.replays {s : LedgerCredit.Store} (h : Stored s) {args : CreateTransferArgs}
    (hkey : args.idempotencyKey = "k") (hhash : args.requestHash = requestText (demoRequest 100)) :
    Replays s args storedResponse := by
  obtain ⟨record, hfind, heq⟩ := Option.map_eq_some_iff.mp h.record
  obtain ⟨hrecord, hreplay⟩ := Prod.mk.inj heq
  exact ⟨record, hkey ▸ hfind, hrecord.trans hhash.symm, hreplay⟩

/-- The demo customer repeats the request. -/
theorem own_answers_repeated :
    ∃ c, Steps (server LedgerCredit.testEnvironment) anySchedule (.initial demoStore) c ∧
      (Store.over c.store).AnswersOwn testEnvironment (demoContext "k")
        (.createTransfer (demoRequest 100)) "customer" := by
  obtain ⟨c, hrun, hstored⟩ := stored_run
  refine ⟨c, hrun, (own_answers_iff (Store.over c.store) testEnvironment _ (demoContext "k")
    ⟨"customer", .customer⟩ rfl rfl).mpr ?_⟩
  intro args record r hargs hfind _ hreplay
  obtain ⟨hkey, -, -⟩ := transferArgs_ok hargs
  obtain ⟨record', hfind', heq⟩ := Option.map_eq_some_iff.mp hstored.record
  rw [← Option.some.inj hkey] at hfind
  obtain rfl := Option.some.inj (hfind'.symm.trans hfind)
  obtain rfl := Option.some.inj ((Prod.mk.inj heq).2.symm.trans hreplay)
  exact hstored.transferred.own _

/-- A stranger who repeats the request gets the response of the demo customer. -/
theorem foreign_response_replayed :
    ∃ c context actor, Steps (server LedgerCredit.testEnvironment) anySchedule
        (.initial demoStore) c ∧ context.actor = some actor ∧ actor.actorType = .customer ∧
      ¬ (Store.over c.store).AnswersOwn testEnvironment context
        (.createTransfer (demoRequest 100)) actor.actorId := by
  obtain ⟨c, hrun, hstored⟩ := stored_run
  refine ⟨c, ⟨"correlation", some "k", some ⟨"stranger", .customer⟩⟩, ⟨"stranger", .customer⟩, hrun,
    rfl, rfl, fun h => ?_⟩
  have hanswers : Answers testEnvironment (Store.over c.store)
      ⟨"correlation", some "k", some ⟨"stranger", .customer⟩⟩ (.createTransfer (demoRequest 100))
      (.created storedResponse) (Store.over c.store) :=
    .createTransfer (createTransfer_replays rfl (hstored.replays rfl rfl))
  obtain ⟨t, ht, ⟨_, _, hbody⟩, howns⟩ := hstored.transferred
  exact absurd (h _ _ hanswers "customer" ⟨t, ht, (ResponseBody.transfer.inj hbody).1.symm, howns⟩)
    (by decide)

end LedgerCredit.Credit
