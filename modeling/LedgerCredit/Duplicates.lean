import LedgerCredit.Evidence
import LedgerCredit.Keys
import LedgerCredit.Txn.Isolated

/-!
# Concurrent duplicates

Calls of `createTransfer` with one key and one payload compete for the idempotency
record.  Each looks for the record first and inserts it in another statement.  The
first insert locks the key; a second one waits for it, and raises a unique violation
when the first commits, which is no `AppException`.

*Contending.*  Until one of them commits, the store is as it was, so each thread is
where it could be alone.  At most one holds the key, and the others have written
nothing.

*Answering.*  After that the response is stored.  The thread that stored it goes on
alone, and every other one that looks for the record replays the response, unless it
looked before: then it waits at its insert.
-/

namespace LedgerCredit

open Txn TransfersService

/-! ## The calls -/

/-- What a call does after its transaction. -/
def afterTransfer (env : Env) (r : TransferMutationResult) : Process Reply :=
  match truthy r.enqueueTransferId with
  | some id => ExternalRailService.enqueueTransferSubmission env id >>= fun _ =>
      pure (.created ⟨r.statusCode, r.body⟩)
  | none => pure (.created ⟨r.statusCode, r.body⟩)

/-- The rest of a call, from the result of its transaction on. -/
def finish (env : Env) (x : Except TxError TransferMutationResult) : Process Reply :=
  Proc.ofResult x >>= afterTransfer env

/-- What the transaction does with the record it found. -/
def afterFind (env : Env) (args : CreateTransferArgs) :
    Option IdempotencyRecord → Transaction TransferMutationResult
  | some existing => do
      assert (existing.requestHash = args.requestHash)
        ⟨409, "idempotency_conflict", "Idempotency key was already used with a different payload."⟩
      let r ← orThrow existing.replay?
        ⟨409, "idempotency_in_progress", "A request with this idempotency key is still in progress."⟩
      return { statusCode := r.statusCode, body := r.body }
  | none => .query (.createIdempotencyRecord (IdempotencyService.recordData "transfer.create"
      args.idempotencyKey args.requestHash)) fun record => createNew env args record.id

section Calls

variable {env : Env} {args : CreateTransferArgs}

theorem createTransferTx_eq : createTransferTx env args =
    .query (.findIdempotencyRecord "transfer.create" args.idempotencyKey) (afterFind env args) := by
  refine congrArg (Tx.query _) (funext fun found => ?_)
  cases found with
  | none => rfl
  | some existing =>
      by_cases hhash : existing.requestHash = args.requestHash
      · cases hreplay : existing.replay? with
        | none => simp [afterFind, assert, Tx.ensure, orThrow, Tx.require, hhash, hreplay, pure, bind,
            Tx.bind]
        | some r => simp [afterFind, assert, Tx.ensure, orThrow, Tx.require, hhash, hreplay, pure,
            bind, Tx.bind]
      · simp [afterFind, assert, Tx.ensure, hhash, pure, bind, Tx.bind]

theorem createTransfer_program {input : CreateTransferRequest} {context : RequestContext}
    (hargs : transferArgs env input context = .ok args) :
    Call.program env (.createTransfer input context) =
      .call (.createTransfer args) (finish env) := by
  rw [Call.program, createTransfer, hargs]
  refine congrArg (Proc.call _) (funext fun x => ?_)
  cases x with
  | error e => rfl
  | ok r =>
      simp only [finish, Proc.ofResult, Proc.bind, bind, afterTransfer]
      cases truthy r.enqueueTransferId with
      | none => rfl
      | some id => exact Proc.bind_assoc _ _ _

/-- The record that was found is replayed. -/
theorem afterFind_replay {existing : IdempotencyRecord} {r : Replay}
    (hhash : existing.requestHash = args.requestHash) (hreplay : existing.replay? = some r) :
    afterFind env args (some existing) = .pure { statusCode := r.statusCode, body := r.body } := by
  simp [afterFind, hhash, hreplay, assert, Tx.ensure, orThrow, Tx.require, pure, bind, Tx.bind]

/-- A record that cannot be replayed is refused. -/
theorem afterFind_throw {existing : IdempotencyRecord}
    (h : ∀ r, existing.requestHash = args.requestHash → existing.replay? ≠ some r) :
    ∃ e, afterFind env args (some existing) = .throw e := by
  by_cases hhash : existing.requestHash = args.requestHash
  · cases hreplay : existing.replay? with
    | none =>
        exact ⟨_, by simp [afterFind, hhash, hreplay, assert, Tx.ensure, orThrow, Tx.require,
          bind, Tx.bind]; rfl⟩
    | some r => exact absurd hreplay (h r hhash)
  · exact ⟨_, by simp [afterFind, hhash, assert, Tx.ensure, bind, Tx.bind]; rfl⟩

theorem afterEvent_yields (event : NormalizedExternalRailEvent) (r : TransferRequest) :
    (afterEvent event r).Yields fun _ => True := by
  have hreport : ∀ correlationId : String,
      (reportEvent event r correlationId).Yields fun _ => True :=
    fun _ => .bind .transaction fun _ _ => trivial
  unfold afterEvent
  cases r.correlationId with
  | some correlationId => exact hreport correlationId
  | none =>
      have hdraw : (randomUUID : Process Uuid).Yields fun _ => True :=
        .bind .transaction fun _ _ => trivial
      exact hdraw.bind fun uuid _ => hreport uuid

/-- The calls about transfers fork no pool. -/
theorem yields_parts : TransferParts fun p => p.Yields fun _ => True where
  pure := fun _ => trivial
  throw := fun _ => trivial
  bind := fun hp hf => hp.bind fun a _ => hf a
  statement := fun _ _ => .transaction
  event := by
    intro event
    rw [applyNormalizedEvent_eq]
    exact .bind .transaction fun r _ => afterEvent_yields event r
  create := fun _ => .transaction

/-- A call returns what its transaction returned. -/
theorem afterTransfer_yields (r : TransferMutationResult) :
    (afterTransfer env r).Yields (· = .created ⟨r.statusCode, r.body⟩) := by
  unfold afterTransfer
  cases truthy r.enqueueTransferId with
  | some id =>
      exact .bind (ExternalRailService.enqueueTransferSubmission_parts yields_parts id)
        fun _ _ => rfl
  | none => exact rfl

end Calls

/-! ## The phases of a run -/

/-- The calls with the request and one of the contexts. -/
def duplicateOf (input : CreateTransferRequest) (contexts : List RequestContext) : Call → Bool
  | .createTransfer i context => decide (i = input ∧ context ∈ contexts)
  | _ => false

/-- Calls with one key and one payload, each of which succeeds alone. -/
structure Duplicates (env : Env) (choice : Store → Choice → Prop) (s : Store)
    (input : CreateTransferRequest) (key : String) (contexts : List RequestContext) : Prop where
  key : ∀ context ∈ contexts, truthy context.idempotencyKey = some key
  succeeds : ∀ context ∈ contexts, ∀ e, ¬ Finishes (server env) choice
    (Call.program env (.createTransfer input context)) s (.error e)

/-- The key that the next statement of a transaction is to insert. -/
def inserting {α : Type} (u : Uuid) : Transaction α → Option (String × String)
  | .query (.createIdempotencyRecord data) _ => some ((data u).operationType, (data u).key)
  | _ => none

/-- An insert of the idempotency record meets a committed record with its key. -/
def meets (c : ServerConfig) : Action Choice Call → Bool
  | .advance i ch =>
      match c.threads[i]? with
      | some ⟨_, _, .opened _ _ t _⟩ =>
          (inserting (ch.uuid 0) t).any fun k => (c.store.idempotencyRecords.find? k).isSome
      | _ => false
  | _ => false

/-- Only the duplicates are started, and no transaction is aborted. -/
def onlyDuplicates (input : CreateTransferRequest) (contexts : List RequestContext)
    (_ : ServerConfig) : Action Choice Call → Bool
  | .start call => duplicateOf input contexts call
  | .abort _ => false
  | _ => true

/-- As `onlyDuplicates`, and no insert meets a committed record. -/
def unmetDuplicates (input : CreateTransferRequest) (contexts : List RequestContext)
    (c : ServerConfig) (a : Action Choice Call) : Bool :=
  onlyDuplicates input contexts c a && !meets c a

/-- The code of a thread of the calls. -/
abbrev ServerCode := Code Stmt Label TxError Write Uuid Reply

/-- A thread of the calls. -/
abbrev ServerThread := Thread Stmt Label TxError Write Uuid Call Reply

/-- The call looks for the record next, or found none and inserts it next. -/
inductive Early (env : Env) (args : CreateTransferArgs) : ServerCode → Prop where
  | idle : Early env args (.run (.call (.createTransfer args) (finish env)))
  | begun {t : Transaction TransferMutationResult} :
      t = .query (.findIdempotencyRecord "transfer.create" args.idempotencyKey) (afterFind env args) →
      Early env args (.opened (.createTransfer args) [] t (finish env))
  | waiting {h : List (Event Stmt Write)} {t : Transaction TransferMutationResult} :
      writes h = [] → t = afterFind env args none →
      Early env args (.opened (.createTransfer args) h t (finish env))

/-- The call inserted the record, and did not commit it yet. -/
inductive Holding (env : Env) (args : CreateTransferArgs) : ServerCode → Prop where
  | mk {h : List (Event Stmt Write)} {t : Transaction TransferMutationResult} :
      .idempotencyKey "transfer.create" args.idempotencyKey ∈ database.locksOf (writes h) →
      Holding env args (.opened (.createTransfer args) h t (finish env))

/-- The call replays the response, or did. -/
inductive Replaying (env : Env) (args : CreateTransferArgs) (r : Replay) : ServerCode → Prop where
  | opened {h : List (Event Stmt Write)} {t : Transaction TransferMutationResult} :
      writes h = [] → t = .pure { statusCode := r.statusCode, body := r.body } →
      Replaying env args r (.opened (.createTransfer args) h t (finish env))
  | returned : Replaying env args r (.run (.pure (.created r)))

/-! ## Before the first commit -/

section Phases

variable {env : Env} {choice : Store → Choice → Prop} {s : Store} {input : CreateTransferRequest}
  {key : String} {contexts : List RequestContext} {args : CreateTransferArgs}

/-- The arguments are those of a duplicate. -/
structure CreateTransferArgs.Are (args : CreateTransferArgs) (env : Env)
    (input : CreateTransferRequest) (key : String) : Prop where
  key : args.idempotencyKey = key
  hash : args.requestHash = env.hashRequestPayload input

/-- Errors of the transaction are thrown. -/
theorem throws_of_place {α : Type} {l : Label α} {h : List (Event Stmt Write)} {t : Transaction α}
    {k : Except TxError α → Process Reply}
    (hplace : Early env args (.opened l h t k) ∨ Holding env args (.opened l h t k)) (e : TxError) :
    k (.error e) = .throw e := by
  cases hplace with
  | inl hearly => cases hearly <;> rfl
  | inr hholding => cases hholding; rfl

/-- A call that looked for the record. -/
inductive Looked (env : Env) (args : CreateTransferArgs) (s : Store) (u : Uuid)
    {α : Type} (t : Transaction α) : ServerCode → Prop where
  | absent {code : ServerCode} :
      s.idempotencyRecords.find? ("transfer.create", args.idempotencyKey) = none →
      Early env args code → Looked env args s u t code
  | found {existing : IdempotencyRecord} {h : List (Event Stmt Write)} :
      s.idempotencyRecords.find? ("transfer.create", args.idempotencyKey) = some existing →
      writes h = [] → Looked env args s u t
        (.opened (.createTransfer args) h (afterFind env args (some existing)) (finish env))
  | inserted {code : ServerCode} :
      inserting u t = some ("transfer.create", args.idempotencyKey) → Holding env args code →
      Looked env args s u t code

theorem exec_find {operationType key : String} {ch : Choice} {r : Option IdempotencyRecord}
    {ws : List Write} (h : s.exec (.findIdempotencyRecord operationType key) ch = .ok (r, ws)) :
    r = s.idempotencyRecords.find? (operationType, key) ∧ ws = [] := by
  cases h
  exact ⟨rfl, rfl⟩

theorem Early.statement {α β : Type} {l : Label β} {h : List (Event Stmt Write)} {q : Stmt α}
    {k' : α → Transaction β} {k : Except TxError β → Process Reply} {ch : Choice} {x : α}
    {ws : List Write} (he : Early env args (.opened l h (.query q k') k))
    (hexec : (database.applyAll (writes h) s).exec q ch = .ok (x, ws)) :
    Looked env args s (ch.uuid 0) (.query q k') (.opened l (h ++ [⟨q, x, ws⟩]) (k' x) k) := by
  cases he with
  | begun ht =>
      cases ht
      obtain ⟨rfl, rfl⟩ := exec_find (s := s) hexec
      cases hfind : s.idempotencyRecords.find? ("transfer.create", args.idempotencyKey) with
      | none => exact .absent hfind (.waiting rfl rfl)
      | some existing => exact .found hfind rfl
  | waiting hh ht =>
      cases ht
      obtain ⟨⟨u, rfl⟩, rfl⟩ := exec_answers hexec
      refine .inserted rfl (.mk ?_)
      simp [hh, Database.locksOf, database, Write.locks, IdempotencyService.recordData, Write.adds]

theorem Holding.statement {α β : Type} {l : Label β} {h : List (Event Stmt Write)} {q : Stmt α}
    {k' : α → Transaction β} {k : Except TxError β → Process Reply} {x : α} {ws : List Write}
    (hh : Holding env args (.opened l h (.query q k') k)) :
    Holding env args (.opened l (h ++ [⟨q, x, ws⟩]) (k' x) k) := by
  cases hh with
  | mk hlock =>
      refine .mk ?_
      rw [writes_append, Database.locksOf, List.flatMap_append]
      exact List.mem_append_left _ hlock

/-- A call while none has committed. -/
structure Contender (env : Env) (choice : Store → Choice → Prop) (s : Store)
    (input : CreateTransferRequest) (key : String) (contexts : List RequestContext)
    (call : Call) (code : ServerCode) : Prop where
  duplicate : duplicateOf input contexts call = true
  alone : code.AloneFrom (server env) choice (call.program env) s s
  place : ∃ args : CreateTransferArgs, args.Are env input key ∧
    (Early env args code ∨ Holding env args code)

/-- A record that is read now is there. -/
theorem now_findIdempotencyRecord {operationType : String} {record : IdempotencyRecord}
    (h : Now s [] ⟨.findIdempotencyRecord operationType key, some record, []⟩) :
    record ∈ s.idempotencyRecords.rows ∧ record.operationType = operationType ∧ record.key = key := by
  obtain ⟨ch, hexec⟩ := h
  obtain ⟨hmem, huk⟩ := Table.find?_eq_some.mp (exec_find (s := s) hexec).1.symm
  obtain ⟨htype, hkey⟩ := Prod.mk.inj (Option.some.inj huk)
  exact ⟨hmem, htype, hkey⟩

/-- A transaction of `createTransfer` that ends alone leaves its response. -/
theorem answered_of_ends {s' : Store} {r : TransferMutationResult}
    (h : Ends (server env).toDatabase choice (createTransferTx env args) s (.ok (r, s'))) :
    s'.Answered args.idempotencyKey args.requestHash ⟨r.statusCode, r.body⟩ := by
  obtain ⟨ws, hruns, rfl, hadm⟩ := h.runs (V := Now s) lawful_database
    fun p e ch _ hexec => ⟨ch, hexec⟩
  have hcommitted : Committed (Now s) env (.createTransfer args) r ws :=
    committed_of_runs (answering_of_saw fun _ _ => saw_of_now) hruns
  have hgrounds : grounds s (.createTransfer args) := trivial
  obtain ⟨entries, -, heffect⟩ := hcommitted.effect (fun _ _ => saw_of_now) hgrounds hadm
  exact heffect.answered fun _ _ => now_findIdempotencyRecord

section Calls

variable (hd : Duplicates env choice s input key contexts)

include hd

/-- A call that succeeds alone does not fail. -/
theorem Duplicates.never {call : Call} (hcall : duplicateOf input contexts call = true) (e : TxError) :
    ¬ Finishes (server env) choice (call.program env) s (.error e) := by
  cases call with
  | createTransfer i context =>
      obtain ⟨rfl, hmem⟩ := of_decide_eq_true hcall
      exact hd.succeeds context hmem e
  | _ => cases hcall

/-- A call begins with the transaction of `createTransfer`. -/
theorem Duplicates.program {call : Call} (hcall : duplicateOf input contexts call = true) :
    ∃ args : CreateTransferArgs, args.Are env input key ∧
      call.program env = .call (.createTransfer args) (finish env) := by
  cases call with
  | createTransfer i context =>
      obtain ⟨rfl, hmem⟩ := of_decide_eq_true hcall
      cases hargs : transferArgs env i context with
      | error e =>
          refine absurd ?_ (hd.succeeds context hmem (.app e))
          rw [Call.program, createTransfer, hargs]
          exact .throw
      | ok args =>
          obtain ⟨hkey, hhash, -⟩ := transferArgs_ok hargs
          exact ⟨args, ⟨Option.some.inj (hkey.symm.trans (hd.key context hmem)), hhash⟩,
            createTransfer_program hargs⟩
  | _ => cases hcall

/-- A transaction of a call does not fail. -/
theorem Duplicates.no_failure {call : Call} (hcall : duplicateOf input contexts call = true) {α : Type}
    {l : Label α} {h : List (Event Stmt Write)} {t : Transaction α}
    {k : Except TxError α → Process Reply} {e : TxError}
    (hal : (Code.opened l h t k).AloneFrom (server env) choice (call.program env) s s)
    (hthrows : k (.error e) = .throw e) :
    ¬ Ends (server env).toDatabase choice t (database.applyAll (writes h) s) (.error e) := by
  intro hends
  have hrun := hal.rollback hends
  rw [hthrows] at hrun
  exact hd.never hcall e hrun.throws

theorem Duplicates.start {call : Call} (hcall : duplicateOf input contexts call = true) :
    Contender env choice s input key contexts call (.run (call.program env)) := by
  refine ⟨hcall, .start, ?_⟩
  obtain ⟨args, hargs, hprogram⟩ := hd.program hcall
  exact ⟨args, hargs, Or.inl (hprogram ▸ .idle)⟩

end Calls

/-- What one step of a call does while none has committed: the call goes on, or it commits the
response. -/
theorem Contender.advance {c c' : ServerConfig} {i : Nat} {ch : Choice} {call : Call} {code : ServerCode}
    (hd : Duplicates env choice s input key contexts)
    (hc : Contender env choice s input key contexts call code)
    (hnew : ∀ r, ¬ s.Answered key (env.hashRequestPayload input) r) (hs : c.store = s)
    (hth : c.threads[i]? = some ⟨call, none, code⟩)
    (hch : Chooses (server env) choice c (.advance i ch : Action Choice Call))
    (hstep : (server env).step c (.advance i ch) = some c') :
    (∃ code', c' = c.put i ⟨call, none, code'⟩ s ∧
      Contender env choice s input key contexts call code') ∨
    ∃ code' s' r, c' = c.put i ⟨call, none, code'⟩ s' ∧
      Thread.Lone (server env) choice s (· = .created r) s' ⟨call, none, code'⟩ ∧
      s'.Answered key (env.hashRequestPayload input) r ∧
      .idempotencyKey "transfer.create" key ∈ database.locksOf (writes code.history) := by
  obtain ⟨hcall, hal, args, hargs, hplace⟩ := hc
  cases step_cases hstep with
  | begin h =>
      cases Option.some.inj (hth.symm.trans h)
      refine Or.inl ⟨_, by rw [← hs]; rfl, hcall, hal.opened, args, hargs, Or.inl ?_⟩
      cases hplace with
      | inl hearly => cases hearly; exact .begun createTransferTx_eq
      | inr hholding => cases hholding
  | statement h hexec _ =>
      cases Option.some.inj (hth.symm.trans h)
      have hal' := hal.statement (hs ▸ hch _ hth) (hs ▸ hexec)
      refine Or.inl ⟨_, by rw [← hs]; rfl, hcall, hal', args, hargs, ?_⟩
      cases hplace with
      | inl hearly =>
          have hlooked := hearly.statement (s := s) (hs ▸ hexec)
          revert hal'
          generalize (Code.opened _ _ _ _ : ServerCode) = code at hlooked ⊢
          intro hal'
          cases hlooked with
          | absent _ hearly => exact Or.inl hearly
          | inserted _ hholding => exact Or.inr hholding
          | @found existing h' hfind hh =>
              obtain ⟨hmem, huk⟩ := Table.find?_eq_some.mp hfind
              obtain ⟨htype, hkey⟩ := Prod.mk.inj (Option.some.inj huk)
              have hthrows : ∃ e, afterFind env args (some existing) = .throw e :=
                afterFind_throw fun r hhash hreplay => hnew r ⟨existing, hmem, htype,
                  hkey.trans hargs.key, hhash.trans hargs.hash, hreplay⟩
              obtain ⟨e, hthrow⟩ := hthrows
              rw [hthrow] at hal'
              exact absurd .throw (hd.no_failure hcall hal' rfl)
      | inr hholding => exact Or.inr hholding.statement
  | rollback h hfails =>
      obtain rfl := hfails.actor
      cases Option.some.inj (hth.symm.trans h)
      exact absurd (hs ▸ ends_of_fails hth hch hfails)
        (hd.no_failure hcall hal (throws_of_place hplace _))
  | commit h =>
      cases Option.some.inj (hth.symm.trans h)
      cases hplace with
      | inl hearly =>
          cases hearly with
          | begun ht => cases ht
          | waiting _ ht => cases ht
      | inr hholding =>
          cases hholding with
          | mk hlock =>
              refine Or.inr ⟨_, _, _, rfl, ⟨rfl, hs ▸ hal.commit, afterTransfer_yields _⟩, ?_,
                hargs.key ▸ hlock⟩
              rw [hs, ← hargs.key, ← hargs.hash]
              exact answered_of_ends hal.ends
  | fork h =>
      cases Option.some.inj (hth.symm.trans h)
      cases hplace with
      | inl hearly => cases hearly
      | inr hholding => cases hholding
  | take h _ => cases Option.some.inj (hth.symm.trans h)
  | resume h _ =>
      cases Option.some.inj (hth.symm.trans h)
      cases hplace with
      | inl hearly => cases hearly
      | inr hholding => cases hholding

/-! ## After the first commit -/

/-- A call that replays the response, or is going to. -/
structure Follower (env : Env) (input : CreateTransferRequest) (key : String) (r : Replay)
    (code : ServerCode) : Prop where
  place : ∃ args : CreateTransferArgs, args.Are env input key ∧
    (Early env args code ∨ Replaying env args r code)

/-- The record that a call looks for. -/
theorem Store.Answered.found {r : Replay} (h : s.Answered key (env.hashRequestPayload input) r)
    (hargs : args.Are env input key) : ∃ existing : IdempotencyRecord,
      s.idempotencyRecords.find? ("transfer.create", args.idempotencyKey) = some existing ∧
      afterFind env args (some existing) =
        .pure { statusCode := r.statusCode, body := r.body } := by
  obtain ⟨record, hmem, htype, hkey, hhash, hreplay⟩ := h
  refine ⟨record, Table.find?_eq_some.mpr ⟨hmem, ?_⟩,
    afterFind_replay (hhash.trans hargs.hash.symm) hreplay⟩
  rw [htype, hkey, hargs.key]

theorem meets_of_inserting {c : ServerConfig} {i : Nat} {ch : Choice} {call : Call}
    {pool : Option Nat} {α : Type} {l : Label α} {h : List (Event Stmt Write)} {t : Transaction α}
    {k : Except TxError α → Process Reply} {u : String × String} {record : IdempotencyRecord}
    (hth : c.threads[i]? = some ⟨call, pool, .opened l h t k⟩)
    (ht : inserting (ch.uuid 0) t = some u)
    (hfind : c.store.idempotencyRecords.find? u = some record) : meets c (.advance i ch) = true := by
  simp [meets, hth, ht, hfind]

/-- No statement of a call fails when the record is there. -/
theorem not_fails {c : ServerConfig} {i : Nat} {ch : Choice} {call : Call} {α : Type} {l : Label α}
    {h : List (Event Stmt Write)} {t : Transaction α} {k : Except TxError α → Process Reply}
    {record : IdempotencyRecord} {r : Replay} {e : TxError}
    (hplace : Early env args (.opened l h t k) ∨ Replaying env args r (.opened l h t k))
    (hfind : c.store.idempotencyRecords.find? ("transfer.create", args.idempotencyKey) = some record)
    (hunmet : meets c (.advance i ch) = false)
    (hth : c.threads[i]? = some ⟨call, none, .opened l h t k⟩) :
    ¬ Fails (server env) c i h t (.advance i ch) e := by
  intro hfails
  cases hplace with
  | inl hearly =>
      cases hearly with
      | begun ht =>
          cases hfails with
          | throw ht' => cases ht.symm.trans ht'
          | statement ht' hexec =>
              cases ht.symm.trans ht'
              cases hexec
      | waiting _ ht => cases hunmet.symm.trans (meets_of_inserting hth (ht ▸ rfl) hfind)
  | inr hreplaying =>
      cases hreplaying with
      | opened _ ht =>
          cases hfails with
          | throw ht' => cases ht.symm.trans ht'
          | statement ht' _ => cases ht.symm.trans ht'

/-- What one step of a call does when the response is stored. -/
theorem Follower.advance {c c' : ServerConfig} {i : Nat} {ch : Choice} {call : Call}
    {code : ServerCode} {r : Replay} (hf : Follower env input key r code)
    (hanswered : c.store.Answered key (env.hashRequestPayload input) r)
    (hunmet : meets c (.advance i ch) = false) (hth : c.threads[i]? = some ⟨call, none, code⟩)
    (hstep : (server env).step c (.advance i ch) = some c') :
    ∃ code', c' = c.put i ⟨call, none, code'⟩ c.store ∧ Follower env input key r code' := by
  obtain ⟨args, hargs, hplace⟩ := hf
  obtain ⟨existing, hfind, hreplay⟩ := hanswered.found hargs
  cases step_cases hstep with
  | begin h =>
      cases Option.some.inj (hth.symm.trans h)
      refine ⟨_, rfl, args, hargs, Or.inl ?_⟩
      cases hplace with
      | inl hearly => cases hearly; exact .begun createTransferTx_eq
      | inr hreplaying => cases hreplaying
  | statement h hexec _ =>
      cases Option.some.inj (hth.symm.trans h)
      refine ⟨_, rfl, args, hargs, ?_⟩
      cases hplace with
      | inl hearly =>
          have hlooked := hearly.statement hexec
          generalize (Code.opened _ _ _ _ : ServerCode) = code at hlooked ⊢
          cases hlooked with
          | absent hnone _ => cases hfind.symm.trans hnone
          | found hfound hh =>
              obtain rfl := Option.some.inj (hfind.symm.trans hfound)
              exact Or.inr (.opened hh hreplay)
          | inserted hinsert _ =>
              cases hunmet.symm.trans (meets_of_inserting hth hinsert hfind)
      | inr hreplaying =>
          cases hreplaying with
          | opened _ ht => cases ht
  | rollback h hfails =>
      obtain rfl := hfails.actor
      cases Option.some.inj (hth.symm.trans h)
      exact absurd hfails (not_fails hplace hfind hunmet hth)
  | commit h =>
      cases Option.some.inj (hth.symm.trans h)
      cases hplace with
      | inl hearly =>
          cases hearly with
          | begun ht => cases ht
          | waiting _ ht => cases ht
      | inr hreplaying =>
          cases hreplaying with
          | opened hh ht =>
              cases ht
              exact ⟨_, by rw [hh]; rfl, args, hargs, Or.inr .returned⟩
  | fork h =>
      cases Option.some.inj (hth.symm.trans h)
      cases hplace with
      | inl hearly => cases hearly
      | inr hreplaying => cases hreplaying
  | take h _ => cases Option.some.inj (hth.symm.trans h)
  | resume h _ =>
      cases Option.some.inj (hth.symm.trans h)
      cases hplace with
      | inl hearly => cases hearly
      | inr hreplaying => cases hreplaying

/-! ## Runs -/

/-- No call committed yet. -/
structure Contending (env : Env) (choice : Store → Choice → Prop) (s : Store)
    (input : CreateTransferRequest) (key : String) (contexts : List RequestContext)
    (c : ServerConfig) : Prop where
  store : c.store = s
  thread : ∀ (i : Nat) (th : ServerThread), c.threads[i]? = some th → th.pool = none ∧
    Contender env choice s input key contexts th.call th.code

/-- The response is stored, and only the call that stored it may go on to write. -/
structure Responding (env : Env) (choice : Store → Choice → Prop) (s : Store)
    (input : CreateTransferRequest) (key : String) (contexts : List RequestContext) (r : Replay)
    (leader : Option Nat) (c : ServerConfig) : Prop where
  answered : c.store.Answered key (env.hashRequestPayload input) r
  bound : ∀ i, leader = some i → i < c.threads.length
  duplicate : ∀ (i : Nat) (th : ServerThread), c.threads[i]? = some th → duplicateOf input contexts th.call = true
  leads : ∀ (i : Nat) (th : ServerThread), c.threads[i]? = some th → leader = some i →
    th.Lone (server env) choice s (· = .created r) c.store
  follows : ∀ (i : Nat) (th : ServerThread), c.threads[i]? = some th → leader ≠ some i →
    th.pool = none ∧ Follower env input key r th.code

section Runs

variable {c c' : ServerConfig} {r : Replay} {leader : Option Nat}

/-- Open transactions hold different locks. -/
theorem locks_disjoint {ok : ServerConfig → Action Choice Call → Bool}
    (hrun : Steps (server env) ok (.initial s) c) {i j : Nat} {th th' : ServerThread} (hne : i ≠ j)
    (hi : c.threads[i]? = some th) (hj : c.threads[j]? = some th') :
    List.Disjoint (database.locksOf (writes th.code.history))
      (database.locksOf (writes th'.code.history)) := by
  have hany : Steps (server env) anySchedule (.initial s) c := hrun.mono fun _ _ _ => rfl
  obtain ⟨⟨own, hsound⟩, -⟩ := Rules.sound_of_steps deliveryRules_valid (.refl s) hany
  exact (hsound.apart i j th th' hne hi hj).1

/-- A response stays stored. -/
theorem answered_of_step {ok : ServerConfig → Action Choice Call → Bool}
    (hrun : Steps (server env) ok (.initial s) c) {a : Action Choice Call}
    (hstep : (server env).step c a = some c') {requestHash : String}
    (h : c.store.Answered key requestHash r) : c'.store.Answered key requestHash r := by
  cases step_cases hstep with
  | commit hth =>
      obtain ⟨hgrounds, ⟨V, hV, hcommitted⟩, hadm⟩ := commitable_of_steps hrun hth
      obtain ⟨entries, -, heffect⟩ := hcommitted.effect hV hgrounds hadm
      have hrecords := records_prefix heffect
      exact h.mono hrecords.subset
  | _ => exact h

theorem thread_of_advance {i : Nat} {ch : Choice}
    (hstep : (server env).step c (.advance i ch) = some c') : ∃ th, c.threads[i]? = some th := by
  obtain ⟨th, hth, -⟩ := Option.bind_eq_some_iff.mp hstep
  exact ⟨th, hth⟩

/-- A thread of a configuration in which thread `i` went on. -/
theorem thread_of_put {i j : Nat} {th th' : ServerThread} {s' : Store}
    (h : (c.put i th s').threads[j]? = some th') :
    (j = i ∧ th' = th) ∨ (j ≠ i ∧ c.threads[j]? = some th') := Rules.getElem?_set_cases h

variable (hd : Duplicates env choice s input key contexts)

include hd

theorem Contending.start (hc : Contending env choice s input key contexts c) {call : Call}
    (hcall : duplicateOf input contexts call = true) :
    Contending env choice s input key contexts
      { c with threads := c.threads ++ [⟨call, none, .run (call.program env)⟩] } where
  store := hc.store
  thread := by
    intro i th hth
    rcases Rules.getElem?_append_cases hth with ⟨-, hold⟩ | ⟨-, hmem⟩
    · exact hc.thread i th hold
    · obtain rfl := List.mem_singleton.mp hmem
      exact ⟨rfl, hd.start hcall⟩

theorem Responding.start (hc : Responding env choice s input key contexts r leader c) {call : Call}
    (hcall : duplicateOf input contexts call = true) :
    Responding env choice s input key contexts r leader
      { c with threads := c.threads ++ [⟨call, none, .run (call.program env)⟩] } := by
  obtain ⟨args, hargs, hprogram⟩ := hd.program hcall
  refine ⟨hc.answered, fun i hi => ?_, fun i th hth => ?_, fun i th hth hi => ?_, fun i th hth hi => ?_⟩
  · exact (hc.bound i hi).trans_le (by simp)
  all_goals rcases Rules.getElem?_append_cases hth with ⟨-, hold⟩ | ⟨hlen, hmem⟩
  · exact hc.duplicate i th hold
  · obtain rfl := List.mem_singleton.mp hmem
    exact hcall
  · exact hc.leads i th hold hi
  · exact absurd (hc.bound i hi) (Nat.not_lt.mpr hlen)
  · exact hc.follows i th hold hi
  · obtain rfl := List.mem_singleton.mp hmem
    exact ⟨rfl, args, hargs, Or.inl (hprogram ▸ .idle)⟩

/-- A step of a call before the first commit. -/
theorem Contending.advance (hnew : ∀ r, ¬ s.Answered key (env.hashRequestPayload input) r)
    {ok : ServerConfig → Action Choice Call → Bool} (hrun : Steps (server env) ok (.initial s) c)
    (hc : Contending env choice s input key contexts c) {i : Nat} {ch : Choice}
    (hch : Chooses (server env) choice c (.advance i ch : Action Choice Call))
    (hstep : (server env).step c (.advance i ch) = some c') :
    Contending env choice s input key contexts c' ∨
      ∃ r, Responding env choice s input key contexts r (some i) c' := by
  obtain ⟨⟨call, pool, code⟩, hth⟩ := thread_of_advance hstep
  obtain ⟨rfl, hcontender⟩ := hc.thread i _ hth
  rcases hcontender.advance hd hnew hc.store hth hch hstep with
    ⟨code', rfl, hcontender'⟩ | ⟨code', s', r, rfl, hlone, hanswered, hlock⟩
  · refine Or.inl ⟨rfl, fun j th hj => ?_⟩
    rcases thread_of_put hj with ⟨rfl, rfl⟩ | ⟨-, hold⟩
    · exact ⟨rfl, hcontender'⟩
    · exact hc.thread j th hold
  · refine Or.inr ⟨r, hanswered, fun j hj => ?_, fun j th hj => ?_, fun j th hj hi => ?_,
      fun j th hj hi => ?_⟩
    · cases hj
      simpa [Config.put] using (List.getElem?_eq_some_iff.mp hth).1
    all_goals rcases thread_of_put hj with ⟨rfl, rfl⟩ | ⟨hne, hold⟩
    · exact hcontender.duplicate
    · exact (hc.thread j th hold).2.duplicate
    · exact hlone
    · exact absurd (Option.some.inj hi).symm hne
    · exact absurd rfl hi
    · -- the key is locked, so the other calls are early
      obtain ⟨hpool, -, -, args, hargs, hplace⟩ := hc.thread j th hold
      refine ⟨hpool, args, hargs, Or.inl ?_⟩
      cases hplace with
      | inl hearly => exact hearly
      | inr hholding =>
          generalize hcode : th.code = other at hholding
          cases hholding with
          | mk hlock' =>
              refine absurd hlock' fun hmem => locks_disjoint hrun hne hold hth ?_ hlock
              rw [hcode, Code.history_opened, ← hargs.key]
              exact hmem

omit hd in
/-- A step of a call after the first commit. -/
theorem Responding.advance {ok : ServerConfig → Action Choice Call → Bool}
    (hrun : Steps (server env) ok (.initial s) c)
    (hc : Responding env choice s input key contexts r leader c) {i : Nat} {ch : Choice}
    (hch : Chooses (server env) choice c (.advance i ch : Action Choice Call))
    (hunmet : meets c (.advance i ch) = false)
    (hstep : (server env).step c (.advance i ch) = some c') :
    Responding env choice s input key contexts r leader c' := by
  have hanswered := answered_of_step hrun hstep hc.answered
  obtain ⟨⟨call, pool, code⟩, hth⟩ := thread_of_advance hstep
  have hduplicate : duplicateOf input contexts call = true := hc.duplicate i _ hth
  by_cases hi : leader = some i
  · obtain ⟨⟨call', pool', code'⟩, s', rfl, rfl, hlone⟩ :=
      (hc.leads i _ hth hi).advance hth hch hstep
    refine ⟨hanswered, fun j hj => ?_, fun j th hj => ?_, fun j th hj hlead => ?_,
      fun j th hj hlead => ?_⟩
    · simpa [Config.put] using hc.bound j hj
    all_goals rcases thread_of_put hj with ⟨rfl, rfl⟩ | ⟨hne, hold⟩
    · exact hduplicate
    · exact hc.duplicate j th hold
    · exact hlone
    · exact absurd (Option.some.inj (hlead.symm.trans hi)) hne
    · exact absurd hi hlead
    · exact hc.follows j th hold hlead
  · obtain ⟨rfl, hfollower⟩ := hc.follows i _ hth hi
    obtain ⟨code', rfl, hfollower'⟩ := hfollower.advance hc.answered hunmet hth hstep
    refine ⟨hanswered, fun j hj => ?_, fun j th hj => ?_, fun j th hj hlead => ?_,
      fun j th hj hlead => ?_⟩
    · simpa [Config.put] using hc.bound j hj
    all_goals rcases thread_of_put hj with ⟨rfl, rfl⟩ | ⟨hne, hold⟩
    · exact hduplicate
    · exact hc.duplicate j th hold
    · exact absurd hlead hi
    · exact hc.leads j th hold hlead
    · exact ⟨rfl, hfollower'⟩
    · exact hc.follows j th hold hlead

omit hd in
/-- A crash leaves the store. -/
theorem Responding.crash (hc : Responding env choice s input key contexts r leader c) :
    Responding env choice s input key contexts r none { c with threads := [], pools := [] } :=
  ⟨hc.answered, by simp, by simp, by simp, by simp⟩

/-- One step keeps the phase, or begins the second one. -/
theorem phase_step {ok : ServerConfig → Action Choice Call → Bool}
    (hrun : Steps (server env) ok (.initial s) c)
    (h : ((∀ r, ¬ s.Answered key (env.hashRequestPayload input) r) ∧
        Contending env choice s input key contexts c) ∨
      ∃ r leader, Responding env choice s input key contexts r leader c)
    {a : Action Choice Call} (hok : unmetDuplicates input contexts c a = true)
    (hch : Chooses (server env) choice c a) (hstep : (server env).step c a = some c') :
    ((∀ r, ¬ s.Answered key (env.hashRequestPayload input) r) ∧
        Contending env choice s input key contexts c') ∨
      ∃ r leader, Responding env choice s input key contexts r leader c' := by
  obtain ⟨hallowed, hunmet⟩ := Bool.and_eq_true_iff.mp hok
  cases a with
  | start call =>
      cases hstep
      rcases h with ⟨hnew, hc⟩ | ⟨r, leader, hc⟩
      · exact Or.inl ⟨hnew, hc.start hd hallowed⟩
      · exact Or.inr ⟨r, leader, hc.start hd hallowed⟩
  | crash =>
      cases hstep
      rcases h with ⟨hnew, hc⟩ | ⟨r, leader, hc⟩
      · exact Or.inl ⟨hnew, hc.store, by simp⟩
      · exact Or.inr ⟨r, none, hc.crash⟩
  | abort i => cases hallowed
  | advance i ch =>
      rcases h with ⟨hnew, hc⟩ | ⟨r, leader, hc⟩
      · rcases hc.advance hd hnew hrun hch hstep with hc' | ⟨r, hc'⟩
        · exact Or.inl ⟨hnew, hc'⟩
        · exact Or.inr ⟨r, some i, hc'⟩
      · exact Or.inr ⟨r, leader, hc.advance hrun hch (by simpa using hunmet) hstep⟩

/-- A run in which no insert meets a committed record is in one of the phases. -/
theorem phase_of_steps
    (hrun : StepsChoosing (server env) (unmetDuplicates input contexts) choice (.initial s) c) :
    ((∀ r, ¬ s.Answered key (env.hashRequestPayload input) r) ∧
        Contending env choice s input key contexts c) ∨
      ∃ r leader, Responding env choice s input key contexts r leader c := by
  induction hrun with
  | refl =>
      by_cases hnew : ∃ r, s.Answered key (env.hashRequestPayload input) r
      · obtain ⟨r, hanswered⟩ := hnew
        exact Or.inr ⟨r, none, hanswered, by simp, by simp [Config.initial],
          by simp [Config.initial], by simp [Config.initial]⟩
      · exact Or.inl ⟨fun r hr => hnew ⟨r, hr⟩, rfl, by simp [Config.initial]⟩
  | tail hrun hstep ih =>
      obtain ⟨a, hok, hch, hstep⟩ := hstep
      exact phase_step hd (StepsChoosing.steps hrun) ih hok hch hstep

omit hd in
theorem code_of_outcome {i : Nat} {o : Except TxError Reply} (h : c.outcome i = some o) :
    ∃ th, c.threads[i]? = some th ∧
      ((∃ a, o = .ok a ∧ th.code = .run (.pure a)) ∨ ∃ e, o = .error e ∧ th.code = .run (.throw e)) := by
  unfold Config.outcome at h
  split at h
  · rename_i hth
    exact ⟨_, hth, Or.inl ⟨_, (Option.some.inj h).symm, rfl⟩⟩
  · rename_i hth
    exact ⟨_, hth, Or.inr ⟨_, (Option.some.inj h).symm, rfl⟩⟩
  · cases h

omit hd in
/-- No call has ended before the first commit. -/
theorem Contending.outcome (hc : Contending env choice s input key contexts c) (i : Nat) :
    c.outcome i = none := by
  cases hout : c.outcome i with
  | none => rfl
  | some o =>
      obtain ⟨th, hth, hcode⟩ := code_of_outcome hout
      obtain ⟨args, -, hplace⟩ := (hc.thread i th hth).2.place
      rcases hcode with ⟨a, -, hcode⟩ | ⟨e, -, hcode⟩ <;> rw [hcode] at hplace <;>
        rcases hplace with hearly | hholding
      · cases hearly
      · cases hholding
      · cases hearly
      · cases hholding

/-- Calls that have ended replied with the response. -/
theorem Responding.outcome (hc : Responding env choice s input key contexts r leader c) {i : Nat}
    {o : Except TxError Reply} (h : c.outcome i = some o) : o = .ok (.created r) := by
  obtain ⟨th, hth, hcode⟩ := code_of_outcome h
  by_cases hi : leader = some i
  · have hlone := hc.leads i th hth hi
    rcases hcode with ⟨a, rfl, hcode⟩ | ⟨e, rfl, hcode⟩
    · have hyields := hlone.yields
      rw [hcode] at hyields
      exact congrArg _ hyields
    · have halone := hlone.alone
      rw [hcode] at halone
      exact absurd halone.throws (hd.never (hc.duplicate i th hth) e)
  · obtain ⟨-, args, -, hplace⟩ := hc.follows i th hth hi
    rcases hcode with ⟨a, rfl, hcode⟩ | ⟨e, rfl, hcode⟩ <;> rw [hcode] at hplace <;>
      rcases hplace with hearly | hreplaying
    · cases hearly
    · cases hreplaying
      rfl
    · cases hearly
    · cases hreplaying

end Runs

end Phases

/-- Concurrent duplicates get the stored response of their key, in every run in which no insert of
the record meets a committed one. -/
theorem duplicates_answered (env : Env) (choice : Store → Choice → Prop) (s : Store)
    (input : CreateTransferRequest) (key : String) (contexts : List RequestContext)
    (hd : Duplicates env choice s input key contexts) (c : ServerConfig)
    (hrun : StepsChoosing (server env) (unmetDuplicates input contexts) choice (.initial s) c) :
    ∃ r, ∀ i o, c.outcome i = some o →
      o = .ok (.created r) ∧ c.store.Answered key (env.hashRequestPayload input) r := by
  rcases phase_of_steps hd hrun with ⟨-, hc⟩ | ⟨r, leader, hc⟩
  · refine ⟨⟨0, .transfer "" .received none⟩, fun i o h => ?_⟩
    cases h.symm.trans (hc.outcome i)
  · exact ⟨r, fun i o h => ⟨hc.outcome hd h, hc.answered⟩⟩

/-! ## Two calls of the demo customer -/

/-- Identifiers that are new in a store whose identifiers were chosen so. -/
def numbered (s : Store) : Choice := choiceOf (toString s.ids.length ++ "-")

/-- Thread `i` makes `n` steps. -/
def turns (i n : Nat) : List (Action Unit Call) := List.replicate n (.advance i ())

/-- A request for 100 under the key `k`. -/
def demoDuplicate : Call := .createTransfer (demoRequest 100) (demoContext "k")

/-- The request for 100 succeeds alone. -/
theorem demo_duplicates : Duplicates testEnvironment (Picked numbered) demoStore (demoRequest 100) "k"
    [demoContext "k"] where
  key := by simp [demoContext, truthy]
  succeeds := by
    intro context hcontext
    obtain rfl := List.mem_singleton.mp hcontext
    exact not_finishes_of_eval (by decide +kernel)

/-- The second call has begun before the first one, and looks for the record after it. -/
def replayedSchedule : List (Action Unit Call) :=
  .start demoDuplicate :: .start demoDuplicate :: turns 1 1 ++ turns 0 24 ++ turns 1 2

theorem duplicates_answered_replayed :
    ∃ c r, StepsChoosing (server testEnvironment)
        (unmetDuplicates (demoRequest 100) [demoContext "k"]) (Picked numbered) (.initial demoStore) c ∧
      c.outcome 0 = some (.ok (.created r)) ∧ c.outcome 1 = some (.ok (.created r)) ∧
      c.store.Answered "k" (testEnvironment.hashRequestPayload (demoRequest 100)) r := by
  obtain ⟨c, hrun, hfirst, hsecond⟩ := exists_of_playPicked (server testEnvironment) numbered
    (unmetDuplicates (demoRequest 100) [demoContext "k"]) (.initial demoStore) replayedSchedule
    (fun c => (c.outcome 0).isSome = true ∧ (c.outcome 1).isSome = true) (by decide +kernel)
  obtain ⟨r, hr⟩ := duplicates_answered testEnvironment (Picked numbered) demoStore (demoRequest 100)
    "k" [demoContext "k"] demo_duplicates c hrun
  obtain ⟨o, ho⟩ := Option.isSome_iff_exists.mp hfirst
  obtain ⟨o', ho'⟩ := Option.isSome_iff_exists.mp hsecond
  obtain ⟨rfl, hanswered⟩ := hr 0 o ho
  obtain ⟨rfl, -⟩ := hr 1 o' ho'
  exact ⟨c, r, hrun, ho, ho', hanswered⟩

/-- The response in an outcome. -/
def responseOf : Option (Except TxError Reply) → Option Replay
  | some (.ok (.created r)) => some r
  | _ => none

theorem eq_of_responseOf {o : Option (Except TxError Reply)} {r : Replay}
    (h : responseOf o = some r) : o = some (.ok (.created r)) := by
  unfold responseOf at h
  split at h
  · cases h
    rfl
  · cases h

/-- Both calls look for the record, and the second one inserts after the first one committed. -/
def crashedSchedule : List (Action Unit Call) :=
  .start demoDuplicate :: .start demoDuplicate :: turns 0 2 ++ turns 1 2 ++ turns 0 22 ++ turns 1 1

/-- Two calls with one key and one payload succeed alone, and the second one ends with the error
of the database. -/
theorem duplicates_crashed :
    Duplicates testEnvironment (Picked numbered) demoStore (demoRequest 100) "k" [demoContext "k"] ∧
    ∃ c, StepsChoosing (server testEnvironment) (onlyDuplicates (demoRequest 100) [demoContext "k"])
        (Picked numbered) (.initial demoStore) c ∧
      (∃ r, c.outcome 0 = some (.ok (.created r))) ∧
      c.outcome 1 = some (.error (.database .uniqueViolation)) := by
  refine ⟨demo_duplicates, ?_⟩
  obtain ⟨c, hrun, hfirst, hsecond⟩ := exists_of_playPicked (server testEnvironment) numbered
    (onlyDuplicates (demoRequest 100) [demoContext "k"]) (.initial demoStore) crashedSchedule
    (fun c => (responseOf (c.outcome 0)).isSome = true ∧
      c.outcome 1 = some (.error (.database .uniqueViolation))) (by decide +kernel)
  obtain ⟨r, hr⟩ := Option.isSome_iff_exists.mp hfirst
  exact ⟨c, hrun, ⟨r, eq_of_responseOf hr⟩, hsecond⟩

end LedgerCredit
