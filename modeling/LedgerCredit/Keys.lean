import LedgerCredit.Clearing

/-!
# Transfer keys

A key of `createTransfer` takes effect once, on any schedule.  `KeyedOnce` says
of a store that transfers and idempotency records go together, one to one, and
that each transfer has one initiating entry.  No commit changes a record that an
earlier one left, so a response that was returned stays the stored one
(`Answered`), and it is replayed for ever.
-/

namespace LedgerCredit

open Txn LedgerService ExternalRailService

/-! ## Transfers and their records -/

/-- The record tells of the transfer: same key, same hash, and a response about it. -/
structure IdempotencyRecord.Tells (record : IdempotencyRecord) (t : TransferRequest) : Prop where
  operationType : record.operationType = "transfer.create"
  key : record.key = t.idempotencyKey
  requestHash : record.requestHash = t.requestHash
  status : record.status = .succeeded
  resourceId : record.resourceId = some t.id
  response : ∃ statusCode status correlationId,
    record.replay? = some ⟨statusCode, .transfer t.id status correlationId⟩

/-- The operations of the entries that begin a transfer. -/
def initiating : List String := ["INTERNAL_TRANSFER", "INTERBANK_TRANSFER_INITIATED"]

/-- The entries that begin a transfer. -/
def Store.initiationsOf (s : Store) (id : Uuid) : List JournalEntry :=
  (s.entriesOf id).filter fun e => e.sourceOperationType ∈ initiating

/-- The transfer has one initiating entry, for its amount. -/
def Store.InitiatedOnce (s : Store) (t : TransferRequest) : Prop :=
  ∃ e operation debited credited, s.initiationsOf t.id = [e] ∧
    Moves e (s.postingsOf e.id) t.id operation debited credited t.amountMinor

/-- Transfers and records correspond, and every transfer was begun once. -/
structure Store.KeyedOnce (s : Store) : Prop where
  record : ∀ t ∈ s.transferRequests.rows, ∃ record ∈ s.idempotencyRecords.rows, record.Tells t
  transfer : ∀ record ∈ s.idempotencyRecords.rows, ∃ t ∈ s.transferRequests.rows, record.Tells t
  initiated : ∀ t ∈ s.transferRequests.rows, s.InitiatedOnce t

/-- The response is stored under the key, for requests with the hash. -/
def Store.Answered (s : Store) (key requestHash : String) (r : Replay) : Prop :=
  ∃ record ∈ s.idempotencyRecords.rows, record.operationType = "transfer.create" ∧
    record.key = key ∧ record.requestHash = requestHash ∧ record.replay? = some r

variable {s s' : Store} {key requestHash : String}

/-- One key has one response. -/
theorem Store.Answered.unique {r r' : Replay} {requestHash' : String}
    (h : s.Answered key requestHash r) (h' : s.Answered key requestHash' r') :
    r = r' ∧ requestHash = requestHash' := by
  obtain ⟨record, hmem, htype, hkey, hhash, hreplay⟩ := h
  obtain ⟨record', hmem', htype', hkey', hhash', hreplay'⟩ := h'
  obtain rfl := Table.eq_of_uk hmem hmem' (u := ("transfer.create", key)) (by simp [htype, hkey])
    (by simp [htype', hkey'])
  exact ⟨Option.some.inj (hreplay.symm.trans hreplay'), hhash.symm.trans hhash'⟩

theorem Store.Answered.mono {r : Replay} (h : s.Answered key requestHash r)
    (hrecords : s.idempotencyRecords.rows ⊆ s'.idempotencyRecords.rows) :
    s'.Answered key requestHash r := by
  obtain ⟨record, hmem, hrecord⟩ := h
  exact ⟨record, hrecords hmem, hrecord⟩

/-! ## Commits -/

section Commit

variable {ws : List Write} {entries : List (JournalEntry × List Posting)} {t t' : TransferRequest}

theorem IdempotencyRecord.Tells.same {record : IdempotencyRecord} (h : record.Tells t)
    (hsame : t.Same t') : record.Tells t' where
  operationType := h.operationType
  key := h.key.trans hsame.idempotencyKey.symm
  requestHash := h.requestHash.trans hsame.requestHash.symm
  status := h.status
  resourceId := by rw [h.resourceId, hsame.id]
  response := by
    rw [hsame.id]
    exact h.response

/-- Entries that begin no transfer leave the beginning of a transfer alone. -/
theorem Store.InitiatedOnce.step (hadm : database.Admissible s ws) (hj : Journalled ws entries)
    (hsame : t.Same t')
    (hne : ∀ e ∈ entries, e.1.transferRequestId = some t.id → e.1.sourceOperationType ∉ initiating)
    (h : s.InitiatedOnce t) : (database.applyAll ws s).InitiatedOnce t' := by
  obtain ⟨e, operation, debited, credited, hof, hmoves⟩ := h
  have he : e ∈ s.initiationsOf t.id := hof ▸ List.mem_singleton_self e
  refine ⟨e, operation, debited, credited, ?_, ?_⟩
  · rw [hsame.id, Store.initiationsOf, entriesOf_append hadm hj, List.filter_append]
    refine (congrArg₂ _ hof (List.filter_eq_nil_iff.mpr fun e' he' => ?_)).trans (List.append_nil _)
    obtain ⟨hmem, htransfer⟩ := List.mem_filter.mp he'
    obtain ⟨g, hg, rfl⟩ := List.mem_map.mp hmem
    simpa using hne g hg (by simpa using htransfer)
  · rw [postingsOf_old hadm hj (mem_of_entriesOf (List.mem_filter.mp he).1), hsame.id,
      hsame.amountMinor]
    exact hmoves

/-- A commit that changes no transfer beyond its status, and no record. -/
theorem Store.KeyedOnce.changed (h : s.KeyedOnce) (hadm : database.Admissible s ws)
    (hj : Journalled ws entries) {f : TransferRequest → TransferRequest}
    (htransfers : (database.applyAll ws s).transferRequests.rows = s.transferRequests.rows.map f)
    (hsame : ∀ t : TransferRequest, t.Same (f t))
    (hrecords : (database.applyAll ws s).idempotencyRecords = s.idempotencyRecords)
    (hentries : ∀ e ∈ entries, ∀ id, e.1.transferRequestId = some id →
      e.1.sourceOperationType ∉ initiating) : (database.applyAll ws s).KeyedOnce := by
  refine ⟨fun t ht => ?_, fun record hrecord => ?_, fun t ht => ?_⟩
  · rw [htransfers] at ht
    obtain ⟨t₀, ht₀, rfl⟩ := List.mem_map.mp ht
    obtain ⟨record, hrecord, htells⟩ := h.record t₀ ht₀
    exact ⟨record, hrecords ▸ hrecord, htells.same (hsame t₀)⟩
  · obtain ⟨t, ht, htells⟩ := h.transfer record (hrecords ▸ hrecord)
    exact ⟨f t, htransfers ▸ List.mem_map_of_mem ht, htells.same (hsame t)⟩
  · rw [htransfers] at ht
    obtain ⟨t₀, ht₀, rfl⟩ := List.mem_map.mp ht
    exact (h.initiated t₀ ht₀).step hadm hj (hsame t₀) fun e he => hentries e he t₀.id

/-- A commit that creates a transfer. -/
theorem Store.KeyedOnce.created (h : s.KeyedOnce) (hkeys : s.ForeignKeys)
    (hadm : database.Admissible s ws) {args : CreateTransferArgs} {r : TransferMutationResult}
    {u : Uuid} {source : LedgerAccount} {entry : JournalEntry} {postings : List Posting}
    {operation : String} {credited : Uuid} (hj : Journalled ws [(entry, postings)])
    (hinitiated : Initiated s (database.applyAll ws s) args r t u source)
    (hmoves : Moves entry postings t.id operation source.id credited t.amountMinor)
    (hoperation : operation ∈ initiating) : (database.applyAll ws s).KeyedOnce := by
  have hentry := hmoves.transferId hinitiated.id_ne
  have htells : (succeededRecord args u t.id r).Tells t := by
    obtain ⟨correlationId, hbody⟩ := hinitiated.body
    refine ⟨rfl, hinitiated.key.symm, hinitiated.hash.symm, rfl, rfl,
      r.statusCode, t.status, correlationId, ?_⟩
    simp [succeededRecord, IdempotencyRecord.replay?, IdempotencyRecordUpdate.apply,
      IdempotencyService.completeData, hinitiated.statusCode, hbody]
  refine ⟨?_, ?_, ?_⟩ <;> rw [hinitiated.transferRequests]
  · rw [hinitiated.idempotencyRecords]
    refine List.forall_mem_append.mpr ⟨fun t' ht' => ?_, List.forall_mem_singleton.mpr
      ⟨_, List.mem_append_right _ (List.mem_singleton_self _), htells⟩⟩
    obtain ⟨record, hrecord, htells'⟩ := h.record t' ht'
    exact ⟨record, List.mem_append_left _ hrecord, htells'⟩
  · rw [hinitiated.idempotencyRecords]
    refine List.forall_mem_append.mpr ⟨fun record hrecord => ?_, List.forall_mem_singleton.mpr
      ⟨_, List.mem_append_right _ (List.mem_singleton_self _), htells⟩⟩
    obtain ⟨t', ht', htells'⟩ := h.transfer record hrecord
    exact ⟨t', List.mem_append_left _ ht', htells'⟩
  · refine List.forall_mem_append.mpr ⟨fun t' ht' => ?_, List.forall_mem_singleton.mpr ?_⟩
    · refine (h.initiated t' ht').step hadm hj (.refl t')
        (List.forall_mem_singleton.mpr fun heq => ?_)
      exact absurd (Option.some.inj (hentry.symm.trans heq)).symm (hinitiated.fresh t' ht')
    · refine ⟨entry, operation, source.id, credited, ?_, moves_new hkeys hadm hj hmoves⟩
      rw [Store.initiationsOf, entriesOf_own hadm hj hentry, entriesOf_fresh hkeys hinitiated.fresh]
      simp [hmoves.operation, hoperation]

variable {V : View} {env : Env} {α : Type} {l : Label α} {a : α}

/-- An update of a transfer after its creation leaves what its record tells. -/
theorem same_if {id : Uuid} {f : TransferRequest → TransferRequest}
    (h : ∀ t : TransferRequest, t.Same (f t)) (t : TransferRequest) :
    t.Same (if t.id = id then f t else t) := by
  split
  · exact h t
  · exact .refl t

/-- Every commit keeps transfers and records together. -/
theorem Store.KeyedOnce.step (h : s.KeyedOnce) (hkeys : s.ForeignKeys)
    (hadm : database.Admissible s ws) (hj : Journalled ws entries)
    (heffect : TransferEffect V env s (database.applyAll ws s) l a entries) :
    (database.applyAll ws s).KeyedOnce := by
  cases heffect with
  | replayed _ _ _ hsame =>
      rw [hsame]
      exact h
  | other _ htransfers hrecords hentries =>
      refine h.changed hadm hj (f := id) (by simp [htransfers]) (fun t => .refl t) hrecords
        fun e he id hid => ?_
      exact nomatch (hentries e he).transfer.symm.trans hid
  | internal hinitiated _ _ _ hmoves => exact h.created hkeys hadm hj hinitiated hmoves (by simp [initiating])
  | external hinitiated _ _ _ _ _ _ _ hmoves =>
      exact h.created hkeys hadm hj hinitiated hmoves (by simp [initiating])
  | settled _ _ htransfers hrecords =>
      exact h.changed hadm hj htransfers (same_if fun t => TransferRequestUpdate.apply_same _ t)
        hrecords (by simp)
  | compensated _ _ htransfers hrecords _ _ _ _ hmoves =>
      refine h.changed hadm hj htransfers
        (same_if fun t => ⟨rfl, rfl, rfl, rfl, rfl, rfl, rfl, rfl⟩) hrecords
        (List.forall_mem_singleton.mpr fun id _ => ?_)
      rw [hmoves.operation]
      simp [initiating]

/-- Every commit only adds records. -/
theorem records_prefix (heffect : TransferEffect V env s s' l a entries) :
    s.idempotencyRecords.rows <+: s'.idempotencyRecords.rows := by
  cases heffect with
  | replayed _ _ _ hsame => exact hsame ▸ List.prefix_rfl
  | other _ _ hrecords _ => exact hrecords ▸ List.prefix_rfl
  | internal hinitiated _ _ _ _ => exact ⟨_, hinitiated.idempotencyRecords.symm⟩
  | external hinitiated _ _ _ _ _ _ _ _ => exact ⟨_, hinitiated.idempotencyRecords.symm⟩
  | settled _ _ _ hrecords => exact hrecords ▸ List.prefix_rfl
  | compensated _ _ _ hrecords _ _ _ _ _ => exact hrecords ▸ List.prefix_rfl

end Commit

/-! ## Any schedule -/

/-- The result of a transaction of `createTransfer` is stored under its key. -/
def Label.answered (s : Store) : {α : Type} → Label α → α → Prop
  | _, .createTransfer args, r => s.Answered args.idempotencyKey args.requestHash ⟨r.statusCode, r.body⟩
  | _, _, _ => True

/-- What a call of `createTransfer` returned is stored under its key. -/
def Call.answered (env : Env) (s : Store) : Call → Reply → Prop
  | .createTransfer input context, .created r => ∃ key,
      truthy context.idempotencyKey = some key ∧ s.Answered key (env.hashRequestPayload input) r
  | _, _ => True

/-- How stores evolve, with their records. -/
structure Store.Grows (s s' : Store) : Prop where
  extended : s.Extends s'
  records : s.idempotencyRecords.rows <+: s'.idempotencyRecords.rows

/-- A new transfer is stored with the response to its request. -/
theorem Initiated.answered {args : CreateTransferArgs} {r : TransferMutationResult}
    {t : TransferRequest} {u : Uuid} {source : LedgerAccount}
    (h : Initiated s s' args r t u source) :
    s'.Answered args.idempotencyKey args.requestHash ⟨r.statusCode, r.body⟩ := by
  refine ⟨succeededRecord args u t.id r, ?_, rfl, rfl, rfl, ?_⟩
  · rw [h.idempotencyRecords]
    exact List.mem_append_right _ (List.mem_singleton_self _)
  · simp [succeededRecord, IdempotencyRecord.replay?, IdempotencyRecordUpdate.apply,
      IdempotencyService.completeData, h.statusCode]

/-- The response of a commit is stored, if it was when it was read. -/
theorem TransferEffect.answered {V : View} {env : Env} {α : Type} {l : Label α} {a : α}
    {entries : List (JournalEntry × List Posting)} (h : TransferEffect V env s s' l a entries)
    (hread : ∀ key record, V [] ⟨.findIdempotencyRecord "transfer.create" key, some record, []⟩ →
      record ∈ s.idempotencyRecords.rows ∧ record.operationType = "transfer.create" ∧
        record.key = key) : l.answered s' a := by
  cases h with
  | other hl _ _ _ =>
      cases l with
      | createTransfer _ => cases hl
      | _ => trivial
  | replayed hfind hhash hreplay hsame =>
      obtain ⟨hmem, htype, hkey⟩ := hread _ _ hfind
      exact ⟨_, hsame ▸ hmem, htype, hkey, hhash, hreplay⟩
  | internal hinitiated _ _ _ _ => exact hinitiated.answered
  | external hinitiated _ _ _ _ _ _ _ _ => exact hinitiated.answered
  | settled _ _ _ _ => trivial
  | compensated _ _ _ _ _ _ _ _ _ => trivial

/-- The key that a transaction uses. -/
def Label.usedKey : {α : Type} → Label α → Option String
  | _, .createTransfer args => some args.idempotencyKey
  | _, _ => none

/-- The transfer that a transaction asks to submit. -/
def Label.enqueues : {α : Type} → Label α → α → Option Uuid
  | _, .createTransfer _, r => r.enqueueTransferId
  | _, _, _ => none

/-- A record was stored under the key. -/
def Store.Used (s : Store) (key : String) : Prop :=
  ∃ record ∈ s.idempotencyRecords.rows,
    record.operationType = "transfer.create" ∧ record.key = key

/-- A key that is used creates no transfer. -/
theorem Initiated.unused {args : CreateTransferArgs} {r : TransferMutationResult}
    {t : TransferRequest} {u : Uuid} {source : LedgerAccount}
    (h : Initiated s s' args r t u source) : ¬ s.Used args.idempotencyKey := by
  rintro ⟨record, hmem, htype, hkey⟩
  have hnodup := s'.idempotencyRecords.pk_nodup
  have hold : record ∈ s'.idempotencyRecords.rows := by
    rw [h.idempotencyRecords]
    exact List.mem_append_left _ hmem
  have hnew : succeededRecord args u t.id r ∈ s'.idempotencyRecords.rows := by
    rw [h.idempotencyRecords]
    exact List.mem_append_right _ (List.mem_singleton_self _)
  have heq : record = succeededRecord args u t.id r := Table.eq_of_uk hold hnew
    (u := ("transfer.create", args.idempotencyKey)) (by simp [htype, hkey]) rfl
  rw [h.idempotencyRecords, List.map_append] at hnodup
  exact (List.nodup_append.mp hnodup).2.2 record.id (List.mem_map_of_mem hmem) _
    (List.mem_singleton_self _) (congrArg _ heq)

/-- A transaction under a used key leaves the store as it is and submits nothing. -/
theorem TransferEffect.used {V : View} {env : Env} {α : Type} {l : Label α} {a : α}
    {entries : List (JournalEntry × List Posting)} (h : TransferEffect V env s s' l a entries)
    (hkey : l.usedKey = some key) (hused : s.Used key) : s' = s ∧ l.enqueues a = none := by
  cases h with
  | other hl _ _ _ =>
      cases l with
      | createTransfer _ => cases hl
      | _ => cases hkey
  | replayed _ _ _ hsame => exact ⟨hsame, rfl⟩
  | internal hinitiated _ _ _ _ =>
      obtain rfl := Option.some.inj hkey
      exact absurd hused hinitiated.unused
  | external hinitiated _ _ _ _ _ _ _ _ =>
      obtain rfl := Option.some.inj hkey
      exact absurd hused hinitiated.unused
  | settled _ _ _ _ => cases hkey
  | compensated _ _ _ _ _ _ _ _ _ => cases hkey

theorem Store.Grows.refl (s : Store) : s.Grows s := ⟨.refl s, List.prefix_rfl⟩

theorem Store.Grows.trans {s₁ s₂ s₃ : Store} (h : s₁.Grows s₂) (h' : s₂.Grows s₃) : s₁.Grows s₃ :=
  ⟨h.extended.trans h'.extended, h.records.trans h'.records⟩

theorem Store.Answered.grows {r : Replay} (h : s.Answered key requestHash r) (hs : s.Grows s') :
    s'.Answered key requestHash r := h.mono hs.records.subset

/-- What is kept of the store `s₀` on any schedule. -/
structure Store.Keyed (s₀ s : Store) : Prop where
  extended : s₀.Extends s
  keys : s.ForeignKeys
  once : s.KeyedOnce

/-- The rules of any schedule from the store `s₀` on. -/
def keyRules (env : Env) (s₀ : Store) : Rules (server env) Empty Empty where
  Inv := s₀.Keyed
  le := Store.Grows
  born := fun _ => ∅
  rely := fun _ _ _ => True
  pre := fun _ _ l => grounds s₀ l
  post := fun _ _ l a s' _ => learned s₀ l a ∧ l.answered s' a
  done := fun call a s _ => call.answered env s a
  guard := fun _ => []
  Cur := fun _ _ _ _ => True

section Rules

variable {env : Env} {s₀ : Store}

theorem keyRules_grounding : Grounding (keyRules env s₀) s₀ :=
  ⟨fun _ _ _ hl => hl, fun _ _ _ _ _ _ hpost => hpost.1⟩

/-- What a statement of an open transaction saw, on some earlier store. -/
abbrev seen (env : Env) (s₀ s : Store) : View := Seen (server env) s₀.Keyed Store.Grows s

theorem saw_of_keyed {p : List Write} {e : Event Stmt Write} (h : seen env s₀ s p e) : Saw s p e :=
  saw_of_seen (fun _ _ hle => hle.extended) h

/-- A record that was read is still there. -/
theorem seen_findIdempotencyRecord {operationType : String} {record : IdempotencyRecord}
    (h : seen env s₀ s [] ⟨.findIdempotencyRecord operationType key, some record, []⟩) :
    record ∈ s.idempotencyRecords.rows ∧ record.operationType = operationType ∧ record.key = key := by
  obtain ⟨s₁, ch, -, hle, hexec⟩ := h
  simp only [server, database, Database.applyAll_nil, Store.exec, Except.ok.injEq,
    Prod.mk.injEq] at hexec
  obtain ⟨hmem, hkey⟩ := Table.find?_eq_some.mp hexec.1
  obtain ⟨htype, hkey⟩ := Prod.mk.inj (Option.some.inj hkey)
  exact ⟨hle.records.subset hmem, htype, hkey⟩

/-- What a transaction may commit, and its effect. -/
theorem keyed_effect {α : Type} {T : Set Empty} {l : Label α} {h : List (Event Stmt Write)} {a : α}
    (hc : (keyRules env s₀).Commits s T l h a) : Committed (seen env s₀ s) env l a (writes h) ∧
      ∃ entries, Journalled (writes h) entries ∧
        TransferEffect (seen env s₀ s) env s (database.applyAll (writes h) s) l a entries := by
  have hV : ∀ p e, seen env s₀ s p e → Saw s p e := fun _ _ => saw_of_keyed
  have hcommitted : Committed (seen env s₀ s) env l a (writes h) :=
    committed_of_runs (answering_of_saw hV)
      (runs_of_completes hc.path (hc.evidence.mono fun _ _ _ he => he.1))
  exact ⟨hcommitted, hcommitted.effect hV (grounds_of_extends hc.inv.extended hc.pre) hc.admissible⟩

theorem bind_ok {ε α β : Type} {x : Except ε α} {f : α → Except ε β} {b : β}
    (h : x >>= f = .ok b) : ∃ a, x = .ok a ∧ f a = .ok b := by
  cases x with
  | error e => cases h
  | ok a => exact ⟨a, rfl, h⟩

/-- What is known of the arguments of a transaction of `createTransfer`. -/
theorem transferArgs_ok {input : CreateTransferRequest} {context : RequestContext}
    {args : CreateTransferArgs} (h : TransfersService.transferArgs env input context = .ok args) :
    truthy context.idempotencyKey = some args.idempotencyKey ∧
      args.requestHash = env.hashRequestPayload input ∧ args.context = context := by
  obtain ⟨_, -, h⟩ := bind_ok h
  dsimp only at h
  split at h
  · rename_i key hkey
    obtain ⟨_, hok, h⟩ := bind_ok h
    cases hok
    split at h
    · cases h
    · cases hdest : input.destination with
      | internalAccount id =>
          rw [hdest] at h
          cases h
          exact ⟨hkey, rfl, rfl⟩
      | externalBank provider bankCode accountNumber accountName =>
          rw [hdest] at h
          obtain ⟨_, -, h⟩ := bind_ok h
          cases h
          exact ⟨hkey, rfl, rfl⟩
  · cases h

/-- A call of `createTransfer` returns what is stored under its key. -/
theorem createTransfer_safe (input : CreateTransferRequest) (context : RequestContext) :
    (keyRules env s₀).Safe (Call.program env (.createTransfer input context))
      (fun a s _ => Call.answered env s (.createTransfer input context) a) (fun _ _ _ => True) s ∅ := by
  have hgrounding : Grounding (keyRules env s₀) s₀ := keyRules_grounding
  refine Rules.Safe.bind (Rules.Safe.bind ?_)
  cases hargs : TransfersService.transferArgs env input context with
  | error e => exact trivial
  | ok args =>
      obtain ⟨hkey, hhash, -⟩ := transferArgs_ok hargs
      refine Rules.Safe.bind (Rules.Safe.transaction (fun _ _ => trivial) (fun _ _ _ => trivial)
        fun s' _ result s'' T'' _ _ hpost => ?_)
      have hanswered : s''.Answered args.idempotencyKey args.requestHash
          ⟨result.statusCode, result.body⟩ := hpost.2
      cases truthy result.enqueueTransferId with
      | some id =>
          have huses : (ExternalRailService.enqueueTransferSubmission env id).Uses ofTransfers :=
            (ExternalRailService.enqueueTransferSubmission_uses id).mono ofTransfers_of_ofEvents
          have hfine := Rules.Fine.of_uses huses hgrounding.transfers s'' T''
          exact Rules.Safe.bind ((Rules.Safe.keep
            (P := fun s => Store.Answered s args.idempotencyKey args.requestHash
              ⟨result.statusCode, result.body⟩)
            (fun _ _ hle h => Store.Answered.grows h hle) hfine hanswered).mono
            (fun _ s T h => ⟨args.idempotencyKey, hkey, hhash ▸ h.2⟩) fun _ _ _ _ => trivial)
      | none => exact ⟨args.idempotencyKey, hkey, hhash ▸ hanswered⟩

theorem keyRules_valid : (keyRules env s₀).Valid anySchedule where
  lawful := lawful_database
  le_refl := .refl
  le_trans := fun _ _ _ => .trans
  rely_refl := fun _ _ => trivial
  rely_trans := fun _ _ _ _ _ _ => trivial
  born_mono := fun _ _ _ => Set.Subset.refl _
  statements := Rules.unguarded_statements (fun _ => rfl) fun _ _ _ _ => trivial
  commit := by
    intro α s T l h a hc
    obtain ⟨-, entries, hj, heffect⟩ := keyed_effect hc
    obtain ⟨hext, hkeys, honce⟩ : s₀.Keyed s := hc.inv
    exact ⟨⟨hext.trans (extends_applyAll (writes h) s), foreignKeys_applyAll hc.admissible hkeys,
      honce.step hkeys hc.admissible hj heffect⟩, extends_applyAll (writes h) s,
      records_prefix heffect⟩
  guarantee := fun _ _ _ _ _ _ _ _ => trivial
  result := by
    intro α s T l h a hc
    obtain ⟨hcommitted, entries, -, heffect⟩ := keyed_effect hc
    exact ⟨∅, Set.empty_subset _,
      hcommitted.learned hc.inv.extended fun _ _ => saw_of_keyed,
      heffect.answered fun _ _ => seen_findIdempotencyRecord⟩
  start := by
    intro c call _ _
    have hgrounding : Grounding (keyRules env s₀) s₀ := keyRules_grounding
    have hfine := program_fine hgrounding call c.store ∅
    refine Or.inl ?_
    cases call with
    | createTransfer input context => exact createTransfer_safe input context
    | _ => exact hfine.mono (fun _ _ _ _ => trivial) fun _ _ _ _ => trivial
  done_le := by
    intro call a s s' _ hdone _ hle
    cases call with
    | createTransfer input context =>
        cases a with
        | created r =>
            obtain ⟨key, hkey, hanswered⟩ := hdone
            exact ⟨key, hkey, hanswered.grows hle⟩
        | _ => trivial
    | _ => trivial
  done_idle := by
    intro call s T
    cases call <;> trivial

end Rules

/-! ## Runs -/

/-- A call of `createTransfer` that returned. -/
structure Returned (c : ServerConfig) (input : CreateTransferRequest) (context : RequestContext)
    (r : Replay) : Prop where
  thread : ∃ th ∈ c.threads, th.call = .createTransfer input context ∧
    th.code = .run (.pure (.created r))

/-- What a call returned is stored under its key. -/
theorem Returned.answered {env : Env} {s₀ : Store} {c : ServerConfig} {own : Owner → Set Empty}
    {input : CreateTransferRequest} {context : RequestContext} {r : Replay}
    (h : Returned c input context r) (hc : (keyRules env s₀).Sound c own) :
    ∃ key, truthy context.idempotencyKey = some key ∧
      c.store.Answered key (env.hashRequestPayload input) r := by
  obtain ⟨⟨call, pool, code⟩, hth, rfl, rfl⟩ := h.thread
  obtain ⟨i, hi⟩ := List.mem_iff_getElem?.mp hth
  exact hc.thread i _ hi

/-- What is kept on any schedule holds of a store without transfers. -/
theorem keyed_of_empty (hkeys : s.ForeignKeys) (htransfers : s.transferRequests.rows = [])
    (hrecords : s.idempotencyRecords.rows = []) : s.Keyed s :=
  ⟨.refl s, hkeys, by simp [htransfers], by simp [hrecords], by simp [htransfers]⟩

/-- A call of `createTransfer` is for one of the requests. -/
def Call.within (requests : List CreateTransferRequest) : Call → Bool
  | .createTransfer input _ => input ∈ requests
  | _ => true

/-- The schedules whose calls of `createTransfer` are for some requests. -/
def requestsWithin (requests : List CreateTransferRequest) :
    ServerConfig → Action Choice Call → Bool :=
  fun _ => Starts (Call.within requests)

theorem Returned.within {env : Env} {requests : List CreateTransferRequest} {c : ServerConfig}
    {input : CreateTransferRequest} {context : RequestContext} {r : Replay}
    (h : Returned c input context r)
    (hrun : Steps (server env) (requestsWithin requests) (.initial s) c) : input ∈ requests := by
  obtain ⟨th, hth, hcall, -⟩ := h.thread
  have := calls_of_steps hrun th hth
  rw [hcall] at this
  simpa [Call.within] using this

/-- A key of `createTransfer` takes effect once, on any schedule of any calls. -/
theorem transfer_key_once {env : Env} {requests : List CreateTransferRequest}
    (hhash : Set.InjOn env.hashRequestPayload {input | input ∈ requests}) (hkeys : s.ForeignKeys)
    (htransfers : s.transferRequests.rows = []) (hrecords : s.idempotencyRecords.rows = [])
    {c c' : ServerConfig} (hrun : Steps (server env) (requestsWithin requests) (.initial s) c)
    (hrun' : Steps (server env) (requestsWithin requests) c c') :
    c.store.KeyedOnce ∧
    (∀ input context r, Returned c input context r → ∃ key,
      truthy context.idempotencyKey = some key ∧
        c'.store.Answered key (env.hashRequestPayload input) r) ∧
    (∀ input context r input' context' r', Returned c input context r →
      Returned c' input' context' r' →
      truthy context.idempotencyKey = truthy context'.idempotencyKey → r = r' ∧ input = input') ∧
    ∀ i ch call pool args h result k,
      c.threads[i]? = some ⟨call, pool, .opened (.createTransfer args) h (.pure result) k⟩ →
      c.store.Used args.idempotencyKey → result.enqueueTransferId = none ∧
        ∀ c'', (server env).step c (.advance i ch) = some c'' → c''.store = c.store := by
  have hinit := keyed_of_empty hkeys htransfers hrecords
  obtain ⟨⟨own, hsound⟩, -⟩ :=
    Rules.sound_of_steps keyRules_valid hinit (hrun.mono fun _ _ _ => rfl)
  obtain ⟨⟨own', hsound'⟩, hle⟩ := hsound.steps keyRules_valid (hrun'.mono fun _ _ _ => rfl)
  refine ⟨hsound.inv.once, fun input context r hreturned => ?_, ?_, ?_⟩
  · obtain ⟨key, hkey, hanswered⟩ := hreturned.answered hsound
    exact ⟨key, hkey, hanswered.grows hle⟩
  · intro input context r input' context' r' hreturned hreturned' hsame
    obtain ⟨key, hkey, hanswered⟩ := hreturned.answered hsound
    obtain ⟨key', hkey', hanswered'⟩ := hreturned'.answered hsound'
    rw [← hsame, hkey] at hkey'
    obtain rfl := Option.some.inj hkey'
    obtain ⟨hr, hrequest⟩ := (hanswered.grows hle).unique hanswered'
    exact ⟨hr, hhash (hreturned.within hrun) (hreturned'.within (hrun.trans hrun')) hrequest⟩
  · intro i ch call pool args h result k hth hused
    obtain ⟨-, entries, -, heffect⟩ := keyed_effect (hsound.commits keyRules_valid hth)
    obtain ⟨hsame, henqueues⟩ := heffect.used rfl hused
    refine ⟨henqueues, fun c'' hstep => ?_⟩
    rw [step_commit hth] at hstep
    obtain rfl := Option.some.inj hstep
    exact hsame

/-- What thread `i` returned to a call of `createTransfer`. -/
def returnedOf (c : ServerConfig) (i : Nat) :
    Option (CreateTransferRequest × RequestContext × Replay) :=
  match c.threads[i]? with
  | some ⟨.createTransfer input context, _, .run (.pure (.created r))⟩ => some (input, context, r)
  | _ => none

theorem returned_of {c : ServerConfig} {i : Nat} {input : CreateTransferRequest}
    {context : RequestContext} {r : Replay} (h : returnedOf c i = some (input, context, r)) :
    Returned c input context r := by
  unfold returnedOf at h
  split at h
  · rename_i hth
    cases h
    exact ⟨_, List.mem_of_getElem? hth, rfl, rfl⟩
  · cases h

/-- The request of the demo customer to move an amount to the savings account. -/
def demoRequest (minorUnits : Int) : CreateTransferRequest :=
  demoTransfer (.internalAccount demoData.savingsAccountId) minorUnits

/-- A request for 100, then another one for 200 under the same key, then the first one again. -/
def retriedSchedule : List (Action Choice Call) :=
  .start (.createTransfer (demoRequest 100) (demoContext "k")) :: advances 0 "a" 24 ++
    .start (.createTransfer (demoRequest 200) (demoContext "k")) :: advances 1 "b" 3 ++
    .start (.createTransfer (demoRequest 100) (demoContext "k")) :: advances 2 "c" 3

theorem transfer_key_once_retried :
    ∃ c r r', Steps (server testEnvironment) (requestsWithin [demoRequest 100, demoRequest 200])
        (.initial demoStore) c ∧ c.store.KeyedOnce ∧
      returnedOf c 0 = some (demoRequest 100, demoContext "k", r) ∧
      returnedOf c 2 = some (demoRequest 100, demoContext "k", r') ∧ r = r' := by
  obtain ⟨c, hrun, hfirst, hsecond⟩ := exists_of_play (server testEnvironment)
    (requestsWithin [demoRequest 100, demoRequest 200]) (.initial demoStore) retriedSchedule
    (fun c => (returnedOf c 0).map (fun x => (x.1, x.2.1)) = some (demoRequest 100, demoContext "k") ∧
      (returnedOf c 2).map (fun x => (x.1, x.2.1)) = some (demoRequest 100, demoContext "k"))
    (by decide +kernel)
  obtain ⟨⟨_, _, r⟩, hreturned, heq⟩ := Option.map_eq_some_iff.mp hfirst
  obtain ⟨⟨_, _, r'⟩, hreturned', heq'⟩ := Option.map_eq_some_iff.mp hsecond
  cases heq
  cases heq'
  have hhash : Set.InjOn testEnvironment.hashRequestPayload
      {input | input ∈ [demoRequest 100, demoRequest 200]} := by
    intro input hinput input' hinput' hsame
    simp only [Set.mem_ofPred_eq, List.mem_cons, List.not_mem_nil, or_false] at hinput hinput'
    have hne : requestText (demoRequest 100) ≠ requestText (demoRequest 200) := by decide +kernel
    rcases hinput with rfl | rfl <;> rcases hinput' with rfl | rfl
    · rfl
    · exact absurd hsame hne
    · exact absurd hsame hne.symm
    · rfl
  obtain ⟨honce, -, hsame, -⟩ := transfer_key_once hhash
    (seedBaseData_foreignKeys "customer" "ledger-checking" "ledger-savings") rfl rfl hrun .refl
  exact ⟨c, r, r', hrun, honce, hreturned, hreturned',
    (hsame _ _ _ _ _ _ (returned_of hreturned) (returned_of hreturned') rfl).1⟩

end LedgerCredit
