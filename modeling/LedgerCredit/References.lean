import LedgerCredit.EventsAlone
import LedgerCredit.Keys

/-!
# External references

`createTransfer` mints the external reference of a transfer from its provider and
the first eight characters of its id, and the column is not unique.  A reference
gives its provider back, since the prefixes of the two adapters differ.  So two
transfers have one reference just when they are of one provider and their ids
start alike, and then an event that carries only the reference is about both.
-/

namespace LedgerCredit

open Txn TransfersService ExternalRailService

/-! ## Minting -/

/-- The prefix of the references of an adapter. -/
def ExternalRailAdapter.referencePrefix : ExternalRailAdapter → List Char
  | .simulator => ['s', 'i', 'm', 'u', 'l', 'a', 't', 'o', 'r', '_']
  | .mockBank => ['m', 'o', 'c', 'k', '_', 'b', 'a', 'n', 'k', '_']

theorem toList_externalReference (adapter : ExternalRailAdapter) (id : Uuid) :
    (externalReference adapter.provider id).toList =
      adapter.referencePrefix ++ id.toList.take 8 := by
  have hprefix : ∀ cs, referencePrefix adapter.provider.toList false ++ '_' :: cs =
      adapter.referencePrefix ++ cs := by
    intro cs
    cases adapter <;> rfl
  rw [externalReference, String.toList_ofList, hprefix]

/-- A reference gives back its provider and the start of the id. -/
theorem externalReference_inj {adapter adapter' : ExternalRailAdapter} {id id' : Uuid} :
    externalReference adapter.provider id = externalReference adapter'.provider id' ↔
      adapter.provider = adapter'.provider ∧ id.toList.take 8 = id'.toList.take 8 := by
  rw [← String.toList_inj, toList_externalReference, toList_externalReference]
  constructor
  · intro h
    have hhead := congrArg List.head? h
    cases adapter <;> cases adapter'
    · exact ⟨rfl, List.append_cancel_left h⟩
    · exact absurd (Option.some.inj hhead) (by decide)
    · exact absurd (Option.some.inj hhead) (by decide)
    · exact ⟨rfl, List.append_cancel_left h⟩
  · rintro ⟨hprovider, hid⟩
    have heq : adapter = adapter' := by
      cases adapter <;> cases adapter' <;> first | rfl | exact absurd hprovider (by decide)
    rw [heq, hid]

/-! ## The references of a store -/

/-- Every external transfer has the reference of its provider and its id, and no other transfer has
one. -/
structure Store.Referenced (s : Store) : Prop where
  interbank : ∀ t ∈ s.transferRequests.rows, t.transferType = .interbank →
    ∃ adapter : ExternalRailAdapter, t.externalRailProvider = some adapter.provider ∧
      t.externalReference = some (externalReference adapter.provider t.id)
  internal : ∀ t ∈ s.transferRequests.rows, t.transferType = .internal →
    t.externalReference = none

/-- What the arguments of `createTransfer` say about the provider. -/
def CreateTransferArgs.Adapted (args : CreateTransferArgs) : Prop :=
  match args.input.destination with
  | .externalBank .. => ∃ adapter : ExternalRailAdapter,
      args.externalRailProvider = some adapter.provider
  | .internalAccount _ => True

theorem transferArgs_adapted {env : Env} {input : CreateTransferRequest} {context : RequestContext}
    {args : CreateTransferArgs} (h : transferArgs env input context = .ok args) : args.Adapted := by
  obtain ⟨_, -, h⟩ := bind_ok h
  dsimp only at h
  split at h
  · obtain ⟨_, -, h⟩ := bind_ok h
    split at h
    · cases h
    · cases hdest : input.destination with
      | internalAccount id =>
          rw [hdest] at h
          cases h
          rw [CreateTransferArgs.Adapted, hdest]
          trivial
      | externalBank provider bankCode accountNumber accountName =>
          rw [hdest] at h
          obtain ⟨_, hprovider, h⟩ := bind_ok h
          cases h
          rw [CreateTransferArgs.Adapted, hdest]
          cases hget : ExternalRailRegistry.get (provider.getD env.externalRailDefaultProvider) with
          | error e =>
              rw [hget] at hprovider
              cases hprovider
          | ok adapter =>
              rw [hget] at hprovider
              cases hprovider
              exact ⟨adapter, rfl⟩
  · cases h

section Commits

variable {V : View} {env : Env} {s : Store} {ws : List Write}

/-- Updates that touch neither the provider nor the reference. -/
theorem Store.Referenced.updated {s' : Store} (hs : s.Referenced)
    {f : TransferRequest → TransferRequest}
    (hrows : s'.transferRequests.rows = s.transferRequests.rows.map f)
    (hf : ∀ t, (f t).id = t.id ∧ (f t).transferType = t.transferType ∧
      (f t).externalRailProvider = t.externalRailProvider ∧
      (f t).externalReference = t.externalReference) : s'.Referenced where
  interbank := by
    rw [hrows]
    intro t ht htype
    obtain ⟨t₀, ht₀, rfl⟩ := List.mem_map.mp ht
    obtain ⟨hid, htype', hprovider, hreference⟩ := hf t₀
    rw [hid, hprovider, hreference]
    exact hs.interbank t₀ ht₀ (htype' ▸ htype)
  internal := by
    rw [hrows]
    intro t ht htype
    obtain ⟨t₀, ht₀, rfl⟩ := List.mem_map.mp ht
    obtain ⟨-, htype', -, hreference⟩ := hf t₀
    rw [hreference]
    exact hs.internal t₀ ht₀ (htype' ▸ htype)

/-- A new transfer. -/
theorem Store.Referenced.added {s' : Store} (hs : s.Referenced) {t : TransferRequest}
    (hrows : s'.transferRequests.rows = s.transferRequests.rows ++ [t])
    (hinterbank : t.transferType = .interbank → ∃ adapter : ExternalRailAdapter,
      t.externalRailProvider = some adapter.provider ∧
        t.externalReference = some (externalReference adapter.provider t.id))
    (hinternal : t.transferType = .internal → t.externalReference = none) : s'.Referenced where
  interbank := by
    rw [hrows]
    exact List.forall_mem_append.mpr ⟨hs.interbank, List.forall_mem_singleton.mpr hinterbank⟩
  internal := by
    rw [hrows]
    exact List.forall_mem_append.mpr ⟨hs.internal, List.forall_mem_singleton.mpr hinternal⟩

theorem TransfersService.TransferRun.referenced {args : CreateTransferArgs}
    {r : TransferMutationResult} (hargs : args.Adapted) (h : TransferRun V env args ws r)
    (hadm : database.Admissible s ws) (hs : s.Referenced) :
    (database.applyAll ws s).Referenced := by
  cases h with
  | replay _ _ _ => exact hs
  | internal settledAt correlationId u hdest hcreated _ _ hposted =>
      obtain ⟨id, createdAt, -, hrow⟩ := hcreated.transferRow
      obtain rfl := hcreated.writes
      obtain ⟨s₁, heq, htransfers, -⟩ := rows_newTransfer hadm hposted.kind
      have hrows := (congrArg (·.transferRequests.rows) heq).trans
        (rows_updateTransferRequest (d := settledUpdate settledAt) htransfers)
      refine hs.added hrows (fun htype => ?_) fun _ => ?_
      · rw [hrow, transferData, hdest] at htype
        cases htype
      · rw [hrow]
        rfl
  | external u u' hdest hprovider hcreated _ hposted =>
      obtain ⟨id, createdAt, -, hrow⟩ := hcreated.transferRow
      obtain rfl := hcreated.writes
      obtain ⟨s₁, heq, htransfers, -⟩ := rows_newTransfer hadm hposted.kind
      refine hs.added ((congrArg (·.transferRequests.rows) heq).trans htransfers) (fun _ => ?_)
        fun htype => ?_
      · rw [CreateTransferArgs.Adapted, hdest] at hargs
        obtain ⟨adapter, hadapter⟩ := hargs
        rw [hadapter] at hprovider
        obtain rfl := hprovider
        exact ⟨adapter, rfl, rfl⟩
      · rw [hrow, transferData, hdest] at htype
        cases htype

theorem ExternalRailService.EventRun.referenced {event : NormalizedExternalRailEvent}
    {r : TransferRequest} (h : EventRun V env event ws r) (hs : s.Referenced) :
    (database.applyAll ws s).Referenced := by
  cases h with
  | duplicate _ _ => exact hs
  | recorded _ _ => exact ⟨hs.interbank, hs.internal⟩
  | settled _ _ _ =>
      refine hs.updated rfl fun t => ?_
      split <;> exact ⟨rfl, rfl, rfl, rfl⟩
  | compensated _ _ _ _ hcomp =>
      refine hs.updated (rows_updatedTwice hcomp.entry.kind s).1 fun t => ?_
      split <;> exact ⟨rfl, rfl, rfl, rfl⟩

/-- The transactions of transfers, with the arguments that `createTransfer` computes. -/
def adapted : {α : Type} → Label α → Prop
  | _, .createTransfer args => args.Adapted
  | _, .applyNormalizedEvent _ => True
  | _, .statement q => Outside q
  | _, _ => False

theorem Committed.referenced (hV : Answering V) {α : Type} {l : Label α} (hl : adapted l) {a : α}
    (h : Committed V env l a ws) (hadm : database.Admissible s ws) (hs : s.Referenced) :
    (database.applyAll ws s).Referenced := by
  cases h with
  | createTransfer hrun => exact hrun.referenced hl hadm hs
  | applyNormalizedEvent hrun => exact hrun.referenced hs
  | processBatchChunk _ => exact False.elim hl
  | processBatchItem _ => exact False.elim hl
  | statement hread =>
      have hkind : ∀ w ∈ ws, w.kind ≠ .transfer := fun w hw => by
        simp [kind_of_outside hV hl hread w hw]
      have hsame := Store.sameTransfers_applyAll hkind s
      exact ⟨hsame.transferRequests ▸ hs.interbank, hsame.transferRequests ▸ hs.internal⟩

end Commits

/-! ## Runs -/

variable {env : Env} {s : Store}

theorem adapted_of_ofEvents {α : Type} (l : Label α) (h : ofEvents l) : adapted l := by
  cases l with
  | createTransfer args => exact False.elim h
  | _ => exact h

theorem createTransfer_adapted (input : CreateTransferRequest) (context : RequestContext) :
    (TransfersService.createTransfer env input context).Uses adapted := by
  unfold TransfersService.createTransfer
  cases hargs : transferArgs env input context with
  | error e => exact .throw
  | ok args =>
      have hargs' : Process.ofExcept (Except.ok args) = .pure args := rfl
      rw [hargs', Proc.pure_bind]
      refine .bind (.transaction (transferArgs_adapted hargs)) fun result => ?_
      cases truthy result.enqueueTransferId with
      | some id =>
          exact .bind ((enqueueTransferSubmission_uses id).mono adapted_of_ofEvents) fun _ => .pure
      | none => exact .pure

theorem program_adapted {call : Call} (hcall : call.ofTransfers = true) :
    (call.program env).Uses adapted := by
  cases call with
  | createTransfer input context =>
      exact .bind (createTransfer_adapted input context) fun _ => .pure
  | _ => exact (eventProgram_uses env hcall rfl).mono adapted_of_ofEvents

/-- The rules of references. -/
def referenceRules (env : Env) : Rules (server env) Unit Empty :=
  Rules.static (server env) Store.Referenced Store.Extends adapted (fun _ _ => True) (fun _ => [])
    fun _ _ _ _ => True

theorem referenceRules_valid : (referenceRules env).Valid fun _ => Starts Call.ofTransfers := by
  refine Rules.static_valid lawful_database Store.Extends.refl (fun _ _ _ => .trans)
    (Rules.unguarded_statements (fun _ => rfl) fun _ _ _ _ => trivial) ?_ ?_
  · intro α s T l h a hc
    have hV : Answering ((referenceRules env).Evidence s l) :=
      answering_of_saw fun p e he => saw_of_seen (fun _ _ h => h) he.1
    have hcommitted := committed_of_runs hV (runs_of_completes hc.path hc.evidence)
    exact ⟨hcommitted.referenced hV hc.pre hc.admissible hc.inv, extends_applyAll (writes h) s,
      trivial⟩
  · intro c call hok _
    exact Rules.Fine.of_uses (program_adapted hok) (fun _ _ _ hl => hl) _ _

theorem referenced_of_steps (hempty : s.transferRequests.rows = []) {c : ServerConfig}
    (hrun : Steps (server env) (fun _ => Starts Call.ofTransfers) (.initial s) c) :
    c.store.Referenced := by
  have hinit : s.Referenced := ⟨by simp [hempty], by simp [hempty]⟩
  obtain ⟨⟨own, hsound⟩, -⟩ := Rules.sound_of_steps referenceRules_valid hinit hrun
  exact hsound.inv

/-- Two external transfers with one reference are one transfer, and an event that carries only a
reference is about at most one transfer. -/
structure Store.Identified (s : Store) : Prop where
  reference : ∀ t ∈ s.transferRequests.rows, ∀ t' ∈ s.transferRequests.rows,
    t.transferType = .interbank → t'.transferType = .interbank →
    t.externalReference = t'.externalReference → t = t'
  lookup : ∀ event : NormalizedExternalRailEvent, event.transferRequestId = none →
    ∀ t ∈ s.transferRequests.rows, ∀ t' ∈ s.transferRequests.rows,
    event.identifies t = true → event.identifies t' = true → t = t'

/-- No two external transfers of one provider have ids that start with the same eight characters. -/
def Store.StartApart (s : Store) : Prop :=
  ∀ t ∈ s.transferRequests.rows, ∀ t' ∈ s.transferRequests.rows,
    t.transferType = .interbank → t'.transferType = .interbank →
    t.externalRailProvider = t'.externalRailProvider →
    t.id.toList.take 8 = t'.id.toList.take 8 → t = t'

theorem identified_iff (hs : s.Referenced) : s.Identified ↔ s.StartApart := by
  constructor
  · intro h t ht t' ht' htype htype' hprovider hstart
    obtain ⟨adapter, hadapter, hreference⟩ := hs.interbank t ht htype
    obtain ⟨adapter', hadapter', hreference'⟩ := hs.interbank t' ht' htype'
    refine h.reference t ht t' ht' htype htype' ?_
    rw [hadapter, hadapter'] at hprovider
    rw [hreference, hreference', externalReference_inj.mpr ⟨Option.some.inj hprovider, hstart⟩]
  · intro h
    have hreference : ∀ t ∈ s.transferRequests.rows, ∀ t' ∈ s.transferRequests.rows,
        t.transferType = .interbank → t'.transferType = .interbank →
        t.externalReference = t'.externalReference → t = t' := by
      intro t ht t' ht' htype htype' heq
      obtain ⟨adapter, hadapter, hreference⟩ := hs.interbank t ht htype
      obtain ⟨adapter', hadapter', hreference'⟩ := hs.interbank t' ht' htype'
      rw [hreference, hreference'] at heq
      obtain ⟨hprovider, hstart⟩ := externalReference_inj.mp (Option.some.inj heq)
      exact h t ht t' ht' htype htype' (by rw [hadapter, hadapter', hprovider]) hstart
    refine ⟨hreference, fun event hid t ht t' ht' hident hident' => ?_⟩
    -- only the reference can match, and an internal transfer has none
    have hmatches : ∀ {t : TransferRequest}, t ∈ s.transferRequests.rows →
        event.identifies t = true → t.transferType = .interbank ∧
          t.externalReference = truthy event.externalReference := by
      intro t ht hident
      have hnone : truthy event.transferRequestId = none := by rw [hid]; rfl
      rw [NormalizedExternalRailEvent.identifies, hnone, Bool.or_eq_true,
        Bool.and_eq_true] at hident
      obtain ⟨hsome, heq⟩ := hident.resolve_left (by simp)
      have heq := of_decide_eq_true heq
      refine ⟨?_, heq⟩
      cases htype : t.transferType with
      | interbank => rfl
      | internal =>
          rw [← heq, hs.internal t ht htype] at hsome
          cases hsome
    obtain ⟨htype, heq⟩ := hmatches ht hident
    obtain ⟨htype', heq'⟩ := hmatches ht' hident'
    exact hreference t ht t' ht' htype htype' (heq.trans heq'.symm)

/-- In every store that calls about transfers make, each external reference is that of one transfer
if and only if no two external transfers of one provider have ids that start alike. -/
theorem references_distinct_iff (env : Env) (s : Store) (hempty : s.transferRequests.rows = [])
    (c : ServerConfig)
    (hrun : Steps (server env) (fun _ => Starts Call.ofTransfers) (.initial s) c) :
    c.store.Identified ↔ c.store.StartApart :=
  identified_iff (referenced_of_steps hempty hrun)

/-! ## Two transfers with one reference -/

/-- A choice with one UUID. -/
def uuidChoice (u : Uuid) (hu : u ≠ "") : Choice := ⟨fun _ => u, fun _ => hu, 0, []⟩

/-- An external transfer of the demo customer.  Its second posting and the rows after it get their
UUIDs from `ch'`. -/
def externalWith (i : Nat) (key : String) (ch ch' : Choice) : List (Action Choice Call) :=
  .start (.createTransfer (demoTransfer (.externalBank none "NATL" "1099" "Jane Doe") 2500)
      (demoContext key)) ::
    List.replicate 14 (.advance i ch) ++ List.replicate 7 (.advance i ch')

/-- A transfer with an id that starts with `0d76f071`, and one with the id `u`. -/
def twoExternal (u u' : Uuid) (hu : u ≠ "") (hu' : u' ≠ "") : List (Action Choice Call) :=
  externalWith 0 "k" (uuidChoice "0d76f071-8dbf-4d01-aec5-11d448bcb5b1" (by decide))
      (uuidChoice "a112f304-e9b0-4f81-a0d2-b90eac97d73d" (by decide)) ++
    externalWith 1 "l" (uuidChoice u hu) (uuidChoice u' hu')

theorem references_distinct_apart :
    ∃ c, Steps (server testEnvironment) (fun _ => Starts Call.ofTransfers) (.initial demoStore) c ∧
      c.store.transferRequests.rows.map (·.externalReference) =
        [some "simulator_0d76f071", some "simulator_498640a4"] ∧ c.store.Identified := by
  obtain ⟨c, hrun, hreferences, hids⟩ := exists_of_play (server testEnvironment)
    (fun _ => Starts Call.ofTransfers) (.initial demoStore)
    (twoExternal "498640a4-7f59-4f48-8def-e86791ce9192" "d1ca53fd-75eb-4b8a-9e6d-a4054631d90d"
      (by decide) (by decide))
    (fun c => c.store.transferRequests.rows.map (·.externalReference) =
        [some "simulator_0d76f071", some "simulator_498640a4"] ∧
      ∀ t ∈ c.store.transferRequests.rows, ∀ t' ∈ c.store.transferRequests.rows,
        t.id.toList.take 8 = t'.id.toList.take 8 → t = t') (by decide +kernel)
  exact ⟨c, hrun, hreferences, (references_distinct_iff _ _ rfl c hrun).mpr
    fun t ht t' ht' _ _ _ hstart => hids t ht t' ht' hstart⟩

/-- Two transfers have the reference `simulator_0d76f071`. -/
theorem reference_shared :
    ∃ c, Steps (server testEnvironment) (fun _ => Starts Call.ofTransfers) (.initial demoStore) c ∧
      ¬ c.store.Identified := by
  obtain ⟨c, hrun, t, ht, t', ht', htype, htype', heq, hne⟩ := exists_of_play
    (server testEnvironment) (fun _ => Starts Call.ofTransfers) (.initial demoStore)
    (twoExternal "0d76f071-7f59-4f48-8def-e86791ce9192" "d1ca53fd-75eb-4b8a-9e6d-a4054631d90d"
      (by decide) (by decide))
    (fun c => ∃ t ∈ c.store.transferRequests.rows, ∃ t' ∈ c.store.transferRequests.rows,
      t.transferType = .interbank ∧ t'.transferType = .interbank ∧
        t.externalReference = t'.externalReference ∧ t ≠ t') (by decide +kernel)
  exact ⟨c, hrun, fun h => hne (h.reference t ht t' ht' htype htype' heq)⟩

end LedgerCredit
