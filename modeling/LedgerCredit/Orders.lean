import LedgerCredit.DoubleEntry
import LedgerCredit.TransferEffects
import LedgerCredit.StatementLines
import LedgerCredit.AuditTrail

/-!
# Who takes money out of an account

Money leaves the ledger account of a customer by a debit.  Interest and compensations credit
customers and debit the bank, so a debit is always the first posting of a new transfer.

*Debits and orders.*  `Store.debits` lists the debits of an account, each with the transfer that
its entry names.  `Store.orders` lists the transfers from the account.  A commit adds the same to
both lists (`Kept.step`), so they are equal in every store that a run reaches.

*Holders.*  The transaction that creates a transfer checks its context against the account that
it read, and leaves the actor of the context in the audit trail.  So behind every debit there is
somebody who may dispose of the account (`withdrawals_ordered`).
-/

namespace LedgerCredit

open Txn LedgerService

/-! ## Debits and orders -/

/-- The transfer of which a posting is. -/
def Store.transferOf (s : Store) (p : Posting) : Option Uuid :=
  (s.journalEntries.get? p.journalEntryId).bind (·.transferRequestId)

/-- The debits among some postings of a ledger account. -/
def debitsAmong (ledgerAccountId : Uuid) (postings : List Posting) : List Posting :=
  postings.filter fun p => p.ledgerAccountId = ledgerAccountId ∧ p.direction = .debit

/-- The debits of a ledger account, in the order of the commits, with their transfers and
amounts. -/
def Store.debits (s : Store) (ledgerAccountId : Uuid) : List (Option Uuid × Int) :=
  (debitsAmong ledgerAccountId s.postings.rows).map fun p => (s.transferOf p, p.amountMinor)

/-- The transfers from an account, in the order of the commits, with their amounts. -/
def Store.orders (s : Store) (accountId : Uuid) : List (Option Uuid × Int) :=
  (s.transferRequests.rows.filter (·.sourceAccountId = accountId)).map fun t =>
    (some t.id, t.amountMinor)

/-- Every debit of an account is a transfer from it, and every transfer from it is a debit. -/
def Store.DebitsOrdered (s : Store) : Prop :=
  ∀ accountId l, s.ledgerAccountOf accountId = some l → s.debits l.id = s.orders accountId

/-- The audit trail tells who ordered the transfer, and it was no other customer than the one to
whom its source account belongs. -/
def Store.OrderedByHolder (s : Store) (t : TransferRequest) : Prop :=
  ∃ e ∈ s.auditEvents.rows, e.actionType = "transfer.created" ∧
    e.resourceType = "transfer_request" ∧ e.resourceId = t.id ∧
    ∃ a ∈ s.accounts.rows, a.id = t.sourceAccountId ∧
      (e.actorType = .customer → e.actorId = some a.customerId)

section Stores

variable {s s' : Store} {ws : List Write} {entries : List (JournalEntry × List Posting)}
  {accountId id : Uuid}

/-- New debits come after the old ones. -/
theorem debits_of_journalled (h : database.Admissible s ws) (hj : Journalled ws entries)
    (hkeys : s.ForeignKeys) :
    (database.applyAll ws s).debits id = s.debits id ++ entries.flatMap fun e =>
      (debitsAmong id e.2).map fun p => (e.1.transferRequestId, p.amountMinor) := by
  have hrows := journalEntries_of_journalled h hj
  have hold : ∀ p ∈ s.postings.rows,
      (database.applyAll ws s).transferOf p = s.transferOf p := by
    intro p hp
    obtain ⟨e, he⟩ := Option.isSome_iff_exists.mp (hkeys.posting p hp)
    obtain ⟨hmem, hid⟩ := Table.get?_eq_some.mp he
    have hmem' : e ∈ (database.applyAll ws s).journalEntries.rows :=
      hrows ▸ List.mem_append_left _ hmem
    rw [Store.transferOf, Store.transferOf, he, Table.get?_eq_some.mpr ⟨hmem', hid⟩]
  have hnew : ∀ e ∈ entries, ∀ p ∈ e.2,
      (database.applyAll ws s).transferOf p = e.1.transferRequestId := by
    intro e he p hp
    have hmem : e.1 ∈ (database.applyAll ws s).journalEntries.rows :=
      hrows ▸ List.mem_append_right _ (List.mem_map_of_mem he)
    rw [Store.transferOf, Table.get?_eq_some.mpr ⟨hmem, (hj.own e he p hp).symm⟩]
    rfl
  rw [Store.debits, postings_of_journalled h hj, debitsAmong, List.filter_append, List.map_append,
    List.filter_flatMap, List.map_flatMap]
  congr 1
  · refine List.map_congr_left fun p hp => ?_
    rw [hold p (List.mem_of_mem_filter hp)]
  · refine List.flatMap_congr fun e he => ?_
    refine List.map_congr_left fun p hp => ?_
    rw [hnew e he p (List.mem_of_mem_filter hp)]

/-- Changes of transfers leave the orders alone. -/
theorem orders_of_changed {f : TransferRequest → TransferRequest}
    (hf : ∀ t : TransferRequest, t.Same (f t))
    (h : s'.transferRequests.rows = s.transferRequests.rows.map f) :
    s'.orders accountId = s.orders accountId := by
  rw [Store.orders, h, List.filter_map, List.map_map]
  have hfilter : (fun t : TransferRequest => decide (t.sourceAccountId = accountId)) ∘ f =
      fun t => decide (t.sourceAccountId = accountId) :=
    funext fun t => by simp [(hf t).sourceAccountId]
  rw [hfilter]
  refine List.map_congr_left fun t _ => ?_
  simp [(hf t).id, (hf t).amountMinor]

end Stores

/-! ## What a commit debits -/

section Commit

variable {V : View} {env : Env} {s : Store} {p ws : List Write} {α : Type} {l : Label α} {a : α}

/-- A debit of the bank. -/
def Store.OfBank (s : Store) (p : Posting) : Prop :=
  p.direction = .debit →
    ∃ r ∈ s.ledgerAccounts.rows, r.id = p.ledgerAccountId ∧ r.category ≠ .customer

/-- An entry that debits a ledger account of the bank and credits another. -/
theorem LedgerService.JournalPosted.ofBank {input : PostJournalEntryInput}
    {journalEntry : JournalEntry} {postings : List Posting} {ledgerAccounts : List LedgerAccount} {rest : List Write}
    (h : JournalPosted V input p ws journalEntry postings ledgerAccounts rest) {r : LedgerAccount}
    {credited : Uuid} {amount : Money}
    (hpostings : input.postings = [⟨r.id, .debit, amount⟩, ⟨credited, .credit, amount⟩])
    (hr : r ∈ s.ledgerAccounts.rows) (hcategory : r.category ≠ .customer) :
    ∀ q ∈ postings, s.OfBank q := by
  intro q hq hdebit
  obtain ⟨x, hx, hof⟩ := mem_of_forall₂ h.posted.rows.1 hq
  obtain ⟨_, rfl⟩ := hof.data
  simp only [hpostings, List.mem_cons, List.not_mem_nil, or_false] at hx
  rcases hx with rfl | rfl
  · exact ⟨r, hr, rfl, hcategory⟩
  · cases hdebit

/-- A transaction that creates no transfer debits the bank only. -/
theorem Committed.ofBank (hV : ∀ p e, V p e → Saw s p e) (hground : grounds s l)
    (h : Committed V env l a ws) (hother : l.creates = false) :
    ∀ q ∈ ws.filterMap Write.posting?, s.OfBank q := by
  have hnone : ∀ {ws : List Write}, (∀ w ∈ ws, w.kind ≠ .ledger) →
      ∀ q ∈ ws.filterMap Write.posting?, s.OfBank q := fun hkind => by
    simp [(Journalled.nil_of_kind hkind).postings]
  have hposted : ∀ {ws : List Write} {e : JournalEntry × List Posting}, Journalled ws [e] →
      (∀ q ∈ e.2, s.OfBank q) → ∀ q ∈ ws.filterMap Write.posting?, s.OfBank q :=
    fun hj hbank => by simpa [hj.postings] using hbank
  cases h with
  | createTransfer _ => cases hother
  | applyNormalizedEvent hrun =>
      cases hrun with
      | compensated _ _ _ _ hcomp =>
          obtain ⟨hclearing, hcategory, -⟩ := saw_findFirstLedgerAccount (hV _ _ hcomp.clearingRead)
          exact hposted (hcomp.entry.journalled.wrap (by simp [Write.kind]) (by simp [Write.kind]))
            (hcomp.entry.ofBank rfl hclearing (by simp [hcategory]))
      | _ => exact hnone (by simp [Write.kind])
  | processBatchChunk hrun =>
      rw [(hrun.journalled (answering_of_saw hV)).postings]
      intro q hq hdebit
      obtain ⟨e, he, hq⟩ := List.mem_flatMap.mp hq
      obtain ⟨row, hrow, rfl⟩ := List.mem_map.mp he
      obtain ⟨x, hx, uuid, ledgerAccountId, revenueId, hledger, hrevenue, rfl⟩ := hrun.rowOf row hrow
      simp only [List.mem_cons, List.not_mem_nil, or_false] at hq
      rcases hq with rfl | rfl
      · obtain ⟨r, hr, hrid, -, hcategory⟩ := hground.revenue _ (mapGet_mem hrevenue)
        exact ⟨r, hr, hrid, by simp [hcategory]⟩
      · cases hdebit
  | processBatchItem hrun =>
      cases hrun with
      | processed _ _ _ hpaid =>
          cases hpaid with
          | none _ => exact hnone (by simp [Write.kind])
          | paid _ hrevenue _ hpost =>
              obtain ⟨hr, hcategory, -⟩ := saw_findFirstLedgerAccount (hV _ _ hrevenue)
              exact hposted (hpost.journalled.wrap (by simp [Write.kind]) (by simp [Write.kind]))
                (hpost.ofBank rfl hr (by simp [hcategory]))
      | _ => exact hnone (by simp)
  | statement hread =>
      refine hnone fun w hw => ?_
      simp [kind_of_outside (answering_of_saw hV) hground hread w hw]

/-- A new transfer is reported, and its context passed the check of the owner. -/
theorem TransfersService.TransferRun.ordered {args : CreateTransferArgs}
    {r : TransferMutationResult} (hV : ∀ p e, V p e → Saw s p e) (h : TransferRun V env args ws r)
    {t : TransferRequest} (ht : .transferRequest t ∈ ws) :
    ∃ source ∈ s.accounts.rows, source.id = t.sourceAccountId ∧
      assertCustomerOwnsResource args.context source.customerId = .ok () ∧
      ∃ u, .auditEvent (auditData args.context ⟨"transfer.created", "transfer_request", t.id⟩ u) ∈
        ws := by
  have hnone : ∀ {posted : List Write}, (∀ w ∈ posted, w.kind = .ledger) →
      Write.transferRequest t ∉ posted := fun hkind hmem => by cases hkind _ hmem
  cases h with
  | replay _ _ _ => cases ht
  | internal _ _ u _ hcreated _ _ hposted =>
      obtain ⟨howns, -⟩ := saw_findAccountWithBalance (hV _ _ hcreated.checked.read)
      obtain ⟨_, _, -, hrow⟩ := hcreated.transferRow
      obtain rfl : t = _ := by simpa [hcreated.writes, hnone hposted.kind] using ht
      exact ⟨_, howns.account, congrArg (·.sourceAccountId) hrow.symm, hcreated.checked.owner, u,
        by simp⟩
  | external _ u _ _ hcreated _ hposted =>
      obtain ⟨howns, -⟩ := saw_findAccountWithBalance (hV _ _ hcreated.checked.read)
      obtain ⟨_, _, -, hrow⟩ := hcreated.transferRow
      obtain rfl : t = _ := by simpa [hcreated.writes, hnone hposted.kind] using ht
      exact ⟨_, howns.account, congrArg (·.sourceAccountId) hrow.symm, hcreated.checked.owner, u,
        by simp⟩

/-- What the check of the owner leaves in the audit trail. -/
theorem actorId_of_assertCustomerOwnsResource {context : RequestContext} {ownerCustomerId u : Uuid}
    {input : AuditRecordInput}
    (h : assertCustomerOwnsResource context ownerCustomerId = .ok ())
    (hcustomer : (auditData context input u).actorType = .customer) :
    (auditData context input u).actorId = some ownerCustomerId := by
  cases hactor : context.actor with
  | none => simp [auditData, hactor] at hcustomer
  | some actor =>
      have htype : actor.actorType = .customer := by simpa [auditData, hactor] using hcustomer
      have hid : actor.actorId = ownerCustomerId := by
        simpa [assertCustomerOwnsResource, hactor, htype] using h
      simp [auditData, hactor, hid]

end Commit

/-! ## What a commit keeps -/

section Step

variable {env : Env} {s : Store} {ws : List Write} {α : Type} {l : Label α} {a : α}
  {entries : List (JournalEntry × List Posting)}

/-- Debits of the bank are not debits of a customer. -/
theorem debits_of_bank (hs : s.Seeded env) (hkeys : s.ForeignKeys)
    (hadm : database.Admissible s ws) (hj : Journalled ws entries)
    (hbank : ∀ q ∈ ws.filterMap Write.posting?, s.OfBank q) {accountId : Uuid} {r : LedgerAccount}
    (hr : s.ledgerAccountOf accountId = some r) :
    (database.applyAll ws s).debits r.id = s.debits r.id := by
  rw [debits_of_journalled hadm hj hkeys, List.append_right_eq_self, List.flatMap_eq_nil_iff]
  intro e he
  rw [List.map_eq_nil_iff, debitsAmong, List.filter_eq_nil_iff]
  rintro q hq hcontra
  obtain ⟨hid, hdebit⟩ : q.ledgerAccountId = r.id ∧ q.direction = .debit := by simpa using hcontra
  have hmem : q ∈ ws.filterMap Write.posting? :=
    hj.postings ▸ List.mem_flatMap.mpr ⟨e, he, hq⟩
  obtain ⟨bank, hbankmem, hbankid, hcategory⟩ := hbank q hmem hdebit
  obtain ⟨hrmem, hlink⟩ := ledgerAccountOf_some.mp hr
  obtain rfl := Table.eq_of_pk hbankmem hrmem (hbankid.trans hid)
  cases (hs.unlinked bank hbankmem hcategory).symm.trans hlink

/-- A new transfer is one debit and one order of its source account. -/
theorem Initiated.debitsOrdered (hs : s.DebitsOrdered) (hkeys : s.ForeignKeys)
    (hadm : database.Admissible s ws) {args : CreateTransferArgs} {r : TransferMutationResult}
    {t : TransferRequest} {u : Uuid} {source : LedgerAccount} {entry : JournalEntry}
    {postings : List Posting} {operation : String} {credited : Uuid}
    (hj : Journalled ws [(entry, postings)])
    (h : Initiated s (database.applyAll ws s) args r t u source)
    (hmoves : Moves entry postings t.id operation source.id credited t.amountMinor) :
    (database.applyAll ws s).DebitsOrdered := by
  intro accountId l hl
  rw [ledgerAccountOf_eq (applyAll_ledgerAccounts ws s) accountId] at hl
  obtain ⟨debit, credit, rfl, hdebit, hdebited, hamount, hcredit, -, -⟩ := hmoves.postings
  have htransfer : entry.transferRequestId = some t.id := by
    simpa [truthy, Option.filter, h.id_ne] using hmoves.transfer
  have hiff : source.id = l.id ↔ t.sourceAccountId = accountId :=
    ledgerAccountOf_inj hl h.source
  rw [debits_of_journalled hadm hj hkeys, Store.orders, h.transferRequests, List.filter_append,
    List.map_append, hs accountId l hl]
  refine congrArg _ ?_
  by_cases hacc : t.sourceAccountId = accountId
  · simp [debitsAmong, hdebit, hdebited, hcredit, hamount, htransfer, hiff.mpr hacc, hacc]
  · simp [debitsAmong, hdebited, hcredit, mt hiff.mp hacc, hacc]

/-- A commit that creates no transfer changes the rows of those that are there. -/
theorem TransferEffect.changed {V : View} {s' : Store} (h : TransferEffect V env s s' l a entries)
    (hother : l.creates = false) : ∃ f : TransferRequest → TransferRequest,
      (∀ t : TransferRequest, t.Same (f t)) ∧
      s'.transferRequests.rows = s.transferRequests.rows.map f := by
  cases h with
  | other _ htransfers => exact ⟨id, .refl, by rw [htransfers, List.map_id]⟩
  | settled _ _ hrows =>
      refine ⟨_, fun t => ?_, hrows⟩
      split
      · exact TransferRequestUpdate.apply_same ..
      · exact .refl t
  | compensated _ _ hrows =>
      refine ⟨_, fun t => ?_, hrows⟩
      split
      · exact (TransferRequestUpdate.apply_same ..).trans (TransferRequestUpdate.apply_same ..)
      · exact .refl t
  | _ => cases hother

/-- Every commit adds the same debits and orders. -/
theorem Committed.debitsOrdered (hs : s.DebitsOrdered) (hseeded : s.Seeded env)
    (hkeys : s.ForeignKeys) (hground : grounds s l) (hadm : database.Admissible s ws)
    (h : Committed (Saw s) env l a ws) : (database.applyAll ws s).DebitsOrdered := by
  obtain ⟨entries, hj, heffect⟩ := h.effect (fun _ _ h => h) hground hadm
  cases hcreates : l.creates with
  | false =>
      obtain ⟨f, hf, hrows⟩ := heffect.changed hcreates
      intro accountId r hr
      rw [ledgerAccountOf_eq (applyAll_ledgerAccounts ws s) accountId] at hr
      rw [debits_of_bank hseeded hkeys hadm hj (h.ofBank (fun _ _ h => h) hground hcreates) hr,
        orders_of_changed hf hrows, hs accountId r hr]
  | true =>
      cases heffect with
      | replayed _ _ _ hsame => rwa [hsame]
      | internal hinitiated _ _ _ hmoves => exact hinitiated.debitsOrdered hs hkeys hadm hj hmoves
      | external hinitiated _ _ _ _ _ _ _ hmoves =>
          exact hinitiated.debitsOrdered hs hkeys hadm hj hmoves
      | other hother => cases hcreates.symm.trans hother
      | _ => cases hcreates

theorem Store.OrderedByHolder.applyAll {t t' : TransferRequest} (h : s.OrderedByHolder t)
    (hadm : database.Admissible s ws) (hsame : t.Same t') :
    (database.applyAll ws s).OrderedByHolder t' := by
  obtain ⟨e, he, haction, htype, hid, x, hx, hsource, hactor⟩ := h
  refine ⟨e, ?_, haction, htype, hid.trans hsame.id.symm, x, ?_,
    hsource.trans hsame.sourceAccountId.symm, hactor⟩
  · rw [auditEvents_applyAll hadm]
    exact List.mem_append_left _ he
  · rwa [applyAll_accounts]

/-- Every commit leaves the transfers ordered. -/
theorem Committed.orderedByHolder (hs : ∀ t ∈ s.transferRequests.rows, s.OrderedByHolder t)
    (hground : grounds s l) (hadm : database.Admissible s ws)
    (h : Committed (Saw s) env l a ws) :
    ∀ t ∈ (database.applyAll ws s).transferRequests.rows,
      (database.applyAll ws s).OrderedByHolder t := by
  intro t ht
  cases hcreates : l.creates with
  | false =>
      obtain ⟨_, _, heffect⟩ := h.effect (fun _ _ h => h) hground hadm
      obtain ⟨f, hf, hrows⟩ := heffect.changed hcreates
      obtain ⟨t₀, ht₀, rfl⟩ := List.mem_map.mp (hrows ▸ ht)
      exact (hs t₀ ht₀).applyAll hadm (hf t₀)
  | true =>
      rcases transferRequests_applyAll ws s ht with ⟨t₀, ht₀, hsame⟩ | ⟨r, hr, hsame⟩
      · exact (hs t₀ ht₀).applyAll hadm hsame
      · cases h with
        | createTransfer hrun =>
            obtain ⟨source, hsource, hid, howner, u, haudit⟩ := hrun.ordered (fun _ _ h => h) hr
            refine ⟨auditData _ ⟨"transfer.created", "transfer_request", r.id⟩ u, ?_, rfl, rfl,
              hsame.id.symm, source, ?_, hid.trans hsame.sourceAccountId.symm,
              actorId_of_assertCustomerOwnsResource howner⟩
            · rw [auditEvents_applyAll hadm]
              exact List.mem_append_right _ (List.mem_filterMap.mpr ⟨_, haudit, rfl⟩)
            · rwa [applyAll_accounts]
        | _ => cases hcreates

end Step

/-! ## Runs -/

/-- What the orders rest on, from the store `s` on. -/
structure Store.Held (env : Env) (s s' : Store) : Prop where
  extended : s.Extends s'
  seeded : s'.Seeded env
  keys : s'.ForeignKeys
  debits : s'.DebitsOrdered
  orders : ∀ t ∈ s'.transferRequests.rows, s'.OrderedByHolder t

theorem held_of_committed {env : Env} {s s' : Store} {α : Type} (l : Label α) (a : α)
    (ws : List Write) (hs : s.Held env s') (hground : grounds s' l)
    (hadm : database.Admissible s' ws) (h : Committed (Saw s') env l a ws) :
    s.Held env (database.applyAll ws s') where
  extended := hs.extended.trans (extends_applyAll ws s')
  seeded := hs.seeded.of_extends (extends_applyAll ws s')
  keys := foreignKeys_applyAll hadm hs.keys
  debits := h.debitsOrdered hs.debits hs.seeded hs.keys hground hadm
  orders := h.orderedByHolder hs.orders hground hadm

/-- Under any schedule of any calls, the debits of every account are the transfers from it, one
for one and in order, and behind each there is somebody who may dispose of the account. -/
theorem withdrawals_ordered {env : Env} {s : Store} (hs : s.Seeded env) (hkeys : s.ForeignKeys)
    (hdebits : s.DebitsOrdered) (horders : ∀ t ∈ s.transferRequests.rows, s.OrderedByHolder t)
    {c : ServerConfig} (hrun : Steps (server env) anySchedule (.initial s) c) :
    c.store.DebitsOrdered ∧ ∀ t ∈ c.store.transferRequests.rows, c.store.OrderedByHolder t := by
  have hvalid : (openRules env s (s.Held env)).Valid anySchedule :=
    openRules_valid (fun _ h => h.extended) fun _ => held_of_committed
  have hinit : s.Held env s := ⟨.refl s, hs, hkeys, hdebits, horders⟩
  obtain ⟨⟨own, hsound⟩, -⟩ := Rules.sound_of_steps hvalid hinit hrun
  have hheld : s.Held env c.store := hsound.inv
  exact ⟨hheld.debits, hheld.orders⟩

/-- A transfer of the demo customer, and one from the same account by somebody else. -/
def intruderSchedule : List (Action Choice Call) :=
  internalSchedule ++
    .start (.createTransfer (demoTransfer (.internalAccount demoData.savingsAccountId) 2500)
      { demoContext "k'" with actor := some ⟨"somebody-else", .customer⟩ }) ::
    advances 1 "b" 5

/-- The transfer of the customer is a debit, and the other one is not. -/
theorem withdrawals_ordered_intruder :
    ∃ c, Steps (server testEnvironment) anySchedule (.initial demoStore) c ∧
      (c.store.debits checkingLedger.id).length = 1 ∧ c.store.DebitsOrdered ∧
        ∀ t ∈ c.store.transferRequests.rows, c.store.OrderedByHolder t := by
  obtain ⟨c, hrun, hlength⟩ := exists_of_play (server testEnvironment) anySchedule
    (.initial demoStore) intruderSchedule
    (fun c => (c.store.debits checkingLedger.id).length = 1) (by decide +kernel)
  refine ⟨c, hrun, hlength, withdrawals_ordered (seedBaseData_seeded (by decide +kernel) ..)
    (seedBaseData_foreignKeys ..) (fun _ _ _ => rfl) ?_ hrun⟩
  intro t ht
  cases ht

end LedgerCredit
