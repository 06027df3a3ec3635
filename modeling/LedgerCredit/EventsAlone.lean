import LedgerCredit.Deliveries
import LedgerCredit.Outcomes
import LedgerCredit.Postable

/-!
# A provider event run alone

What `applyNormalizedEvent` does on the store of any reachable state, when
nothing else runs.  `Placed` is what every transfer has in such a store: an
amount that can be posted, and a source account with a ledger account.

The transaction looks the event up, then the transfer, and compensates if it
must.  `applyNormalizedEvent_skips` is the case of a recorded event, and
`compensates_surely` the one of a new rejection of a transfer that waits.
-/

namespace LedgerCredit

open Txn LedgerService ExternalRailService

/-! ## Transfers in reachable states -/

/-- What a transfer has since it was created. -/
structure Store.Placed (s : Store) (t : TransferRequest) : Prop where
  id_ne : t.id ≠ ""
  positive : 0 < t.amountMinor
  amount : inBigInt t.amountMinor = true
  source : ∃ a ∈ s.accounts.rows, a.id = t.sourceAccountId
  ledgerAccount : ∃ l, s.ledgerAccountOf t.sourceAccountId = some l

theorem Store.Placed.same {s s' : Store} {t t' : TransferRequest} (h : s.Placed t)
    (hext : s.Extends s') (hsame : t.Same t') : s'.Placed t' where
  id_ne := hsame.id ▸ h.id_ne
  positive := hsame.amountMinor ▸ h.positive
  amount := hsame.amountMinor ▸ h.amount
  source := hsame.sourceAccountId ▸ hext.accounts ▸ h.source
  ledgerAccount := by
    rw [hsame.sourceAccountId, ledgerAccountOf_eq hext.ledgerAccounts]
    exact h.ledgerAccount

/-- What the transfers rest on in every reachable state. -/
structure Store.Settleable (s₀ s : Store) : Prop where
  extended : s₀.Extends s
  keys : s.ForeignKeys
  placed : ∀ t ∈ s.transferRequests.rows, s.Placed t

/-- The rules of any schedule from the store `s` on. -/
def placedRules (env : Env) (s : Store) : Rules (server env) Empty Empty :=
  Rules.static (server env) s.Settleable Store.Extends (grounds s) (learned s) (fun _ => [])
    fun _ _ _ _ => True

section Placed

variable {env : Env} {s s₀ : Store}

theorem placedRules_valid : (placedRules env s₀).Valid anySchedule := by
  refine Rules.static_valid lawful_database Store.Extends.refl (fun _ _ _ => .trans)
    (Rules.unguarded_statements (fun _ => rfl) fun _ _ _ _ => trivial) ?_ ?_
  · intro α s T l h a hc
    have hV : ∀ p e, (placedRules env s₀).Evidence s l p e → Saw s p e :=
      fun p e he => saw_of_seen (fun _ _ h => h) he.1
    have hcommitted := committed_of_runs (answering_of_saw hV)
      (runs_of_completes hc.path hc.evidence)
    obtain ⟨hext, hkeys, hplaced⟩ : s₀.Settleable s := hc.inv
    have hl := grounds_of_extends hext hc.pre
    have hext' := extends_applyAll (writes h) s
    refine ⟨⟨hext.trans hext', foreignKeys_applyAll hc.admissible hkeys, fun t ht => ?_⟩, hext',
      hcommitted.learned hext hV⟩
    rcases transferRequests_applyAll _ _ ht with ⟨t₀, ht₀, hsame⟩ | ⟨r, hr, hsame⟩
    · exact (hplaced t₀ ht₀).same hext' hsame
    · -- the row was refused neither by its check nor for its range
      obtain ⟨args, _, source, ledger, amount, _, _, hcreated⟩ :=
        hcommitted.newTransfer (answering_of_saw hV) hl hr
      obtain ⟨e, he, hre⟩ := List.mem_flatMap.mp hr
      obtain ⟨p, ⟨_, ch, _, _, hexec⟩, _⟩ := hc.evidence.of_mem he
      obtain ⟨hbig, hcheck⟩ := range_of_violations (exec_violations hexec) _ hre
      obtain ⟨howns, -⟩ := saw_findAccountWithBalance (hV _ _ hcreated.checked.read)
      obtain ⟨id, createdAt, hid, rfl⟩ := hcreated.transferRow
      exact Store.Placed.same ⟨hid, of_decide_eq_true hcheck, hbig _ (List.mem_singleton_self _),
        ⟨source, howns.account, rfl⟩, ⟨ledger, howns.ledgerAccount⟩⟩ hext' hsame
  · intro c call _ _
    exact program_fine ⟨fun _ _ _ hl => hl, fun _ _ _ _ _ _ hpost => hpost⟩ call _ _

/-- In every reachable state the transfers are placed. -/
theorem settleable_of_steps (hkeys : s.ForeignKeys) (htransfers : s.transferRequests.rows = [])
    {c : ServerConfig} (hrun : Steps (server env) anySchedule (.initial s) c) :
    s.Settleable c.store := by
  have hinit : s.Settleable s := ⟨.refl s, hkeys, by simp [htransfers]⟩
  obtain ⟨⟨own, hsound⟩, -⟩ := Rules.sound_of_steps placedRules_valid hinit hrun
  exact hsound.inv

end Placed

/-! ## The lookup -/

/-- The lookup of a transfer for the event can find this one. -/
def NormalizedExternalRailEvent.identifies (event : NormalizedExternalRailEvent)
    (t : TransferRequest) : Bool :=
  truthy event.transferRequestId = some t.id ||
    ((truthy event.externalReference).isSome && t.externalReference = truthy event.externalReference)

/-- A transfer as the lookup replies it. -/
structure Store.LooksUp (s : Store) (event : NormalizedExternalRailEvent)
    (found : TransferWithSource) : Prop where
  transfer : found.transfer ∈ s.transferRequests.rows
  identified : event.identifies found.transfer = true
  ledgerAccount : found.sourceAccount.ledgerAccount =
    s.ledgerAccountOf found.transfer.sourceAccountId

section Lookup

variable {s : Store} {event : NormalizedExternalRailEvent} {t : TransferRequest}

/-- The statement that looks the transfer up. -/
def lookup (event : NormalizedExternalRailEvent) : Stmt (Option TransferWithSource) :=
  .findFirstTransferRequest (truthy event.transferRequestId) (truthy event.externalReference)

theorem includeSource_placed (h : s.Placed t) : ∃ found, s.includeSource (some t) = .ok (some found, []) ∧
    found.transfer = t ∧ found.sourceAccount.ledgerAccount = s.ledgerAccountOf t.sourceAccountId := by
  obtain ⟨a, ha, hid⟩ := h.source
  have hget : s.accounts.get? t.sourceAccountId = some a := Table.get?_eq_some.mpr ⟨ha, hid⟩
  refine ⟨⟨t, s.accountWithLedger a⟩, by simp [Store.includeSource, hget], rfl, ?_⟩
  rw [← hid]
  rfl

variable (event) in
/-- What the lookup replies on a choice. -/
theorem exec_lookup (hplaced : ∀ t ∈ s.transferRequests.rows, s.Placed t) (ch : Choice)
    {head : Option TransferRequest}
    (hhead : (arrange ch.order (s.transferRequests.rows.filter event.identifies)).head? = head) :
    ∃ reply, s.exec (lookup event) ch = .ok (reply, []) ∧ reply.map (·.transfer) = head ∧
      ∀ found, reply = some found → s.LooksUp event found := by
  have hexec : s.exec (lookup event) ch = s.includeSource head := hhead ▸ rfl
  cases head with
  | none => exact ⟨none, hexec, rfl, by simp⟩
  | some t =>
      obtain ⟨ht, hid⟩ := List.mem_filter.mp (mem_arrange.mp (List.mem_of_head? hhead))
      obtain ⟨found, hfound, rfl, hledger⟩ := includeSource_placed (hplaced t ht)
      refine ⟨some found, hexec.trans hfound, rfl, ?_⟩
      rintro _ ⟨⟩
      exact ⟨ht, hid, hledger⟩

theorem surely_lookup (hplaced : ∀ t ∈ s.transferRequests.rows, s.Placed t) :
    Surely (Tx.send (lookup event)) s (fun reply s' => s' = s ∧
      (∀ found, reply = some found → s.LooksUp event found) ∧
      (reply = none → ∀ t ∈ s.transferRequests.rows, event.identifies t = false)) fun _ => False := by
  refine always_send.mpr fun ch _ => ?_
  obtain ⟨reply, hexec, hhead, hfound⟩ := exec_lookup event hplaced ch rfl
  refine ⟨fun e he => ?_, fun r ws hr => ?_⟩
  · cases hexec.symm.trans he
  · cases hexec.symm.trans hr
    refine ⟨rfl, hfound, fun hnone t ht => ?_⟩
    rw [hnone, Option.map_none, eq_comm, List.head?_eq_none_iff] at hhead
    have hnil := (List.nil_perm.mp ((hhead ▸ arrange_perm ch.order _ : [].Perm _)))
    simpa [ht] using List.filter_eq_nil_iff.mp hnil t ht

/-- The lookup may reply any transfer that it can find. -/
theorem exists_lookup (hplaced : ∀ t ∈ s.transferRequests.rows, s.Placed t)
    (ht : t ∈ s.transferRequests.rows) (hid : event.identifies t = true) :
    ∃ ch found, s.Fresh ch ∧ s.exec (lookup event) ch = .ok (some found, []) ∧
      found.transfer = t ∧ s.LooksUp event found := by
  obtain ⟨order, horder⟩ := exists_arrange_head (List.mem_filter.mpr ⟨ht, hid⟩)
  obtain ⟨reply, hexec, hhead, hfound⟩ := exec_lookup event hplaced
    (freshChoice s 0 order) horder
  obtain ⟨found, rfl, hfoundt⟩ := Option.map_eq_some_iff.mp hhead
  exact ⟨_, found, fresh_freshChoice s 0 order, hexec, hfoundt, hfound found rfl⟩

end Lookup

/-! ## Statements about transfers -/

section Statements

variable {s : Store}

theorem surely_newDate (s : Store) :
    Surely (Tx.send .newDate) s (fun _ s' => s' = s) fun _ => False :=
  (surely_read fun _ => rfl).mono (fun _ _ h => h.2) fun _ h => h

theorem surely_updateTransferRequest {id : Uuid} {data : TransferRequestUpdate}
    (htransfer : s.present (.row .transferRequest id) = true) :
    Surely (Tx.send (.updateTransferRequest id data)) s
      (fun _ s' => database.Admissible s [.updateTransferRequest id data] ∧
        s' = (Write.updateTransferRequest id data).apply s) (fun _ => False) := by
  obtain ⟨t, ht⟩ := Option.isSome_iff_exists.mp htransfer
  refine surely_write (r := fun _ => data.apply t) (w := fun _ => .updateTransferRequest id data)
    (fun ch => ?_) (fun ch _ hv => ⟨admissible_of_violation hv, rfl⟩) fun ch e _ hv => ?_
  · simp [Store.exec, ht]
  · rw [violation_eq_none] at hv
    · cases hv
    · simp [Write.adds]
    · simpa [Write.needs] using htransfer
    · simp [Write.bigInts]
    · rfl

theorem surely_createExternalEvent {data : Uuid → ExternalTransferEvent} {transferRequestId : Uuid}
    {provider providerEventId : String} (hid : ∀ u, (data u).id = u)
    (htransferId : ∀ u, (data u).transferRequestId = transferRequestId)
    (hprovider : ∀ u, (data u).provider = provider)
    (heventId : ∀ u, (data u).providerEventId = some providerEventId)
    (htransfer : s.present (.row .transferRequest transferRequestId) = true) :
    Surely (Tx.send (.createExternalEvent data)) s
      (fun _ s' => s.present (.providerEvent provider providerEventId) = false ∧
        ∃ u, database.Admissible s [.externalEvent (data u)] ∧
          s' = (Write.externalEvent (data u)).apply s)
      (fun _ => ¬ s.present (.providerEvent provider providerEventId) = false) := by
  have hkey : ∀ u, .providerEvent provider providerEventId ∈ (Write.externalEvent (data u)).adds :=
    fun u => by simp [Write.adds, hprovider, heventId]
  refine surely_write (fun _ => rfl) (fun ch _ hv => ?_) fun ch e hfresh hv habsent => ?_
  · exact ⟨by simpa using (violation_none hv).1 _ (hkey (ch.uuid 0)), _,
      admissible_of_violation hv, rfl⟩
  · rw [violation_eq_none] at hv
    · cases hv
    · have hnew : s.present (.row .externalEvent (ch.uuid 0)) = false :=
        absent_of_new (hfresh.new 0) (by decide)
      simp [Write.adds, hid, hprovider, heventId, hnew, habsent]
    · simp [Write.needs, htransferId, htransfer]
    · simp [Write.bigInts]
    · rfl

/-- What the ledger service writes. -/
theorem postJournalEntry_kind (input : PostJournalEntryInput) :
    Surely (postJournalEntry input) s (fun _ s' => ∃ ws, s' = database.applyAll ws s ∧
      database.Admissible s ws ∧ ∀ w ∈ ws, w.kind = .ledger) fun _ => True := by
  refine Always.of_runs (V := Now s) lawful_database (fun p e ch _ hexec => ⟨ch, hexec⟩)
    fun r ws hruns hadm => ?_
  obtain ⟨_, _, hposted⟩ :=
    postJournalEntry_runs (answering_of_saw fun _ _ => saw_of_now) hruns
  exact ⟨ws, rfl, hadm, hposted.kind⟩

/-- The status that an update sets. -/
theorem statusOf_updated {id : Uuid} {data : TransferRequestUpdate} {status : TransferStatus}
    (htransfer : s.present (.row .transferRequest id) = true) (hdata : data.status = some status) :
    ((Write.updateTransferRequest id data).apply s).statusOf id = some status := by
  obtain ⟨t, ht⟩ := Option.isSome_iff_exists.mp htransfer
  have hold : s.statusOf id = some t.status := by rw [Store.statusOf, ht]; rfl
  exact statusOf_changed (f := data.apply) rfl data.apply_id
    (fun t => by rw [data.apply_status, hdata]; rfl) hold

end Statements

/-! ## Compensation -/

namespace ExternalRailService

/-- The compensation of a transfer from its clearing account on. -/
def compensateFrom (event : NormalizedExternalRailEvent) (transfer : TransferRequest)
    (source clearing : LedgerAccount) (amount : Money) : Transaction TransferRequest := do
  let _ ← Tx.send (.updateTransferRequest transfer.id (failedUpdate event))
  let effectiveAt ← Tx.send .newDate
  let _ ← postJournalEntry (compensationInput transfer effectiveAt clearing.id source.id amount)
  let _ ← Tx.send (.updateTransferRequest transfer.id { status := some .compensated })
  let now ← Tx.send .newDate
  Tx.send (.createExternalEvent (compensatedData transfer.id event now))
  return { transfer with status := .compensated, failureReason := some (failureReason event) }

theorem compensate_eq (env : Env) (event : NormalizedExternalRailEvent) (transfer : TransferRequest)
    (source : LedgerAccount) : compensate env event transfer source =
      (findSystemLedgerAccount .clearing transfer.currency >>= fun clearing =>
        compensateFrom event transfer source clearing
          ⟨env.toUpperCase transfer.currency, transfer.amountMinor⟩) := rfl

end ExternalRailService

/-- The mark of a compensation by the event is recorded. -/
def Store.marked (s : Store) (event : NormalizedExternalRailEvent) : Bool :=
  (s.externalEvents.find? (event.provider, event.providerEventId ++ ":compensated")).isSome

section Compensation

variable {s : Store} {event : NormalizedExternalRailEvent} {t : TransferRequest}
  {source clearing : LedgerAccount} {amount : Money}

/-- The compensation of a transfer, run alone from its clearing account on. -/
theorem compensateFrom_surely (hkeys : s.ForeignKeys) (hlinked : s.Linked)
    (ht : s.present (.row .transferRequest t.id) = true)
    (hsource : source ∈ s.ledgerAccounts.rows) (hclearing : clearing ∈ s.ledgerAccounts.rows) :
    Surely (compensateFrom event t source clearing amount) s
      (fun _ s' => (s.Postable clearing source amount.minorUnits ∧ s.marked event = false) ∧
        s'.statusOf t.id = some .compensated)
      (fun _ => ¬ (s.Postable clearing source amount.minorUnits ∧ s.marked event = false)) := by
  unfold compensateFrom
  refine Always.bind (surely_updateTransferRequest ht) ?_ fun _ h => h.elim
  rintro _ _ ⟨hadm, rfl⟩
  refine Always.bind (surely_newDate _) ?_ fun _ h => h.elim
  rintro effectiveAt _ rfl
  have hsame : ((Write.updateTransferRequest t.id (failedUpdate event)).apply s).Postable clearing
      source amount.minorUnits ↔ s.Postable clearing source amount.minorUnits :=
    Store.Postable.congr fun _ => rfl
  have ht' := present_applyAll hadm ht
  have hpost := postJournalEntry_surely
    (compensationInput t effectiveAt clearing.id source.id amount)
    (foreignKeys_applyAll hadm hkeys) (hlinked.of_extends (extends_applyAll _ s)) hclearing hsource
    rfl (fun id hid => Option.some.inj (truthy_eq_some hid) ▸ ht') (by simp [compensationInput, truthy])
  refine Always.bind (hpost.and (postJournalEntry_kind _)) ?_
    fun _ h hgood => h.1 (hsame.mpr hgood.1)
  rintro _ _ ⟨hpostable, ws, rfl, hadm', hkind⟩
  refine Always.bind (surely_updateTransferRequest (present_applyAll hadm' ht')) ?_
    fun _ h => h.elim
  rintro _ _ ⟨hadm'', rfl⟩
  refine Always.bind (surely_newDate _) ?_ fun _ h => h.elim
  rintro now _ rfl
  have hevents : ((Write.updateTransferRequest t.id (TransfersService.statusUpdate .compensated)).apply
      (database.applyAll ws ((Write.updateTransferRequest t.id
        (failedUpdate event)).apply s))).externalEvents = s.externalEvents :=
    (Store.sameTransfers_applyAll (fun w hw => by simp [hkind w hw]) _).externalEvents
  have hmarked : ∀ {s' : Store}, s'.externalEvents = s.externalEvents →
      s'.present (.providerEvent event.provider (event.providerEventId ++ ":compensated")) =
        s.marked event := fun h => by simp only [Store.present, Store.marked, h]
  refine Always.bind (surely_createExternalEvent (fun _ => rfl) (fun _ => rfl) (fun _ => rfl)
    (fun _ => rfl) (present_applyAll hadm'' (present_applyAll hadm' ht'))) ?_ ?_
  · rintro _ _ ⟨hfree, u, -, rfl⟩
    refine ⟨⟨hsame.mp hpostable, hmarked hevents ▸ hfree⟩, ?_⟩
    exact statusOf_updated (present_applyAll hadm' ht') rfl
  · intro _ hfree hgood
    exact hfree ((hmarked hevents).trans hgood.2)

/-- A clearing account in a currency. -/
def LedgerAccount.clears (l : LedgerAccount) (currency : String) : Prop :=
  l.category = .clearing ∧ l.currency = currency

/-- The clearing accounts that the lookup can find. -/
theorem mem_findClearing {currency : String} {order : List Nat} {l : LedgerAccount} :
    l ∈ arrange order (s.ledgerAccounts.rows.filter fun l =>
      l.category = .clearing && l.currency = currency) ↔
      l ∈ s.ledgerAccounts.rows ∧ l.clears currency := by
  rw [mem_arrange, List.mem_filter, Bool.and_eq_true, decide_eq_true_iff, decide_eq_true_iff]
  rfl

theorem surely_findClearing (s : Store) (currency : String) :
    Surely (findSystemLedgerAccount .clearing currency) s
      (fun l s' => s' = s ∧ l ∈ s.ledgerAccounts.rows ∧ l.clears currency)
      fun _ => ¬ ∃ l ∈ s.ledgerAccounts.rows, l.clears currency := by
  refine Always.bind (surely_read fun _ => rfl) ?_ fun _ h => h.elim
  rintro first s ⟨⟨ch, hfirst⟩, rfl⟩
  cases first with
  | none =>
      refine (always_require_none rfl).mpr ?_
      rintro ⟨l, hl⟩
      have hnil := List.head?_eq_none_iff.mp hfirst.symm
      exact List.ne_nil_of_mem (mem_findClearing.mpr hl) hnil
  | some l =>
      exact (always_require_some rfl).mpr
        ⟨rfl, mem_findClearing.mp (List.mem_of_head? hfirst.symm)⟩

/-- The lookup may reply any clearing account in the currency. -/
theorem choose_clearing {α : Type} {currency : String} {f : LedgerAccount → Transaction α}
    {A : α → Store → Prop} {E : TxError → Prop}
    (h : Surely (findSystemLedgerAccount .clearing currency >>= f) s A E) {l : LedgerAccount}
    (hl : l ∈ s.ledgerAccounts.rows) (hclears : l.clears currency) : Surely (f l) s A E := by
  have hmem := mem_arrange.mp ((mem_findClearing : l ∈ arrange [] _ ↔ _).mpr ⟨hl, hclears⟩)
  obtain ⟨order, horder⟩ := exists_arrange_head hmem
  have hfound := choose_reply (always_bind.mp h) (fresh_freshChoice s 0 order) rfl
  exact (always_require_some horder).mp hfound

end Compensation

/-! ## The branches -/

/-- The entry that gives the amount of a transfer back can be posted from a clearing account, and
the compensation marked. -/
def Store.Refundable (s : Store) (event : NormalizedExternalRailEvent) (t : TransferRequest)
    (clearing : LedgerAccount) : Prop :=
  (∃ source, s.ledgerAccountOf t.sourceAccountId = some source ∧
    s.Postable clearing source t.amountMinor) ∧ s.marked event = false

section Branches

variable {s : Store} {event : NormalizedExternalRailEvent} {t : TransferRequest} {env : Env}

/-- A new event about a transfer adds its row first. -/
theorem new_surely (hplaced : ∀ t ∈ s.transferRequests.rows, s.Placed t)
    (hnew : s.recorded event = false) (hany : ∃ t ∈ s.transferRequests.rows, event.identifies t = true)
    {A : TransferRequest → Store → Prop} {E : TxError → Prop}
    (happly : ∀ found row, s.LooksUp event found →
      (∃ now u, row = eventData found.transfer.id event now u) →
      database.Admissible s [.externalEvent row] →
      Surely (applyEvent env event found) ((Write.externalEvent row).apply s) A E) :
    Surely (applyNormalizedEventTx env event) s A E := by
  unfold applyNormalizedEventTx
  refine Always.bind (surely_reply fun _ => rfl) ?_ fun _ h => h.elim
  rintro _ s ⟨rfl, rfl⟩
  refine Always.bind (surely_lookup hplaced) ?_ fun _ h => h.elim
  rintro reply s ⟨rfl, hfound, hnone⟩
  cases reply with
  | none =>
      obtain ⟨t, ht, hid⟩ := hany
      exact nomatch hid.symm.trans (hnone rfl t ht)
  | some found =>
      have hlook := hfound found rfl
      have htransfer : s.present (.row .transferRequest found.transfer.id) = true :=
        Option.isSome_iff_exists.mpr ⟨_, Table.get?_eq_some.mpr ⟨hlook.transfer, rfl⟩⟩
      refine always_bind.mpr ((always_require_some rfl).mpr ?_)
      rw [Option.isNone_iff_eq_none.mp (Option.isSome_eq_false_iff.mp hnew)]
      refine Always.bind (surely_newDate s) ?_ fun _ h => h.elim
      rintro now s rfl
      refine Always.bind (surely_createExternalEvent (fun _ => rfl) (fun _ => rfl) (fun _ => rfl)
        (fun _ => rfl) htransfer) ?_ fun _ hfree => (hfree hnew).elim
      rintro _ _ ⟨-, u, hadm, rfl⟩
      exact happly found _ hlook ⟨now, u, rfl⟩ hadm

/-- The transaction may apply a new event to any transfer that the event identifies. -/
theorem choose_transfer (hplaced : ∀ t ∈ s.transferRequests.rows, s.Placed t)
    (hnew : s.recorded event = false) {A : TransferRequest → Store → Prop} {E : TxError → Prop}
    (h : Surely (applyNormalizedEventTx env event) s A E) (ht : t ∈ s.transferRequests.rows)
    (hid : event.identifies t = true) :
    ∃ found row, found.transfer = t ∧ s.LooksUp event found ∧
      (∃ now u, row = eventData found.transfer.id event now u) ∧
      database.Admissible s [.externalEvent row] ∧
      Surely (applyEvent env event found) ((Write.externalEvent row).apply s) A E := by
  obtain ⟨ch, found, hfresh, hexec, hfound, hlook⟩ := exists_lookup hplaced ht hid
  have htransfer : s.present (.row .transferRequest found.transfer.id) = true :=
    Option.isSome_iff_exists.mpr ⟨_, Table.get?_eq_some.mpr ⟨hlook.transfer, rfl⟩⟩
  have hnone : s.externalEvents.find? (event.provider, event.providerEventId) = none :=
    Option.isNone_iff_eq_none.mp (Option.isSome_eq_false_iff.mp hnew)
  have hchosen := fresh_freshChoice s 0 []
  have hlooked := choose_reply (choose_reply h hchosen rfl) hfresh hexec
  have hrest := (always_require_some rfl).mp (always_bind.mp hlooked)
  rw [hnone] at hrest
  have hcreate := (always_bind.mp (choose_reply hrest hchosen rfl)).and
    (surely_createExternalEvent (fun _ => rfl) (fun _ => rfl) (fun _ => rfl) (fun _ => rfl) htransfer)
  obtain ⟨_, _, -, happly, -, u, hadm, rfl⟩ :=
    (hcreate.mono (fun _ _ h => h) fun _ h => h.2 hnew).exists_result exists_fresh
  exact ⟨found, _, hfound, hlook, ⟨_, u, rfl⟩, hadm, happly⟩

variable (env) in
/-- A recorded event changes nothing. -/
theorem recorded_surely (hplaced : ∀ t ∈ s.transferRequests.rows, s.Placed t)
    (hrecorded : s.recorded event = true)
    (hany : ∃ t ∈ s.transferRequests.rows, event.identifies t = true) :
    Surely (applyNormalizedEventTx env event) s
      (fun r s' => s' = s ∧ r ∈ s.transferRequests.rows ∧ event.identifies r = true)
      fun _ => False := by
  obtain ⟨row, hrow⟩ := Option.isSome_iff_exists.mp hrecorded
  unfold applyNormalizedEventTx
  refine Always.bind (surely_reply fun _ => rfl) ?_ fun _ h => h.elim
  rintro _ s ⟨rfl, rfl⟩
  refine Always.bind (surely_lookup hplaced) ?_ fun _ h => h.elim
  rintro reply s ⟨rfl, hfound, hnone⟩
  cases reply with
  | none =>
      obtain ⟨t, ht, hid⟩ := hany
      exact nomatch hid.symm.trans (hnone rfl t ht)
  | some found =>
      refine always_bind.mpr ((always_require_some rfl).mpr ?_)
      rw [hrow]
      exact ⟨rfl, (hfound found rfl).transfer, (hfound found rfl).identified⟩

/-- What the row of an event leaves as it is. -/
theorem refundable_row {row : ExternalTransferEvent} {clearing source : LedgerAccount} :
    ((Write.externalEvent row).apply s).Postable clearing source t.amountMinor ↔
      s.Postable clearing source t.amountMinor :=
  Store.Postable.congr fun _ => rfl

/-- The row of an event is not its mark. -/
theorem marked_row {found : Uuid} {now : Time} {u : Uuid}
    (hadm : database.Admissible s [.externalEvent (eventData found event now u)]) :
    ((Write.externalEvent (eventData found event now u)).apply s).marked event = s.marked event := by
  have hpresent := Database.present_applyAll lawful_database hadm
    (.providerEvent event.provider (event.providerEventId ++ ":compensated"))
  have hnot : Key.providerEvent event.provider (event.providerEventId ++ ":compensated") ∉
      [Write.externalEvent (eventData found event now u)].flatMap database.adds := by
    simp [database, Write.adds, eventData]
  exact Bool.eq_iff_iff.mpr (hpresent.trans (or_iff_left hnot))

/-- What a rejection of a transfer that waits needs. -/
structure Store.Rejects (s : Store) (event : NormalizedExternalRailEvent)
    (found : TransferWithSource) (row : ExternalTransferEvent) : Prop where
  keys : s.ForeignKeys
  linked : s.Linked
  placed : s.Placed found.transfer
  lookup : s.LooksUp event found
  rejected : event.eventType = .failed
  pending : found.transfer.status = .pendingExternal
  own : ∃ now u, row = eventData found.transfer.id event now u
  admissible : database.Admissible s [.externalEvent row]

section Rejects

variable {found : TransferWithSource} {row : ExternalTransferEvent}

/-- The rejection of a transfer compensates it from a clearing account. -/
theorem Store.Rejects.applyEvent_eq (h : s.Rejects event found row) (env : Env) :
    ∃ source ∈ s.ledgerAccounts.rows, s.ledgerAccountOf found.transfer.sourceAccountId = some source ∧
      applyEvent env event found =
        (findSystemLedgerAccount .clearing found.transfer.currency >>= fun clearing =>
          compensateFrom event found.transfer source clearing
            ⟨env.toUpperCase found.transfer.currency, found.transfer.amountMinor⟩) := by
  obtain ⟨source, hsource⟩ := h.placed.ledgerAccount
  refine ⟨source, (ledgerAccountOf_some.mp hsource).1, hsource, ?_⟩
  rw [← compensate_eq]
  simp only [applyEvent, h.rejected, h.lookup.ledgerAccount, hsource, h.pending, if_true]

/-- The compensation on the store with the row of the event. -/
theorem Store.Rejects.compensateFrom_surely (h : s.Rejects event found row)
    {source clearing : LedgerAccount}
    (hsource : s.ledgerAccountOf found.transfer.sourceAccountId = some source)
    (hclearing : clearing ∈ s.ledgerAccounts.rows) (currency : String) :
    Surely (compensateFrom event found.transfer source clearing ⟨currency, found.transfer.amountMinor⟩)
      ((Write.externalEvent row).apply s)
      (fun _ s' => s.Refundable event found.transfer clearing ∧
        s'.statusOf found.transfer.id = some .compensated)
      (fun _ => ¬ s.Refundable event found.transfer clearing) := by
  have htransfer : s.present (.row .transferRequest found.transfer.id) = true :=
    Option.isSome_iff_exists.mpr ⟨_, Table.get?_eq_some.mpr ⟨h.lookup.transfer, rfl⟩⟩
  have hgood : (((Write.externalEvent row).apply s).Postable clearing source
      found.transfer.amountMinor ∧ ((Write.externalEvent row).apply s).marked event = false) ↔
      s.Refundable event found.transfer clearing := by
    obtain ⟨now, u, rfl⟩ := h.own
    rw [marked_row h.admissible, refundable_row]
    refine and_congr_left fun _ => ⟨fun hp => ⟨source, hsource, hp⟩, ?_⟩
    rintro ⟨source', hsource', hp⟩
    obtain rfl := Option.some.inj (hsource.symm.trans hsource')
    exact hp
  refine Always.mono (LedgerCredit.compensateFrom_surely (foreignKeys_applyAll h.admissible h.keys)
    (h.linked.of_extends (extends_apply _ s)) (present_applyAll h.admissible htransfer)
    (ledgerAccountOf_some.mp hsource).1 hclearing) ?_ ?_
  · exact fun _ _ hok => ⟨hgood.mp hok.1, hok.2⟩
  · exact fun _ herr hrefundable => herr (hgood.mpr hrefundable)

/-- A new rejection of a transfer that waits, on the store with its row. -/
theorem Store.Rejects.surely (h : s.Rejects event found row) (env : Env) :
    Surely (applyEvent env event found) ((Write.externalEvent row).apply s)
      (fun _ s' => (∃ clearing ∈ s.ledgerAccounts.rows, clearing.clears found.transfer.currency ∧
        s.Refundable event found.transfer clearing) ∧
        s'.statusOf found.transfer.id = some .compensated)
      (fun _ => (∃ clearing ∈ s.ledgerAccounts.rows, clearing.clears found.transfer.currency) →
        ∃ clearing ∈ s.ledgerAccounts.rows, clearing.clears found.transfer.currency ∧
          ¬ s.Refundable event found.transfer clearing) := by
  obtain ⟨source, -, hsource, happly⟩ := h.applyEvent_eq env
  rw [happly]
  refine Always.bind (surely_findClearing _ _) ?_ fun _ hnone hany => (hnone hany).elim
  rintro clearing _ ⟨rfl, hmem, hclears⟩
  refine (h.compensateFrom_surely hsource hmem _).mono ?_ ?_
  · exact fun _ _ hok => ⟨⟨clearing, hmem, hclears, hok.1⟩, hok.2⟩
  · exact fun _ herr _ => ⟨clearing, hmem, hclears, herr⟩

/-- The rejection may be compensated from any clearing account in the currency. -/
theorem Store.Rejects.choose (h : s.Rejects event found row) {A : TransferRequest → Store → Prop}
    {E : TxError → Prop}
    (hall : Surely (applyEvent env event found) ((Write.externalEvent row).apply s) A E)
    {clearing : LedgerAccount} (hclearing : clearing ∈ s.ledgerAccounts.rows)
    (hclears : clearing.clears found.transfer.currency) :
    (s.Refundable event found.transfer clearing →
      ∃ r s', A r s' ∧ s'.statusOf found.transfer.id = some .compensated) ∧
    (¬ s.Refundable event found.transfer clearing → ∃ e, E e) := by
  obtain ⟨source, -, hsource, happly⟩ := h.applyEvent_eq env
  rw [happly] at hall
  have hchosen := (choose_clearing hall hclearing hclears).and
    (h.compensateFrom_surely hsource hclearing _)
  constructor
  · intro hrefundable
    obtain ⟨r, s', -, hA, -, hstatus⟩ :=
      (hchosen.mono (fun _ _ h => h) fun _ h => h.2 hrefundable).exists_result exists_fresh
    exact ⟨r, s', hA, hstatus⟩
  · intro hnot
    obtain ⟨e, -, hE, -⟩ :=
      (hchosen.mono (fun _ _ h => hnot h.2.1) fun _ h => h).exists_error exists_fresh
    exact ⟨e, hE⟩

end Rejects

end Branches

end LedgerCredit
