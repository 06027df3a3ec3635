import LedgerCredit.Balances
import LedgerCredit.Outcomes
import LedgerCredit.TransferStates
import LedgerCredit.Txn.Outside

/-!
# Accounts that are not active

`createTransfer` looks at the status of the source account, and `runBatch` at the
status of every account when it selects them.  Nobody looks at the destination of
a transfer, and nobody looks again when a chunk or an item is paid.  So an account
that was blocked or closed in the meantime is credited.

`Store.setStatus` is the change from outside.  `Label.onActive` is what a
transaction takes for granted of the accounts it credits, and
`inactive_unmoved` says that the code takes care of the rest.
-/

namespace LedgerCredit

open Txn LedgerService ExternalRailService

/-! ## Changes of the status -/

/-- The store after the status of an account was set. -/
def Store.setStatus (s : Store) (accountId : Uuid) (status : AccountStatus) : Store :=
  { s with
    accounts := s.accounts.modify accountId (fun a => { a with status }) (fun _ => rfl)
      fun _ => rfl }

/-- An account is blocked or closed from outside. -/
def Deactivated (s s' : Store) : Prop :=
  ∃ accountId status, status ≠ .active ∧ s' = s.setStatus accountId status

/-- The account, whatever its status. -/
def Account.withoutStatus (a : Account) : Account := { a with status := .active }

/-- The accounts are the same up to their statuses, and the ledger accounts are the same. -/
structure Store.SameAccounts (s s' : Store) : Prop where
  accounts : s'.accounts.rows.map Account.withoutStatus = s.accounts.rows.map Account.withoutStatus
  ledgerAccounts : s'.ledgerAccounts = s.ledgerAccounts

namespace Store.SameAccounts

variable {s s' s'' : Store}

theorem refl (s : Store) : s.SameAccounts s := ⟨rfl, rfl⟩

theorem trans (h : s.SameAccounts s') (h' : s'.SameAccounts s'') : s.SameAccounts s'' :=
  ⟨h'.accounts.trans h.accounts, h'.ledgerAccounts.trans h.ledgerAccounts⟩

theorem symm (h : s.SameAccounts s') : s'.SameAccounts s :=
  ⟨h.accounts.symm, h.ledgerAccounts.symm⟩

theorem of_extends (h : s.Extends s') : s.SameAccounts s' :=
  ⟨by rw [h.accounts], h.ledgerAccounts⟩

theorem of_deactivated (h : Deactivated s s') : s.SameAccounts s' := by
  obtain ⟨accountId, status, -, rfl⟩ := h
  refine ⟨?_, rfl⟩
  simp only [Store.setStatus, Table.rows_modify, List.map_map]
  refine List.map_congr_left fun a _ => ?_
  show Account.withoutStatus (if a.id = accountId then { a with status } else a) = _
  split <;> rfl

/-- The snapshot of an account is one of the same account. -/
theorem snapshot (h : s.SameAccounts s') {x : BatchAccountSnapshot} {a : Account}
    (hx : s.SnapshotOf x a) : ∃ a', s'.SnapshotOf x a' := by
  have hmem : a.withoutStatus ∈ s'.accounts.rows.map Account.withoutStatus :=
    h.accounts ▸ List.mem_map_of_mem hx.account
  obtain ⟨a', ha', heq⟩ := List.mem_map.mp hmem
  have hid : a'.id = a.id := congrArg (·.id) heq
  refine ⟨a', ha', hx.id.trans hid.symm, hx.currency.trans (congrArg (·.currency) heq).symm, ?_⟩
  rw [hx.ledgerAccountId, hid, ledgerAccountOf_eq h.ledgerAccounts.symm]

theorem grounds (h : s.SameAccounts s') {α : Type} {l : Label α}
    (hl : LedgerCredit.grounds s l) : LedgerCredit.grounds s' l := by
  cases l with
  | processBatchChunk batchRunId accounts revenue =>
      refine ⟨fun x hx => ?_, fun entry hentry => h.ledgerAccounts ▸ hl.revenue entry hentry⟩
      obtain ⟨a, ha⟩ := hl.snapshot x hx
      exact h.snapshot ha
  | _ => exact hl

/-- What a transaction read of the accounts is learned. -/
theorem learned {env : Env} (h : s.SameAccounts s') {α : Type} {l : Label α} {a : α}
    {ws : List Write} (hrun : Committed (Now s') env l a ws) : LedgerCredit.learned s l a := by
  cases hrun with
  | @statement _ q r ws hread =>
      cases q with
      | findActiveAccounts =>
          intro x hx
          obtain ⟨account, hsnapshot⟩ := saw_findActiveAccounts (saw_of_now hread) x hx
          exact h.symm.snapshot hsnapshot
      | findLedgerAccountsIn category currencies =>
          intro l hl
          rw [← h.ledgerAccounts]
          exact saw_findLedgerAccountsIn (saw_of_now hread) l hl
      | _ => trivial
  | _ => trivial

end Store.SameAccounts

/-! ## Moves of an account -/

/-- The write changes the balance projection of the account, or posts to its ledger account. -/
def Write.moves (s : Store) (accountId : Uuid) : Write → Bool
  | .balanceProjection r => r.accountId = accountId
  | .posting p => (s.ledgerAccountOf accountId).any fun l => l.id = p.ledgerAccountId
  | _ => false

/-- The ledger account of the account is one of these. -/
def Store.among (s : Store) (accountId : Uuid) (ids : List Uuid) : Prop :=
  ∃ l, s.ledgerAccountOf accountId = some l ∧ l.id ∈ ids

section Moves

variable {s : Store} {accountId : Uuid} {V : View} {ledgerAccounts : List LedgerAccount}
  {ids : List Uuid} {journalEntry : JournalEntry} {p ws : List Write} {w : Write}

theorem moves_of_posted (hmap : s.Mapped ledgerAccounts ids) {input : LedgerPostingInput}
    {posting : Posting} (h : Posted V ledgerAccounts journalEntry input p ws posting)
    (hw : w ∈ ws) (hmoves : w.moves s accountId = true) :
    s.among accountId [input.ledgerAccountId] := by
  have hposting : ∀ u, (Write.posting (postingData journalEntry input u)).moves s accountId = true →
      s.among accountId [input.ledgerAccountId] := by
    intro u hu
    obtain ⟨l, hl, hid⟩ := (Option.any_eq_true ..).mp hu
    exact ⟨l, hl, List.mem_singleton.mpr (of_decide_eq_true hid)⟩
  cases h with
  | unlinked _ _ =>
      obtain rfl := List.mem_singleton.mp hw
      exact hposting _ hmoves
  | @linked u id accountId' ledgerAccount b running _ hlinked _ _ =>
      obtain ⟨hl, hid⟩ := customerAccount_some hmap hlinked
      simp only [List.mem_cons, List.not_mem_nil, or_false] at hw
      rcases hw with rfl | rfl | rfl
      · exact hposting _ hmoves
      · obtain rfl : accountId' = accountId := of_decide_eq_true hmoves
        exact ⟨ledgerAccount, hl, by simp [hid]⟩
      · cases hmoves

theorem moves_of_postedAll (hmap : s.Mapped ledgerAccounts ids) {inputs : List LedgerPostingInput}
    {postings : List Posting} (h : PostedAll V ledgerAccounts journalEntry p inputs ws postings)
    (hw : w ∈ ws) (hmoves : w.moves s accountId = true) :
    s.among accountId (inputs.map (·.ledgerAccountId)) := by
  induction h with
  | nil => cases hw
  | cons hposted _ ih =>
      rcases List.mem_append.mp hw with hw | hw
      · obtain ⟨l, hl, hid⟩ := moves_of_posted hmap hposted hw hmoves
        exact ⟨l, hl, List.mem_cons.mpr (Or.inl (List.mem_singleton.mp hid))⟩
      · obtain ⟨l, hl, hid⟩ := ih hw
        exact ⟨l, hl, List.mem_cons_of_mem _ hid⟩

/-- A journal entry moves the accounts of its postings only. -/
theorem moves_of_journalPosted (hV : ∀ p e, V p e → Saw s p e) {input : PostJournalEntryInput}
    {postings : List Posting} {rest : List Write}
    (h : JournalPosted V input p ws journalEntry postings ledgerAccounts rest) (hw : w ∈ ws)
    (hmoves : w.moves s accountId = true) :
    s.among accountId (input.postings.map (·.ledgerAccountId)) := by
  rw [h.writes] at hw
  rcases List.mem_cons.mp hw with rfl | hw
  · cases hmoves
  · exact moves_of_postedAll (saw_findLedgerAccounts (hV _ _ h.found)) h.posted hw hmoves

/-- The owner of a ledger account. -/
theorem owner_of_among {a : Account} {l l' : LedgerAccount} (hl : s.ledgerAccountOf accountId = some l)
    (howns : s.Owns a (some l')) (hid : l.id = l'.id) : accountId = a.id := by
  obtain ⟨hmem, haccount⟩ := ledgerAccountOf_some.mp hl
  obtain ⟨hmem', haccount'⟩ := ledgerAccountOf_some.mp howns.ledgerAccount
  obtain rfl := Table.eq_of_pk hmem hmem' hid
  exact Option.some.inj (haccount.symm.trans haccount')

/-- A ledger account of no account moves nobody. -/
theorem not_among_of_unowned {l l' : LedgerAccount} (hl : s.ledgerAccountOf accountId = some l)
    (hmem : l' ∈ s.ledgerAccounts.rows) (hunowned : l'.accountId = none) : l.id ≠ l'.id := by
  intro hid
  obtain ⟨hmem', haccount⟩ := ledgerAccountOf_some.mp hl
  obtain rfl := Table.eq_of_pk hmem' hmem hid
  cases hunowned.symm.trans haccount

end Moves

/-! ## What is taken for granted -/

/-- The account is active, if there is one. -/
def Store.isActive (s : Store) (accountId : Uuid) : Bool :=
  (s.accounts.get? accountId).all fun a => a.status = .active

/-- The item of an account has been processed, or there is none. -/
def Store.itemClosed (s : Store) (batchRunId accountId : Uuid) : Bool :=
  (s.batchRunItems.find? (batchRunId, "account", accountId)).all fun i => i.status = .completed

/-- The accounts that a transaction credits are active.  A new transfer credits its destination; a
chunk and an item credit the accounts that get interest. -/
def Label.onActive (env : Env) (s : Store) : {α : Type} → Label α → Bool
  | _, .createTransfer args =>
      (s.idempotencyRecords.find? ("transfer.create", args.idempotencyKey)).isSome ||
        match args.input.destination with
        | .internalAccount accountId => s.isActive accountId
        | .externalBank .. => true
  | _, .processBatchChunk _ accounts _ =>
      accounts.all fun x => BatchService.snapshotInterest env x ≤ 0 || s.isActive x.id
  | _, .processBatchItem batchRunId accountId => s.itemClosed batchRunId accountId ||
      BatchService.interest env (s.projected accountId) ≤ 0 || s.isActive accountId
  | _, _ => true

/-- The ledger accounts of the bank for clearing and for interest belong to no account. -/
def Store.Unowned (s : Store) : Prop :=
  ∀ l ∈ s.ledgerAccounts.rows, l.category = .clearing ∨ l.category = .interestRevenue →
    l.accountId = none

/-- A transfer of the account that waited for its rail is compensated. -/
def Store.Compensates (s s' : Store) (accountId : Uuid) : Prop :=
  ∃ t ∈ s.transferRequests.rows, t.sourceAccountId = accountId ∧ t.status = .pendingExternal ∧
    s'.statusOf t.id = some .compensated

section Commit

variable {env : Env} {s : Store} {ws : List Write} {x : Account}

theorem isActive_iff {a : Account} (ha : a ∈ s.accounts.rows) :
    s.isActive a.id = true ↔ a.status = .active := by
  rw [Store.isActive, Table.get?_eq_some.mpr ⟨ha, rfl⟩]
  simp

/-- Writes of other tables move nobody. -/
theorem not_moves_of_kind {accountId : Uuid} {w : Write} (h : w.kind ≠ .ledger) :
    w.moves s accountId = false := by
  cases w <;> first | rfl | exact absurd rfl h

/-- Only the ledger writes in the middle move an account. -/
theorem mem_of_moves {accountId : Uuid} {before posted after : List Write} {w : Write}
    (hw : w ∈ before ++ posted ++ after) (hbefore : ∀ w ∈ before, w.kind ≠ .ledger)
    (hafter : ∀ w ∈ after, w.kind ≠ .ledger) (hmoves : w.moves s accountId = true) : w ∈ posted := by
  have hkind : w.kind = .ledger := by
    by_contra hkind
    cases (not_moves_of_kind hkind).symm.trans hmoves
  rcases List.mem_append.mp hw with hw | hw
  · rcases List.mem_append.mp hw with hw | hw
    · exact absurd hkind (hbefore w hw)
    · exact hw
  · exact absurd hkind (hafter w hw)

/-- The owner of one of the ledger accounts is not active, so it is not the one that was read. -/
theorem not_owner_of_inactive {a : Account} {l l' : LedgerAccount} (hx : x ∈ s.accounts.rows)
    (hstatus : x.status ≠ .active) (howns : s.Owns a (some l')) (hactive : a.status = .active)
    (hl : s.ledgerAccountOf x.id = some l) : l.id ≠ l'.id := by
  intro hid
  obtain rfl := Table.eq_of_pk hx howns.account (owner_of_among hl howns hid)
  exact hstatus hactive

/-- A new transfer takes from an active account. -/
theorem TransfersService.TransferRun.unmoved {args : CreateTransferArgs}
    {r : TransferMutationResult} (h : TransferRun (Now s) env args ws r) (hs : s.Unowned)
    (hactive : (Label.createTransfer args).onActive env s = true) (hx : x ∈ s.accounts.rows)
    (hstatus : x.status ≠ .active) : ∀ w ∈ ws, w.moves s x.id = false := by
  have hV : ∀ p e, Now s p e → Saw s p e := fun _ _ => saw_of_now
  intro w hw
  rw [Bool.eq_false_iff]
  intro hmoves
  cases h with
  | replay _ _ _ => cases hw
  | @internal record source destination sourceLedger destinationLedger _ _ transfer _ posted _
      destinationId _ _ _ _ _ _ _ hdest hcreated hread _ hposted =>
      obtain ⟨hsource, -⟩ := saw_findAccountWithBalance (hV _ _ hcreated.checked.read)
      obtain ⟨hdestination, hid⟩ := saw_findAccountWithLedger (hV _ _ hread)
      have hnew : s.idempotencyRecords.find? ("transfer.create", args.idempotencyKey) = none := by
        obtain ⟨ch, hexec⟩ := hcreated.absent
        exact (Prod.mk.inj (Except.ok.inj hexec)).1
      have hopen : destination.status = .active := by
        rw [← isActive_iff hdestination.account, hid]
        simpa [Label.onActive, hnew, hdest] using hactive
      have hw' : w ∈ posted := mem_of_moves hw (by simp [hcreated.writes, Write.kind])
        (by simp [Write.kind]) hmoves
      obtain ⟨l, hl, hmem⟩ := moves_of_journalPosted hV hposted hw' hmoves
      have hids : l.id = sourceLedger.id ∨ l.id = destinationLedger.id := by
        simpa [postingInput] using hmem
      rcases hids with hl' | hl'
      · exact not_owner_of_inactive hx hstatus hsource hcreated.checked.active hl hl'
      · exact not_owner_of_inactive hx hstatus hdestination hopen hl hl'
  | @external record source sourceLedger clearing _ _ transfer _ posted _ _ _ _ _ _ _ _ _ _ _ _ _
      _ hcreated hread hposted =>
      obtain ⟨hsource, -⟩ := saw_findAccountWithBalance (hV _ _ hcreated.checked.read)
      obtain ⟨hmem, hcategory, -⟩ := saw_findFirstLedgerAccount (hV _ _ hread)
      have hw' : w ∈ posted := mem_of_moves hw (by simp [hcreated.writes, Write.kind])
        (by simp [Write.kind]) hmoves
      obtain ⟨l, hl, hmem'⟩ := moves_of_journalPosted hV hposted hw' hmoves
      have hids : l.id = sourceLedger.id ∨ l.id = clearing.id := by
        simpa [postingInput] using hmem'
      rcases hids with hl' | hl'
      · exact not_owner_of_inactive hx hstatus hsource hcreated.checked.active hl hl'
      · exact not_among_of_unowned hl hmem (hs _ hmem (Or.inl hcategory)) hl'

/-- The transaction of an event moves the source account of a transfer that it compensates. -/
theorem ExternalRailService.EventRun.unmoved {event : NormalizedExternalRailEvent}
    {r : TransferRequest} (h : EventRun (Now s) env event ws r) (hs : s.Unowned)
    (hadm : database.Admissible s ws) (accountId : Uuid) :
    (∀ w ∈ ws, w.moves s accountId = false) ∨ s.Compensates (database.applyAll ws s) accountId := by
  have hV : ∀ p e, Now s p e → Saw s p e := fun _ _ => saw_of_now
  cases h with
  | duplicate _ _ => exact Or.inl (by simp)
  | recorded _ _ => exact Or.inl (by simp [Write.moves])
  | settled _ _ _ => exact Or.inl (by simp [Write.moves])
  | @compensated found row marker source clearing _ _ _ _ _ posted _ hreceived _ hpending hsource
      hcomp =>
      have hfound := get?_of_received hreceived
      by_cases hid : found.transfer.sourceAccountId = accountId
      · refine Or.inr ⟨found.transfer, now_findFirstTransferRequest hreceived.lookup, hid, hpending, ?_⟩
        rw [Store.statusOf, get?_transferWrites hadm, hfound]
        simp [transferWrites_append, transferWrites_cons, Write.toTransfer, RowWrite.apply,
          transferWrites_of_ledger hcomp.entry.kind, failedUpdate, TransfersService.statusUpdate,
          TransferRequestUpdate.apply]
      · refine Or.inl fun w hw => ?_
        rw [Bool.eq_false_iff]
        intro hmoves
        have hw' : w ∈ posted := mem_of_moves hw (by simp [Write.kind]) (by simp [Write.kind]) hmoves
        obtain ⟨l, hl, hmem⟩ := moves_of_journalPosted hV hcomp.entry hw' hmoves
        have hids : l.id = clearing.id ∨ l.id = source.id := by
          simpa [compensationInput] using hmem
        obtain ⟨hclearing, hcategory, -⟩ := saw_findFirstLedgerAccount (hV _ _ hcomp.clearingRead)
        rcases hids with hl' | hl'
        · exact not_among_of_unowned hl hclearing (hs _ hclearing (Or.inl hcategory)) hl'
        · have howns := (saw_findFirstTransferRequest (hV _ _ hreceived.lookup))
          have howner := owner_of_among hl (hsource ▸ howns.source) hl'
          exact hid (howns.sourceId.symm.trans howner.symm)

theorem now_balance {accountId : Uuid} {a : Account} {lo : Option LedgerAccount}
    {b : Option BalanceProjection}
    (h : Now s [] ⟨.findAccountWithBalance accountId, some ⟨a, lo, b⟩, []⟩) :
    b = s.balanceProjections.get? accountId := by
  obtain ⟨ch, hexec⟩ := h
  obtain ⟨a', ha', heq⟩ := Option.map_eq_some_iff.mp (Prod.mk.inj (Except.ok.inj hexec)).1
  cases heq
  exact congrArg _ (Table.get?_eq_some.mp ha').2

/-- An item pays an active account. -/
theorem BatchService.ItemRun.unmoved {batchRunId accountId : Uuid}
    (h : ItemRun (Now s) env batchRunId accountId ws) (hs : s.Unowned)
    (hactive : (Label.processBatchItem batchRunId accountId).onActive env s = true)
    (hx : x ∈ s.accounts.rows) (hstatus : x.status ≠ .active) :
    ∀ w ∈ ws, w.moves s x.id = false := by
  have hV : ∀ p e, Now s p e → Saw s p e := fun _ _ => saw_of_now
  cases h with
  | absent _ => simp
  | closed _ _ => simp
  | @processed item account ledgerAccount b paid hitem hopen hread hpaid =>
      obtain ⟨howns, hid⟩ := saw_findAccountWithBalance (hV _ _ hread)
      intro w hw
      rw [Bool.eq_false_iff]
      intro hmoves
      have hw' : w ∈ paid := mem_of_moves hw (by simp [Write.kind]) (by simp [Write.kind]) hmoves
      cases hpaid with
      | none _ => cases hw'
      | @paid revenue _ _ _ _ _ _ _ hpositive hrevenue _ hposted =>
          have hitem' : s.batchRunItems.find? (batchRunId, "account", accountId) = some item := by
            obtain ⟨ch, hexec⟩ := hitem
            exact (Prod.mk.inj (Except.ok.inj hexec)).1
          have hbalance : balanceOf b = s.projected accountId :=
            congrArg balanceOf (now_balance hread)
          have hopen' : account.status = .active := by
            rw [← isActive_iff howns.account, hid]
            rw [hbalance] at hpositive
            simpa [Label.onActive, Store.itemClosed, hitem', hopen, not_le.mpr hpositive] using
              hactive
          obtain ⟨l, hl, hmem⟩ := moves_of_journalPosted hV hposted hw' hmoves
          have hids : l.id = revenue.id ∨ l.id = ledgerAccount.id := by
            simpa [interestInput] using hmem
          obtain ⟨hmem', hcategory, -⟩ := saw_findFirstLedgerAccount (hV _ _ hrevenue)
          rcases hids with hl' | hl'
          · exact not_among_of_unowned hl hmem' (hs _ hmem' (Or.inr hcategory)) hl'
          · exact not_owner_of_inactive hx hstatus howns hopen' hl hl'

/-- A chunk pays active accounts. -/
theorem BatchService.ChunkRun.unmoved {V : View} {batchRunId : Uuid}
    {accounts : List BatchAccountSnapshot} {interestRevenueAccountIds : List (String × Uuid)}
    {running completed : List Write} {effectiveAt : Time} {rows : List InterestRows}
    (h : ChunkRun V env batchRunId accounts interestRevenueAccountIds ws effectiveAt rows running
      completed) (hV : Answering V) (hs : s.Unowned)
    (hground : s.Grounded accounts interestRevenueAccountIds)
    (hactive : (Label.processBatchChunk batchRunId accounts interestRevenueAccountIds).onActive
      env s = true)
    (hx : x ∈ s.accounts.rows) (hstatus : x.status ≠ .active) :
    ∀ w ∈ ws, w.moves s x.id = false := by
  obtain ⟨uuid, hbuilt⟩ := h.built
  obtain ⟨ids, hrunning⟩ := hV _ _ _ _ h.marked
  obtain ⟨ids', hcompleted⟩ := hV _ _ _ _ h.closed
  intro w hw
  rw [Bool.eq_false_iff]
  intro hmoves
  have hw' : w ∈ rowWrites rows := mem_of_moves (h.writes ▸ hw) (by simp [hrunning, Write.kind])
    (by simp [hcompleted, Write.kind]) hmoves
  have hrow : ∃ row ∈ rows, w = .posting row.debit ∨ w = .posting row.credit ∨
      w = .balanceProjection row.balance := by
    simp only [rowWrites, List.mem_append, List.mem_map, List.mem_flatMap, List.mem_cons,
      List.not_mem_nil, or_false] at hw'
    rcases hw' with ((⟨row, -, rfl⟩ | ⟨row, hrow, rfl | rfl⟩) | ⟨row, -, rfl⟩) | ⟨row, hrow, rfl⟩
    · cases hmoves
    · exact ⟨row, hrow, Or.inl rfl⟩
    · exact ⟨row, hrow, Or.inr (Or.inl rfl)⟩
    · cases hmoves
    · exact ⟨row, hrow, Or.inr (Or.inr rfl)⟩
  obtain ⟨row, hmem, hw''⟩ := hrow
  obtain ⟨account, haccount, uuid', ledgerAccountId, revenueId, hledger, hrevenue, rfl⟩ :=
    mem_of_forall₂ (chunkRows_forall hbuilt) hmem
  obtain ⟨haccount, hpositive⟩ := List.mem_filter.mp haccount
  obtain ⟨a, hsnapshot⟩ := hground.snapshot account haccount
  -- the account of the row is active
  have hopen : a.status = .active := by
    rw [← isActive_iff hsnapshot.account, ← hsnapshot.id]
    have hone := List.all_eq_true.mp hactive account haccount
    have hpositive' : ¬ snapshotInterest env account ≤ 0 := by simpa using hpositive
    simpa [hpositive'] using hone
  have hother : x.id ≠ a.id := fun hid => by
    obtain rfl := Table.eq_of_pk hx hsnapshot.account hid
    exact hstatus hopen
  rcases hw'' with rfl | rfl | rfl
  · obtain ⟨l, hl, hid⟩ := (Option.any_eq_true ..).mp hmoves
    obtain ⟨l', hl', hid', -, hcategory⟩ := hground.revenue _ (mapGet_mem hrevenue)
    exact not_among_of_unowned hl hl' (hs l' hl' (Or.inr hcategory))
      ((of_decide_eq_true hid).trans hid'.symm)
  · obtain ⟨l, hl, hid⟩ := (Option.any_eq_true ..).mp hmoves
    rw [hsnapshot.ledgerAccountId] at hledger
    obtain ⟨l', hl', rfl⟩ := Option.map_eq_some_iff.mp hledger
    exact hother (owner_of_among hl ⟨hsnapshot.account, hl'⟩ (of_decide_eq_true hid))
  · have hid : account.id = x.id := of_decide_eq_true hmoves
    exact hother (hid.symm.trans hsnapshot.id)

/-- A commit moves no account that is not active, but the source of a transfer that it
compensates. -/
theorem Committed.unmoved {α : Type} {l : Label α} (hl : grounds s l) {a : α}
    (h : Committed (Now s) env l a ws) (hs : s.Unowned) (hadm : database.Admissible s ws)
    (hactive : l.onActive env s = true) (hx : x ∈ s.accounts.rows) (hstatus : x.status ≠ .active) :
    (∀ w ∈ ws, w.moves s x.id = false) ∨ s.Compensates (database.applyAll ws s) x.id := by
  have hV : Answering (Now s) := answering_of_saw fun _ _ => saw_of_now
  cases h with
  | createTransfer hrun => exact Or.inl (hrun.unmoved hs hactive hx hstatus)
  | applyNormalizedEvent hrun => exact hrun.unmoved hs hadm x.id
  | processBatchChunk hrun => exact Or.inl (hrun.unmoved hV hs hl hactive hx hstatus)
  | processBatchItem hrun => exact Or.inl (hrun.unmoved hs hactive hx hstatus)
  | statement hread =>
      refine Or.inl fun w hw => not_moves_of_kind ?_
      rw [kind_of_outside hV hl hread w hw]
      decide

end Commit

/-! ## Runs -/

/-- The rules of atomic transactions while accounts are blocked and closed. -/
def accountRules (env : Env) (s : Store) : Rules (server env) Unit Empty :=
  Rules.static (server env) s.SameAccounts Store.SameAccounts (grounds s) (learned s)
    (fun _ => [()]) fun s' _ p e => Now s' p e

section Run

variable {env : Env} {s : Store}

theorem account_committed {s' : Store} {α : Type} {T : Set Empty} {l : Label α}
    {h : List (Event Stmt Write)} {a : α} (hc : (accountRules env s).Commits s' T l h a) :
    Committed (Now s') env l a (writes h) :=
  committed_of_runs (answering_of_saw fun _ _ => saw_of_now)
    (runs_of_completes hc.path (hc.evidence.mono fun _ _ _ he => he.2))

theorem accountRules_valid : (accountRules env s).Valid (server env).Serial := by
  refine Rules.static_valid lawful_database Store.SameAccounts.refl (fun _ _ _ => .trans)
    (Rules.serial_statements (fun _ => rfl) (fun _ _ _ _ => Iff.rfl) fun _ _ h => h) ?_ ?_
  · intro α s' T l h a hc
    have hsame : s.SameAccounts s' := hc.inv
    have hmove := Store.SameAccounts.of_extends (extends_applyAll (writes h) s')
    exact ⟨hsame.trans hmove, hmove, hsame.learned (account_committed hc)⟩
  · intro c call _ _
    exact program_fine ⟨fun _ _ _ hl => hl, fun _ _ _ _ _ _ hpost => hpost⟩ call _ _

/-- The transaction that an action commits credits active accounts only. -/
def onActive (env : Env) (c : ServerConfig) : Action Choice Call → Bool
  | .advance i _ =>
      match c.threads[i]? with
      | some ⟨_, _, .opened l _ (.pure _) _⟩ => l.onActive env c.store
      | _ => true
  | _ => true

/-- With atomic transactions, and accounts that are blocked and closed between them, no
transaction that credits active accounts moves another account that is not active, unless it
compensates a transfer of it. -/
theorem inactive_unmoved (hs : s.Unowned) {c c' : ServerConfig} {a : Action Choice Call}
    (hrun : StepsWith (server env) (server env).Serial Deactivated (.initial s) c)
    (hstep : (server env).step c a = some c') (hactive : onActive env c a = true) {x : Account}
    (hx : x ∈ c.store.accounts.rows) (hstatus : x.status ≠ .active) :
    (∀ w ∈ c.committed a, w.moves c.store x.id = false) ∨ c.store.Compensates c'.store x.id := by
  obtain ⟨own, hsound⟩ := Rules.sound_of_stepsWith (R := accountRules env s) accountRules_valid
    (fun s₁ s₂ (hinv : s.SameAccounts s₁) hout T =>
      ⟨hinv.trans (.of_deactivated hout), .of_deactivated hout, trivial⟩) (.refl s) hrun
  have hsame : s.SameAccounts c.store := hsound.inv
  rw [store_of_step hstep]
  cases a with
  | advance i ch =>
      simp only [Config.committed]
      split
      · rename_i l h _ _ hth
        have hc := hsound.commits accountRules_valid hth
        refine (account_committed hc).unmoved (hsame.grounds hc.pre) ?_ hc.admissible ?_ hx hstatus
        · intro l' hl'
          exact hs l' (hsame.ledgerAccounts ▸ hl')
        · simpa [onActive, hth] using hactive
      · exact Or.inl (by simp)
  | _ => exact Or.inl (by simp [Config.committed])

end Run

/-! ### A blocked account -/

/-- The seed, where the savings account was blocked. -/
def blockedStore : Store := demoStore.setStatus demoData.savingsAccountId .blocked

theorem deactivated_demoStore : Deactivated demoStore blockedStore :=
  ⟨_, .blocked, by decide, rfl⟩

theorem unowned_demoStore : demoStore.Unowned := by
  unfold Store.Unowned
  decide +kernel

/-- A transfer from the checking account, up to its commit. -/
def creditSchedule (destination : Destination) (steps : Nat) : List (Action Choice Call) :=
  .start (.createTransfer (demoTransfer destination 100) (demoContext "k")) :: advances 0 "a" steps

/-- A run on the seed after the savings account was blocked. -/
theorem blocked_run {c : ServerConfig}
    (h : Steps (server testEnvironment) (server testEnvironment).Serial (.initial blockedStore) c) :
    StepsWith (server testEnvironment) (server testEnvironment).Serial Deactivated
      (.initial demoStore) c := by
  have hblocked : StepsWith (server testEnvironment) (server testEnvironment).Serial Deactivated
      (.initial demoStore) (.initial blockedStore) :=
    StepsWith.outside .refl (fun i th hth => by simp [Config.initial] at hth) deactivated_demoStore
  exact hblocked.trans h.withOutside

/-- A transfer to another bank leaves the blocked account alone. -/
theorem blocked_unmoved : ∃ (c c' : ServerConfig) (a : Action Choice Call) (x : Account),
    (server testEnvironment).step c a = some c' ∧ x ∈ c.store.accounts.rows ∧
      x.status = .blocked ∧ c.committed a ≠ [] ∧
      ((∀ w ∈ c.committed a, w.moves c.store x.id = false) ∨
        c.store.Compensates c'.store x.id) := by
  obtain ⟨c, hrun, hstep, hactive, hne, x, hx, hstatus⟩ := exists_of_play (server testEnvironment)
    (server testEnvironment).Serial (.initial blockedStore)
    (creditSchedule (.externalBank none "NATL" "1099" "Jane Doe") 19)
    (fun c => ((server testEnvironment).step c (.advance 0 (choiceOf "z"))).isSome = true ∧
      onActive testEnvironment c (.advance 0 (choiceOf "z")) = true ∧
      c.committed (.advance 0 (choiceOf "z")) ≠ [] ∧
      ∃ x ∈ c.store.accounts.rows, x.status = .blocked) (by decide +kernel)
  obtain ⟨c', hc'⟩ := Option.isSome_iff_exists.mp hstep
  exact ⟨c, c', _, x, hc', hx, hstatus, hne, inactive_unmoved unowned_demoStore (blocked_run hrun)
    hc' hactive hx (by simp [hstatus])⟩

/-- A transfer to the blocked account credits it. -/
theorem blocked_credited : demoStore.Unowned ∧
    ∃ (c c' : ServerConfig) (a : Action Choice Call) (x : Account),
      StepsWith (server testEnvironment) (server testEnvironment).Serial Deactivated
        (.initial demoStore) c ∧
      (server testEnvironment).step c a = some c' ∧ x ∈ c.store.accounts.rows ∧
      x.status = .blocked ∧
      ¬ ((∀ w ∈ c.committed a, w.moves c.store x.id = false) ∨
        c.store.Compensates c'.store x.id) := by
  refine ⟨unowned_demoStore, ?_⟩
  obtain ⟨c, hrun, hstep, hnone, x, hx, hstatus, w, hw, hmoves⟩ := exists_of_play
    (server testEnvironment) (server testEnvironment).Serial (.initial blockedStore)
    (creditSchedule (.internalAccount demoData.savingsAccountId) 23)
    (fun c => ((server testEnvironment).step c (.advance 0 (choiceOf "z"))).isSome = true ∧
      c.store.transferRequests.rows = [] ∧
      ∃ x ∈ c.store.accounts.rows, x.status = .blocked ∧
        ∃ w ∈ c.committed (.advance 0 (choiceOf "z")), w.moves c.store x.id = true)
    (by decide +kernel)
  obtain ⟨c', hc'⟩ := Option.isSome_iff_exists.mp hstep
  refine ⟨c, c', _, x, blocked_run hrun, hc', hx, hstatus, ?_⟩
  rintro (hunmoved | ⟨t, ht, -⟩)
  · cases (hunmoved w hw).symm.trans hmoves
  · simp [hnone] at ht

end LedgerCredit
