import LedgerCredit.Balances
import LedgerCredit.TransferEffects

/-!
# Interest entries

A journal entry of the operation `END_OF_DAY_INTEREST` *accrues* to the ledger accounts
that it credits.  `Store.accruals` are the entries that accrue to one.  A chunk adds one for
each account that it pays, an item at most one, and no other transaction adds any
(`Committed.accruals`).
-/

namespace LedgerCredit

open Txn LedgerService

/-- The entry pays interest to a ledger account. -/
def accrues (ledgerAccountId : Uuid) (e : JournalEntry × List Posting) : Bool :=
  e.1.sourceOperationType = BatchService.interestOperation &&
    e.2.any fun p => p.direction = .credit && p.ledgerAccountId = ledgerAccountId

/-- The interest entries that credit a ledger account, oldest first. -/
def Store.accruals (s : Store) (ledgerAccountId : Uuid) : List JournalEntry :=
  s.journalEntries.rows.filter fun e => accrues ledgerAccountId (e, s.postingsOf e.id)

/-- The accounts that a transaction may pay interest to. -/
def Label.payees : {α : Type} → Label α → List Uuid
  | _, .processBatchChunk _ accounts _ => accounts.map (·.id)
  | _, .processBatchItem _ accountId => [accountId]
  | _, _ => []

section Journal

variable {s : Store} {ws : List Write} {entries : List (JournalEntry × List Posting)}

/-- The new interest entries come after the old ones. -/
theorem accruals_applyAll (hadm : database.Admissible s ws) (hj : Journalled ws entries)
    (hkeys : s.ForeignKeys) (id : Uuid) : (database.applyAll ws s).accruals id =
      s.accruals id ++ (entries.filter (accrues id)).map (·.1) := by
  rw [Store.accruals, journalEntries_of_journalled hadm hj, List.filter_append, List.filter_map]
  refine congrArg₂ _ (List.filter_congr fun e he => ?_) (congrArg _ (List.filter_congr fun e he => ?_))
  · rw [postingsOf_old hadm hj he]
  · show accrues id (e.1, (database.applyAll ws s).postingsOf e.1.id) = accrues id e
    rw [postingsOf_new hadm hj hkeys he]

theorem length_filter_le_one {α β : Type} [DecidableEq β] {f : α → β} {l : List α}
    (h : (l.map f).Nodup) (b : β) : (l.filter fun a => f a = b).length ≤ 1 := by
  have hcount := List.nodup_iff_count_le_one.mp h b
  rw [List.count, List.countP_map, List.countP_eq_length_filter] at hcount
  exact hcount

/-- An entry of another operation is no interest. -/
theorem accrues_of_operation {id : Uuid} {e : JournalEntry × List Posting}
    (h : e.1.sourceOperationType ≠ BatchService.interestOperation) : accrues id e = false := by
  simp [accrues, h]

end Journal

section Accruals

variable {V : View} {env : Env} {s : Store} {ws : List Write} {accountId : Uuid} {l : LedgerAccount}

/-- Different accounts have different ledger accounts. -/
theorem ledgerAccountOf_inj {a : Uuid} {l' : LedgerAccount} (hl : s.ledgerAccountOf accountId = some l)
    (hl' : s.ledgerAccountOf a = some l') : l'.id = l.id ↔ a = accountId := by
  obtain ⟨hmem, hlink⟩ := ledgerAccountOf_some.mp hl
  obtain ⟨hmem', hlink'⟩ := ledgerAccountOf_some.mp hl'
  constructor
  · intro hid
    obtain rfl := Table.eq_of_pk hmem' hmem hid
    exact Option.some.inj (hlink'.symm.trans hlink)
  · rintro rfl
    rw [Option.some.inj (hl'.symm.trans hl)]

/-- A transaction adds entries, of which at most one accrues to an account, and none unless the
account is one that it pays. -/
structure Accrues (ws : List Write) (payees : List Uuid) (accountId ledgerAccountId : Uuid)
    (entries : List (JournalEntry × List Posting)) : Prop where
  journalled : Journalled ws entries
  once : (entries.filter (accrues ledgerAccountId)).length ≤ 1
  none : accountId ∉ payees → entries.filter (accrues ledgerAccountId) = []

theorem Accrues.of_operation {payees : List Uuid} {id : Uuid}
    {entries : List (JournalEntry × List Posting)} (hj : Journalled ws entries)
    (h : ∀ e ∈ entries, e.1.sourceOperationType ≠ BatchService.interestOperation) :
    Accrues ws payees accountId id entries := by
  have hnone : entries.filter (accrues id) = [] :=
    List.filter_eq_nil_iff.mpr fun e he => by simp [accrues_of_operation (h e he)]
  exact ⟨hj, by simp [hnone], fun _ => hnone⟩

namespace BatchService

variable {batchRunId : Uuid}

/-- The entry of a row accrues to the account of the row. -/
theorem RowOf.accrues {accounts : List BatchAccountSnapshot}
    {interestRevenueAccountIds : List (String × Uuid)}
    (hground : s.Grounded accounts interestRevenueAccountIds) {effectiveAt : Time}
    {x : BatchAccountSnapshot} (hx : x ∈ accounts) {row : InterestRows}
    (h : RowOf env batchRunId interestRevenueAccountIds effectiveAt x row)
    (hl : s.ledgerAccountOf accountId = some l) :
    LedgerCredit.accrues l.id (row.journalEntry, [row.debit, row.credit]) =
      decide (row.balance.accountId = accountId) := by
  obtain ⟨uuid, ledgerAccountId, revenueId, hledger, hrevenue, rfl⟩ := h
  obtain ⟨a, -, hid, -, haccount⟩ := hground.snapshot x hx
  obtain ⟨l', hl', rfl⟩ := Option.map_eq_some_iff.mp (haccount.symm.trans hledger)
  have hiff := ledgerAccountOf_inj hl (hid ▸ hl')
  rw [Bool.eq_iff_iff]
  simp only [LedgerCredit.accrues, interestRows, interestOperation, decide_true, Bool.true_and,
    List.any_cons, List.any_nil, reduceCtorEq, decide_false, Bool.false_and, Bool.false_or,
    Bool.or_false, decide_eq_true_eq, hiff]
  exact decide_eq_true_iff.symm

/-- A chunk pays each of its accounts at most once. -/
theorem ChunkRun.accruals (hV : Answering V) {accounts : List BatchAccountSnapshot}
    {interestRevenueAccountIds : List (String × Uuid)} {running completed : List Write}
    {effectiveAt : Time} {rows : List InterestRows}
    (hground : s.Grounded accounts interestRevenueAccountIds)
    (hl : s.ledgerAccountOf accountId = some l)
    (h : ChunkRun V env batchRunId accounts interestRevenueAccountIds ws effectiveAt rows running
      completed) : Accrues ws (accounts.map (·.id)) accountId l.id (entriesOf rows) := by
  have hrows : (entriesOf rows).filter (LedgerCredit.accrues l.id) =
      entriesOf (rows.filter fun row => row.balance.accountId = accountId) := by
    rw [entriesOf, List.filter_map]
    refine congrArg _ (List.filter_congr fun row hrow => ?_)
    obtain ⟨x, hx, hof⟩ := h.rowOf row hrow
    exact hof.accrues hground hx hl
  refine ⟨h.journalled hV, ?_, fun hnot => ?_⟩
  · rw [hrows, entriesOf, List.length_map]
    exact length_filter_le_one h.distinct accountId
  · rw [hrows, entriesOf, List.map_eq_nil_iff, List.filter_eq_nil_iff]
    intro row hrow hid
    obtain ⟨x, hx, _, _, _, _, _, rfl⟩ := h.rowOf row hrow
    exact hnot (List.mem_map.mpr ⟨x, hx, of_decide_eq_true hid⟩)

/-- The entry that pays an item accrues to its account. -/
theorem accrues_item {a revenue ledgerAccountId : Uuid} {now : Time} {amount : Money} {p posted rest : List Write}
    {journalEntry : JournalEntry} {postings : List Posting} {ledgerAccounts : List LedgerAccount}
    (h : JournalPosted V (interestInput batchRunId now a revenue ledgerAccountId amount) p posted
      journalEntry postings ledgerAccounts rest) (id : Uuid) :
    LedgerCredit.accrues id (journalEntry, postings) = decide (ledgerAccountId = id) := by
  obtain ⟨u, rfl⟩ := h.entry
  have hrows := h.posted.rows.1
  simp only [interestInput] at hrows
  cases hrows with
  | cons hdebit hrows =>
      cases hrows with
      | cons hcredit hrows =>
          cases hrows
          obtain ⟨_, rfl⟩ := hdebit.data
          obtain ⟨_, rfl⟩ := hcredit.data
          simp [LedgerCredit.accrues, journalEntryData, interestInput, postingData]

/-- An item pays its account at most once. -/
theorem ItemRun.accruals (hV : ∀ p e, V p e → Saw s p e) {a : Uuid}
    (hl : s.ledgerAccountOf accountId = some l) (h : ItemRun V env batchRunId a ws) :
    ∃ entries, Accrues ws [a] accountId l.id entries := by
  cases h with
  | processed _ _ hread hpaid =>
      cases hpaid with
      | none _ => exact ⟨[], .nil_of_kind (by simp [Write.kind]), by simp, by simp⟩
      | paid _ _ _ hposted =>
          obtain ⟨howns, hid⟩ := saw_findAccountWithBalance (hV _ _ hread)
          refine ⟨_, hposted.journalled.wrap (by simp [Write.kind]) (by simp [Write.kind]),
            (List.length_filter_le ..).trans le_rfl, fun hnot => ?_⟩
          have hiff := ledgerAccountOf_inj hl (hid ▸ howns.ledgerAccount)
          have hne : a ≠ accountId := fun heq => hnot (by simp [heq])
          simp [accrues_item hposted, hiff, hne]
  | _ => exact ⟨[], .nil_of_kind (by simp), by simp, by simp⟩

end BatchService

/-- Every commit accrues at most one entry to an account, and none to the accounts that it does
not pay. -/
theorem Committed.accruals (hV : ∀ p e, V p e → Saw s p e) {α : Type} {label : Label α}
    (hground : grounds s label) (hl : s.ledgerAccountOf accountId = some l) {a : α}
    (h : Committed V env label a ws) : ∃ entries, Accrues ws label.payees accountId l.id entries := by
  cases h with
  | createTransfer hrun =>
      cases hrun with
      | replay _ _ _ => exact ⟨[], .of_operation (.nil_of_kind (by simp)) (by simp)⟩
      | internal _ _ _ _ hcreated _ _ hposted =>
          refine ⟨_, .of_operation (hposted.journalled.wrap (hcreated.before rfl)
            (by simp [Write.kind])) (List.forall_mem_singleton.mpr ?_)⟩
          obtain ⟨_, rfl⟩ := hposted.entry
          show "INTERNAL_TRANSFER" ≠ BatchService.interestOperation
          decide
      | external _ _ _ _ hcreated _ hposted =>
          refine ⟨_, .of_operation (hposted.journalled.wrap (hcreated.before rfl)
            (by simp [Write.kind])) (List.forall_mem_singleton.mpr ?_)⟩
          obtain ⟨_, rfl⟩ := hposted.entry
          show "INTERBANK_TRANSFER_INITIATED" ≠ BatchService.interestOperation
          decide
  | applyNormalizedEvent hrun =>
      cases hrun with
      | compensated _ _ _ _ hcomp =>
          refine ⟨_, .of_operation (hcomp.entry.journalled.wrap (by simp [Write.kind])
            (by simp [Write.kind])) (List.forall_mem_singleton.mpr ?_)⟩
          obtain ⟨_, rfl⟩ := hcomp.entry.entry
          show "INTERBANK_TRANSFER_COMPENSATION" ≠ BatchService.interestOperation
          decide
      | _ => exact ⟨[], .of_operation (.nil_of_kind (by simp [Write.kind])) (by simp)⟩
  | processBatchChunk hrun => exact ⟨_, hrun.accruals (answering_of_saw hV) hground hl⟩
  | processBatchItem hrun => exact hrun.accruals hV hl
  | statement hread =>
      refine ⟨[], .of_operation (.nil_of_kind fun w hw => ?_) (by simp)⟩
      simp [kind_of_outside (answering_of_saw hV) hground hread w hw]

end Accruals

end LedgerCredit
