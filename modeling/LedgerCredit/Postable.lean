import LedgerCredit.Balances
import LedgerCredit.Choices

/-!
# Entries that can be posted

The ledger service run alone.  With the rows that the foreign keys promise, the
loop fails for one reason: an amount is not positive, or it or a new balance is
outside `BIGINT`.  `Store.Accepts` is the opposite, and `postJournalEntry_surely`
decides by it whether an entry with one debit and one credit is posted.
-/

namespace LedgerCredit

open Txn LedgerService

/-- The transaction, run alone on the store, ends so. -/
abbrev Alone {α : Type} (t : Transaction α) (s : Store) (o : Except TxError (α × Store)) : Prop :=
  Ends database Store.Fresh t s o

/-- However the transaction ends when it runs alone on the store. -/
abbrev Surely {α : Type} (t : Transaction α) (s : Store) (A : α → Store → Prop)
    (E : TxError → Prop) : Prop := Always database Store.Fresh t s A E

/-! ## Statements -/

section Statements

variable {β : Type} {q : Stmt β} {s : Store} {A : β → Store → Prop} {E : TxError → Prop}

/-- A statement that reads. -/
theorem surely_read {r : Choice → β} (hexec : ∀ ch, s.exec q ch = .ok (r ch, [])) :
    Surely (Tx.send q) s (fun b s' => (∃ ch, b = r ch) ∧ s' = s) fun _ => False := by
  refine always_send.mpr fun ch _ => ⟨fun e he => ?_, fun r' ws hr => ?_⟩
  · cases (hexec ch).symm.trans he
  · cases (hexec ch).symm.trans hr
    exact ⟨⟨ch, rfl⟩, rfl⟩

/-- A statement that reads the same whatever the choice. -/
theorem surely_reply {r : β} (hexec : ∀ ch, s.exec q ch = .ok (r, [])) :
    Surely (Tx.send q) s (fun b s' => b = r ∧ s' = s) fun _ => False :=
  (surely_read hexec).mono (fun _ _ ⟨⟨_, hb⟩, hs⟩ => ⟨hb, hs⟩) fun _ h => h

/-- A statement may answer as it does on some choice. -/
theorem choose_reply {α : Type} {f : β → Transaction α} {A : α → Store → Prop}
    (h : Surely (Tx.send q >>= f) s A E) {ch : Choice} (hfresh : s.Fresh ch) {r : β}
    {ws : List Write} (hexec : s.exec q ch = .ok (r, ws)) :
    Surely (f r) (database.applyAll ws s) A E :=
  (always_bind.mp h ch hfresh).2 r ws hexec

/-- A statement that makes one write. -/
theorem surely_write {r : Choice → β} {w : Choice → Write}
    (hexec : ∀ ch, s.exec q ch = s.attempt (r ch) [w ch])
    (hok : ∀ ch, s.Fresh ch → s.violation (w ch) = none → A (r ch) ((w ch).apply s))
    (herr : ∀ ch e, s.Fresh ch → s.violation (w ch) = some e → E (.database e)) :
    Surely (Tx.send q) s A E := by
  refine always_send.mpr fun ch hfresh => ?_
  have hwrite : database.exec q ch s = s.attempt (r ch) [w ch] := hexec ch
  cases hv : s.violation (w ch) with
  | none =>
      have hattempt : s.attempt (r ch) [w ch] = .ok (r ch, [w ch]) := by
        simp [Store.attempt, Store.violations, hv]
      refine ⟨fun e he => ?_, fun r' ws hr => ?_⟩
      · cases hattempt.symm.trans (hwrite.symm.trans he)
      · cases hattempt.symm.trans (hwrite.symm.trans hr)
        exact hok ch hfresh hv
  | some e =>
      have hattempt : s.attempt (r ch) [w ch] = .error (.database e) := by
        simp [Store.attempt, Store.violations, hv]
      refine ⟨fun e' he => ?_, fun r' ws hr => ?_⟩
      · cases hattempt.symm.trans (hwrite.symm.trans he)
        exact herr ch e hfresh hv
      · cases hattempt.symm.trans (hwrite.symm.trans hr)

/-- A write breaks no constraint. -/
theorem violation_eq_none {w : Write} (hadds : ∀ x ∈ w.adds, s.present x = false)
    (hneeds : ∀ x ∈ w.needs, s.present x = true) (hbig : ∀ n ∈ w.bigInts, inBigInt n = true)
    (hcheck : w.check = true) : s.violation w = none := by
  have hadds' : w.adds.any s.present = false := by simpa [List.any_eq_false] using hadds
  have hneeds' : w.needs.all s.present = true := List.all_eq_true.mpr hneeds
  have hbig' : w.bigInts.all inBigInt = true := List.all_eq_true.mpr hbig
  simp [Store.violation, hadds', hneeds', hbig', hcheck]

/-- A write that breaks no constraint is admitted. -/
theorem admissible_of_violation {w : Write} (h : s.violation w = none) :
    database.Admissible s [w] :=
  violations_none (by simp [Store.violations, h])

end Statements

/-! ## Postings -/

/-- Every ledger account of an account has its account. -/
def Store.Linked (s : Store) : Prop :=
  ∀ l ∈ s.ledgerAccounts.rows, ∀ id, l.accountId = some id → s.present (.row .account id) = true

theorem demoStore_linked : demoStore.Linked := by
  have hseed : ∀ l ∈ demoStore.ledgerAccounts.rows, ∀ id ∈ l.accountId,
      demoStore.present (.row .account id) = true := by decide +kernel
  exact hseed

/-- The ledger account takes the posting. -/
structure Store.Accepts (s : Store) (l : LedgerAccount) (direction : Direction) (amountMinor : Int) :
    Prop where
  positive : 0 < amountMinor
  amount : inBigInt amountMinor = true
  balance : ∀ id, l.accountId = some id → inBigInt (s.projected id +
    computeBalanceEffect direction l.normalBalanceDirection amountMinor) = true

/-- The store with the projection of the account of `l` moved. -/
structure Store.Moved (s s' : Store) (l : LedgerAccount) (direction : Direction)
    (amountMinor : Int) : Prop where
  writes : ∃ ws, s' = database.applyAll ws s ∧ database.Admissible s ws
  projected : ∀ id, s'.projected id = if l.accountId = some id then s.projected id +
    computeBalanceEffect direction l.normalBalanceDirection amountMinor else s.projected id

section Posting

variable {s s' : Store} {l : LedgerAccount} {ledgerAccounts : List LedgerAccount} {ids : List Uuid}
  {journalEntry : JournalEntry} (input : LedgerPostingInput)

theorem surely_createPosting (hentry : s.present (.row .journalEntry journalEntry.id) = true)
    (hledger : s.present (.row .ledgerAccount input.ledgerAccountId) = true) :
    Surely (Tx.send (.createPosting (postingData journalEntry input))) s
      (fun posting s' => (0 < input.amount.minorUnits ∧ inBigInt input.amount.minorUnits = true) ∧
        s.present (.row .posting posting.id) = false ∧
        (∃ u, posting = postingData journalEntry input u) ∧
        database.Admissible s [.posting posting] ∧ s' = (Write.posting posting).apply s)
      (fun _ => ¬ (0 < input.amount.minorUnits ∧ inBigInt input.amount.minorUnits = true)) := by
  have hnew : ∀ ch, s.Fresh ch → s.present (.row .posting (ch.uuid 0)) = false :=
    fun ch hfresh => absent_of_new (hfresh.new 0) (by decide)
  refine surely_write (fun _ => rfl) (fun ch hfresh hv => ?_) fun ch e hfresh hv hvalid => ?_
  · obtain ⟨-, -, hbig, hcheck⟩ := violation_none hv
    exact ⟨⟨of_decide_eq_true hcheck, hbig _ (List.mem_singleton_self _)⟩,
      hnew ch hfresh, ⟨_, rfl⟩, admissible_of_violation hv, rfl⟩
  · rw [violation_eq_none] at hv
    · cases hv
    · simpa [Write.adds, postingData] using hnew ch hfresh
    · simp [Write.needs, postingData, hentry, hledger]
    · simpa [Write.bigInts, postingData] using hvalid.2
    · exact decide_eq_true hvalid.1

theorem surely_upsertBalanceProjection {row : BalanceProjection}
    (haccount : s.present (.row .account row.accountId) = true) :
    Surely (Tx.send (.upsertBalanceProjection row)) s
      (fun _ s' => inBigInt row.currentMinor = true ∧
        database.Admissible s [.balanceProjection row] ∧ s' = (Write.balanceProjection row).apply s)
      (fun _ => ¬ inBigInt row.currentMinor = true) := by
  refine surely_write (fun _ => rfl) (fun ch _ hv => ?_) fun ch e _ hv hvalid => ?_
  · obtain ⟨-, -, hbig, -⟩ := violation_none hv
    exact ⟨hbig _ (List.mem_singleton_self _), admissible_of_violation hv, rfl⟩
  · rw [violation_eq_none] at hv
    · cases hv
    · simp [Write.adds]
    · simpa [Write.needs] using haccount
    · simpa [Write.bigInts] using hvalid
    · rfl

theorem surely_createStatementLine {posting : Posting} {accountId : Uuid} {running : Int}
    (haccount : s.present (.row .account accountId) = true)
    (hentry : s.present (.row .journalEntry journalEntry.id) = true)
    (hposting : s.present (.row .posting posting.id) = true)
    (hnone : s.present (.statementLinePosting posting.id) = false)
    (hamount : inBigInt posting.amountMinor = true) (hrunning : inBigInt running = true) :
    Surely (Tx.send (.createStatementLine (statementLineData journalEntry posting accountId running)))
      s (fun _ s' => ∃ line, database.Admissible s [.statementLine line] ∧
        s' = (Write.statementLine line).apply s) (fun _ => False) := by
  refine surely_write (fun _ => rfl)
    (fun ch _ hv => ⟨_, admissible_of_violation hv, rfl⟩) fun ch e hfresh hv => ?_
  rw [violation_eq_none] at hv
  · cases hv
  · have hnew : s.present (.row .statementLine (ch.uuid 0)) = false :=
      absent_of_new (hfresh.new 0) (by decide)
    simp [Write.adds, statementLineData, hnew, hnone]
  · simp [Write.needs, statementLineData, haccount, hentry, hposting]
  · simp [Write.bigInts, statementLineData, hamount, hrunning]
  · rfl

/-- The map of ledger accounts knows the account of a ledger account. -/
theorem customerAccount_eq (hmap : s.Mapped ledgerAccounts ids) (hl : l ∈ s.ledgerAccounts.rows)
    (hid : l.id ∈ ids) :
    customerAccount ledgerAccounts l.id = l.accountId.map fun accountId => (l, accountId) := by
  cases hcustomer : customerAccount ledgerAccounts l.id with
  | none =>
      cases hacc : l.accountId with
      | none => rfl
      | some accountId =>
          exact absurd rfl (customerAccount_none hmap hid hcustomer (ledgerAccountOf_some.mpr ⟨hl, hacc⟩))
  | some x =>
      obtain ⟨l', accountId⟩ := x
      obtain ⟨hl', hid'⟩ := customerAccount_some hmap hcustomer
      obtain ⟨hmem, hacc⟩ := ledgerAccountOf_some.mp hl'
      obtain rfl := Table.eq_of_pk hmem hl hid'
      rw [hacc]
      rfl

theorem Store.Linked.of_extends (h : s.Linked) (hext : s.Extends s') : s'.Linked := by
  intro l hl id hid
  rw [hext.ledgerAccounts] at hl
  simp only [Store.present, hext.accounts]
  exact h l hl id hid

theorem projected_posting (posting : Posting) (s : Store) (id : Uuid) :
    ((Write.posting posting).apply s).projected id = s.projected id := rfl

theorem projected_statementLine (line : AccountStatementProjection) (s : Store) (id : Uuid) :
    ((Write.statementLine line).apply s).projected id = s.projected id := rfl

/-- A new posting has no statement line. -/
theorem lineless_of_new (hkeys : s.ForeignKeys) {id : Uuid}
    (hnew : s.present (.row .posting id) = false) : s.present (.statementLinePosting id) = false := by
  rw [Store.present, Option.isSome_eq_false_iff, Option.isNone_iff_eq_none, Table.find?_eq_none]
  intro line hline heq
  obtain rfl := Option.some.inj heq
  cases hnew.symm.trans (hkeys.line line hline)

/-- One turn of the loop over the postings, run alone. -/
theorem postPosting_surely (hkeys : s.ForeignKeys) (hlinked : s.Linked)
    (hl : l ∈ s.ledgerAccounts.rows) (hid : l.id = input.ledgerAccountId)
    (hcustomer : customerAccount ledgerAccounts input.ledgerAccountId =
      l.accountId.map fun accountId => (l, accountId))
    (hentry : s.present (.row .journalEntry journalEntry.id) = true) :
    Surely (postPosting ledgerAccounts journalEntry input) s
      (fun _ s' => s.Accepts l input.direction input.amount.minorUnits ∧
        s.Moved s' l input.direction input.amount.minorUnits)
      (fun _ => ¬ s.Accepts l input.direction input.amount.minorUnits) := by
  have hledger : s.present (.row .ledgerAccount input.ledgerAccountId) = true :=
    Option.isSome_iff_exists.mpr ⟨l, Table.get?_eq_some.mpr ⟨hl, hid⟩⟩
  refine (surely_createPosting input hentry hledger).bind ?_ fun _ hinvalid haccepts =>
    hinvalid ⟨haccepts.positive, haccepts.amount⟩
  rintro posting s₁ ⟨⟨hpos, hbig⟩, hnew, ⟨u, rfl⟩, hadm, rfl⟩
  simp only [show (postingData journalEntry input u).ledgerAccountId = input.ledgerAccountId from rfl,
    hcustomer]
  cases hacc : l.accountId with
  | none =>
      refine ⟨⟨hpos, hbig, by simp [hacc]⟩, ⟨⟨_, rfl, hadm⟩, fun id => ?_⟩⟩
      simp only [hacc, reduceCtorEq, if_false]
      rfl
  | some accountId =>
      simp only [Option.map_some]
      refine Always.bind (surely_reply fun _ => rfl) ?_ fun _ h => h.elim
      rintro b s₂ ⟨rfl, rfl⟩
      have haccount : s.present (.row .account accountId) = true := hlinked l hl accountId hacc
      refine Always.bind (surely_upsertBalanceProjection haccount) ?_ fun _ hout haccepts =>
        hout (haccepts.balance accountId hacc)
      rintro _ s₃ ⟨hrunning, hadm', rfl⟩
      have hboth := Database.admissible_append lawful_database hadm hadm'
      have hkept : ∀ {x : Key}, s.present x = true → _ := fun hx => present_applyAll hboth hx
      have hposting := (Database.present_applyAll lawful_database hboth
        (.row .posting (postingData journalEntry input u).id)).mpr (Or.inr (by simp [database, Write.adds]))
      refine Always.bind (surely_createStatementLine (hkept haccount) (hkept hentry) hposting
        (lineless_of_new hkeys hnew) hbig hrunning) ?_ fun _ h => h.elim
      rintro _ s₄ ⟨line, hadm'', rfl⟩
      refine ⟨⟨hpos, hbig, ?_⟩, ⟨_, rfl, Database.admissible_append lawful_database hboth hadm''⟩, ?_⟩
      · rintro id hid
        obtain rfl := Option.some.inj (hacc.symm.trans hid)
        exact hrunning
      · intro id
        rw [projected_statementLine, projected_upsert, projected_posting, hacc]
        by_cases heq : accountId = id
        · subst heq
          exact (if_pos rfl).trans (if_pos rfl).symm
        · exact (if_neg heq).trans (if_neg fun h => heq (Option.some.inj h)).symm

end Posting

/-! ## Entries -/

/-- An entry that takes the amount from one ledger account and gives it to another can be
posted. -/
structure Store.Postable (s : Store) (debited credited : LedgerAccount) (amountMinor : Int) :
    Prop where
  distinct : debited.id ≠ credited.id
  debit : s.Accepts debited .debit amountMinor
  credit : s.Accepts credited .credit amountMinor

section Entry

variable {s s' : Store} {debited credited l : LedgerAccount} {amount : Money}

theorem Store.Accepts.congr {direction : Direction} {amountMinor : Int}
    (h : ∀ id, l.accountId = some id → s'.projected id = s.projected id) :
    s'.Accepts l direction amountMinor ↔ s.Accepts l direction amountMinor := by
  constructor
  · intro ha
    exact ⟨ha.positive, ha.amount, fun id hid => h id hid ▸ ha.balance id hid⟩
  · intro ha
    exact ⟨ha.positive, ha.amount, fun id hid => (h id hid).symm ▸ ha.balance id hid⟩

theorem Store.Postable.congr {amountMinor : Int} (h : ∀ id, s'.projected id = s.projected id) :
    s'.Postable debited credited amountMinor ↔ s.Postable debited credited amountMinor := by
  have hsame : ∀ {l : LedgerAccount} {direction : Direction},
      s'.Accepts l direction amountMinor ↔ s.Accepts l direction amountMinor :=
    Store.Accepts.congr fun id _ => h id
  exact ⟨fun hp => ⟨hp.distinct, hsame.mp hp.debit, hsame.mp hp.credit⟩,
    fun hp => ⟨hp.distinct, hsame.mpr hp.debit, hsame.mpr hp.credit⟩⟩

/-- A posting on one ledger account leaves what another one takes. -/
theorem Store.Moved.accepts {direction direction' : Direction} {amountMinor : Int}
    (h : s.Moved s' debited direction amountMinor) (hd : debited ∈ s.ledgerAccounts.rows)
    (hc : credited ∈ s.ledgerAccounts.rows) (hne : debited.id ≠ credited.id) :
    s'.Accepts credited direction' amountMinor ↔ s.Accepts credited direction' amountMinor := by
  refine Store.Accepts.congr fun id hid => ?_
  rw [h.projected id, if_neg]
  intro hid'
  exact hne (congrArg LedgerAccount.id (Table.eq_of_uk hd hc hid' hid))

/-- The ledger accounts of an entry are found. -/
theorem mapped_findLedgerAccounts (s : Store) (order : List Nat) (ids : List Uuid) :
    s.Mapped (arrange order (s.ledgerAccounts.rows.filter fun l => l.id ∈ ids)) ids := by
  intro l
  rw [mem_arrange, List.mem_filter, decide_eq_true_iff]

/-- Two ledger accounts are found if they are different. -/
theorem length_findLedgerAccounts (order : List Nat) (hd : debited ∈ s.ledgerAccounts.rows)
    (hc : credited ∈ s.ledgerAccounts.rows) :
    (arrange order (s.ledgerAccounts.rows.filter fun l => l.id ∈ [debited.id, credited.id])).length =
      if debited.id = credited.id then 1 else 2 := by
  have hnodup : (s.ledgerAccounts.rows.filter fun l => l.id ∈ [debited.id, credited.id]).Nodup :=
    (List.Nodup.of_map _ s.ledgerAccounts.pk_nodup).filter _
  have hmem : ∀ l, l ∈ (s.ledgerAccounts.rows.filter fun l => l.id ∈ [debited.id, credited.id]) ↔
      l = debited ∨ l = credited := by
    intro l
    simp only [List.mem_filter, List.mem_cons, List.not_mem_nil, or_false, decide_eq_true_iff]
    constructor
    · rintro ⟨hl, hid | hid⟩
      · exact Or.inl (Table.eq_of_pk hl hd hid)
      · exact Or.inr (Table.eq_of_pk hl hc hid)
    · rintro (rfl | rfl)
      · exact ⟨hd, Or.inl rfl⟩
      · exact ⟨hc, Or.inr rfl⟩
  rw [(arrange_perm order _).length_eq]
  split
  · rename_i heq
    obtain rfl := Table.eq_of_pk hd hc heq
    exact ((List.perm_ext_iff_of_nodup hnodup (List.nodup_singleton debited)).mpr
      fun l => (hmem l).trans (by simp)).length_eq
  · rename_i hne
    have htwo : [debited, credited].Nodup := by
      simpa using fun h : debited = credited => hne (congrArg LedgerAccount.id h)
    exact ((List.perm_ext_iff_of_nodup hnodup htwo).mpr
      fun l => (hmem l).trans (by simp)).length_eq

/-- `createJournalEntry`, with the rows that the entry refers to. -/
theorem surely_createJournalEntry {input : PostJournalEntryInput}
    (htransfer : ∀ id, truthy input.transferRequestId = some id →
      s.present (.row .transferRequest id) = true)
    (hbatch : ∀ id, truthy input.batchRunId = some id → s.present (.row .batchRun id) = true) :
    Surely (Tx.send (.createJournalEntry (journalEntryData input))) s
      (fun entry s' => database.Admissible s [.journalEntry entry] ∧
        s' = (Write.journalEntry entry).apply s) (fun _ => False) := by
  refine surely_write (fun _ => rfl)
    (fun ch _ hv => ⟨admissible_of_violation hv, rfl⟩) fun ch e hfresh hv => ?_
  rw [violation_eq_none] at hv
  · cases hv
  · have hnew : s.present (.row .journalEntry (ch.uuid 0)) = false :=
      absent_of_new (hfresh.new 0) (by decide)
    simpa [Write.adds, journalEntryData] using hnew
  · intro x hx
    simp only [Write.needs, journalEntryData, List.mem_append, Option.mem_toList,
      Option.map_eq_some_iff] at hx
    rcases hx with ⟨id, hid, rfl⟩ | ⟨id, hid, rfl⟩
    · exact htransfer id hid
    · exact hbatch id hid
  · simp [Write.bigInts]
  · rfl

/-- An entry with one debit and one credit, run alone. -/
theorem postJournalEntry_surely (input : PostJournalEntryInput) (hkeys : s.ForeignKeys) (hlinked : s.Linked)
    (hd : debited ∈ s.ledgerAccounts.rows) (hc : credited ∈ s.ledgerAccounts.rows)
    (hpostings : input.postings = [⟨debited.id, .debit, amount⟩, ⟨credited.id, .credit, amount⟩])
    (htransfer : ∀ id, truthy input.transferRequestId = some id →
      s.present (.row .transferRequest id) = true)
    (hbatch : ∀ id, truthy input.batchRunId = some id → s.present (.row .batchRun id) = true) :
    Surely (postJournalEntry input) s (fun _ _ => s.Postable debited credited amount.minorUnits)
      (fun _ => ¬ s.Postable debited credited amount.minorUnits) := by
  have hmap := fun order => mapped_findLedgerAccounts s order [debited.id, credited.id]
  unfold postJournalEntry
  simp only [hpostings, assert]
  refine always_bind.mpr ((always_ensure_of (by simp)).mpr ?_)
  refine always_bind.mpr ((always_ensure_of (by simp [total])).mpr ?_)
  refine always_bind.mpr ((always_ensure_of (by simp)).mpr ?_)
  refine Always.bind (surely_read fun _ => rfl) ?_ fun _ h => h.elim
  rintro ledgerAccounts s ⟨⟨ch, rfl⟩, rfl⟩
  refine always_bind.mpr (always_ensure.mpr ?_)
  have hlength := length_findLedgerAccounts ch.order hd hc
  simp only [List.map_cons, List.map_nil, List.length_cons, List.length_nil] at hlength ⊢
  rw [hlength]
  by_cases hne : debited.id = credited.id
  · simpa [hne] using fun h : s.Postable debited credited amount.minorUnits => h.distinct hne
  · simp only [hne, if_false, decide_true, if_true]
    refine Always.bind (surely_createJournalEntry htransfer hbatch) ?_ fun _ h => h.elim
    rintro entry s₁ ⟨hadm, rfl⟩
    have hsame : ∀ {l : LedgerAccount} {direction : Direction} {n : Int},
        ((Write.journalEntry entry).apply s).Accepts l direction n ↔ s.Accepts l direction n :=
      Store.Accepts.congr fun _ _ => rfl
    have hentry := (Database.present_applyAll lawful_database hadm
      (.row .journalEntry entry.id)).mpr (Or.inr (by simp [database, Write.adds]))
    have hdebit := postPosting_surely ⟨debited.id, .debit, amount⟩
      (foreignKeys_applyAll hadm hkeys) (hlinked.of_extends (extends_applyAll _ s)) hd rfl
      (customerAccount_eq (hmap ch.order) hd (by simp)) hentry
    simp only [postPostings]
    refine Always.bind (Always.bind hdebit ?_ fun _ h hpostable => h (hsame.mpr hpostable.debit))
      (fun _ _ h => h) fun _ h => h
    rintro debit _ ⟨hdebited, hmoved⟩
    obtain ⟨⟨ws, rfl, hadm'⟩, -⟩ := id hmoved
    have hc' : credited ∈ (database.applyAll ws
        ((Write.journalEntry entry).apply s)).ledgerAccounts.rows := by
      rw [applyAll_ledgerAccounts]
      exact hc
    have hcredit := postPosting_surely ⟨credited.id, .credit, amount⟩
      (foreignKeys_applyAll hadm' (foreignKeys_applyAll hadm hkeys))
      ((hlinked.of_extends (extends_applyAll _ s)).of_extends (extends_applyAll ws _)) hc' rfl
      (customerAccount_eq (hmap ch.order) hc (by simp)) (present_applyAll hadm' hentry)
    have hagain : _ ↔ s.Accepts credited .credit amount.minorUnits :=
      (hmoved.accepts hd hc hne).trans hsame
    refine Always.bind (Always.bind hcredit (fun _ _ h => ?_) fun _ h hpostable => ?_)
      (fun _ _ h => h) fun _ h => h
    · exact ⟨hne, hsame.mp hdebited, hagain.mp h.1⟩
    · exact h (hagain.mpr hpostable.credit)

end Entry

end LedgerCredit
