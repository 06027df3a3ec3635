import LedgerCredit.Postable

/-!
# Journal entries

What `postJournalEntry` accepts, and what it does, while nothing else runs.

*Accepted.*  An entry is accepted when it is well formed, no two of its postings
are on one ledger account, the rows that it names exist, and the amounts and the
running balances fit (`postJournalEntry_decides`).  The service compares the number
of rows that it found with the number of postings, so it takes a ledger account
that is named twice for one that does not exist.

*Applied.*  An entry that is accepted adds its rows and moves the projections by
the signed sums of its postings (`entered_of_posted`).

`posted_exactly_iff` says when the two together are what an entry asks for.
-/

namespace LedgerCredit

open Txn LedgerService

/-! ## Entries and effects -/

/-- The account of a ledger account, if it has one. -/
def Store.accountOf (s : Store) (ledgerAccountId : Uuid) : Option Uuid :=
  (s.ledgerAccounts.get? ledgerAccountId).bind (·.accountId)

/-- What a posting does to the balance of an account. -/
def Store.effectOn (s : Store) (accountId : Uuid) (x : LedgerPostingInput) : Int :=
  ((s.ledgerAccounts.get? x.ledgerAccountId).filter fun l => l.accountId = some accountId).elim 0
    fun l => computeBalanceEffect x.direction l.normalBalanceDirection x.amount.minorUnits

/-- The signed sum of the postings on an account. -/
def Store.effectsOn (s : Store) (accountId : Uuid) (xs : List LedgerPostingInput) : Int :=
  (xs.map (s.effectOn accountId)).sum

/-- The entry balances in one currency, on ledger accounts that exist. -/
structure PostJournalEntryInput.WellFormed (input : PostJournalEntryInput) (s : Store) : Prop where
  two : 2 ≤ input.postings.length
  balanced : total .debit input.postings = total .credit input.postings
  currency : ∀ x ∈ input.postings, ∀ y ∈ input.postings, x.amount.currency = y.amount.currency
  exist : ∀ x ∈ input.postings, (s.ledgerAccounts.get? x.ledgerAccountId).isSome

/-- The transfer request and the batch run that the entry names exist. -/
structure PostJournalEntryInput.Names (input : PostJournalEntryInput) (s : Store) : Prop where
  transferRequest : ∀ id, truthy input.transferRequestId = some id →
    s.present (.row .transferRequest id) = true
  batchRun : ∀ id, truthy input.batchRunId = some id → s.present (.row .batchRun id) = true

/-- The running balance after each posting is in `BIGINT`. -/
def Store.Bounded (s : Store) (xs : List LedgerPostingInput) : Prop :=
  ∀ done x rest, xs = done ++ x :: rest → ∀ id, s.accountOf x.ledgerAccountId = some id →
    inBigInt (s.projected id + s.effectsOn id (done ++ [x])) = true

/-- The database takes the postings. -/
structure Store.Takes (s : Store) (xs : List LedgerPostingInput) : Prop where
  positive : ∀ x ∈ xs, 0 < x.amount.minorUnits
  amounts : ∀ x ∈ xs, inBigInt x.amount.minorUnits = true
  bounded : s.Bounded xs

/-- The statement lines of some postings, each with the running balance after its posting. -/
inductive LinesOf (s : Store) (journalEntry : JournalEntry) : List LedgerPostingInput →
    List LedgerPostingInput → List Posting → List AccountStatementProjection → Prop where
  | nil {done : List LedgerPostingInput} : LinesOf s journalEntry done [] [] []
  | unlinked {done xs : List LedgerPostingInput} {x : LedgerPostingInput} {posting : Posting}
      {postings : List Posting} {lines : List AccountStatementProjection} :
      s.accountOf x.ledgerAccountId = none →
      LinesOf s journalEntry (done ++ [x]) xs postings lines →
      LinesOf s journalEntry done (x :: xs) (posting :: postings) lines
  | linked {done xs : List LedgerPostingInput} {x : LedgerPostingInput} {posting : Posting}
      {postings : List Posting} {lines : List AccountStatementProjection} {accountId u : Uuid} :
      s.accountOf x.ledgerAccountId = some accountId →
      LinesOf s journalEntry (done ++ [x]) xs postings lines →
      LinesOf s journalEntry done (x :: xs) (posting :: postings)
        (statementLineData journalEntry posting accountId
          (s.projected accountId + s.effectsOn accountId (done ++ [x])) u :: lines)

/-- The store `s'` is `s` with the entry. -/
structure Store.Entered (s s' : Store) (input : PostJournalEntryInput) (journalEntry : JournalEntry)
    (postings : List Posting) : Prop where
  entry : ∃ u, journalEntry = journalEntryData input u
  data : List.Forall₂ (PostingOf journalEntry) input.postings postings
  journalEntries : s'.journalEntries.rows = s.journalEntries.rows ++ [journalEntry]
  postingRows : s'.postings.rows = s.postings.rows ++ postings
  lines : ∃ lines, s'.statementLines.rows = s.statementLines.rows ++ lines ∧
    LinesOf s journalEntry [] input.postings postings lines
  moved : ∀ x ∈ input.postings, ∀ accountId, s.accountOf x.ledgerAccountId = some accountId →
    s'.balanceProjections.get? accountId = some
      { accountId
        currency := x.amount.currency
        currentMinor := s.projected accountId + s.effectsOn accountId input.postings
        journalEntryId := some journalEntry.id }
  unmoved : ∀ accountId, (∀ x ∈ input.postings, s.accountOf x.ledgerAccountId ≠ some accountId) →
    s'.balanceProjections.get? accountId = s.balanceProjections.get? accountId
  rest : s' =
    { s with
      journalEntries := s'.journalEntries
      postings := s'.postings
      balanceProjections := s'.balanceProjections
      statementLines := s'.statementLines }

/-- The entry is one that the service accepts. -/
structure PostJournalEntryInput.Accepted (input : PostJournalEntryInput) (s : Store) : Prop where
  wellFormed : input.WellFormed s
  distinct : (input.postings.map (·.ledgerAccountId)).Nodup
  names : input.Names s
  takes : s.Takes input.postings

section Effects

variable {s s' : Store} {x : LedgerPostingInput} {xs : List LedgerPostingInput} {l : LedgerAccount}
  {accountId : Uuid}

@[simp] theorem effectsOn_nil : s.effectsOn accountId [] = 0 := rfl

@[simp] theorem effectsOn_cons :
    s.effectsOn accountId (x :: xs) = s.effectOn accountId x + s.effectsOn accountId xs := by
  simp [Store.effectsOn]

theorem accountOf_eq (hl : l ∈ s.ledgerAccounts.rows) (hid : l.id = x.ledgerAccountId) :
    s.accountOf x.ledgerAccountId = l.accountId := by
  rw [Store.accountOf, Table.get?_eq_some.mpr ⟨hl, hid⟩]
  rfl

theorem effectOn_eq (hl : l ∈ s.ledgerAccounts.rows) (hid : l.id = x.ledgerAccountId) :
    s.effectOn accountId x = if l.accountId = some accountId then
      computeBalanceEffect x.direction l.normalBalanceDirection x.amount.minorUnits else 0 := by
  rw [Store.effectOn, Table.get?_eq_some.mpr ⟨hl, hid⟩]
  by_cases hacc : l.accountId = some accountId <;> simp [Option.filter, hacc]

theorem effectOn_of_ne (h : s.accountOf x.ledgerAccountId ≠ some accountId) :
    s.effectOn accountId x = 0 := by
  cases hget : s.ledgerAccounts.get? x.ledgerAccountId with
  | none => simp [Store.effectOn, hget]
  | some l =>
      have hne : l.accountId ≠ some accountId := by
        simpa [Store.accountOf, hget] using h
      simp [Store.effectOn, hget, Option.filter, hne]

/-- The effects depend on the ledger accounts alone. -/
theorem effectsOn_congr (h : s'.ledgerAccounts = s.ledgerAccounts) :
    s'.effectsOn accountId xs = s.effectsOn accountId xs := by
  have hone : s'.effectOn accountId = s.effectOn accountId :=
    funext fun x => by simp only [Store.effectOn, h]
  rw [Store.effectsOn, hone]
  rfl

theorem accountOf_congr (h : s'.ledgerAccounts = s.ledgerAccounts) (id : Uuid) :
    s'.accountOf id = s.accountOf id := by
  simp only [Store.accountOf, h]

end Effects

/-! ## The loop -/

section Loop

variable {s s' : Store} {x : LedgerPostingInput} {xs : List LedgerPostingInput} {l : LedgerAccount}

theorem ledgerAccounts_of_moved {direction : Direction} {amountMinor : Int}
    (h : s.Moved s' l direction amountMinor) : s'.ledgerAccounts = s.ledgerAccounts := by
  obtain ⟨⟨ws, rfl, -⟩, -⟩ := h
  exact applyAll_ledgerAccounts ws s

/-- The balances after the first posting move by its effect. -/
theorem projected_of_moved (hl : l ∈ s.ledgerAccounts.rows) (hid : l.id = x.ledgerAccountId)
    (h : s.Moved s' l x.direction x.amount.minorUnits) (accountId : Uuid) :
    s'.projected accountId = s.projected accountId + s.effectOn accountId x := by
  rw [h.projected, effectOn_eq hl hid]
  split <;> simp

/-- The database takes some postings if it takes the first one, and after it the others. -/
theorem takes_cons (hl : l ∈ s.ledgerAccounts.rows) (hid : l.id = x.ledgerAccountId)
    (h : s.Moved s' l x.direction x.amount.minorUnits) :
    s.Takes (x :: xs) ↔ s.Accepts l x.direction x.amount.minorUnits ∧ s'.Takes xs := by
  have hledger := ledgerAccounts_of_moved h
  have hafter : ∀ id ys, s'.projected id + s'.effectsOn id ys =
      s.projected id + s.effectsOn id (x :: ys) := by
    intro id ys
    rw [projected_of_moved hl hid h, effectsOn_congr hledger, effectsOn_cons]
    omega
  have hfirst : ∀ id, l.accountId = some id → s.projected id + s.effectsOn id [x] =
      s.projected id + computeBalanceEffect x.direction l.normalBalanceDirection
        x.amount.minorUnits := by
    intro id hacc
    simp [effectOn_eq hl hid, hacc]
  constructor
  · intro ht
    refine ⟨⟨ht.positive x (by simp), ht.amounts x (by simp), fun id hacc => ?_⟩,
      ⟨fun y hy => ht.positive y (by simp [hy]), fun y hy => ht.amounts y (by simp [hy]), ?_⟩⟩
    · rw [← hfirst id hacc]
      exact ht.bounded [] x xs rfl id ((accountOf_eq hl hid).trans hacc)
    · rintro done y rest rfl id hacc
      rw [hafter]
      exact ht.bounded (x :: done) y rest rfl id ((accountOf_congr hledger _).symm.trans hacc)
  · rintro ⟨haccepts, ht⟩
    refine ⟨List.forall_mem_cons.mpr ⟨haccepts.positive, ht.positive⟩,
      List.forall_mem_cons.mpr ⟨haccepts.amount, ht.amounts⟩, ?_⟩
    intro done y rest heq id hacc
    cases done with
    | nil =>
        obtain ⟨rfl, rfl⟩ := List.cons.inj heq
        have hacc' := (accountOf_eq hl hid).symm.trans hacc
        rw [List.nil_append, hfirst id hacc']
        exact haccepts.balance id hacc'
    | cons z done =>
        obtain ⟨rfl, rfl⟩ := List.cons.inj heq
        rw [List.cons_append, ← hafter]
        exact ht.bounded done y rest rfl id ((accountOf_congr hledger _).trans hacc)

/-- The loop over the postings, run alone. -/
theorem postPostings_surely {ledgerAccounts : List LedgerAccount} {ids : List Uuid}
    {journalEntry : JournalEntry} (hkeys : s.ForeignKeys) (hlinked : s.Linked)
    (hmap : s.Mapped ledgerAccounts ids)
    (hxs : ∀ x ∈ xs, x.ledgerAccountId ∈ ids ∧ ∃ l ∈ s.ledgerAccounts.rows, l.id = x.ledgerAccountId)
    (hentry : s.present (.row .journalEntry journalEntry.id) = true) :
    Surely (postPostings ledgerAccounts journalEntry xs) s (fun _ _ => s.Takes xs)
      (fun _ => ¬ s.Takes xs) := by
  induction xs generalizing s with
  | nil => exact ⟨by simp, by simp, fun done x rest heq => by simp at heq⟩
  | cons x xs ih =>
      obtain ⟨⟨hmem, l, hl, hid⟩, hrest⟩ := List.forall_mem_cons.mp hxs
      have hcustomer := customerAccount_eq hmap hl (hid ▸ hmem)
      rw [hid] at hcustomer
      refine Always.bind (postPosting_surely x hkeys hlinked hl hid hcustomer hentry) ?_ ?_
      · rintro posting s' ⟨haccepts, hmoved⟩
        have htakes : s.Takes (x :: xs) ↔ _ ∧ s'.Takes xs := takes_cons hl hid hmoved
        have hledger := ledgerAccounts_of_moved hmoved
        obtain ⟨⟨ws, hs', hadm⟩, -⟩ := id hmoved
        have hext : s.Extends s' := hs' ▸ extends_applyAll ws s
        refine Always.bind (ih (s := s') (hs' ▸ foreignKeys_applyAll hadm hkeys)
          (hlinked.of_extends hext) ?_ ?_ (hs' ▸ present_applyAll hadm hentry)) ?_ ?_
        · rw [Store.Mapped, hledger]
          exact hmap
        · rw [hledger]
          exact hrest
        · exact fun _ _ h => htakes.mpr ⟨haccepts, h⟩
        · exact fun _ h ht => h (htakes.mp ht).2
      · intro e hno ht
        refine hno ⟨ht.positive x (by simp), ht.amounts x (by simp), fun id hacc => ?_⟩
        have hbound := ht.bounded [] x xs rfl id ((accountOf_eq hl hid).trans hacc)
        simpa [effectOn_eq hl hid, hacc] using hbound

end Loop

/-! ## Accepted entries -/

section Accepted

variable {s : Store} {input : PostJournalEntryInput}

/-- As many rows are found as there are postings just when the ledger accounts of the postings are
different and exist. -/
theorem length_findLedgerAccounts_eq (order : List Nat) (ids : List Uuid) :
    (arrange order (s.ledgerAccounts.rows.filter fun l => l.id ∈ ids)).length = ids.length ↔
      ids.Nodup ∧ ∀ id ∈ ids, (s.ledgerAccounts.get? id).isSome := by
  rw [(arrange_perm order _).length_eq]
  have hnodup : ((s.ledgerAccounts.rows.filter fun l => l.id ∈ ids).map (·.id)).Nodup :=
    s.ledgerAccounts.pk_nodup.sublist (List.filter_sublist.map _)
  have hsub : (s.ledgerAccounts.rows.filter fun l => l.id ∈ ids).map (·.id) ⊆ ids := by
    intro id hid
    obtain ⟨l, hl, rfl⟩ := List.mem_map.mp hid
    exact of_decide_eq_true (List.mem_filter.mp hl).2
  constructor
  · intro hlength
    have hperm := (List.subperm_of_subset hnodup hsub).perm_of_length_le (by simp [hlength])
    refine ⟨hperm.nodup_iff.mp hnodup, fun id hid => ?_⟩
    obtain ⟨l, hl, rfl⟩ := List.mem_map.mp (hperm.mem_iff.mpr hid)
    exact Option.isSome_iff_exists.mpr
      ⟨l, Table.get?_eq_some.mpr ⟨(List.mem_filter.mp hl).1, rfl⟩⟩
  · rintro ⟨hids, hexist⟩
    have hsup : ids ⊆ (s.ledgerAccounts.rows.filter fun l => l.id ∈ ids).map (·.id) := by
      intro id hid
      obtain ⟨l, hget⟩ := Option.isSome_iff_exists.mp (hexist id hid)
      obtain ⟨hl, rfl⟩ := Table.get?_eq_some.mp hget
      exact List.mem_map_of_mem (List.mem_filter.mpr ⟨hl, decide_eq_true hid⟩)
    have hperm := (List.perm_ext_iff_of_nodup hnodup hids).mpr fun id => ⟨fun h => hsub h, fun h => hsup h⟩
    simpa using hperm.length_eq

theorem sameCurrency_iff {xs : List LedgerPostingInput} :
    (xs.all fun p => some p.amount.currency = xs.head?.map (·.amount.currency)) = true ↔
      ∀ x ∈ xs, ∀ y ∈ xs, x.amount.currency = y.amount.currency := by
  simp only [List.all_eq_true, decide_eq_true_iff]
  constructor
  · exact fun h x hx y hy => Option.some.inj ((h x hx).trans (h y hy).symm)
  · intro h x hx
    cases xs with
    | nil => cases hx
    | cons y ys => exact congrArg some (h x hx y (by simp))

/-- `createJournalEntry`, which fails when a row that the entry names is missing. -/
theorem createJournalEntry_surely :
    Surely (Tx.send (.createJournalEntry (journalEntryData input))) s
      (fun entry s' => input.Names s ∧ database.Admissible s [.journalEntry entry] ∧
        s' = (Write.journalEntry entry).apply s) (fun _ => ¬ input.Names s) := by
  by_cases hnames : input.Names s
  · exact (surely_createJournalEntry hnames.transferRequest hnames.batchRun).mono
      (fun _ _ h => ⟨hnames, h⟩) fun _ h => h.elim
  · refine surely_write (fun _ => rfl) (fun ch _ hv => ?_) fun _ _ _ _ => hnames
    have hneeds := (violation_none hv).2.1
    exact absurd ⟨fun id hid => hneeds _ (by simp [Write.needs, journalEntryData, hid]),
      fun id hid => hneeds _ (by simp [Write.needs, journalEntryData, hid])⟩ hnames

/-- `postJournalEntry` succeeds on the entries that it accepts, and on no other. -/
theorem postJournalEntry_decides (input : PostJournalEntryInput) (hkeys : s.ForeignKeys)
    (hlinked : s.Linked) :
    Surely (postJournalEntry input) s (fun _ _ => input.Accepted s)
      (fun _ => ¬ input.Accepted s) := by
  unfold postJournalEntry
  simp only [assert]
  refine always_bind.mpr (always_ensure.mpr ?_)
  split
  swap
  · exact fun h => absurd (decide_eq_true h.wellFormed.two) ‹_›
  rename_i htwo
  refine always_bind.mpr (always_ensure.mpr ?_)
  split
  swap
  · exact fun h => absurd (decide_eq_true h.wellFormed.balanced) ‹_›
  rename_i hbalanced
  refine always_bind.mpr (always_ensure.mpr ?_)
  split
  swap
  · exact fun h => absurd (sameCurrency_iff.mpr h.wellFormed.currency) ‹_›
  rename_i hcurrency
  refine Always.bind (surely_read fun _ => rfl) ?_ fun _ h => h.elim
  rintro ledgerAccounts s ⟨⟨ch, rfl⟩, rfl⟩
  refine always_bind.mpr (always_ensure.mpr ?_)
  have hfound := length_findLedgerAccounts_eq (s := s) ch.order
    (input.postings.map (·.ledgerAccountId))
  rw [List.length_map] at hfound
  split
  swap
  · refine fun h => absurd (decide_eq_true (hfound.mpr ⟨h.distinct, ?_⟩)) ‹_›
    simpa using h.wellFormed.exist
  rename_i hlength
  obtain ⟨hdistinct, hexist⟩ := hfound.mp (of_decide_eq_true hlength)
  have hwell : input.WellFormed s := ⟨of_decide_eq_true htwo, of_decide_eq_true hbalanced,
    sameCurrency_iff.mp hcurrency, by simpa using hexist⟩
  refine Always.bind createJournalEntry_surely ?_ fun _ h haccepted => h haccepted.names
  rintro entry _ ⟨hnames, hadm, rfl⟩
  have hentry := (Database.present_applyAll lawful_database hadm
    (.row .journalEntry entry.id)).mpr (Or.inr (by simp [database, Write.adds]))
  have hledger : ∀ x ∈ input.postings, x.ledgerAccountId ∈ input.postings.map (·.ledgerAccountId) ∧
      ∃ l ∈ s.ledgerAccounts.rows, l.id = x.ledgerAccountId := by
    intro x hx
    obtain ⟨l, hget⟩ := Option.isSome_iff_exists.mp (hwell.exist x hx)
    exact ⟨List.mem_map_of_mem hx, l, Table.get?_eq_some.mp hget⟩
  have hloop := postPostings_surely (foreignKeys_applyAll hadm hkeys)
    (hlinked.of_extends (extends_applyAll _ s)) (mapped_findLedgerAccounts s ch.order _) hledger hentry
  -- the entry itself moves no balance
  refine Always.bind hloop (fun _ _ h => ?_) fun _ h haccepted => ?_
  · exact ⟨hwell, hdistinct, hnames, ⟨h.positive, h.amounts, h.bounded⟩⟩
  · have ht := haccepted.takes
    exact h ⟨ht.positive, ht.amounts, ht.bounded⟩

end Accepted

/-! ## Applied entries -/

section Applied

variable {s : Store} {ledgerAccounts : List LedgerAccount} {ids : List Uuid}
  {journalEntry : JournalEntry} {p ws : List Write} {x : LedgerPostingInput} {posting : Posting}

/-- The account that the loop finds for a posting. -/
theorem customerAccount_accountOf (hmap : s.Mapped ledgerAccounts ids)
    (hmem : x.ledgerAccountId ∈ ids) (hexist : (s.ledgerAccounts.get? x.ledgerAccountId).isSome) :
    (customerAccount ledgerAccounts x.ledgerAccountId).map Prod.snd =
      s.accountOf x.ledgerAccountId := by
  obtain ⟨l, hget⟩ := Option.isSome_iff_exists.mp hexist
  obtain ⟨hl, hid⟩ := Table.get?_eq_some.mp hget
  have hcustomer := customerAccount_eq hmap hl (hid ▸ hmem)
  rw [hid] at hcustomer
  rw [hcustomer, accountOf_eq hl hid, Option.map_map]
  exact Option.map_id'

/-- What one turn of the loop does to the projections and to the statement lines. -/
structure TurnOf (s : Store) (journalEntry : JournalEntry) (p ws : List Write)
    (x : LedgerPostingInput) (posting : Posting) : Prop where
  projections : ∀ accountId, (database.applyAll (p ++ ws) s).balanceProjections.get? accountId =
    if s.accountOf x.ledgerAccountId = some accountId then some
      { accountId
        currency := x.amount.currency
        currentMinor := (database.applyAll p s).projected accountId + s.effectOn accountId x
        journalEntryId := some journalEntry.id }
    else (database.applyAll p s).balanceProjections.get? accountId
  lines : s.accountOf x.ledgerAccountId = none ∧ ws.filterMap Write.statementLine? = [] ∨
    ∃ accountId u, s.accountOf x.ledgerAccountId = some accountId ∧
      ws.filterMap Write.statementLine? = [statementLineData journalEntry posting accountId
        ((database.applyAll p s).projected accountId + s.effectOn accountId x) u]

theorem turn_of_posted (hmap : s.Mapped ledgerAccounts ids) (hmem : x.ledgerAccountId ∈ ids)
    (hexist : (s.ledgerAccounts.get? x.ledgerAccountId).isSome)
    (h : Posted (Now s) ledgerAccounts journalEntry x p ws posting) :
    TurnOf s journalEntry p ws x posting := by
  have hcustomer := customerAccount_accountOf hmap hmem hexist
  cases h with
  | unlinked _ hnone =>
      have haccount : s.accountOf x.ledgerAccountId = none := by
        rw [← hcustomer, hnone]
        rfl
      refine ⟨fun accountId => ?_, Or.inl ⟨haccount, rfl⟩⟩
      rw [haccount, if_neg (by simp), Database.applyAll_append]
      rfl
  | @linked u id accountId ledgerAccount b running _ hsome hread hrunning =>
      have haccount : s.accountOf x.ledgerAccountId = some accountId := by
        rw [← hcustomer, hsome]
        rfl
      obtain ⟨hl, hid⟩ := customerAccount_some hmap hsome
      obtain ⟨hrow, hlinked⟩ := ledgerAccountOf_some.mp hl
      have hbalance : balanceOf b = (database.applyAll p s).projected accountId := by
        obtain ⟨ch, hexec⟩ := hread
        have hb : _ = b := (Prod.mk.inj (Except.ok.inj hexec)).1
        rw [← hb, Database.applyAll_append]
        rfl
      have heffect : running = (database.applyAll p s).projected accountId +
          s.effectOn accountId x := by
        rw [hrunning, hbalance, effectOn_eq hrow hid, if_pos hlinked]
      refine ⟨fun accountId' => ?_, Or.inr ⟨accountId, id, haccount, by rw [← heffect]; rfl⟩⟩
      rw [haccount, Database.applyAll_append]
      show ((Write.balanceProjection (balanceData journalEntry (postingData journalEntry x u)
        accountId running)).apply _).balanceProjections.get? accountId' = _
      rw [get?_balanceProjection]
      by_cases heq : accountId = accountId'
      · subst heq
        rw [if_pos rfl, ← heffect]
        exact if_pos rfl
      · exact (if_neg heq).trans (if_neg fun h => heq (Option.some.inj h)).symm

theorem TurnOf.projected (h : TurnOf s journalEntry p ws x posting) (accountId : Uuid) :
    (database.applyAll (p ++ ws) s).projected accountId =
      (database.applyAll p s).projected accountId + s.effectOn accountId x := by
  rw [Store.projected, h.projections]
  split
  · rfl
  · rename_i hne
    rw [effectOn_of_ne hne, Int.add_zero]
    rfl

/-- What the loop does to the projections and to the statement lines. -/
theorem turns_of_postedAll (hmap : s.Mapped ledgerAccounts ids) {xs done : List LedgerPostingInput}
    {postings : List Posting}
    (hxs : ∀ x ∈ xs, x.ledgerAccountId ∈ ids ∧ (s.ledgerAccounts.get? x.ledgerAccountId).isSome)
    (hdone : ∀ accountId, (database.applyAll p s).projected accountId =
      s.projected accountId + s.effectsOn accountId done)
    (h : PostedAll (Now s) ledgerAccounts journalEntry p xs ws postings) :
    (∀ accountId, (database.applyAll (p ++ ws) s).projected accountId =
      s.projected accountId + s.effectsOn accountId (done ++ xs)) ∧
    LinesOf s journalEntry done xs postings (ws.filterMap Write.statementLine?) := by
  induction h generalizing done with
  | nil => exact ⟨by simpa using hdone, .nil⟩
  | @cons p ws ws' x xs posting postings hposted hrest ih =>
      obtain ⟨⟨hmem, hexist⟩, hxs⟩ := List.forall_mem_cons.mp hxs
      have hturn := turn_of_posted hmap hmem hexist hposted
      have happend : ∀ accountId, s.effectsOn accountId (done ++ [x]) =
          s.effectsOn accountId done + s.effectOn accountId x := by
        intro accountId
        simp [Store.effectsOn]
      have hnext : ∀ accountId, (database.applyAll (p ++ ws) s).projected accountId =
          s.projected accountId + s.effectsOn accountId (done ++ [x]) := by
        intro accountId
        rw [hturn.projected, hdone, happend]
        omega
      obtain ⟨hprojected, hlines⟩ := ih hxs hnext
      rw [← List.append_assoc, List.filterMap_append]
      refine ⟨by simpa using hprojected, ?_⟩
      rcases hturn.lines with ⟨hnone, hline⟩ | ⟨accountId, u, hsome, hline⟩
      · rw [hline]
        exact .unlinked hnone hlines
      · rw [hline, hdone, Int.add_assoc, ← happend]
        exact .linked hsome hlines

/-- The rows of the projections after the loop. -/
theorem projections_of_postedAll (hmap : s.Mapped ledgerAccounts ids) {xs : List LedgerPostingInput}
    {postings : List Posting}
    (hxs : ∀ x ∈ xs, x.ledgerAccountId ∈ ids ∧ (s.ledgerAccounts.get? x.ledgerAccountId).isSome)
    (h : PostedAll (Now s) ledgerAccounts journalEntry p xs ws postings) (accountId : Uuid) :
    (database.applyAll (p ++ ws) s).balanceProjections.get? accountId =
        (database.applyAll p s).balanceProjections.get? accountId ∧
      (∀ x ∈ xs, s.accountOf x.ledgerAccountId ≠ some accountId) ∨
    ∃ x ∈ xs, s.accountOf x.ledgerAccountId = some accountId ∧
      (database.applyAll (p ++ ws) s).balanceProjections.get? accountId = some
        { accountId
          currency := x.amount.currency
          currentMinor := (database.applyAll (p ++ ws) s).projected accountId
          journalEntryId := some journalEntry.id } := by
  induction h with
  | nil => exact Or.inl ⟨by simp, by simp⟩
  | @cons p ws ws' x xs posting postings hposted hrest ih =>
      obtain ⟨⟨hmem, hexist⟩, hxs⟩ := List.forall_mem_cons.mp hxs
      have hturn := turn_of_posted hmap hmem hexist hposted
      rw [← List.append_assoc]
      rcases ih hxs with ⟨hsame, hnone⟩ | ⟨y, hy, haccount, hrow⟩
      · by_cases haccount : s.accountOf x.ledgerAccountId = some accountId
        · refine Or.inr ⟨x, by simp, haccount, ?_⟩
          rw [Store.projected, hsame, hturn.projections, if_pos haccount]
          rfl
        · refine Or.inl ⟨?_, List.forall_mem_cons.mpr ⟨haccount, hnone⟩⟩
          rw [hsame, hturn.projections, if_neg haccount]
      · exact Or.inr ⟨y, List.mem_cons_of_mem _ hy, haccount, hrow⟩

/-- A ledger write changes the four tables of the ledger. -/
theorem rest_of_ledger {s : Store} (h : ∀ w ∈ ws, w.kind = .ledger) : database.applyAll ws s =
    { s with
      journalEntries := (database.applyAll ws s).journalEntries
      postings := (database.applyAll ws s).postings
      balanceProjections := (database.applyAll ws s).balanceProjections
      statementLines := (database.applyAll ws s).statementLines } := by
  induction ws generalizing s with
  | nil => rfl
  | cons w ws ih =>
      obtain ⟨hw, hws⟩ := List.forall_mem_cons.mp h
      have hone : w.apply s = { s with
          journalEntries := (w.apply s).journalEntries
          postings := (w.apply s).postings
          balanceProjections := (w.apply s).balanceProjections
          statementLines := (w.apply s).statementLines } := by
        cases w <;> first | rfl | cases hw
      have hrest := ih (s := w.apply s) hws
      show database.applyAll ws (w.apply s) = { s with
          journalEntries := (database.applyAll ws (w.apply s)).journalEntries
          postings := (database.applyAll ws (w.apply s)).postings
          balanceProjections := (database.applyAll ws (w.apply s)).balanceProjections
          statementLines := (database.applyAll ws (w.apply s)).statementLines }
      generalize w.apply s = s₁ at hone hrest
      generalize database.applyAll ws s₁ = s₂ at hrest
      rw [hrest, hone]

/-- The store after an entry that was accepted. -/
theorem entered_of_posted {input : PostJournalEntryInput} {postings : List Posting}
    {rest : List Write} (hadm : database.Admissible s ws)
    (h : JournalPosted (Now s) input [] ws journalEntry postings ledgerAccounts rest)
    (hexist : ∀ x ∈ input.postings, (s.ledgerAccounts.get? x.ledgerAccountId).isSome) :
    s.Entered (database.applyAll ws s) input journalEntry postings := by
  have hmap := saw_findLedgerAccounts (saw_of_now h.found)
  have hxs : ∀ x ∈ input.postings, x.ledgerAccountId ∈ input.postings.map (·.ledgerAccountId) ∧
      (s.ledgerAccounts.get? x.ledgerAccountId).isSome :=
    fun x hx => ⟨List.mem_map_of_mem hx, hexist x hx⟩
  -- the entry itself moves no balance
  have hstart : ∀ accountId, (database.applyAll ([] ++ [.journalEntry journalEntry]) s).projected
      accountId = s.projected accountId + s.effectsOn accountId [] :=
    fun accountId => (Int.add_zero _).symm
  obtain ⟨hprojected, hlines⟩ := turns_of_postedAll hmap hxs hstart h.posted
  have hwrites : ws = [] ++ [.journalEntry journalEntry] ++ rest := h.writes
  rw [← hwrites] at hprojected
  have hprojections := projections_of_postedAll hmap hxs h.posted
  rw [← hwrites] at hprojections
  refine ⟨h.entry, h.posted.rows.1, ?_, ?_, ⟨_, ?_, hlines⟩, ?_, ?_, rest_of_ledger h.kind⟩
  · simpa using journalEntries_of_journalled hadm h.journalled
  · simpa using postings_of_journalled hadm h.journalled
  · rw [statementLines_applyAll hadm, h.writes]
    rfl
  · intro x hx accountId haccount
    rcases hprojections accountId with ⟨-, hnone⟩ | ⟨y, hy, -, hrow⟩
    · exact absurd haccount (hnone x hx)
    · rw [hrow, hprojected, h.currency x hx y hy]
      rfl
  · intro accountId hnone
    rcases hprojections accountId with ⟨hsame, -⟩ | ⟨y, hy, haccount, -⟩
    · exact hsame
    · exact absurd haccount (hnone y hy)

end Applied

/-! ## Exactly -/

/-- `postJournalEntry` accepts the entry just when it is well formed, enters it then, and leaves
the store alone otherwise. -/
structure Store.PostsExactly (s : Store) (input : PostJournalEntryInput) : Prop where
  accepts : ∀ o, Alone (postJournalEntry input) s o →
    ((∃ r s', o = .ok (r, s')) ↔ input.WellFormed s)
  enters : ∀ r s', Alone (postJournalEntry input) s (.ok (r, s')) → s.Entered s' input r.1 r.2
  fails : ∀ e, Alone (postJournalEntry input) s (.error e) →
    ∀ (c : ServerConfig) i call pool (k : Except TxError (JournalEntry × List Posting) →
      Process Reply), c.store = s → (c.ended i call pool k (.error e)).store = s

section Exactly

variable {s : Store} {input : PostJournalEntryInput}

theorem entered_of_alone {r : JournalEntry × List Posting} {s' : Store}
    (hkeys : s.ForeignKeys) (hlinked : s.Linked)
    (h : Alone (postJournalEntry input) s (.ok (r, s'))) : s.Entered s' input r.1 r.2 := by
  have haccepted := (postJournalEntry_decides input hkeys hlinked).result h
  obtain ⟨ws, hruns, rfl, hadm⟩ := h.runs (V := Now s) lawful_database
    fun p e ch _ hexec => ⟨ch, hexec⟩
  obtain ⟨ledgerAccounts, rest, hposted⟩ :=
    postJournalEntry_runs (answering_of_saw fun _ _ => saw_of_now) hruns
  exact entered_of_posted hadm hposted haccepted.wellFormed.exist

/-- A well formed entry that is posted exactly is accepted. -/
theorem Store.PostsExactly.accepted (h : s.PostsExactly input) (hkeys : s.ForeignKeys)
    (hlinked : s.Linked) (hwell : input.WellFormed s) : input.Accepted s := by
  obtain ⟨o, ho⟩ := exists_ends database exists_fresh (postJournalEntry input) s
  obtain ⟨r, s', rfl⟩ := (h.accepts o ho).mpr hwell
  exact (postJournalEntry_decides input hkeys hlinked).result ho

/-- With positive amounts and balances that fit, `postJournalEntry` does this exactly if a well
formed entry names each ledger account once, names rows that exist, and has amounts that fit. -/
theorem posted_exactly_iff (input : PostJournalEntryInput) (hkeys : s.ForeignKeys)
    (hlinked : s.Linked) (hpositive : ∀ x ∈ input.postings, 0 < x.amount.minorUnits)
    (hbounded : s.Bounded input.postings) :
    s.PostsExactly input ↔ (input.WellFormed s →
      (input.postings.map (·.ledgerAccountId)).Nodup ∧ input.Names s ∧
        ∀ x ∈ input.postings, inBigInt x.amount.minorUnits = true) := by
  have hdecides := postJournalEntry_decides input hkeys hlinked
  constructor
  · intro h hwell
    have haccepted := h.accepted hkeys hlinked hwell
    exact ⟨haccepted.distinct, haccepted.names, haccepted.takes.amounts⟩
  · intro h
    refine ⟨fun o ho => ⟨?_, fun hwell => ?_⟩, fun r s' hr => entered_of_alone hkeys hlinked hr,
      fun e _ c i call pool k hc => hc⟩
    · rintro ⟨r, s', rfl⟩
      exact (hdecides.result ho).wellFormed
    · obtain ⟨hdistinct, hnames, hamounts⟩ := h hwell
      cases o with
      | ok x => exact ⟨x.1, x.2, rfl⟩
      | error e =>
          exact absurd ⟨hwell, hdistinct, hnames, hpositive, hamounts, hbounded⟩
            (hdecides.error ho)

end Exactly

/-- The running balances are checked posting by posting. -/
theorem bounded_of_forall {s : Store} {xs : List LedgerPostingInput}
    (h : ∀ n ∈ List.range xs.length, ∀ x ∈ xs[n]?, ∀ id ∈ s.accountOf x.ledgerAccountId,
      inBigInt (s.projected id + s.effectsOn id (xs.take (n + 1))) = true) : s.Bounded xs := by
  rintro done x rest rfl id hid
  have hone := h done.length (by simp) x (by simp) id hid
  rwa [List.take_append, List.take_of_length_le (by omega), Nat.add_sub_cancel_left] at hone

/-- A posting in dollars. -/
def demoPosting (ledgerAccountId : Uuid) (direction : Direction) (minorUnits : Int) :
    LedgerPostingInput :=
  ⟨ledgerAccountId, direction, ⟨"USD", minorUnits⟩⟩

/-- A debit of the checking account and some credits of the savings account. -/
def demoEntry (debit : Int) (credits : List Int) : PostJournalEntryInput where
  effectiveAt := 0
  sourceOperationType := "INTERNAL_TRANSFER"
  postings := demoPosting "ledger-checking" .debit debit ::
    credits.map (demoPosting "ledger-savings" .credit)

theorem posted_exactly_iff_once : demoStore.PostsExactly (demoEntry 100 [100]) := by
  refine (posted_exactly_iff (demoEntry 100 [100]) (seedBaseData_foreignKeys _ _ _)
    demoStore_linked (by decide) (bounded_of_forall (by decide +kernel))).mpr fun _ => ?_
  exact ⟨by decide, ⟨by simp [demoEntry, truthy], by simp [demoEntry, truthy]⟩, by decide⟩

/-- A well formed entry with two postings on one ledger account is refused. -/
theorem repeated_refused :
    (∀ x ∈ (demoEntry 100 [60, 40]).postings, 0 < x.amount.minorUnits) ∧
    demoStore.Bounded (demoEntry 100 [60, 40]).postings ∧
    (demoEntry 100 [60, 40]).WellFormed demoStore ∧
    ¬ demoStore.PostsExactly (demoEntry 100 [60, 40]) := by
  have hwell : (demoEntry 100 [60, 40]).WellFormed demoStore :=
    ⟨by decide, by decide, by decide, by decide +kernel⟩
  refine ⟨by decide, bounded_of_forall (by decide +kernel), hwell, fun h => ?_⟩
  have hdistinct := (h.accepted (seedBaseData_foreignKeys _ _ _) demoStore_linked hwell).distinct
  exact absurd hdistinct (by decide)

end LedgerCredit
