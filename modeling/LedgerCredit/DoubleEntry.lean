import LedgerCredit.Journal
import LedgerCredit.Seed
import LedgerCredit.Txn.Soundness

/-!
# Double entry

Every committed journal entry balances: it has at least two postings, with
positive amounts in one currency, which is the currency of the ledger accounts
they touch, and its debits are its credits.  Two services write entries, and only
one of them checks this.

The currencies are what needs an invariant.  A compensation posts in the currency
of the transfer to the ledger account of the source account, so a transfer must
have the currency of its source account.
-/

namespace LedgerCredit

open Txn

/-! ## Balanced postings -/

/-- The sum of the postings in one direction. -/
def Posting.total (direction : Direction) (postings : List Posting) : Int :=
  ((postings.filter (·.direction = direction)).map (·.amountMinor)).sum

/-- The postings of a good journal entry. -/
structure Store.Balanced (s : Store) (postings : List Posting) : Prop where
  two : 2 ≤ postings.length
  positive : ∀ p ∈ postings, 0 < p.amountMinor
  oneCurrency : ∀ p ∈ postings, ∀ q ∈ postings, p.currency = q.currency
  account : ∀ p ∈ postings, ∃ l ∈ s.ledgerAccounts.rows,
    l.id = p.ledgerAccountId ∧ l.currency = p.currency
  totals : Posting.total .debit postings = Posting.total .credit postings

instance (s : Store) (postings : List Posting) : Decidable (s.Balanced postings) :=
  decidable_of_iff (2 ≤ postings.length ∧ (∀ p ∈ postings, 0 < p.amountMinor) ∧
      (∀ p ∈ postings, ∀ q ∈ postings, p.currency = q.currency) ∧
      (∀ p ∈ postings, ∃ l ∈ s.ledgerAccounts.rows,
        l.id = p.ledgerAccountId ∧ l.currency = p.currency) ∧
      Posting.total .debit postings = Posting.total .credit postings)
    ⟨fun ⟨h₁, h₂, h₃, h₄, h₅⟩ => ⟨h₁, h₂, h₃, h₄, h₅⟩, fun ⟨h₁, h₂, h₃, h₄, h₅⟩ => ⟨h₁, h₂, h₃, h₄, h₅⟩⟩

/-- Every journal entry is good. -/
def Store.DoubleEntry (s : Store) : Prop :=
  ∀ e ∈ s.journalEntries.rows, s.Balanced (s.postingsOf e.id)

instance (s : Store) : Decidable s.DoubleEntry :=
  inferInstanceAs (Decidable (∀ e ∈ s.journalEntries.rows, s.Balanced (s.postingsOf e.id)))

theorem Store.Balanced.of_extends {s s' : Store} (h : s.Extends s') {postings : List Posting}
    (hb : s.Balanced postings) : s'.Balanced postings where
  two := hb.two
  positive := hb.positive
  oneCurrency := hb.oneCurrency
  account := h.ledgerAccounts ▸ hb.account
  totals := hb.totals

/-- New good entries leave all entries good. -/
theorem doubleEntry_applyAll {s : Store} {ws : List Write}
    {entries : List (JournalEntry × List Posting)} (h : database.Admissible s ws)
    (hj : Journalled ws entries) (hkeys : s.ForeignKeys) (hs : s.DoubleEntry)
    (hnew : ∀ e ∈ entries, s.Balanced e.2) : (database.applyAll ws s).DoubleEntry := by
  intro e he
  refine .of_extends (extends_applyAll ws s) ?_
  rw [journalEntries_of_journalled h hj] at he
  rcases List.mem_append.mp he with hold | hadd
  · rw [postingsOf_old h hj hold]
    exact hs e hold
  · obtain ⟨g, hg, rfl⟩ := List.mem_map.mp hadd
    rw [postingsOf_new h hj hkeys hg]
    exact hnew g hg

/-! ## Currencies -/

/-- Every transfer has the currency of its source account. -/
def Store.TransferCurrencies (s : Store) : Prop :=
  ∀ t ∈ s.transferRequests.rows, ∃ a ∈ s.accounts.rows,
    a.id = t.sourceAccountId ∧ a.currency = t.currency

variable {env : Env} {s : Store}

/-! ## The ledger service -/

namespace LedgerService

theorem totals_of_forall₂ {journalEntry : JournalEntry} {inputs : List LedgerPostingInput}
    {postings : List Posting} (h : List.Forall₂ (PostingOf journalEntry) inputs postings)
    (direction : Direction) : Posting.total direction postings = total direction inputs := by
  induction h with
  | nil => rfl
  | @cons input posting inputs postings hposting _ ih =>
      obtain ⟨u, rfl⟩ := hposting.data
      unfold Posting.total total at ih ⊢
      by_cases hdir : input.direction = direction
      · simpa [postingData, hdir] using ih
      · simpa [postingData, hdir] using ih

/-- `postJournalEntry` posts a good entry, if its caller names ledger accounts in the currency of
the amounts. -/
theorem JournalPosted.good {V : View} {input : PostJournalEntryInput} {p ws rest : List Write}
    {journalEntry : JournalEntry} {postings : List Posting} {ledgerAccounts : List LedgerAccount}
    (h : JournalPosted V input p ws journalEntry postings ledgerAccounts rest)
    (haccounts : ∀ x ∈ input.postings, ∃ l ∈ s.ledgerAccounts.rows,
      l.id = x.ledgerAccountId ∧ l.currency = x.amount.currency) : s.Balanced postings := by
  obtain ⟨hforall, -, -⟩ := h.posted.rows
  refine ⟨hforall.length_eq ▸ h.two, fun q hq => ?_, fun q hq q' hq' => ?_, fun q hq => ?_, ?_⟩
  · obtain ⟨x, -, hx⟩ := mem_of_forall₂ hforall hq
    exact hx.positive
  · obtain ⟨x, hx, hposting⟩ := mem_of_forall₂ hforall hq
    obtain ⟨x', hx', hposting'⟩ := mem_of_forall₂ hforall hq'
    obtain ⟨u, rfl⟩ := hposting.data
    obtain ⟨u', rfl⟩ := hposting'.data
    exact h.currency x hx x' hx'
  · obtain ⟨x, hx, hposting⟩ := mem_of_forall₂ hforall hq
    obtain ⟨u, rfl⟩ := hposting.data
    exact haccounts x hx
  · rw [totals_of_forall₂ hforall, totals_of_forall₂ hforall]
    exact h.balanced

end LedgerService

/-! ## The transactions -/

variable {V : View}

namespace TransfersService

variable {args : CreateTransferArgs} {p : List Write} {source : Account}
  {sourceLedger : LedgerAccount} {amount : Money} {b : Option BalanceProjection}

/-- The amount of a transfer is in the currency of the source account. -/
theorem SourceChecked.amount_currency (hV : ∀ p e, V p e → Saw s p e) (hs : s.Seeded env)
    (h : SourceChecked V env args p source sourceLedger amount b) :
    s.Owns source (some sourceLedger) ∧ amount.currency = source.currency := by
  obtain ⟨howns, -⟩ := saw_findAccountWithBalance (hV _ _ h.read)
  refine ⟨howns, ?_⟩
  rw [(fromMinorUnits_ok h.money).1, ← h.currency]
  exact hs.upper source howns.account

theorem TransferRun.entries (hV : ∀ p e, V p e → Saw s p e) (hs : s.Seeded env) {ws : List Write}
    {r : TransferMutationResult} (h : TransferRun V env args ws r) :
    ∃ entries, Journalled ws entries ∧ ∀ e ∈ entries, s.Balanced e.2 := by
  cases h with
  | replay _ _ _ => exact ⟨[], .nil_of_kind (by simp), by simp⟩
  | internal _ _ _ _ hcreated hread hcurrency hposted =>
      obtain ⟨howns, hamount⟩ := hcreated.checked.amount_currency hV hs
      obtain ⟨hdest, -⟩ := saw_findAccountWithLedger (hV _ _ hread)
      refine ⟨_, hposted.journalled.wrap (hcreated.before rfl) (by simp [Write.kind]), ?_⟩
      refine List.forall_mem_singleton.mpr (hposted.good ?_)
      refine List.forall_mem_cons.mpr ⟨hamount ▸ hs.owns howns, ?_⟩
      exact List.forall_mem_singleton.mpr (hcurrency ▸ hs.owns hdest)
  | external _ _ _ _ hcreated hread hposted =>
      obtain ⟨howns, hamount⟩ := hcreated.checked.amount_currency hV hs
      obtain ⟨hclearing, -, hcurrency⟩ := saw_findFirstLedgerAccount (hV _ _ hread)
      refine ⟨_, hposted.journalled.wrap (hcreated.before rfl) (by simp [Write.kind]), ?_⟩
      refine List.forall_mem_singleton.mpr (hposted.good ?_)
      refine List.forall_mem_cons.mpr ⟨hamount ▸ hs.owns howns, ?_⟩
      exact List.forall_mem_singleton.mpr ⟨_, hclearing, rfl, hcurrency⟩

end TransfersService

namespace ExternalRailService

theorem EventRun.entries (hV : ∀ p e, V p e → Saw s p e) (hs : s.Seeded env)
    (ht : s.TransferCurrencies) {event : NormalizedExternalRailEvent} {ws : List Write}
    {r : TransferRequest} (h : EventRun V env event ws r) :
    ∃ entries, Journalled ws entries ∧ ∀ e ∈ entries, s.Balanced e.2 := by
  cases h with
  | duplicate _ _ => exact ⟨[], .nil_of_kind (by simp), by simp⟩
  | recorded _ _ => exact ⟨[], .nil_of_kind (by simp [Write.kind]), by simp⟩
  | settled _ _ _ => exact ⟨[], .nil_of_kind (by simp [Write.kind]), by simp⟩
  | compensated hreceived _ _ hsource hcomp =>
      obtain ⟨⟨t, htmem, hsame⟩, howns, hid⟩ := saw_findFirstTransferRequest (hV _ _ hreceived.lookup)
      obtain ⟨hclearing, -, hcurrency⟩ := saw_findFirstLedgerAccount (hV _ _ hcomp.clearingRead)
      -- the transfer has the currency of its source account, which is upper-case
      obtain ⟨a, ha, haid, hacurrency⟩ := ht t htmem
      obtain rfl := Table.eq_of_pk ha howns.account
        (haid.trans (hsame.sourceAccountId.trans hid.symm))
      have hamount := (fromMinorUnits_ok hcomp.money).1
      rw [← hsame.currency, ← hacurrency, hs.upper _ ha] at hamount
      refine ⟨_, hcomp.entry.journalled.wrap (by simp [Write.kind]) (by simp [Write.kind]), ?_⟩
      refine List.forall_mem_singleton.mpr (hcomp.entry.good ?_)
      refine List.forall_mem_cons.mpr ⟨⟨_, hclearing, rfl, ?_⟩, ?_⟩
      · rw [hcurrency, ← hsame.currency, ← hacurrency, ← hamount]
      · exact List.forall_mem_singleton.mpr (hamount ▸ hs.owns (hsource ▸ howns))

end ExternalRailService

namespace BatchService

/-- The entry of a row is good, if the account and the revenue account were read. -/
theorem RowOf.balanced (hs : s.Seeded env) {batchRunId : Uuid}
    {accounts : List BatchAccountSnapshot} {interestRevenueAccountIds : List (String × Uuid)}
    (hground : s.Grounded accounts interestRevenueAccountIds) {effectiveAt : Time}
    {x : BatchAccountSnapshot} (hx : x ∈ accounts) {row : InterestRows}
    (h : RowOf env batchRunId interestRevenueAccountIds effectiveAt x row)
    (hpos : 0 < row.debit.amountMinor ∧ 0 < row.credit.amountMinor) :
    s.Balanced [row.debit, row.credit] := by
  obtain ⟨uuid, ledgerAccountId, revenueId, hledger, hrevenue, rfl⟩ := h
  obtain ⟨a, ha, -, hcurrency, haccount⟩ := hground.snapshot x hx
  obtain ⟨l, hl, hid⟩ := Option.map_eq_some_iff.mp (haccount.symm.trans hledger)
  obtain ⟨l', hl', hid', hlcurrency⟩ := hs.owns ⟨ha, hl⟩
  obtain ⟨r, hr, hrid, hrcurrency, -⟩ := hground.revenue _ (mapGet_mem hrevenue)
  refine ⟨le_rfl, by simpa using hpos, by simp [interestRows], ?_, by simp [Posting.total, interestRows]⟩
  refine List.forall_mem_cons.mpr ⟨⟨r, hr, hrid, hrcurrency⟩, List.forall_mem_singleton.mpr ?_⟩
  exact ⟨l', hl', hid'.trans hid, hlcurrency.trans hcurrency.symm⟩

variable {batchRunId : Uuid}

theorem ChunkRun.entries (hV : ∀ p e, V p e → Saw s p e) (hs : s.Seeded env)
    {accounts : List BatchAccountSnapshot} {interestRevenueAccountIds : List (String × Uuid)}
    (hground : s.Grounded accounts interestRevenueAccountIds)
    {ws running completed : List Write} {effectiveAt : Time} {rows : List InterestRows}
    (h : ChunkRun V env batchRunId accounts interestRevenueAccountIds ws effectiveAt rows running
      completed) : ∃ entries, Journalled ws entries ∧ ∀ e ∈ entries, s.Balanced e.2 := by
  refine ⟨_, h.journalled (answering_of_saw hV), fun e he => ?_⟩
  obtain ⟨row, hmem, rfl⟩ := List.mem_map.mp he
  obtain ⟨x, hx, hof⟩ := h.rowOf row hmem
  exact hof.balanced hs hground hx (h.positive row hmem)

theorem InterestPaid.entries (hV : ∀ p e, V p e → Saw s p e) (hs : s.Seeded env) {a : Account}
    {l : LedgerAccount} (howns : s.Owns a (some l)) {interestMinor : Int} {p paid : List Write}
    (h : InterestPaid V env batchRunId a l interestMinor p paid) :
    ∃ entries, Journalled paid entries ∧ ∀ e ∈ entries, s.Balanced e.2 := by
  cases h with
  | none _ => exact ⟨[], .nil_of_kind (by simp), by simp⟩
  | paid _ hread hmoney hposted =>
      obtain ⟨hrevenue, -, hcurrency⟩ := saw_findFirstLedgerAccount (hV _ _ hread)
      have hamount := (fromMinorUnits_ok hmoney).1
      rw [hs.upper a howns.account] at hamount
      refine ⟨_, hposted.journalled, List.forall_mem_singleton.mpr (hposted.good ?_)⟩
      refine List.forall_mem_cons.mpr ⟨⟨_, hrevenue, rfl, hcurrency.trans hamount.symm⟩, ?_⟩
      exact List.forall_mem_singleton.mpr (hamount ▸ hs.owns howns)

theorem ItemRun.entries (hV : ∀ p e, V p e → Saw s p e) (hs : s.Seeded env) {accountId : Uuid}
    {ws : List Write} (h : ItemRun V env batchRunId accountId ws) :
    ∃ entries, Journalled ws entries ∧ ∀ e ∈ entries, s.Balanced e.2 := by
  cases h with
  | absent _ => exact ⟨[], .nil_of_kind (by simp), by simp⟩
  | closed _ _ => exact ⟨[], .nil_of_kind (by simp), by simp⟩
  | processed _ _ hread hpaid =>
      obtain ⟨howns, -⟩ := saw_findAccountWithBalance (hV _ _ hread)
      obtain ⟨entries, hjournalled, hgood⟩ := hpaid.entries hV hs howns
      exact ⟨entries, hjournalled.wrap (by simp [Write.kind]) (by simp [Write.kind]), hgood⟩

end BatchService

/-- Every transaction adds good entries. -/
theorem Committed.entries (hV : ∀ p e, V p e → Saw s p e) (hs : s.Seeded env)
    (ht : s.TransferCurrencies) {α : Type} {l : Label α} (hl : grounds s l) {a : α}
    {ws : List Write} (h : Committed V env l a ws) :
    ∃ entries, Journalled ws entries ∧ ∀ e ∈ entries, s.Balanced e.2 := by
  cases h with
  | createTransfer hrun => exact hrun.entries hV hs
  | applyNormalizedEvent hrun => exact hrun.entries hV hs ht
  | processBatchChunk hrun => exact hrun.entries hV hs hl
  | processBatchItem hrun => exact hrun.entries hV hs
  | statement hread =>
      refine ⟨[], .nil_of_kind fun w hw => ?_, by simp⟩
      simp [kind_of_outside (answering_of_saw hV) hl hread w hw]

/-- Every transaction gives new transfers the currency of their source account. -/
theorem Committed.transferCurrencies (hV : ∀ p e, V p e → Saw s p e) (hs : s.Seeded env)
    (ht : s.TransferCurrencies) {α : Type} {l : Label α} (hl : grounds s l) {a : α}
    {ws : List Write} (h : Committed V env l a ws) :
    (database.applyAll ws s).TransferCurrencies := by
  intro t htmem
  rw [applyAll_accounts]
  rcases transferRequests_applyAll ws s htmem with ⟨t₀, ht₀, hsame⟩ | ⟨r, hr, hsame⟩
  · rw [hsame.sourceAccountId, hsame.currency]
    exact ht t₀ ht₀
  · obtain ⟨args, _, source, _, amount, _, _, hcreated⟩ :=
      h.newTransfer (answering_of_saw hV) hl hr
    obtain ⟨howns, hamount⟩ := hcreated.checked.amount_currency hV hs
    obtain ⟨_, _, _, hrow⟩ := hcreated.transferRow
    refine ⟨source, howns.account, ?_⟩
    rw [hsame.sourceAccountId, hsame.currency, hrow]
    exact ⟨rfl, hamount.symm⟩

/-! ## Runs -/

/-- What double entry rests on. -/
structure Store.Sheet (env : Env) (s s' : Store) : Prop where
  extended : s.Extends s'
  seeded : s'.Seeded env
  keys : s'.ForeignKeys
  currencies : s'.TransferCurrencies
  entries : s'.DoubleEntry

/-- The rules of double entry, from the store `s` on. -/
def doubleEntryRules (env : Env) (s : Store) : Rules (server env) Unit Empty :=
  Rules.static (server env) (s.Sheet env) Store.Extends (grounds s) (learned s) (fun _ => [])
    fun _ _ _ _ => True

theorem doubleEntryRules_valid : (doubleEntryRules env s).Valid anySchedule := by
  refine Rules.static_valid lawful_database Store.Extends.refl (fun _ _ _ => .trans)
    (Rules.unguarded_statements (fun _ => rfl) fun _ _ _ _ => trivial) ?_ ?_
  · intro α s' T l h a hc
    have hV : ∀ p e, (doubleEntryRules env s).Evidence s' l p e → Saw s' p e :=
      fun p e he => saw_of_seen (fun _ _ h => h) he.1
    have hcommitted := committed_of_runs (answering_of_saw hV)
      (runs_of_completes hc.path hc.evidence)
    obtain ⟨hext, hseeded, hkeys, hcurrencies, hentries⟩ : s.Sheet env s' := hc.inv
    have hl := grounds_of_extends hext hc.pre
    have hext' := extends_applyAll (writes h) s'
    obtain ⟨entries, hjournalled, hgood⟩ := hcommitted.entries hV hseeded hcurrencies hl
    exact ⟨⟨hext.trans hext', hseeded.of_extends hext', foreignKeys_applyAll hc.admissible hkeys,
      hcommitted.transferCurrencies hV hseeded hcurrencies hl,
      doubleEntry_applyAll hc.admissible hjournalled hkeys hentries hgood⟩, hext',
      hcommitted.learned hext hV⟩
  · intro c call _ _
    exact program_fine ⟨fun _ _ _ hl => hl, fun _ _ _ _ _ _ hpost => hpost⟩ call _ _

/-- Double entry over whole runs: in every store that is committed, under any schedule of any
calls, every journal entry is good, and no later step changes or removes an entry or a posting. -/
theorem double_entry_runs (hs : s.Seeded env) (hkeys : s.ForeignKeys)
    (hempty : s.journalEntries.rows = []) (htransfers : s.TransferCurrencies)
    {c c' : ServerConfig} (hrun : Steps (server env) anySchedule (.initial s) c)
    (hrun' : Steps (server env) anySchedule c c') :
    c.store.DoubleEntry ∧ c.store.journalEntries.rows <+: c'.store.journalEntries.rows ∧
      c.store.postings.rows <+: c'.store.postings.rows := by
  have hinit : s.Sheet env s := ⟨.refl s, hs, hkeys, htransfers, by simp [Store.DoubleEntry, hempty]⟩
  obtain ⟨⟨own, hsound⟩, -⟩ := Rules.sound_of_steps doubleEntryRules_valid hinit hrun
  obtain ⟨-, hle⟩ := hsound.steps doubleEntryRules_valid hrun'
  have hsheet : s.Sheet env c.store := hsound.inv
  have hext : c.store.Extends c'.store := hle
  exact ⟨hsheet.entries, hext.journalEntries, hext.postings⟩

/-- An internal transfer of the demo customer, up to its commit. -/
def internalSchedule : List (Action Choice Call) :=
  .start (.createTransfer (demoTransfer (.internalAccount demoData.savingsAccountId) 2500)
    (demoContext "k")) :: advances 0 "a" 24

theorem double_entry_internal :
    ∃ c, Steps (server testEnvironment) anySchedule (.initial demoStore) c ∧
      c.store.journalEntries.rows.length = 1 ∧ c.store.DoubleEntry := by
  obtain ⟨c, hrun, hlen⟩ := exists_of_play (server testEnvironment) anySchedule
    (.initial demoStore) internalSchedule (·.store.journalEntries.rows.length = 1)
    (by decide +kernel)
  refine ⟨c, hrun, hlen, (double_entry_runs (seedBaseData_seeded (by decide +kernel) ..)
    (seedBaseData_foreignKeys ..) rfl ?_ hrun .refl).1⟩
  simp [Store.TransferCurrencies, seedBaseData, Store.opening]

/-! ## Why transfers need the currency of their account -/

/-- A pending transfer in euros from an account in dollars. -/
def foreignTransfer : TransferRequest := { pendingTransfer with currency := "EUR" }

/-- The seed with a clearing account in euros and the transfer. -/
def foreignStore : Store :=
  { demoStore with
    ledgerAccounts := demoStore.ledgerAccounts.insert
      ⟨"clearing-eur", none, .clearing, "EUR", .debit⟩
    transferRequests := demoStore.transferRequests.insert foreignTransfer }

/-- The compensation of a transfer that is not in the currency of its source account posts euros
to a ledger account in dollars. -/
theorem foreign_compensation_unbalanced :
    foreignStore.Seeded testEnvironment ∧ foreignStore.ForeignKeys ∧
      foreignStore.journalEntries.rows = [] ∧
      ∃ c, Steps (server testEnvironment) anySchedule (.initial foreignStore) c ∧
        ¬ c.store.DoubleEntry := by
  refine ⟨⟨by decide +kernel, by decide +kernel, by decide +kernel⟩,
    ⟨by decide +kernel, by decide +kernel, by decide +kernel⟩, rfl, ?_⟩
  exact exists_of_play (server testEnvironment) anySchedule (.initial foreignStore)
    (.start (.applyNormalizedEvent (terminalEvent "failed" .failed)) :: advances 0 "a" 19) (¬ ·.store.DoubleEntry)
    (by decide +kernel)

end LedgerCredit
