import LedgerCredit.Accruals
import LedgerCredit.Snapshots

/-!
# Statement lines

The statement of an account is a second record of what the postings on its ledger account
say, and the balance projection is a third.  `postJournalEntry` writes a line and a
projection for each posting on a linked ledger account, and `processBatchChunk` inserts its
postings, its lines and its projections in bulk.

*Mirrors.*  Some writes mirror the postings if, account by account and in order, their lines
are the postings on its ledger account, and their projections are the balances of their
lines.  Writes that mirror them may be put together (`Mirrors.append`), so it is enough to
look at one turn of the posting loop and at one row of a chunk.

*Stores.*  Under any schedule, also one that loses updates, the lines of an account stay in
step with the postings on its ledger account (`lines_mirror_postings`), and its projection
shows the balance of its last line (`projection_shows_last_line`).

*Order.*  The rows of a table stand in the order of the commits.  Two transactions that overlap
may insert their rows in another order, and `getLedgerEntries` sorts the lines by `effectiveAt` and
`id`, so the last line here is the one that was committed last.
-/

namespace LedgerCredit

open Txn LedgerService

/-! ## Lines, postings and projections -/

/-- What a statement line says of its posting. -/
structure Entered where
  postingId : Uuid
  journalEntryId : Uuid
  amountMinor : Int
  currency : String
  direction : Direction
  deriving DecidableEq

def AccountStatementProjection.entered (line : AccountStatementProjection) : Entered :=
  ⟨line.postingId, line.journalEntryId, line.amountMinor, line.currency, line.direction⟩

def Posting.entered (p : Posting) : Entered :=
  ⟨p.id, p.journalEntryId, p.amountMinor, p.currency, p.direction⟩

/-- The balance that a line leaves, as the projection of its account shows it. -/
def AccountStatementProjection.balance (line : AccountStatementProjection) : BalanceProjection :=
  ⟨line.accountId, line.currency, line.runningBalanceMinor, some line.journalEntryId⟩

/-- The projection that a write puts in place. -/
def Write.balanceProjection? : Write → Option BalanceProjection
  | .balanceProjection r => some r
  | _ => none

/-- The statement lines of an account, in the order of the commits. -/
def Store.statementOf (s : Store) (accountId : Uuid) : List AccountStatementProjection :=
  s.statementLines.rows.filter (·.accountId = accountId)

/-- The postings on a ledger account, in the order of the commits. -/
def Store.postingsOn (s : Store) (ledgerAccountId : Uuid) : List Posting :=
  s.postings.rows.filter (·.ledgerAccountId = ledgerAccountId)

/-- The lines of an account among some writes. -/
def linesIn (accountId : Uuid) (ws : List Write) : List AccountStatementProjection :=
  (ws.filterMap Write.statementLine?).filter (·.accountId = accountId)

/-- The postings on a ledger account among some writes. -/
def postingsIn (ledgerAccountId : Uuid) (ws : List Write) : List Posting :=
  (ws.filterMap Write.posting?).filter (·.ledgerAccountId = ledgerAccountId)

/-- The projections of an account among some writes. -/
def balancesIn (accountId : Uuid) (ws : List Write) : List BalanceProjection :=
  (ws.filterMap Write.balanceProjection?).filter (·.accountId = accountId)

section Writes

variable {accountId id : Uuid} {ws ws' : List Write}

@[simp] theorem linesIn_append :
    linesIn accountId (ws ++ ws') = linesIn accountId ws ++ linesIn accountId ws' := by
  simp [linesIn]

@[simp] theorem postingsIn_append :
    postingsIn id (ws ++ ws') = postingsIn id ws ++ postingsIn id ws' := by
  simp [postingsIn]

@[simp] theorem balancesIn_append :
    balancesIn accountId (ws ++ ws') = balancesIn accountId ws ++ balancesIn accountId ws' := by
  simp [balancesIn]

theorem ledgerRows_of_kind (accountId id : Uuid) (h : ∀ w ∈ ws, w.kind ≠ .ledger) :
    linesIn accountId ws = [] ∧ postingsIn id ws = [] ∧ balancesIn accountId ws = [] := by
  have hnone : ∀ w ∈ ws, w.statementLine? = none ∧ w.posting? = none ∧
      w.balanceProjection? = none := by
    intro w hw
    have hkind := h w hw
    cases w <;> first | exact ⟨rfl, rfl, rfl⟩ | exact absurd rfl hkind
  have hlines : ws.filterMap Write.statementLine? = [] :=
    List.filterMap_eq_nil_iff.mpr fun w hw => (hnone w hw).1
  have hpostings : ws.filterMap Write.posting? = [] :=
    List.filterMap_eq_nil_iff.mpr fun w hw => (hnone w hw).2.1
  have hbalances : ws.filterMap Write.balanceProjection? = [] :=
    List.filterMap_eq_nil_iff.mpr fun w hw => (hnone w hw).2.2
  simp [linesIn, postingsIn, balancesIn, hlines, hpostings, hbalances]

end Writes

/-! ## Mirrors -/

/-- The lines among some writes are the postings on the ledger account, and the projections are
the balances of the lines. -/
structure Store.Mirrors (s : Store) (ws : List Write) : Prop where
  postings : ∀ accountId l, s.ledgerAccountOf accountId = some l →
    (linesIn accountId ws).map (·.entered) = (postingsIn l.id ws).map (·.entered)
  balances : ∀ accountId, balancesIn accountId ws = (linesIn accountId ws).map (·.balance)

namespace Store.Mirrors

variable {s : Store} {ws ws' : List Write}

theorem of_kind (h : ∀ w ∈ ws, w.kind ≠ .ledger) : s.Mirrors ws where
  postings := by
    intro accountId l _
    obtain ⟨hlines, hpostings, -⟩ := ledgerRows_of_kind accountId l.id h
    simp [hlines, hpostings]
  balances := by
    intro accountId
    obtain ⟨hlines, -, hbalances⟩ := ledgerRows_of_kind accountId "" h
    simp [hlines, hbalances]

theorem append (h : s.Mirrors ws) (h' : s.Mirrors ws') : s.Mirrors (ws ++ ws') where
  postings := by
    intro accountId l hl
    rw [linesIn_append, postingsIn_append, List.map_append, List.map_append,
      h.postings accountId l hl, h'.postings accountId l hl]
  balances := by
    intro accountId
    rw [balancesIn_append, linesIn_append, List.map_append, h.balances, h'.balances]

/-- Writes to other tables before and after make no difference. -/
theorem wrap {before after : List Write} (h : s.Mirrors ws) (hbefore : ∀ w ∈ before, w.kind ≠ .ledger)
    (hafter : ∀ w ∈ after, w.kind ≠ .ledger) : s.Mirrors (before ++ ws ++ after) :=
  ((of_kind hbefore).append h).append (of_kind hafter)

/-- A posting on a ledger account of no account. -/
theorem unlinked {posting : Posting}
    (h : ∀ accountId l, s.ledgerAccountOf accountId = some l → l.id ≠ posting.ledgerAccountId) :
    s.Mirrors [.posting posting] where
  postings := by
    intro accountId l hl
    simp [linesIn, postingsIn, Write.statementLine?, Write.posting?, (h accountId l hl).symm]
  balances := fun _ => rfl

/-- A posting on a linked ledger account, with its projection and its line. -/
theorem linked {posting : Posting} (line : AccountStatementProjection) {l : LedgerAccount}
    (hentered : line.entered = posting.entered) (hl : s.ledgerAccountOf line.accountId = some l)
    (hid : posting.ledgerAccountId = l.id) :
    s.Mirrors [.posting posting, .balanceProjection line.balance, .statementLine line] where
  postings := by
    intro accountId l' hl'
    have hiff : posting.ledgerAccountId = l'.id ↔ line.accountId = accountId := by
      rw [hid]
      exact ledgerAccountOf_inj hl' hl
    by_cases hacc : line.accountId = accountId
    · simp [linesIn, postingsIn, List.filterMap_cons, Write.statementLine?, Write.posting?, hacc,
        hiff.mpr hacc, hentered]
    · simp [linesIn, postingsIn, List.filterMap_cons, Write.statementLine?, Write.posting?, hacc,
        mt hiff.mp hacc]
  balances := by
    intro accountId
    have hsame : line.balance.accountId = line.accountId := rfl
    by_cases hacc : line.accountId = accountId <;>
      simp [linesIn, balancesIn, List.filterMap_cons, Write.statementLine?, Write.balanceProjection?,
        hsame, hacc]

end Store.Mirrors

/-! ## The ledger service -/

section Posted

variable {V : View} {s : Store} {ledgerAccounts : List LedgerAccount} {ids : List Uuid}
  {journalEntry : JournalEntry} {p ws : List Write}

/-- One turn of the posting loop. -/
theorem mirrors_posted (hmap : s.Mapped ledgerAccounts ids) {input : LedgerPostingInput}
    {posting : Posting} (hid : input.ledgerAccountId ∈ ids)
    (h : Posted V ledgerAccounts journalEntry input p ws posting) : s.Mirrors ws := by
  cases h with
  | unlinked _ hnone =>
      exact .unlinked fun accountId l hl => customerAccount_none hmap hid hnone hl
  | @linked u lineId accountId l b running _ hsome _ _ =>
      obtain ⟨hl, hledger⟩ := customerAccount_some hmap hsome
      exact .linked (statementLineData journalEntry (postingData journalEntry input u) accountId
        running lineId) rfl hl hledger.symm

theorem mirrors_postedAll (hmap : s.Mapped ledgerAccounts ids) {inputs : List LedgerPostingInput}
    {postings : List Posting} (hids : ∀ input ∈ inputs, input.ledgerAccountId ∈ ids)
    (h : PostedAll V ledgerAccounts journalEntry p inputs ws postings) : s.Mirrors ws := by
  induction h with
  | nil => exact .of_kind (by simp)
  | cons hposted _ ih =>
      obtain ⟨hid, hids⟩ := List.forall_mem_cons.mp hids
      exact (mirrors_posted hmap hid hposted).append (ih hids)

/-- A journal entry of the ledger service. -/
theorem mirrors_journalPosted (hV : ∀ p e, V p e → Saw s p e) {input : PostJournalEntryInput}
    {postings : List Posting} {rest : List Write}
    (h : JournalPosted V input p ws journalEntry postings ledgerAccounts rest) : s.Mirrors ws := by
  have hentry : s.Mirrors [.journalEntry journalEntry] :=
    ⟨fun _ _ _ => rfl, fun _ => rfl⟩
  have hrest : s.Mirrors rest := mirrors_postedAll (saw_findLedgerAccounts (hV _ _ h.found))
    (fun x hx => List.mem_map.mpr ⟨x, hx, rfl⟩) h.posted
  rw [h.writes]
  exact hentry.append hrest

end Posted

/-! ## The chunk -/

namespace BatchService

/-- What is picked from the rows of a chunk, part by part. -/
theorem filterMap_rowWrites {α : Type} (f : Write → Option α) (rows : List InterestRows) :
    (rowWrites rows).filterMap f =
      rows.filterMap (fun r => f (.journalEntry r.journalEntry)) ++
        rows.flatMap (fun r => [Write.posting r.debit, .posting r.credit].filterMap f) ++
        rows.filterMap (fun r => f (.statementLine r.statementLine)) ++
        rows.filterMap (fun r => f (.balanceProjection r.balance)) := by
  simp only [rowWrites, List.filterMap_append, List.filterMap_map, List.filterMap_flatMap,
    Function.comp_def]

/-- The rows of a chunk mirror the postings, if the credit of each row is its line, and the debit
is on a ledger account of no account. -/
theorem mirrors_rowWrites {s : Store} {rows : List InterestRows}
    (hrow : ∀ r ∈ rows, s.Mirrors [.posting r.debit] ∧
      s.Mirrors [.posting r.credit, .balanceProjection r.balance, .statementLine r.statementLine]) :
    s.Mirrors (rowWrites rows) := by
  have hturns : s.Mirrors (rows.flatMap fun r => [Write.posting r.debit] ++
      [.posting r.credit, .balanceProjection r.balance, .statementLine r.statementLine]) := by
    induction rows with
    | nil => exact .of_kind (by simp)
    | cons r rows ih =>
        obtain ⟨⟨hdebit, hcredit⟩, hrows⟩ := List.forall_mem_cons.mp hrow
        rw [List.flatMap_cons]
        exact (hdebit.append hcredit).append (ih hrows)
  -- a chunk writes the same rows table by table
  have hnone : ∀ α : Type, (rows.flatMap fun _ => ([] : List α)) = [] := by simp
  constructor
  · intro accountId l hl
    have hsame := hturns.postings accountId l hl
    simp only [linesIn, postingsIn, filterMap_rowWrites, List.filterMap_flatMap] at hsame ⊢
    simpa [List.filterMap_cons, Write.statementLine?, Write.posting?, ← List.map_eq_flatMap,
      hnone] using
      hsame
  · intro accountId
    have hsame := hturns.balances accountId
    simp only [linesIn, balancesIn, filterMap_rowWrites, List.filterMap_flatMap] at hsame ⊢
    simpa [List.filterMap_cons, Write.statementLine?, Write.balanceProjection?,
      ← List.map_eq_flatMap,
      hnone] using hsame

/-- A chunk mirrors its postings: it credits customers, and debits the bank. -/
theorem ChunkRun.mirrors {V : View} (hV : Answering V) {env : Env} {s : Store} (hs : s.Seeded env)
    {batchRunId : Uuid} {accounts : List BatchAccountSnapshot}
    {interestRevenueAccountIds : List (String × Uuid)}
    (hground : s.Grounded accounts interestRevenueAccountIds) {ws running completed : List Write}
    {effectiveAt : Time} {rows : List InterestRows}
    (h : ChunkRun V env batchRunId accounts interestRevenueAccountIds ws effectiveAt rows running
      completed) : s.Mirrors ws := by
  rw [h.writes]
  refine .wrap (mirrors_rowWrites fun row hrow => ?_) (fun w hw => ?_) fun w hw => ?_
  · obtain ⟨x, hx, uuid, ledgerAccountId, revenueId, hledger, hrevenue, rfl⟩ := h.rowOf row hrow
    obtain ⟨a, -, hid, -, haccount⟩ := hground.snapshot x hx
    obtain ⟨l, hl, rfl⟩ := Option.map_eq_some_iff.mp (haccount.symm.trans hledger)
    rw [← hid] at hl
    obtain ⟨r, hr, hrid, -, hcategory⟩ := hground.revenue _ (mapGet_mem hrevenue)
    refine ⟨.unlinked fun accountId l' hl' heq => ?_,
      .linked (interestRows _ _ _ _ _ _ _ _).statementLine rfl hl rfl⟩
    obtain ⟨hmem, hlink⟩ := ledgerAccountOf_some.mp hl'
    obtain rfl := Table.eq_of_pk hmem hr (heq.trans hrid.symm)
    cases (hs.unlinked l' hr (by simp [hcategory])).symm.trans hlink
  · simp [kind_of_updateBatchRunItems hV h.marked w hw]
  · simp [kind_of_updateBatchRunItems hV h.closed w hw]

end BatchService

/-! ## Commits -/

section Commit

variable {env : Env} {s : Store} {ws : List Write} {α : Type} {label : Label α} {a : α}

/-- Every transaction mirrors its postings. -/
theorem Committed.mirrors {V : View} (hV : ∀ p e, V p e → Saw s p e) (hs : s.Seeded env)
    (hground : grounds s label) (h : Committed V env label a ws) : s.Mirrors ws := by
  cases h with
  | createTransfer hrun =>
      cases hrun with
      | replay _ _ _ => exact .of_kind (by simp)
      | internal _ _ _ _ hcreated _ _ hposted =>
          exact (mirrors_journalPosted hV hposted).wrap (hcreated.before rfl) (by simp [Write.kind])
      | external _ _ _ _ hcreated _ hposted =>
          exact (mirrors_journalPosted hV hposted).wrap (hcreated.before rfl) (by simp [Write.kind])
  | applyNormalizedEvent hrun =>
      cases hrun with
      | compensated _ _ _ _ hcomp =>
          exact (mirrors_journalPosted hV hcomp.entry).wrap (by simp [Write.kind])
            (by simp [Write.kind])
      | _ => exact .of_kind (by simp [Write.kind])
  | processBatchChunk hrun => exact hrun.mirrors (answering_of_saw hV) hs hground
  | processBatchItem hrun =>
      cases hrun with
      | processed _ _ _ hpaid =>
          cases hpaid with
          | none _ => exact .of_kind (by simp [Write.kind])
          | paid _ _ _ hposted =>
              exact (mirrors_journalPosted hV hposted).wrap (by simp [Write.kind])
                (by simp [Write.kind])
      | _ => exact .of_kind (by simp)
  | statement hread =>
      refine .of_kind fun w hw => ?_
      simp [kind_of_outside (answering_of_saw hV) hground hread w hw]

theorem statementOf_applyAll (hadm : database.Admissible s ws) (accountId : Uuid) :
    (database.applyAll ws s).statementOf accountId =
      s.statementOf accountId ++ linesIn accountId ws := by
  rw [Store.statementOf, statementLines_applyAll hadm, List.filter_append]
  rfl

theorem postingsOn_applyAll (hadm : database.Admissible s ws) (id : Uuid) :
    (database.applyAll ws s).postingsOn id = s.postingsOn id ++ postingsIn id ws := by
  rw [Store.postingsOn, postings_applyAll hadm, List.filter_append]
  rfl

/-- The last projection that is written is the one that is there. -/
theorem balanceProjections_applyAll (accountId : Uuid) :
    (database.applyAll ws s).balanceProjections.get? accountId =
      (balancesIn accountId ws).getLast?.or (s.balanceProjections.get? accountId) := by
  induction ws generalizing s with
  | nil => rfl
  | cons w ws ih =>
      rw [Database.applyAll_cons, ih]
      cases hw : w.balanceProjection? with
      | none =>
          have hsame : (w.apply s).balanceProjections = s.balanceProjections := by
            cases w <;> first | rfl | cases hw
          simp [balancesIn, hw, database, hsame]
      | some r =>
          obtain rfl : w = .balanceProjection r := by
            cases w <;> first | (cases hw; rfl) | cases hw
          have hcons : balancesIn accountId (.balanceProjection r :: ws) =
              [r].filter (·.accountId = accountId) ++ balancesIn accountId ws := by
            show balancesIn accountId ([.balanceProjection r] ++ ws) = _
            exact balancesIn_append
          rw [hcons, List.getLast?_append, Option.or_assoc]
          refine congrArg _ ?_
          show ((Write.balanceProjection r).apply s).balanceProjections.get? accountId = _
          rw [get?_balanceProjection]
          by_cases hacc : r.accountId = accountId <;> simp [hacc]

end Commit

/-! ## Runs -/

/-- The lines of every account are the postings on its ledger account, both in the order of the
commits. -/
def Store.LinesMirror (s : Store) : Prop :=
  ∀ accountId l, s.ledgerAccountOf accountId = some l →
    (s.statementOf accountId).map (·.entered) = (s.postingsOn l.id).map (·.entered)

/-- The projection of an account that has a line shows the balance of the line that was committed
last. -/
def Store.ShowsLast (s : Store) : Prop :=
  ∀ accountId line, (s.statementOf accountId).getLast? = some line →
    s.balanceProjections.get? accountId = some line.balance

/-- What the statements rest on, from the store `s` on. -/
structure Store.Stated (env : Env) (s s' : Store) : Prop where
  extended : s.Extends s'
  seeded : s'.Seeded env
  mirror : s.LinesMirror → s'.LinesMirror
  shows : s.ShowsLast → s'.ShowsLast
  unstated : ∀ accountId, s'.statementOf accountId = [] →
    s'.balanceProjections.get? accountId = s.balanceProjections.get? accountId

section Runs

variable {env : Env} {s s' : Store}

/-- A commit that mirrors its postings keeps the statements in step. -/
theorem Store.LinesMirror.step {ws : List Write} (hs : s.LinesMirror) (h : s.Mirrors ws)
    (hadm : database.Admissible s ws) : (database.applyAll ws s).LinesMirror := by
  intro accountId l hl
  rw [ledgerAccountOf_eq (applyAll_ledgerAccounts ws s) accountId] at hl
  rw [statementOf_applyAll hadm, postingsOn_applyAll hadm, List.map_append, List.map_append,
    hs accountId l hl, h.postings accountId l hl]

theorem Store.ShowsLast.step {ws : List Write} (hs : s.ShowsLast) (h : s.Mirrors ws)
    (hadm : database.Admissible s ws) : (database.applyAll ws s).ShowsLast := by
  intro accountId line hline
  rw [statementOf_applyAll hadm, List.getLast?_append] at hline
  rw [balanceProjections_applyAll, h.balances, List.getLast?_map]
  cases hnew : (linesIn accountId ws).getLast? with
  | some new =>
      obtain rfl : new = line := by simpa [hnew] using hline
      rfl
  | none =>
      rw [hnew, Option.none_or] at hline
      simpa using hs accountId line hline

theorem stated_of_committed {α : Type} {label : Label α} {a : α} {ws : List Write}
    (hs : s.Stated env s') (hground : grounds s' label) (hadm : database.Admissible s' ws)
    (h : Committed (Saw s') env label a ws) : s.Stated env (database.applyAll ws s') := by
  have hmirrors : s'.Mirrors ws := h.mirrors (fun _ _ h => h) hs.seeded hground
  have hext := extends_applyAll ws s'
  refine ⟨hs.extended.trans hext, hs.seeded.of_extends hext, fun h => (hs.mirror h).step hmirrors hadm,
    fun h => (hs.shows h).step hmirrors hadm, fun accountId hnil => ?_⟩
  rw [statementOf_applyAll hadm, List.append_eq_nil_iff] at hnil
  rw [balanceProjections_applyAll, hmirrors.balances, hnil.2, ← hs.unstated accountId hnil.1]
  rfl

theorem stated_of_steps (hs : s.Seeded env) {c : ServerConfig}
    (hrun : Steps (server env) anySchedule (.initial s) c) : s.Stated env c.store := by
  have hvalid : (openRules env s (s.Stated env)).Valid anySchedule :=
    openRules_valid (fun _ h => h.extended) fun _ _ _ _ => stated_of_committed
  have hinit : s.Stated env s := ⟨.refl s, hs, id, id, fun _ _ => rfl⟩
  obtain ⟨⟨own, hsound⟩, -⟩ := Rules.sound_of_steps hvalid hinit hrun
  exact hsound.inv

end Runs

/-- Under any schedule of any calls, every account has one statement line for each posting on its
ledger account, both in the order of the commits, with the same entry, amount, currency and
direction. -/
theorem lines_mirror_postings {env : Env} {s : Store} (hs : s.Seeded env) (hlines : s.LinesMirror)
    {c : ServerConfig} (hrun : Steps (server env) anySchedule (.initial s) c) :
    ∀ accountId l, c.store.ledgerAccountOf accountId = some l →
      (c.store.statementOf accountId).map (·.entered) =
        (c.store.postingsOn l.id).map (·.entered) :=
  (stated_of_steps hs hrun).mirror hlines

/-- A chunk that forgets a transfer still has a line for each posting. -/
theorem lines_mirror_postings_stale :
    ∃ c, Steps (server testEnvironment) anySchedule (.initial demoStore) c ∧
      (c.store.statementOf demoData.checkingAccountId).length = 2 ∧
      (c.store.statementOf demoData.checkingAccountId).map (·.entered) =
        (c.store.postingsOn checkingLedger.id).map (·.entered) := by
  obtain ⟨c, hrun, hlength, howned⟩ := exists_of_play (server testEnvironment) anySchedule
    (.initial demoStore) (interrupted 15)
    (fun c => (c.store.statementOf demoData.checkingAccountId).length = 2 ∧
      c.store.ledgerAccountOf demoData.checkingAccountId = some checkingLedger) (by decide +kernel)
  exact ⟨c, hrun, hlength, lines_mirror_postings (seedBaseData_seeded (by decide +kernel) ..)
    (fun _ _ _ => rfl) hrun _ _ howned⟩

/-- Under any schedule of any calls, the projection of every account shows the balance, the
currency and the entry of the statement line that was committed last; while there is no line it is
left alone. -/
theorem projection_shows_last_line {env : Env} {s : Store} (hs : s.Seeded env) (hshows : s.ShowsLast)
    {c : ServerConfig} (hrun : Steps (server env) anySchedule (.initial s) c) :
    c.store.ShowsLast ∧ ∀ accountId, c.store.statementOf accountId = [] →
      c.store.balanceProjections.get? accountId = s.balanceProjections.get? accountId :=
  ⟨(stated_of_steps hs hrun).shows hshows, (stated_of_steps hs hrun).unstated⟩

theorem projection_shows_last_line_stale :
    ∃ c, Steps (server testEnvironment) anySchedule (.initial demoStore) c ∧
      (c.store.statementOf demoData.checkingAccountId).length = 2 ∧ c.store.ShowsLast := by
  obtain ⟨c, hrun, hlength⟩ := exists_of_play (server testEnvironment) anySchedule
    (.initial demoStore) (interrupted 15)
    (fun c => (c.store.statementOf demoData.checkingAccountId).length = 2) (by decide +kernel)
  refine ⟨c, hrun, hlength, (projection_shows_last_line (seedBaseData_seeded (by decide +kernel) ..)
    (fun _ _ hline => ?_) hrun).1⟩
  cases hline

end LedgerCredit
