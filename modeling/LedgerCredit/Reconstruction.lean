import LedgerCredit.BatchItems
import LedgerCredit.Redelivery
import LedgerCredit.StatementLines

/-!
# Statements reconstruct balances

Each line of a statement has a running balance.  It should be the running balance of the line
before, moved by the posting of the line, so that the statement explains the balance of the
account from its opening on (`Reconstructs`).

*One transaction.*  A transaction extends such a statement, if the balances that it read are
still there when it commits (`Committed.reconstructs`).  For the posting loop this is the
projection that it moves; for a chunk it is the snapshot of the run.

*One call after another.*  When each call ends before the next starts, nobody moves a balance
between its read and the commit.  A transfer or an event has all balances to itself.  A batch
run shares its accounts out, so that its workers, which do overlap, never touch one account
(`sequentialRules`).  So the statements of all accounts reconstruct their balances, and no
account is overdrawn (`statements_reconstruct`).
-/

namespace LedgerCredit

open Txn LedgerService

/-! ## Running balances -/

/-- The running balances of some lines follow from an opening balance. -/
def Reconstructs (l : LedgerAccount) : Int → List AccountStatementProjection → Prop
  | _, [] => True
  | balance, line :: lines =>
      line.runningBalanceMinor = balance + computeBalanceEffect line.direction
        l.normalBalanceDirection line.amountMinor ∧
      Reconstructs l line.runningBalanceMinor lines

/-- The balance after some lines. -/
def closing : Int → List AccountStatementProjection → Int
  | balance, [] => balance
  | _, line :: lines => closing line.runningBalanceMinor lines

section Lines

variable {l : LedgerAccount} {balance : Int} {lines lines' : List AccountStatementProjection}

theorem reconstructs_append : Reconstructs l balance (lines ++ lines') ↔
    Reconstructs l balance lines ∧ Reconstructs l (closing balance lines) lines' := by
  induction lines generalizing balance with
  | nil => simp [Reconstructs, closing]
  | cons line lines ih => simp only [List.cons_append, Reconstructs, closing, ih, and_assoc]

/-- The closing balance is the one of the last line. -/
theorem balanceOf_getLast? (b : Option BalanceProjection) :
    balanceOf ((lines.map (·.balance)).getLast?.or b) = closing (balanceOf b) lines := by
  induction lines generalizing b with
  | nil => rfl
  | cons line lines ih =>
      have hcons : ((line :: lines).map (·.balance)).getLast?.or b =
          (lines.map (·.balance)).getLast?.or (some line.balance) := by
        rw [List.map_cons, List.getLast?_cons]
        cases (lines.map (·.balance)).getLast? <;> rfl
      rw [hcons, ih]
      rfl

end Lines

/-- Writes that mirror their postings leave the closing balance of their lines. -/
theorem projected_of_mirrors {s : Store} {ws : List Write} (h : s.Mirrors ws) (s' : Store)
    (accountId : Uuid) : (database.applyAll ws s').projected accountId =
      closing (s'.projected accountId) (linesIn accountId ws) := by
  rw [Store.projected, balanceProjections_applyAll, h.balances, balanceOf_getLast?]
  rfl

/-! ## The ledger service -/

section Posted

variable {V : View} {s : Store} {ledgerAccounts : List LedgerAccount} {ids : List Uuid}
  {journalEntry : JournalEntry} {p ws : List Write} {accountId : Uuid} {l : LedgerAccount}

/-- The line of one turn of the posting loop follows from the projection that was read. -/
theorem reconstructs_posted (hV : ReadsBalance V s accountId) (hmap : s.Mapped ledgerAccounts ids)
    (hl : s.ledgerAccountOf accountId = some l) {input : LedgerPostingInput} {posting : Posting}
    (h : Posted V ledgerAccounts journalEntry input p ws posting) :
    Reconstructs l ((database.applyAll p s).projected accountId) (linesIn accountId ws) := by
  cases h with
  | unlinked _ _ => trivial
  | @linked u lineId accountId' l' b running _ hsome hread hrunning =>
      obtain ⟨hl', -⟩ := customerAccount_some hmap hsome
      let line := statementLineData journalEntry (postingData journalEntry input u) accountId' running
        lineId
      show Reconstructs l _ ([line].filter (·.accountId = accountId))
      by_cases hacc : accountId' = accountId
      · subst hacc
        obtain rfl := Option.some.inj (hl'.symm.trans hl)
        have hbalance : balanceOf b = (database.applyAll p s).projected accountId' := by
          rw [hV _ _ hread, Database.applyAll_append]
          rfl
        rw [List.filter_cons_of_pos (by simp [line, statementLineData]), ← hbalance]
        exact ⟨hrunning, trivial⟩
      · rw [List.filter_cons_of_neg (by simpa [line, statementLineData] using hacc)]
        trivial

theorem reconstructs_postedAll (hV : ReadsBalance V s accountId) (hmap : s.Mapped ledgerAccounts ids)
    (hl : s.ledgerAccountOf accountId = some l) {inputs : List LedgerPostingInput}
    {postings : List Posting} (hids : ∀ input ∈ inputs, input.ledgerAccountId ∈ ids)
    (h : PostedAll V ledgerAccounts journalEntry p inputs ws postings) :
    Reconstructs l ((database.applyAll p s).projected accountId) (linesIn accountId ws) := by
  induction h with
  | nil => trivial
  | @cons p ws ws' input inputs posting postings hposted _ ih =>
      obtain ⟨hid, hids⟩ := List.forall_mem_cons.mp hids
      rw [linesIn_append, reconstructs_append]
      refine ⟨reconstructs_posted hV hmap hl hposted, ?_⟩
      rw [← projected_of_mirrors (mirrors_posted hmap hid hposted), ← Database.applyAll_append]
      exact ih hids

/-- The lines of a journal entry follow from the projections that were read, with writes to other
tables before and after. -/
theorem reconstructs_wrap (hV : ReadsBalance V s accountId) (hsaw : ∀ p e, V p e → Saw s p e)
    (hl : s.ledgerAccountOf accountId = some l) {input : PostJournalEntryInput}
    {postings : List Posting} {rest after : List Write}
    (h : JournalPosted V input p ws journalEntry postings ledgerAccounts rest)
    (hbefore : ∀ w ∈ p, w.kind ≠ .ledger) (hafter : ∀ w ∈ after, w.kind ≠ .ledger) :
    Reconstructs l (s.projected accountId) (linesIn accountId (p ++ ws ++ after)) := by
  have hrest := reconstructs_postedAll hV (saw_findLedgerAccounts (hsaw _ _ h.found)) hl
    (fun x hx => List.mem_map.mpr ⟨x, hx, rfl⟩) h.posted
  have hsame : (database.applyAll (p ++ [.journalEntry journalEntry]) s).projected accountId =
      s.projected accountId := by
    rw [Database.applyAll_append, Store.projected, Store.projected,
      ← (Store.sameLedger_applyAll hbefore s).balanceProjections]
    rfl
  have hlines : linesIn accountId (p ++ ws ++ after) = linesIn accountId rest := by
    obtain ⟨hp, -⟩ := ledgerRows_of_kind accountId "" hbefore
    obtain ⟨ha, -⟩ := ledgerRows_of_kind accountId "" hafter
    rw [linesIn_append, linesIn_append, hp, ha, h.writes, List.append_nil, List.nil_append]
    rfl
  rw [hlines, ← hsame]
  exact hrest

end Posted

/-! ## Transactions -/

namespace BatchService

variable {V : View} {env : Env} {s : Store} {batchRunId accountId : Uuid} {l : LedgerAccount}
  {accounts : List BatchAccountSnapshot} {interestRevenueAccountIds : List (String × Uuid)}
  {effectiveAt : Time} {rows : List InterestRows} {ws running completed : List Write}

theorem linesIn_rowWrites (rows : List InterestRows) : linesIn accountId (rowWrites rows) =
    (rows.map (·.statementLine)).filter (·.accountId = accountId) := by
  have hnone : ∀ α : Type, (rows.flatMap fun _ => ([] : List α)) = [] := by simp
  simp only [linesIn, filterMap_rowWrites]
  simp [List.filterMap_cons, Write.statementLine?, hnone]

/-- The lines of a chunk follow from the balances of the snapshots, if these are the balances of
now. -/
theorem ChunkRun.reconstructs (hV : Answering V) (hnormal : s.CreditNormal)
    (hcurrent : ∀ x ∈ accounts, x.currentMinor.getD 0 = s.projected x.id)
    (hl : s.ledgerAccountOf accountId = some l)
    (h : ChunkRun V env batchRunId accounts interestRevenueAccountIds ws effectiveAt rows running
      completed) : Reconstructs l (s.projected accountId) (linesIn accountId ws) := by
  have hrunning : linesIn accountId running = [] := (ledgerRows_of_kind accountId "" fun w hw => by
    simp [kind_of_updateBatchRunItems hV h.marked w hw]).1
  have hcompleted : linesIn accountId completed = [] := (ledgerRows_of_kind accountId "" fun w hw => by
    simp [kind_of_updateBatchRunItems hV h.closed w hw]).1
  rw [h.writes, linesIn_append, linesIn_append, hrunning, hcompleted, List.append_nil,
    List.nil_append, linesIn_rowWrites]
  -- the accounts of the rows are different, so there is one line at most
  have hone : ((rows.map (·.statementLine)).filter (·.accountId = accountId)).length ≤ 1 := by
    have hdistinct : ((rows.map (·.statementLine)).map (·.accountId)).Nodup := by
      have hsame : (rows.map (·.statementLine)).map (·.accountId) = rows.map (·.balance.accountId) := by
        rw [List.map_map]
        refine List.map_congr_left fun row hrow => ?_
        obtain ⟨x, hx, _, _, _, _, _, rfl⟩ := h.rowOf row hrow
        rfl
      rw [hsame]
      exact h.distinct
    exact length_filter_le_one hdistinct accountId
  cases hlines : (rows.map (·.statementLine)).filter (·.accountId = accountId) with
  | nil => trivial
  | cons line lines =>
      rw [hlines, List.length_cons] at hone
      obtain rfl := List.length_eq_zero_iff.mp (Nat.le_zero.mp (Nat.le_of_succ_le_succ hone))
      obtain ⟨hmem, hacc⟩ := List.mem_filter.mp (hlines ▸ List.mem_singleton_self line)
      obtain ⟨row, hrow, rfl⟩ := List.mem_map.mp hmem
      obtain ⟨x, hx, _, _, _, _, _, rfl⟩ := h.rowOf row hrow
      obtain rfl : x.id = accountId := of_decide_eq_true hacc
      have hcredit : l.normalBalanceDirection = .credit := by
        obtain ⟨hmem, hlink⟩ := ledgerAccountOf_some.mp hl
        exact hnormal l hmem (by simp [hlink])
      simp [Reconstructs, interestRows, computeBalanceEffect, hcredit, hcurrent x hx]

end BatchService

section Commit

variable {V : View} {env : Env} {s : Store} {accountId : Uuid} {l : LedgerAccount} {α : Type}
  {label : Label α} {a : α} {ws : List Write}

/-- The balances of a chunk are the balances of now. -/
def Label.timely (s : Store) : {α : Type} → Label α → Prop
  | _, .processBatchChunk _ accounts _ => ∀ x ∈ accounts, x.currentMinor.getD 0 = s.projected x.id
  | _, _ => True

/-- A transaction extends the statement of an account by lines that reconstruct its balance, if
what it read of the balance is still there. -/
theorem Committed.reconstructs (hV : ReadsBalance V s accountId) (hsaw : ∀ p e, V p e → Saw s p e)
    (hnormal : s.CreditNormal) (hl : s.ledgerAccountOf accountId = some l)
    (hground : grounds s label) (htimely : label.timely s) (h : Committed V env label a ws) :
    Reconstructs l (s.projected accountId) (linesIn accountId ws) := by
  have hnone : ∀ {ws : List Write}, (∀ w ∈ ws, w.kind ≠ .ledger) →
      Reconstructs l (s.projected accountId) (linesIn accountId ws) := by
    intro ws hkind
    rw [(ledgerRows_of_kind accountId "" hkind).1]
    trivial
  cases h with
  | createTransfer hrun =>
      cases hrun with
      | replay _ _ _ => exact hnone (by simp)
      | internal _ _ _ _ hcreated _ _ hposted =>
          exact reconstructs_wrap hV hsaw hl hposted (hcreated.before rfl) (by simp [Write.kind])
      | external _ _ _ _ hcreated _ hposted =>
          exact reconstructs_wrap hV hsaw hl hposted (hcreated.before rfl) (by simp [Write.kind])
  | applyNormalizedEvent hrun =>
      cases hrun with
      | compensated _ _ _ _ hcomp =>
          exact reconstructs_wrap hV hsaw hl hcomp.entry (by simp [Write.kind]) (by simp [Write.kind])
      | _ => exact hnone (by simp [Write.kind])
  | processBatchChunk hrun =>
      exact hrun.reconstructs (answering_of_saw hsaw) hnormal htimely hl
  | processBatchItem hrun =>
      cases hrun with
      | processed _ _ _ hpaid =>
          cases hpaid with
          | none _ => exact hnone (by simp [Write.kind])
          | paid _ _ _ hposted =>
              exact reconstructs_wrap hV hsaw hl hposted (by simp [Write.kind]) (by simp [Write.kind])
      | _ => exact hnone (by simp)
  | statement hread =>
      refine hnone fun w hw => ?_
      simp [kind_of_outside (answering_of_saw hsaw) hground hread w hw]

end Commit

/-! ## Credits -/

section Credits

variable {env : Env} {s : Store} {accountId : Uuid} {l : LedgerAccount} {ws : List Write}

/-- Credits do not lower the balance of a credit-normal account. -/
theorem le_closing {balance : Int} {lines : List AccountStatementProjection}
    (hnormal : l.normalBalanceDirection = .credit) (h : Reconstructs l balance lines)
    (hcredits : ∀ line ∈ lines, line.direction = .credit ∧ 0 < line.amountMinor) :
    balance ≤ closing balance lines := by
  induction lines generalizing balance with
  | nil => exact le_rfl
  | cons line lines ih =>
      obtain ⟨⟨hdirection, hpositive⟩, hrest⟩ := List.forall_mem_cons.mp hcredits
      obtain ⟨hrunning, hreconstructs⟩ := h
      have heffect : computeBalanceEffect line.direction l.normalBalanceDirection line.amountMinor =
          line.amountMinor := by
        simp [computeBalanceEffect, hdirection, hnormal]
      have hle := ih hreconstructs hrest
      simp only [closing]
      omega

/-- The lines of an account are credits if the postings on its ledger account are. -/
theorem credits_of_mirrors (h : s.Mirrors ws) (hl : s.ledgerAccountOf accountId = some l)
    (hpostings : ∀ q ∈ postingsIn l.id ws, q.direction = .credit ∧ 0 < q.amountMinor) :
    ∀ line ∈ linesIn accountId ws, line.direction = .credit ∧ 0 < line.amountMinor := by
  intro line hline
  have hmem : line.entered ∈ (linesIn accountId ws).map (·.entered) := List.mem_map_of_mem hline
  rw [h.postings accountId l hl] at hmem
  obtain ⟨q, hq, heq⟩ := List.mem_map.mp hmem
  have hdirection : q.direction = line.direction := congrArg Entered.direction heq
  have hamount : q.amountMinor = line.amountMinor := congrArg Entered.amountMinor heq
  rw [← hdirection, ← hamount]
  exact hpostings q hq

/-- Batches pay interest to customers. -/
theorem credits_of_batch {V : View} (hV : ∀ p e, V p e → Saw s p e) (hs : s.Seeded env)
    (hl : s.ledgerAccountOf accountId = some l) {α : Type} {label : Label α}
    (hground : grounds s label) (hlabel : ¬ ofTransfers label) {a : α}
    (h : Committed V env label a ws) :
    ∀ q ∈ postingsIn l.id ws, q.direction = .credit ∧ 0 < q.amountMinor := by
  have hbank : ∀ r ∈ s.ledgerAccounts.rows, r.category = .interestRevenue → r.id ≠ l.id := by
    intro r hr hcategory hid
    obtain ⟨hmem, hlink⟩ := ledgerAccountOf_some.mp hl
    obtain rfl := Table.eq_of_pk hr hmem hid
    cases (hs.unlinked r hr (by simp [hcategory])).symm.trans hlink
  have hnone : ∀ {ws : List Write}, (∀ w ∈ ws, w.kind ≠ .ledger) →
      ∀ q ∈ postingsIn l.id ws, q.direction = .credit ∧ 0 < q.amountMinor := by
    intro ws hkind q hq
    rw [(ledgerRows_of_kind accountId l.id hkind).2.1] at hq
    cases hq
  cases h with
  | createTransfer _ => exact absurd trivial hlabel
  | applyNormalizedEvent _ => exact absurd trivial hlabel
  | processBatchChunk hrun =>
      intro q hq
      obtain ⟨hq, hid⟩ := List.mem_filter.mp hq
      rw [(hrun.journalled (answering_of_saw hV)).postings] at hq
      obtain ⟨e, he, hq⟩ := List.mem_flatMap.mp hq
      obtain ⟨row, hrow, rfl⟩ := List.mem_map.mp he
      have hpositive := hrun.positive row hrow
      obtain ⟨x, hx, _, _, revenueId, _, hrevenue, rfl⟩ := hrun.rowOf row hrow
      obtain ⟨r, hr, hrid, -, hcategory⟩ := hground.revenue _ (mapGet_mem hrevenue)
      rcases List.mem_cons.mp hq with rfl | hq
      · exact absurd (hrid.trans (of_decide_eq_true hid)) (hbank r hr hcategory)
      · obtain rfl := List.mem_singleton.mp hq
        exact ⟨rfl, hpositive.2⟩
  | processBatchItem hrun =>
      cases hrun with
      | processed _ _ _ hpaid =>
          cases hpaid with
          | none _ => exact hnone (by simp [Write.kind])
          | paid _ hrevenue _ hposted =>
              obtain ⟨hr, hcategory, -⟩ := saw_findFirstLedgerAccount (hV _ _ hrevenue)
              have hitem : ∀ {id : Uuid} {d : BatchRunItemUpdate},
                  postingsIn l.id [.updateBatchRunItem id d] = [] := rfl
              intro q hq
              rw [postingsIn_append, postingsIn_append, hitem, hitem, List.append_nil,
                List.nil_append] at hq
              obtain ⟨hq, hid⟩ := List.mem_filter.mp hq
              rw [hposted.journalled.postings, List.flatMap_singleton] at hq
              have hrows := hposted.posted.rows.1
              simp only [BatchService.interestInput] at hrows
              cases hrows with
              | cons hdebit hrows =>
                  cases hrows with
                  | cons hcredit hrows =>
                      cases hrows
                      obtain ⟨_, rfl⟩ := hdebit.data
                      obtain ⟨_, rfl⟩ := hcredit.data
                      rcases List.mem_cons.mp hq with rfl | hq
                      · exact absurd (of_decide_eq_true hid) (hbank _ hr hcategory)
                      · obtain rfl := List.mem_singleton.mp hq
                        exact ⟨rfl, hcredit.positive⟩
      | _ => exact hnone (by simp)
  | statement _ => exact absurd hground hlabel

end Credits

/-! ## One call after another -/

/-- Each call ends before the next starts, together with the workers that it left behind. -/
def oneByOne (c : ServerConfig) : Action Choice Call → Bool
  | .start _ => c.quiet
  | _ => true

/-- The accounts whose balances a transaction reads or moves. -/
def Label.balances : {α : Type} → Label α → Set Uuid
  | _, .processBatchChunk _ accounts _ => {a | a ∈ accounts.map (·.id)}
  | _, .processBatchItem _ accountId => {accountId}
  | _, .statement .findActiveAccounts => Set.univ
  | _, .statement _ => ∅
  | _, _ => Set.univ

/-- The items that a statement creates are items of accounts. -/
def Label.createsAccounts : {α : Type} → Label α → Prop
  | _, .statement (.createBatchRunItems data) => ∀ f ∈ data, ∀ id, (f id).resourceType = "account"
  | _, _ => True

/-- What the statement read of the balances of the transaction is still there. -/
structure CurrentIn (s : Store) {α : Type} (l : Label α) (p : List Write) (e : Event Stmt Write) :
    Prop where
  balance : ∀ a b, watched true (fun _ => true) e = some (a, b) → a ∈ l.balances →
    b = (database.applyAll p s).balanceProjections.get? a
  snapshot : ∀ r ws, e = ⟨.findActiveAccounts, r, ws⟩ → ∀ x ∈ r, x.id ∈ l.balances →
    x.currentMinor = ((database.applyAll p s).balanceProjections.get? x.id).map (·.currentMinor)

/-- What a thread that owns some accounts needs for a transaction. -/
structure Works (s₀ s : Store) (T : Set Uuid) {α : Type} (l : Label α) : Prop where
  grounds : grounds s₀ l
  balances : l.balances ⊆ T
  timely : l.timely s
  accounts : l.createsAccounts

/-- What the rows of a read have in common with the store. -/
def apart (s : Store) : {α : Type} → Label α → α → Prop
  | _, .statement .findActiveAccounts, r =>
      (r.map (·.id)).Nodup ∧ ∀ x ∈ r, x.currentMinor.getD 0 = s.projected x.id
  | _, .statement (.findBatchRunItems ..), r => (r.map (·.resourceId)).Nodup
  | _, _, _ => True

/-- What is known after a transaction. -/
structure Worked (s₀ s : Store) (T : Set Uuid) {α : Type} (l : Label α) (r : α) (s' : Store)
    (T' : Set Uuid) : Prop where
  tokens : T' = T
  learned : learned s₀ l r
  apart : apart s' l r
  others : ∀ a ∈ T, a ∉ l.balances →
    s'.balanceProjections.get? a = s.balanceProjections.get? a

/-- The statements explain the balances since the store `s₀`. -/
structure Store.Explained (env : Env) (s₀ s : Store) : Prop where
  stated : s₀.Stated env s
  items : ∀ i ∈ s.batchRunItems.rows, i.resourceType = "account"
  explained : ∀ accountId l, s₀.ledgerAccountOf accountId = some l →
    ∃ lines, s.statementOf accountId = s₀.statementOf accountId ++ lines ∧
      Reconstructs l (s₀.projected accountId) lines ∧
      s.balanceProjections.get? accountId =
        (lines.getLast?.map (·.balance)).or (s₀.balanceProjections.get? accountId)
  solvent : ∀ accountId l, s₀.ledgerAccountOf accountId = some l → 0 ≤ s.projected accountId

/-- The rules of one call after another.  The tokens are accounts, and nobody moves the balance of
an account that another thread owns. -/
def sequentialRules (env : Env) (s₀ : Store) : Rules (server env) Empty Uuid where
  Inv := s₀.Explained env
  le := Store.Extends
  born := fun _ => Set.univ
  rely := fun T s s' => ∀ a ∈ T, s'.balanceProjections.get? a = s.balanceProjections.get? a
  pre := fun s T l => Works s₀ s T l
  post := fun s T l r s' T' => Worked s₀ s T l r s' T'
  done := fun _ _ _ _ => True
  guard := fun _ => []
  Cur := fun s l p e => CurrentIn s l p e

section Commits

variable {env : Env} {s₀ s : Store} {α : Type} {T : Set Uuid} {l : Label α}
  {h : List (Event Stmt Write)} {r : α}

/-- What is known of a transaction that commits. -/
theorem committed_of_sequential (hc : (sequentialRules env s₀).Commits s T l h r) :
    Committed (fun p e => Saw s p e ∧ CurrentIn s l p e) env l r (writes h) :=
  committed_of_runs (answering_of_saw fun _ _ he => he.1) (runs_of_completes hc.path
    (hc.evidence.mono fun _ _ _ he => ⟨saw_of_seen (fun _ _ h => h) he.1, he.2⟩))

theorem saw_of_sequential (hc : (sequentialRules env s₀).Commits s T l h r) :
    Committed (Saw s) env l r (writes h) :=
  committed_of_runs (answering_of_saw fun _ _ h => h) (runs_of_completes hc.path
    (hc.evidence.mono fun _ _ _ he => saw_of_seen (fun _ _ h => h) he.1))

/-- The account of a projection that the posting loop writes has the ledger account of a posting. -/
theorem account_of_postedAll {V : View} {ledgerAccounts : List LedgerAccount} {ids : List Uuid}
    {journalEntry : JournalEntry} {p ws : List Write} (hmap : s.Mapped ledgerAccounts ids)
    {inputs : List LedgerPostingInput} {postings : List Posting} {row : BalanceProjection}
    (h : PostedAll V ledgerAccounts journalEntry p inputs ws postings)
    (hrow : .balanceProjection row ∈ ws) : ∃ input ∈ inputs, ∃ l : LedgerAccount,
      s.ledgerAccountOf row.accountId = some l ∧ l.id = input.ledgerAccountId := by
  induction h with
  | nil => cases hrow
  | cons hposted _ ih =>
      rcases List.mem_append.mp hrow with hrow | hrow
      · cases hposted with
        | unlinked _ _ => simp at hrow
        | linked _ hsome _ _ =>
            obtain rfl : row = _ := by simpa using hrow
            exact ⟨_, List.mem_cons_self .., _, customerAccount_some hmap hsome⟩
      · obtain ⟨input, hinput, hl⟩ := ih hrow
        exact ⟨input, List.mem_cons_of_mem _ hinput, hl⟩

/-- A transaction moves the balances of its accounts only. -/
theorem Committed.moves {V : View} (hV : ∀ p e, V p e → Saw s p e) (hs : s.Seeded env)
    (hground : grounds s l) {ws : List Write} (hcommitted : Committed V env l r ws)
    {row : BalanceProjection} (hrow : .balanceProjection row ∈ ws) : row.accountId ∈ l.balances := by
  cases hcommitted with
  | createTransfer _ => trivial
  | applyNormalizedEvent _ => trivial
  | processBatchChunk hrun =>
      obtain ⟨_, hrunning⟩ := answering_of_saw hV _ _ _ _ hrun.marked
      obtain ⟨_, hcompleted⟩ := answering_of_saw hV _ _ _ _ hrun.closed
      obtain ⟨row', hrow', rfl⟩ : ∃ row' ∈ _, BatchService.InterestRows.balance row' = row := by
        simpa [hrun.writes, hrunning, hcompleted, BatchService.rowWrites] using hrow
      obtain ⟨x, hx, _, _, _, _, _, rfl⟩ := hrun.rowOf row' hrow'
      exact List.mem_map.mpr ⟨x, hx, rfl⟩
  | @processBatchItem _ accountId _ _ hrun =>
      cases hrun with
      | processed _ _ hread hpaid =>
          cases hpaid with
          | none _ => simp at hrow
          | @paid _ _ _ _ _ _ _ rest _ hrevenue _ hposted =>
              obtain ⟨howns, hid⟩ := saw_findAccountWithBalance (hV _ _ hread)
              obtain ⟨hmem, hcategory, -⟩ := saw_findFirstLedgerAccount (hV _ _ hrevenue)
              have hrest : .balanceProjection row ∈ rest := by
                simpa [hposted.writes] using hrow
              obtain ⟨input, hinput, l, hl, hid'⟩ :=
                account_of_postedAll (saw_findLedgerAccounts (hV _ _ hposted.found)) hposted.posted hrest
              rcases List.mem_cons.mp hinput with rfl | hinput
              · obtain ⟨hlmem, hlink⟩ := ledgerAccountOf_some.mp hl
                obtain rfl := Table.eq_of_pk hlmem hmem hid'
                cases (hs.unlinked l hmem (by simp [hcategory])).symm.trans hlink
              · obtain rfl := List.mem_singleton.mp hinput
                exact ((ledgerAccountOf_inj (hid ▸ howns.ledgerAccount) hl).mp hid')
      | _ => cases hrow
  | statement hread =>
      cases kind_of_outside (answering_of_saw hV) hground hread _ hrow

/-- A commit leaves the balances of other accounts alone. -/
theorem kept_of_sequential (hc : (sequentialRules env s₀).Commits s T l h r) {a : Uuid}
    (ha : a ∉ l.balances) : (database.applyAll (writes h) s).balanceProjections.get? a =
      s.balanceProjections.get? a := by
  have hinv : s₀.Explained env s := hc.inv
  have hpre : Works s₀ s T l := hc.pre
  have hground := grounds_of_extends hinv.stated.extended hpre.grounds
  refine projection_frame (fun row hrow hacc => ha ?_) s
  rw [← hacc]
  exact (committed_of_sequential hc).moves (fun _ _ he => he.1) hinv.stated.seeded hground hrow

/-- The lines that a commit adds to the statement of an account follow from its balance. -/
theorem reconstructs_of_sequential (hnormal : s₀.CreditNormal)
    (hc : (sequentialRules env s₀).Commits s T l h r) {accountId : Uuid}
    {ledgerAccount : LedgerAccount} (hl : s₀.ledgerAccountOf accountId = some ledgerAccount) :
    Reconstructs ledgerAccount (s.projected accountId) (linesIn accountId (writes h)) := by
  have hinv : s₀.Explained env s := hc.inv
  have hpre : Works s₀ s T l := hc.pre
  have hext := hinv.stated.extended
  have hground := grounds_of_extends hext hpre.grounds
  have hcommitted := committed_of_sequential hc
  have hl' : s.ledgerAccountOf accountId = some ledgerAccount :=
    (ledgerAccountOf_eq hext.ledgerAccounts accountId).trans hl
  by_cases hacc : accountId ∈ l.balances
  · refine hcommitted.reconstructs (fun p b he => he.2.balance accountId b rfl hacc)
      (fun _ _ he => he.1) (fun l hl => hnormal l (hext.ledgerAccounts ▸ hl)) hl' hground hpre.timely
  · -- it moves no balance of the account, so it writes no line of it
    have hmirrors := hcommitted.mirrors (fun _ _ he => he.1) hinv.stated.seeded hground
    have hbalances : balancesIn accountId (writes h) = [] := by
      refine List.filter_eq_nil_iff.mpr fun row hrow heq => hacc ?_
      obtain ⟨w, hw, hsome⟩ := List.mem_filterMap.mp hrow
      obtain rfl : w = .balanceProjection row := by
        cases w <;> first | (cases hsome; rfl) | cases hsome
      rw [← of_decide_eq_true heq]
      exact hcommitted.moves (fun _ _ he => he.1) hinv.stated.seeded hground hw
    rw [List.map_eq_nil_iff.mp ((hmirrors.balances accountId).symm.trans hbalances)]
    trivial

/-- A commit overdraws no account. -/
theorem solvent_of_sequential (hnormal : s₀.CreditNormal)
    (hc : (sequentialRules env s₀).Commits s T l h r) {accountId : Uuid}
    {ledgerAccount : LedgerAccount} (hl : s₀.ledgerAccountOf accountId = some ledgerAccount) :
    0 ≤ (database.applyAll (writes h) s).projected accountId := by
  have hinv : s₀.Explained env s := hc.inv
  have hpre : Works s₀ s T l := hc.pre
  have hext := hinv.stated.extended
  have hground := grounds_of_extends hext hpre.grounds
  have hcommitted := committed_of_sequential hc
  have hsaw : ∀ p e, Saw s p e ∧ CurrentIn s l p e → Saw s p e := fun _ _ he => he.1
  have hl' : s.ledgerAccountOf accountId = some ledgerAccount :=
    (ledgerAccountOf_eq hext.ledgerAccounts accountId).trans hl
  have hnonneg := hinv.solvent accountId ledgerAccount hl
  have hmirrors := hcommitted.mirrors hsaw hinv.stated.seeded hground
  obtain ⟨hmem, hlink⟩ := ledgerAccountOf_some.mp hl
  have hcredit := hnormal ledgerAccount hmem (by simp [hlink])
  by_cases hacc : accountId ∈ l.balances
  · by_cases hlabel : ofTransfers l
    · have hcategory : ledgerAccount.category ≠ .clearing := by
        intro hclearing
        have hnone := hinv.stated.seeded.unlinked ledgerAccount (ledgerAccountOf_some.mp hl').1
          (by simp [hclearing])
        cases hnone.symm.trans hlink
      have hchunk : l.isChunk = false := (ofTransfers_grounds (s := s) hlabel).2
      have hopening := hcommitted.openingBalance
        (fun p b he => he.2.balance accountId b rfl hacc) hsaw hl' hground hchunk hc.admissible
      rw [projected_applyAll hc.admissible hopening]
      refine hcommitted.solvent hsaw hcredit hcategory hl'
        (fun p found he => he.2.balance accountId found.balanceProjection rfl hacc) hlabel hnonneg
    · have hcredits := credits_of_batch hsaw hinv.stated.seeded hl' hground hlabel hcommitted
      rw [projected_of_mirrors hmirrors]
      exact hnonneg.trans (le_closing hcredit (reconstructs_of_sequential hnormal hc hl)
        (credits_of_mirrors hmirrors hl' hcredits))
  · rw [Store.projected, kept_of_sequential hc hacc]
    exact hnonneg

/-- A new item is an item of an account. -/
theorem account_of_item {V : View} (hV : Answering V) (hground : grounds s l)
    (haccounts : l.createsAccounts) {ws : List Write} (hcommitted : Committed V env l r ws)
    {i : BatchRunItem} (hi : .batchRunItem i ∈ ws) : i.resourceType = "account" := by
  have hledger : ∀ {ws : List Write}, (∀ w ∈ ws, w.kind = .ledger) → .batchRunItem i ∉ ws := by
    intro ws hkind hmem
    cases hkind _ hmem
  cases hcommitted with
  | createTransfer hrun =>
      cases hrun with
      | replay _ _ _ => cases hi
      | internal _ _ _ _ hcreated _ _ hposted =>
          simp [hcreated.writes, hledger hposted.kind] at hi
      | external _ _ _ _ hcreated _ hposted =>
          simp [hcreated.writes, hledger hposted.kind] at hi
  | applyNormalizedEvent hrun =>
      cases hrun with
      | compensated _ _ _ _ hcomp => simp [hledger hcomp.entry.kind] at hi
      | _ => simp at hi
  | processBatchChunk hrun =>
      obtain ⟨_, hrunning⟩ := hV _ _ _ _ hrun.marked
      obtain ⟨_, hcompleted⟩ := hV _ _ _ _ hrun.closed
      simp [hrun.writes, hrunning, hcompleted, hledger BatchService.rowWrites_kind] at hi
  | processBatchItem hrun =>
      cases hrun with
      | processed _ _ _ hpaid => simp [hledger hpaid.kind] at hi
      | _ => cases hi
  | @statement _ q _ ws hread =>
      have hanswer := hV _ _ _ _ hread
      cases q with
      | createBatchRunItems data =>
          obtain ⟨uuid, rfl⟩ := hanswer
          obtain ⟨d, hd, heq⟩ := List.mem_map.mp hi
          cases heq
          exact haccounts d.1 (List.fst_mem_of_mem_zipIdx hd) _
      | _ => first
          | exact False.elim hground
          | (obtain rfl := hanswer; simp at hi)
          | (obtain ⟨_, rfl⟩ := hanswer; simp at hi)

/-- The items stay items of accounts. -/
theorem items_of_sequential (hc : (sequentialRules env s₀).Commits s T l h r) :
    ∀ i ∈ (database.applyAll (writes h) s).batchRunItems.rows, i.resourceType = "account" := by
  have hinv : s₀.Explained env s := hc.inv
  have hpre : Works s₀ s T l := hc.pre
  have hground := grounds_of_extends hinv.stated.extended hpre.grounds
  intro i hi
  have hfound := Table.find?_eq_some.mpr ⟨hi, rfl⟩
  cases hbefore : s.batchRunItems.find? (i.batchRunId, i.resourceType, i.resourceId) with
  | some j =>
      obtain ⟨hmem, hkey⟩ := Table.find?_mem hbefore
      have hsame : j.batchRunId = i.batchRunId ∧ j.resourceType = i.resourceType ∧
        j.resourceId = i.resourceId := by simpa using hkey
      rw [← hsame.2.1]
      exact hinv.items j hmem
  | none =>
      refine findItem_created (P := fun i => i.resourceType = "account") hbefore hfound
        (fun g hg => ?_) fun w _ j hj => ?_
      · exact account_of_item (answering_of_saw fun _ _ he => he.1) hground hpre.accounts
          (committed_of_sequential hc) hg
      · rw [(w.onItem_same j).2.1]
        exact hj

/-- A commit keeps the statements explained. -/
theorem explained_of_commits (hnormal : s₀.CreditNormal)
    (hc : (sequentialRules env s₀).Commits s T l h r) :
    s₀.Explained env (database.applyAll (writes h) s) where
  stated := by
    have hinv : s₀.Explained env s := hc.inv
    have hground := grounds_of_extends hinv.stated.extended hc.pre.grounds
    exact stated_of_committed hinv.stated hground hc.admissible (saw_of_sequential hc)
  items := items_of_sequential hc
  explained := by
    intro accountId ledgerAccount hl
    have hinv : s₀.Explained env s := hc.inv
    obtain ⟨lines, hlines, hreconstructs, hlast⟩ := hinv.explained accountId ledgerAccount hl
    have hground := grounds_of_extends hinv.stated.extended hc.pre.grounds
    have hmirrors := (committed_of_sequential hc).mirrors (fun _ _ he => he.1) hinv.stated.seeded
      hground
    have hclosing : s.projected accountId = closing (s₀.projected accountId) lines := by
      rw [Store.projected, hlast, ← List.getLast?_map, balanceOf_getLast?]
      rfl
    have hnew := reconstructs_of_sequential hnormal hc hl
    rw [hclosing] at hnew
    refine ⟨lines ++ linesIn accountId (writes h), ?_, reconstructs_append.mpr ⟨hreconstructs, hnew⟩,
      ?_⟩
    · rw [statementOf_applyAll hc.admissible, hlines, List.append_assoc]
    · show (database.applyAll (writes h) s).balanceProjections.get? accountId = _
      rw [balanceProjections_applyAll, hmirrors.balances, hlast, List.getLast?_map,
        List.getLast?_append, Option.map_or, Option.or_assoc]
  solvent := fun _ _ hl => solvent_of_sequential hnormal hc hl

/-- The rows of a read are as the process needs them. -/
theorem apart_of_sequential (hc : (sequentialRules env s₀).Commits s T l h r) :
    apart (database.applyAll (writes h) s) l r := by
  cases l with
  | statement q =>
      cases q with
      | findActiveAccounts =>
          refine ⟨BatchService.distinctAccounts_of_committed (saw_of_sequential hc), fun x hx => ?_⟩
          obtain ⟨hseen, hcurrent⟩ := runs_send.mp (runs_of_completes hc.path
            (hc.evidence.mono fun _ _ _ he => he))
          have hnone : writes h = [] :=
            answering_of_saw (fun _ _ h => h) _ _ _ _ (saw_of_seen (fun _ _ h => h) hseen)
          have hbalance := hcurrent.snapshot r _ rfl x hx trivial
          show _ = balanceOf ((database.applyAll (writes h) s).balanceProjections.get? x.id)
          rw [hnone, hbalance]
          rfl
      | findBatchRunItems b status =>
          obtain ⟨s₁, ch, hinv, -, hexec⟩ := runs_send.mp (runs_of_completes hc.path
            (hc.evidence.mono fun _ _ _ he => he.1))
          have hitems : s₀.Explained env s₁ := hinv
          have hreply : Except.ok (arrange ch.order (s₁.itemsOf b (some status)), []) =
            (Except.ok (r, writes h) : Except TxError _) := hexec
          obtain ⟨rfl, -⟩ := Prod.mk.inj (Except.ok.inj hreply)
          refine (((arrange_perm ch.order _).map _).nodup_iff).mpr (List.Nodup.map_on ?_ ?_)
          · intro i hi j hj hid
            obtain ⟨himem, hiof⟩ := List.mem_filter.mp hi
            obtain ⟨hjmem, hjof⟩ := List.mem_filter.mp hj
            simp only [Bool.and_eq_true, decide_eq_true_eq] at hiof hjof
            refine Table.eq_of_uk himem hjmem rfl ?_
            rw [hjof.1, hiof.1, hitems.items i himem, hitems.items j hjmem, hid]
          · exact (List.Nodup.of_map _ s₁.batchRunItems.pk_nodup).filter _
      | _ => trivial
  | _ => trivial

end Commits

/-! ## Processes -/

section Processes

variable {env : Env} {s₀ s : Store} {T : Set Uuid}

/-- A transaction that a call about transfers runs. -/
def transferring {α : Type} (l : Label α) : Prop := ofTransfers l ∧ l.createsAccounts

theorem transferring_parts : TransferParts fun p => Proc.Uses transferring p where
  pure := fun _ => .pure
  throw := fun _ => .throw
  bind := fun hp hf => .bind hp hf
  statement := by
    intro α q hq
    refine .transaction ⟨outside_of_plain (plain_of_transferCalls hq), ?_⟩
    cases q with
    | createBatchRunItems data => cases hq
    | _ => trivial
  event := by
    intro event
    have houtside : ∀ {α : Type} {q : Stmt α}, Outside q → (Label.statement q).createsAccounts →
        Proc.Uses transferring (statement q) := fun hq hcreates => .transaction ⟨hq, hcreates⟩
    have hrest : ∀ (transfer : TransferRequest) correlationId, Proc.Uses transferring (do
        auditRecord
          { correlationId
            idempotencyKey := some transfer.idempotencyKey
            actor := some ⟨"external-rail:" ++ event.provider, .system⟩ }
          ⟨ExternalRailService.mapAuditAction event.eventType transfer.status, "transfer_request",
            transfer.id⟩
        return ExternalRailService.mapTransferResponse transfer) :=
      fun _ _ => .bind (houtside (by trivial) (by trivial)) fun _ => .pure
    refine .bind (.transaction ⟨trivial, trivial⟩) fun transfer => ?_
    simp only
    split
    · exact hrest transfer _
    · exact .bind (.bind (houtside (by trivial) (by trivial)) fun _ => .pure) (hrest transfer)
  create := fun _ => .transaction ⟨trivial, trivial⟩

/-- A thread that owns all accounts may run the transactions of transfers. -/
theorem works_of_transferring {α : Type} {l : Label α} (hl : transferring l) :
    Works s₀ s Set.univ l where
  grounds := (ofTransfers_grounds hl.1).1
  balances := Set.subset_univ _
  timely := by
    cases l with
    | processBatchChunk _ _ _ => exact False.elim hl.1
    | _ => trivial
  accounts := hl.2

theorem transfer_sequential {call : Call} (hcall : call.ofTransfers = true) :
    (sequentialRules env s₀).Safe (call.program env) (fun _ _ _ => True) (fun _ _ _ => True) s
      Set.univ := by
  refine Rules.Safe.of_uses_knowing (P := fun _ T => T = Set.univ)
    (transferProgram_parts transferring_parts hcall) (fun _ _ _ _ h => h) ?_ ?_ rfl
  · rintro β s T l hl rfl
    exact works_of_transferring hl
  · rintro β s T l b s' T' - rfl hworked
    exact hworked.tokens

/-- A batch run shares out its accounts while their balances are those of its snapshot. -/
theorem shares_sequential (batchRunId : Uuid) : BatchService.Shares (sequentialRules env s₀) s₀
    batchRunId (fun a => {a}) fun x s => x.currentMinor.getD 0 = s.projected x.id where
  disjoint := fun hne => Set.disjoint_singleton.mpr hne
  move := by
    refine fun {s s' T x} hmove hheld => ⟨hheld.1, ?_⟩
    have hkept : s'.balanceProjections.get? x.id = s.balanceProjections.get? x.id :=
      hmove.rely x.id (hheld.1 rfl)
    exact hheld.2.trans (congrArg balanceOf hkept.symm)
  item := fun hheld => ⟨trivial, hheld.1, trivial, trivial⟩
  failed := fun _ _ => ⟨trivial, Set.empty_subset _, trivial, trivial⟩
  chunk := by
    refine fun hground hheld => ⟨hground, fun a ha => ?_, fun x hx => (hheld x hx).2, trivial⟩
    obtain ⟨x, hx, rfl⟩ := List.mem_map.mp ha
    exact (hheld x hx).1 rfl
  others := by
    intro s s' T T' accounts revenue u x hworked hnot hheld
    have hkept := hworked.others x.id (hheld.1 rfl) hnot
    exact ⟨hworked.tokens ▸ hheld.1, hheld.2.trans (congrArg balanceOf hkept.symm)⟩
  load := fun _ => ⟨trivial, Set.empty_subset _, trivial, trivial⟩
  loaded := by
    refine fun {s s' T T' currencies r} hworked => ⟨hworked.learned, fun x hheld => ?_⟩
    have hkept := hworked.others x.id (hheld.1 rfl) (Set.notMem_empty _)
    exact ⟨hworked.tokens ▸ hheld.1, hheld.2.trans (congrArg balanceOf hkept.symm)⟩

/-- A statement of a call that owns all accounts. -/
theorem statement_sequential {α β : Type} {q : Stmt α} (hq : Outside q)
    (haccounts : (Label.statement q).createsAccounts) {f : α → Process β}
    {A : β → Store → Set Uuid → Prop}
    (hf : ∀ r s₁ s₂, (sequentialRules env s₀).Move Set.univ s s₁ →
      Worked s₀ s₁ Set.univ (.statement q) r s₂ Set.univ →
        (sequentialRules env s₀).Safe (f r) A (fun _ _ _ => True) s₂ Set.univ) :
    (sequentialRules env s₀).Safe (statement q >>= f) A (fun _ _ _ => True) s Set.univ := by
  refine .bind (.transaction (fun s' _ => ⟨hq, Set.subset_univ _, trivial, haccounts⟩)
    (fun _ _ _ => trivial) fun s' hmove r s'' T'' _ _ hworked => ?_)
  have hall : T'' = Set.univ := Worked.tokens hworked
  subst hall
  exact hf r s' s'' hmove hworked

/-- A process that touches no balance. -/
theorem untouching_sequential {α : Type} {p : Process α} (hp : p.Uses fun l =>
      ∀ s T, Works s₀ s T l) :
    (sequentialRules env s₀).Safe p (fun _ _ _ => True) (fun _ _ _ => True) s T :=
  Rules.Safe.of_uses (P := fun _ => True) hp (fun _ _ _ h => h) (fun s T _ hl _ => hl s T) trivial

theorem uses_untouching {α : Type} {q : Stmt α} (hq : Outside q)
    (hnone : (Label.statement q).balances = ∅) (haccounts : (Label.statement q).createsAccounts) :
    (statement q).Uses fun l => ∀ s T, Works s₀ s T l :=
  .transaction fun _ _ => ⟨hq, hnone ▸ Set.empty_subset _, trivial, haccounts⟩

theorem createsAccounts_itemData {batchRunId : Uuid} {accounts : List BatchAccountSnapshot} :
    (Label.statement (.createBatchRunItems
      (BatchService.itemData env batchRunId accounts))).createsAccounts := by
  intro f hf id
  obtain ⟨p, -, rfl⟩ := List.mem_map.mp hf
  rfl

theorem runBatch_sequential (triggeredBy : String) :
    (sequentialRules env s₀).Safe (BatchService.runBatch env triggeredBy) (fun _ _ _ => True)
      (fun _ _ _ => True) s Set.univ := by
  refine .bind (statement_sequential (by trivial) (by trivial) fun uuid _ s _ _ =>
    Rules.safe_return.mpr ?_)
  refine statement_sequential (by trivial) (by trivial) fun scheduledFor _ s _ _ => ?_
  refine statement_sequential (by trivial) (by trivial) fun startedAt _ s _ _ => ?_
  refine statement_sequential (by trivial) (by trivial) fun batchRun _ s _ _ => ?_
  refine statement_sequential (by trivial) (by trivial) fun accounts _ s _ hread => ?_
  refine statement_sequential (by trivial) createsAccounts_itemData fun _ s₁ s₂ hmove hitems => ?_
  -- nobody moves a balance between the snapshot and the first chunk
  have hheld : ∀ x ∈ accounts, BatchService.Held (fun a => {a})
      (fun x s => x.currentMinor.getD 0 = s.projected x.id) s₂ Set.univ x := by
    refine fun x hx => ⟨Set.subset_univ _, ?_⟩
    have hmoved : s₁.balanceProjections.get? x.id = s.balanceProjections.get? x.id :=
      hmove.rely x.id trivial
    have hkept := hitems.others x.id trivial (Set.notMem_empty _)
    exact (hread.apart.2 x hx).trans (congrArg balanceOf (hkept.trans hmoved).symm)
  refine .bind (.mono (fun _ s T _ => ?_) (fun _ _ _ _ => trivial)
    (BatchService.processBatchRunAccounts_safe (shares_sequential batchRun.id) hread.apart.1
      hread.learned hheld))
  refine untouching_sequential (.bind (uses_untouching (by trivial) rfl trivial) fun _ => ?_)
  refine .bind (uses_untouching (by trivial) rfl trivial) fun _ => ?_
  refine .bind (uses_untouching (by trivial) rfl trivial) fun _ => ?_
  refine .bind (uses_untouching (by trivial) rfl trivial) fun _ => ?_
  refine .bind (uses_untouching (by trivial) rfl trivial) fun _ => ?_
  exact .bind (uses_untouching (by trivial) rfl trivial) fun _ => .pure

/-- A retry hands each of its accounts to one worker. -/
theorem retryFailedItems_sequential (batchRunId : Uuid) (context : RequestContext) :
    (sequentialRules env s₀).Safe (BatchService.retryFailedItems env batchRunId context)
      (fun _ _ _ => True) (fun _ _ _ => True) s Set.univ := by
  refine statement_sequential (by trivial) (by trivial) fun failedItems _ s _ hread => ?_
  split
  · trivial
  · -- the balances of now serve as a snapshot of the accounts
    let accounts : List BatchAccountSnapshot := failedItems.map fun i =>
      ⟨i.resourceId, "", none, some (s.projected i.resourceId)⟩
    have hids : failedItems.map (·.resourceId) = accounts.map (·.id) := by
      simp [accounts, Function.comp_def]
    refine .bind (.mono (fun _ s T _ => ?_) (fun _ _ _ _ => trivial)
      (?_ : Rules.Safe _ (BatchService.processBatchItems env batchRunId _) (fun _ _ _ => True)
        (fun _ _ _ => True) _ _))
    · exact untouching_sequential (.bind (uses_untouching (by trivial) rfl trivial) fun _ => .pure)
    · rw [hids]
      refine .mono (fun _ _ _ _ => trivial) (fun _ _ _ _ => trivial)
        (BatchService.processBatchItems_safe (shares_sequential batchRunId) [] (hids ▸ hread.apart)
          (fun x hx => ⟨Set.subset_univ _, ?_⟩) (by simp))
      obtain ⟨i, -, rfl⟩ := List.mem_map.mp hx
      rfl

theorem sequentialRules_valid (hnormal : s₀.CreditNormal) :
    (sequentialRules env s₀).Valid oneByOne where
  lawful := lawful_database
  le_refl := Store.Extends.refl
  le_trans := fun _ _ _ => .trans
  rely_refl := fun _ _ _ _ => rfl
  rely_trans := fun _ _ _ _ h h' a ha => (h' a ha).trans (h a ha)
  born_mono := fun _ _ _ => Set.Subset.refl _
  statements :=
    { guarded := by simp [sequentialRules]
      current := by
        intro c i ch call pool β α l h q k' k r ws T _ _ hexec _ _
        refine ⟨fun a b hread _ => watched_exec hexec hread, fun r' ws' heq x hx _ => ?_⟩
        cases heq
        cases hexec
        obtain ⟨a, -, rfl⟩ := List.mem_map.mp hx
        rfl
      frame := by
        intro β β' s T l h a T' l' p e hc hpre hdisjoint _ _ hcur
        have hkept : ∀ x ∈ l'.balances,
            (database.applyAll p (database.applyAll (writes h) s)).balanceProjections.get? x =
              (database.applyAll p s).balanceProjections.get? x := by
          refine fun x hx => projection_congr (kept_of_sequential hc fun hmem => ?_) p
          exact Set.disjoint_left.mp hdisjoint (hc.pre.balances hmem) (hpre.balances hx)
        exact ⟨fun x b hread hx => (hcur.balance x b hread hx).trans (hkept x hx).symm,
          fun r ws heq x hx hmem =>
            (hcur.snapshot r ws heq x hx hmem).trans (congrArg _ (hkept x.id hmem).symm)⟩ }
  commit := fun s T l h a hc => ⟨explained_of_commits hnormal hc, extends_applyAll _ s⟩
  guarantee := by
    refine fun s T l h a T' hc hdisjoint x hx => kept_of_sequential hc fun hmem => ?_
    exact Set.disjoint_left.mp hdisjoint (hc.pre.balances hmem) hx
  result := by
    intro β s T l h a hc
    have hinv : s₀.Explained env s := hc.inv
    exact ⟨T, Set.subset_union_left, rfl, (saw_of_sequential hc).learned hinv.stated.extended
      fun _ _ h => h, apart_of_sequential hc, fun x _ hnot => kept_of_sequential hc hnot⟩
  start := by
    intro c call hok _
    refine Or.inr ⟨Config.quietFor_of_quiet hok _, rfl, rfl, fun _ _ _ _ _ => trivial, ?_⟩
    have htransfer : ∀ call : Call, call.ofTransfers = true →
        (sequentialRules env s₀).Safe ((server env).program call)
          ((sequentialRules env s₀).done call) (fun _ _ _ => True) c.store Set.univ :=
      fun call hcall => transfer_sequential hcall
    cases call with
    | runBatch triggeredBy =>
        exact .bind (.mono (fun _ _ _ _ => trivial) (fun _ _ _ _ => trivial)
          (runBatch_sequential triggeredBy))
    | retryFailedItems id context =>
        exact .bind (.mono (fun _ _ _ _ => trivial) (fun _ _ _ _ => trivial)
          (retryFailedItems_sequential id context))
    | _ => exact htransfer _ rfl
  done_le := fun _ _ _ _ _ _ _ _ => trivial
  done_idle := fun _ _ _ => trivial

end Processes

/-- When each call ends before the next starts, the statement of every account reconstructs its
balance: its new lines are the new postings, their running balances follow from the balance that
the account had, the projection shows the last one, and it is never negative. -/
theorem statements_reconstruct {env : Env} {s : Store} (hs : s.Seeded env)
    (hnormal : s.CreditNormal) (hitems : ∀ i ∈ s.batchRunItems.rows, i.resourceType = "account")
    (hlines : s.LinesMirror)
    (hopening : ∀ accountId l, s.ledgerAccountOf accountId = some l → 0 ≤ s.projected accountId)
    {c : ServerConfig} (hrun : Steps (server env) oneByOne (.initial s) c) {accountId : Uuid}
    {l : LedgerAccount} (hl : s.ledgerAccountOf accountId = some l) :
    (c.store.statementOf accountId).map (·.entered) = (c.store.postingsOn l.id).map (·.entered) ∧
      ∃ lines, c.store.statementOf accountId = s.statementOf accountId ++ lines ∧
        Reconstructs l (s.projected accountId) lines ∧
        c.store.balanceProjections.get? accountId =
          (lines.getLast?.map (·.balance)).or (s.balanceProjections.get? accountId) ∧
        0 ≤ c.store.projected accountId := by
  have hinit : s.Explained env s := by
    refine ⟨⟨.refl s, hs, id, id, fun _ _ => rfl⟩, hitems, fun accountId l _ => ?_, hopening⟩
    exact ⟨[], (List.append_nil _).symm, trivial, rfl⟩
  obtain ⟨⟨own, hsound⟩, -⟩ := Rules.sound_of_steps (sequentialRules_valid hnormal) hinit hrun
  have hinv : s.Explained env c.store := hsound.inv
  obtain ⟨lines, hstatement, hreconstructs, hlast⟩ := hinv.explained accountId l hl
  have hl' : c.store.ledgerAccountOf accountId = some l :=
    (ledgerAccountOf_eq hinv.stated.extended.ledgerAccounts accountId).trans hl
  exact ⟨hinv.stated.mirror hlines accountId l hl', lines, hstatement, hreconstructs, hlast,
    hinv.solvent accountId l hl⟩

/-! ## A transfer and then a batch run -/

/-- A transfer of the demo customer, and a batch run when it has ended. -/
def inTurn : List (Action Choice Call) :=
  .start (.createTransfer (demoTransfer (.internalAccount demoData.savingsAccountId) 2500)
    (demoContext "k")) :: (advances 0 "a" 24 ++ .start (.runBatch "scheduler") :: advances 1 "b" 49)

theorem statements_reconstruct_inTurn :
    ∃ c, Steps (server testEnvironment) oneByOne (.initial demoStore) c ∧
      (c.store.statementOf demoData.checkingAccountId).length = 2 ∧
      (c.store.statementOf demoData.checkingAccountId).map (·.entered) =
        (c.store.postingsOn checkingLedger.id).map (·.entered) ∧
      ∃ lines, c.store.statementOf demoData.checkingAccountId =
          demoStore.statementOf demoData.checkingAccountId ++ lines ∧
        Reconstructs checkingLedger (demoStore.projected demoData.checkingAccountId) lines ∧
        c.store.balanceProjections.get? demoData.checkingAccountId =
          (lines.getLast?.map (·.balance)).or
            (demoStore.balanceProjections.get? demoData.checkingAccountId) ∧
        0 ≤ c.store.projected demoData.checkingAccountId := by
  obtain ⟨c, hrun, hlength⟩ := exists_of_play (server testEnvironment) oneByOne (.initial demoStore)
    inTurn (fun c => (c.store.statementOf demoData.checkingAccountId).length = 2)
    (by decide +kernel)
  have hempty : demoStore.LinesMirror := fun _ _ _ => rfl
  have hopening : ∀ accountId l, demoStore.ledgerAccountOf accountId = some l →
      0 ≤ demoStore.projected accountId := by
    intro accountId l _
    have hrows : ∀ r ∈ demoStore.balanceProjections.rows, 0 ≤ r.currentMinor := by decide +kernel
    cases hget : demoStore.balanceProjections.get? accountId with
    | none => simp [Store.projected, hget, balanceOf]
    | some r => simpa [Store.projected, hget, balanceOf] using hrows r (Table.get?_eq_some.mp hget).1
  exact ⟨c, hrun, hlength, statements_reconstruct (seedBaseData_seeded (by decide +kernel) ..)
    creditNormal_demoStore (by decide +kernel) hempty hopening hrun checkingLedger_owned⟩

end LedgerCredit
