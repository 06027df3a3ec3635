import LedgerCredit.LostUpdates
import LedgerCredit.Txn.Log

/-!
# The snapshot of a batch run

`runBatch` reads the balances of all accounts once, outside of any transaction.  Its
chunks write the projections from what was read then, and take no second look.  So a
transfer that commits between the snapshot and the chunk is forgotten, also where every
transaction is atomic.

A chunk is *current* if the balances that it pays interest on are the balances of now, and
the ledger accounts that it debits belong to the bank.  On customer ledger accounts that are
credit-normal a current chunk moves each projection as far as its postings
(`ChunkRun.openingBalance`).  Every other transaction does so anyway.
-/

namespace LedgerCredit

open Txn LedgerService

/-- The ledger accounts of customers grow by credits. -/
def Store.CreditNormal (s : Store) : Prop :=
  ∀ l ∈ s.ledgerAccounts.rows, l.accountId.isSome = true → l.normalBalanceDirection = .credit

/-- The ledger account belongs to no customer account. -/
def Store.ofBank (s : Store) (ledgerAccountId : Uuid) : Bool :=
  s.ledgerAccounts.rows.all fun l => l.id ≠ ledgerAccountId || l.accountId.isNone

/-- A chunk pays interest on the balances of now, from ledger accounts of the bank. -/
def Label.current (env : Env) (s : Store) : {α : Type} → Label α → Bool
  | _, .processBatchChunk _ accounts interestRevenueAccountIds => accounts.all fun x =>
      BatchService.snapshotInterest env x ≤ 0 || x.currentMinor.getD 0 = s.projected x.id &&
        (mapGet interestRevenueAccountIds x.currency).all s.ofBank
  | _, _ => true

/-- Schedules of atomic transactions in which only current chunks commit. -/
def currentChunks (env : Env) (c : ServerConfig) (a : Action Choice Call) : Bool :=
  (server env).Serial c a && CommitsOnly (fun s l _ => l.current env s) c a

section Upserts

variable {s : Store} {accountId : Uuid}

/-- What writing a projection changes of the balance of an account. -/
def balanceChange (s : Store) (accountId : Uuid) (r : BalanceProjection) : Int :=
  if r.accountId = accountId then r.currentMinor - s.projected accountId else 0

/-- Projections of different accounts move a balance one by one. -/
theorem projected_upserts {rows : List BalanceProjection} (h : (rows.map (·.accountId)).Nodup) :
    (database.applyAll (rows.map .balanceProjection) s).projected accountId =
      s.projected accountId + (rows.map (balanceChange s accountId)).sum := by
  induction rows generalizing s with
  | nil => simp
  | cons r rows ih =>
      obtain ⟨hr, hrows⟩ := List.nodup_cons.mp h
      have hstep : ((Write.balanceProjection r).apply s).projected accountId =
          s.projected accountId + balanceChange s accountId r := by
        rw [projected_upsert, balanceChange]
        split <;> omega
      have hrest : (rows.map (balanceChange ((Write.balanceProjection r).apply s) accountId)).sum =
          (rows.map (balanceChange s accountId)).sum := by
        refine congrArg List.sum (List.map_congr_left fun r' hr' => ?_)
        by_cases hacc : r'.accountId = accountId
        · have hne : r.accountId ≠ accountId := fun heq =>
            hr (List.mem_map.mpr ⟨r', hr', hacc.trans heq.symm⟩)
          simp only [balanceChange, projected_upsert, if_neg hne]
        · simp only [balanceChange, if_neg hacc]
      calc (database.applyAll ((r :: rows).map .balanceProjection) s).projected accountId
          = ((Write.balanceProjection r).apply s).projected accountId + (rows.map
              (balanceChange ((Write.balanceProjection r).apply s) accountId)).sum := ih hrows
        _ = s.projected accountId + ((r :: rows).map (balanceChange s accountId)).sum := by
            rw [hstep, hrest, List.map_cons, List.sum_cons, add_assoc]

end Upserts

/-! ## The chunk -/

namespace BatchService

section Chunk

variable {env : Env} {s : Store} {batchRunId accountId : Uuid} {l : LedgerAccount}
  {accounts : List BatchAccountSnapshot} {interestRevenueAccountIds : List (String × Uuid)}
  {effectiveAt : Time} {rows : List InterestRows} {ws running completed : List Write} {V : View}

theorem ne_of_ofBank {ledgerAccountId : Uuid} (h : s.ofBank ledgerAccountId = true)
    (hl : s.ledgerAccountOf accountId = some l) : ledgerAccountId ≠ l.id := by
  rintro rfl
  obtain ⟨hmem, hlink⟩ := ledgerAccountOf_some.mp hl
  have hbank := List.all_eq_true.mp h l hmem
  simp [hlink] at hbank

/-- A current row credits an account as much as it moves its projection. -/
theorem effect_row (hnormal : s.CreditNormal) (hl : s.ledgerAccountOf accountId = some l)
    (hground : s.Grounded accounts interestRevenueAccountIds)
    (hcurrent : (Label.processBatchChunk batchRunId accounts interestRevenueAccountIds).current
      env s = true) {x : BatchAccountSnapshot} (hx : x ∈ accounts)
    (hpositive : 0 < snapshotInterest env x) {row : InterestRows}
    (h : RowOf env batchRunId interestRevenueAccountIds effectiveAt x row) :
    l.effect row.debit + l.effect row.credit = balanceChange s accountId row.balance := by
  obtain ⟨uuid, ledgerAccountId, revenueId, hledger, hrevenue, rfl⟩ := h
  obtain ⟨a, hsnapshot⟩ := hground.snapshot x hx
  have hone := List.all_eq_true.mp hcurrent x hx
  simp only [not_le.mpr hpositive, decide_false, Bool.false_or, Bool.and_eq_true,
    decide_eq_true_eq, hrevenue, Option.all_some] at hone
  obtain ⟨hbalance, hbank⟩ := hone
  rw [hsnapshot.ledgerAccountId] at hledger
  obtain ⟨l', hl', rfl⟩ := Option.map_eq_some_iff.mp hledger
  have hdebit : l.effect (interestRows batchRunId effectiveAt uuid x l'.id revenueId
      (x.currentMinor.getD 0) (snapshotInterest env x)).debit = 0 :=
    if_neg (ne_of_ofBank hbank hl)
  rw [hdebit, zero_add]
  by_cases hid : x.id = accountId
  · subst hid
    rw [hsnapshot.id] at hl
    obtain rfl := Option.some.inj (hl'.symm.trans hl)
    have hcredit : l'.normalBalanceDirection = .credit := by
      obtain ⟨hmem, hlink⟩ := ledgerAccountOf_some.mp hl
      exact hnormal l' hmem (by simp [hlink])
    simp only [LedgerAccount.effect, interestRows, if_true, computeBalanceEffect, hcredit,
      balanceChange, hbalance]
    omega
  · have hne : l'.id ≠ l.id := fun heq => by
      obtain ⟨hmem', hlink'⟩ := ledgerAccountOf_some.mp hl'
      obtain ⟨hmem, hlink⟩ := ledgerAccountOf_some.mp hl
      obtain rfl := Table.eq_of_pk hmem' hmem heq
      exact hid (hsnapshot.id.trans (Option.some.inj (hlink'.symm.trans hlink)))
    exact (if_neg hne).trans (if_neg hid).symm

theorem sum_entriesOf (f : Posting → Int) (rows : List InterestRows) :
    (((entriesOf rows).flatMap (·.2)).map f).sum =
      (rows.map fun row => f row.debit + f row.credit).sum := by
  induction rows with
  | nil => rfl
  | cons row rows ih =>
      simp only [entriesOf, List.map_cons, List.flatMap_cons, List.cons_append, List.nil_append,
        List.sum_cons, add_assoc] at ih ⊢
      rw [ih]

/-- A chunk changes the balances that its rows have. -/
theorem ChunkRun.projected (h : ChunkRun V env batchRunId accounts interestRevenueAccountIds ws
      effectiveAt rows running completed) (hV : Answering V) :
    (database.applyAll ws s).projected accountId =
      s.projected accountId + (rows.map fun r => balanceChange s accountId r.balance).sum := by
  obtain ⟨_, hrunning⟩ := hV _ _ _ _ h.marked
  obtain ⟨_, hcompleted⟩ := hV _ _ _ _ h.closed
  let others : List Write := running ++ (rows.map (.journalEntry ·.journalEntry) ++
    (rows.flatMap fun r => [.posting r.debit, .posting r.credit]) ++
    rows.map (.statementLine ·.statementLine))
  have hsplit : ws = others ++ (rows.map (·.balance)).map .balanceProjection ++ completed := by
    simp [h.writes, others, rowWrites]
  have hothers : ∀ id, (database.applyAll others s).projected id = s.projected id := fun id =>
    congrArg balanceOf (projection_frame (by simp [others, hrunning]) s)
  have hchange : balanceChange (database.applyAll others s) accountId = balanceChange s accountId := by
    funext r
    simp only [balanceChange, hothers]
  calc (database.applyAll ws s).projected accountId
      = (database.applyAll ((rows.map (·.balance)).map .balanceProjection)
          (database.applyAll others s)).projected accountId := by
        rw [hsplit, Database.applyAll_append, Database.applyAll_append]
        exact congrArg balanceOf (projection_frame (by simp [hcompleted]) _)
    _ = s.projected accountId + (rows.map fun r => balanceChange s accountId r.balance).sum := by
        rw [projected_upserts (by simpa [Function.comp_def] using h.distinct), hothers, hchange,
          List.map_map]
        rfl

/-- A current chunk moves the projection of every account as far as its postings. -/
theorem ChunkRun.openingBalance (h : ChunkRun V env batchRunId accounts interestRevenueAccountIds ws
      effectiveAt rows running completed) (hV : Answering V) (hnormal : s.CreditNormal)
    (hground : s.Grounded accounts interestRevenueAccountIds)
    (hcurrent : (Label.processBatchChunk batchRunId accounts interestRevenueAccountIds).current
      env s = true) (hadm : database.Admissible s ws) (hl : s.ledgerAccountOf accountId = some l) :
    (database.applyAll ws s).openingBalance accountId l = s.openingBalance accountId l := by
  obtain ⟨uuid, hbuilt⟩ := h.built
  have hmoves : ∀ row ∈ rows,
      l.effect row.debit + l.effect row.credit = balanceChange s accountId row.balance := by
    intro row hrow
    obtain ⟨x, hx, hof⟩ := mem_of_forall₂ (chunkRows_forall hbuilt) hrow
    obtain ⟨hx, hpositive⟩ := List.mem_filter.mp hx
    exact effect_row hnormal hl hground hcurrent hx (by simpa using hpositive) hof
  have hsum : (database.applyAll ws s).ledgerSum l =
      s.ledgerSum l + (rows.map fun r => balanceChange s accountId r.balance).sum := by
    rw [ledgerSum_applyAll hadm, (h.journalled hV).postings, sum_entriesOf,
      List.map_congr_left hmoves]
  simp only [Store.openingBalance, hsum, h.projected hV]
  omega

end Chunk

end BatchService

/-! ## Runs -/

section Run

variable {env : Env} {s s' : Store}

theorem now_findBalanceProjection {accountId : Uuid} : ReadsBalance (Now s) s accountId := by
  rintro p b ⟨ch, hexec⟩
  cases hexec
  rfl

/-- A commit moves every projection as far as its postings, if it is no chunk or a current one. -/
theorem Store.Kept.serial (hs : s.Kept (fun _ => true) s') (hnormal : s.CreditNormal) {α : Type}
    {l : Label α} {a : α} {ws : List Write} (hground : grounds s l)
    (h : Committed (Now s') env l a ws) (hadm : database.Admissible s' ws)
    (hcurrent : l.current env s' = true) : s.Kept (fun _ => true) (database.applyAll ws s') where
  extended := hs.extended.trans (extends_applyAll ws s')
  opening := by
    intro accountId ledgerAccount hacc hl
    have hl' : s'.ledgerAccountOf accountId = some ledgerAccount :=
      (ledgerAccountOf_eq hs.extended.ledgerAccounts accountId).trans hl
    have hground' : grounds s' l := grounds_of_extends hs.extended hground
    rw [← hs.opening accountId ledgerAccount hacc hl]
    cases hchunk : l.isChunk with
    | false =>
        exact h.openingBalance now_findBalanceProjection (fun _ _ => saw_of_now) hl' hground' hchunk
          hadm
    | true =>
        cases h with
        | processBatchChunk hrun =>
            have hnormal' : s'.CreditNormal := fun l hl => hnormal l (hs.extended.ledgerAccounts ▸ hl)
            exact hrun.openingBalance (answering_of_saw fun _ _ => saw_of_now) hnormal' hground'
              hcurrent hadm hl'
        | _ => cases hchunk

end Run

/-- While only current chunks commit, the projections agree with the postings. -/
theorem agrees_of_current {env : Env} {s : Store} (hnormal : s.CreditNormal) {c : ServerConfig}
    (hrun : Steps (server env) (currentChunks env) (.initial s) c) : s.Agrees c.store := by
  have hvalid : (serialRules env s fun s' => s.Extends s').Valid (server env).Serial :=
    serialRules_valid (fun _ hs => hs) fun s' _ _ ws hs _ _ _ => hs.trans (extends_applyAll ws s')
  have hkept : s.Kept (fun _ => true) c.store := by
    refine (Rules.sound_initial (Store.Extends.refl s)).kept hvalid (Store.Kept.refl s) ?_ hrun
    exact fun s' T l h a hs hc hcurrent =>
      hs.serial hnormal hc.pre (serial_committed hc) hc.admissible hcurrent
  intro accountId l hl
  have hopening := hkept.opening accountId l rfl hl
  simp only [Store.openingBalance] at hopening ⊢
  omega

/-! ## A transfer and a batch run -/

/-- A batch run makes `n` of its 49 steps, then a transfer commits, and then the run ends. -/
def interrupted (n : Nat) : List (Action Choice Call) :=
  .start (.runBatch "scheduler") :: (advances 0 "a" n ++
    .start (.createTransfer (demoTransfer (.internalAccount demoData.savingsAccountId) 2500)
      (demoContext "k")) :: (advances 1 "b" 24 ++ advances 0 "c" (49 - n)))

theorem creditNormal_demoStore : demoStore.CreditNormal := by
  unfold Store.CreditNormal
  decide +kernel

/-- Before the snapshot a transfer does no harm. -/
theorem agrees_interrupted : demoStore.CreditNormal ∧
    ∃ c, Steps (server testEnvironment) (currentChunks testEnvironment) (.initial demoStore) c ∧
      c.store.postings.rows.length = 6 ∧ demoStore.Agrees c.store := by
  obtain ⟨c, hrun, hlen⟩ := exists_of_play (server testEnvironment) (currentChunks testEnvironment)
    (.initial demoStore) (interrupted 12) (·.store.postings.rows.length = 6) (by decide +kernel)
  exact ⟨creditNormal_demoStore, c, hrun, hlen, agrees_of_current creditNormal_demoStore hrun⟩

/-- The chunk forgets a transfer that committed after the snapshot. -/
theorem stale_chunk : demoStore.CreditNormal ∧
    ∃ c, (server testEnvironment).play (server testEnvironment).Serial (.initial demoStore)
        (interrupted 15) = some c ∧ c.quiet = true ∧ ¬ demoStore.Agrees c.store := by
  obtain ⟨c, hplay, hquiet, hlost⟩ := play_of_decide (server testEnvironment)
    (server testEnvironment).Serial (.initial demoStore) (interrupted 15)
    (fun c => c.quiet = true ∧ c.store.projected demoData.checkingAccountId ≠
      demoStore.openingBalance demoData.checkingAccountId checkingLedger +
        c.store.ledgerSum checkingLedger) (by decide +kernel)
  exact ⟨creditNormal_demoStore, c, hplay, hquiet, fun h => hlost (h _ _ checkingLedger_owned)⟩

end LedgerCredit
