import LedgerCredit.Accruals
import LedgerCredit.LostUpdates
import LedgerCredit.Shares
import LedgerCredit.Txn.Soundness

/-!
# Redeliveries of the close job

The job queue delivers the close job at least once.  A delivery runs `runBatch`, which
opens a new batch run each time and takes no notice of the runs before.

*One delivery.*  Within one delivery every account is paid at most once, whatever is
rolled back and wherever it stops: the run shares its accounts out, and an account is paid
by the one who owns it.

*Many deliveries.*  So an account is paid at most once in all of them, if no delivery
starts after an earlier one paid an account, or while an earlier one is still in progress
(`paid_once`).  Transfers and events may be in progress at any time: they own no account.
A delivery that stops after its first chunk is the failing case: the next one pays the
accounts of that chunk again (`paid_again`).
-/

namespace LedgerCredit

open Txn

/-- The account received no interest since the store `s₀`. -/
def Store.Unpaid (s₀ s : Store) (accountId : Uuid) : Prop :=
  ∀ l, s₀.ledgerAccountOf accountId = some l →
    (s.accruals l.id).length = (s₀.accruals l.id).length

/-- No account received interest since the store `s₀`. -/
def Store.unpaid (s₀ s : Store) : Bool :=
  s₀.ledgerAccounts.rows.all fun l => (s.accruals l.id).length = (s₀.accruals l.id).length

/-- The calls that deliver the job. -/
def Call.delivers : Call → Bool
  | .runBatch _ => true
  | _ => false

/-- The deliveries of one occurrence of the job that started on `s₀`, among calls about transfers.
A delivery starts when no earlier one is in progress and no account was paid. -/
def freshDeliveries (s₀ : Store) (c : ServerConfig) : Action Choice Call → Bool
  | .start (.runBatch _) => c.quietFor Call.delivers && s₀.unpaid c.store
  | .start call => call.ofTransfers
  | _ => true

theorem unpaid_of_fresh {s₀ s : Store} (h : s₀.unpaid s = true) (accountId : Uuid) :
    s₀.Unpaid s accountId := fun l hl =>
  of_decide_eq_true (List.all_eq_true.mp h l (ledgerAccountOf_some.mp hl).1)

/-- Every account received at most one entry since the store `s₀`. -/
structure Store.PaidOnce (s₀ s : Store) : Prop where
  extended : s₀.Extends s
  keys : s.ForeignKeys
  once : ∀ accountId l, s₀.ledgerAccountOf accountId = some l →
    (s.accruals l.id).length ≤ (s₀.accruals l.id).length + 1

/-- The accounts of a snapshot are different. -/
def distinctAccounts : {α : Type} → Label α → α → Prop
  | _, .statement .findActiveAccounts, r => (r.map (·.id)).Nodup
  | _, _, _ => True

/-- The rules of one delivery after another.  The tokens are accounts, and only the owner of an
account that received nothing yet may pay it. -/
def occurrenceRules (env : Env) (s₀ : Store) : Rules (server env) Empty Uuid where
  Inv := s₀.PaidOnce
  le := Store.Extends
  born := fun _ => Set.univ
  rely := fun T s s' => ∀ a ∈ T, s₀.Unpaid s a → s₀.Unpaid s' a
  pre := fun s T l => grounds s₀ l ∧ ∀ a ∈ l.payees, a ∈ T ∧ s₀.Unpaid s a
  post := fun s T l r s' T' => T' = T ∧ (learned s₀ l r ∧ distinctAccounts l r) ∧
    ∀ a ∈ T, a ∉ l.payees → s₀.Unpaid s a → s₀.Unpaid s' a
  done := fun _ _ _ _ => True
  guard := fun _ => []
  Cur := fun _ _ _ _ => True
  owner := Call.delivers

namespace BatchService

/-! ## Commits -/

section Commits

variable {env : Env} {s₀ s : Store} {α : Type} {T : Set Uuid} {l : Label α}
  {h : List (Event Stmt Write)} {a : α}

theorem delivery_committed (hc : (occurrenceRules env s₀).Commits s T l h a) :
    Committed (Saw s) env l a (writes h) :=
  committed_of_runs (answering_of_saw fun _ _ h => h) (runs_of_completes hc.path
    (hc.evidence.mono fun _ _ _ he => saw_of_seen (fun _ _ h => h) he.1))

/-- What a commit adds to the interest entries of an account. -/
theorem accruals_of_commits (hc : (occurrenceRules env s₀).Commits s T l h a) {accountId : Uuid}
    {ledgerAccount : LedgerAccount} (hl : s₀.ledgerAccountOf accountId = some ledgerAccount) :
    ∃ n, ((database.applyAll (writes h) s).accruals ledgerAccount.id).length =
        (s.accruals ledgerAccount.id).length + n ∧ n ≤ 1 ∧ (accountId ∉ l.payees → n = 0) := by
  have hinv : s₀.PaidOnce s := hc.inv
  have hl' : s.ledgerAccountOf accountId = some ledgerAccount :=
    (ledgerAccountOf_eq hinv.extended.ledgerAccounts accountId).trans hl
  obtain ⟨entries, hentries⟩ := (delivery_committed hc).accruals (fun _ _ h => h)
    (grounds_of_extends hinv.extended hc.pre.1) hl'
  refine ⟨_, ?_, hentries.once, fun hnot => by rw [hentries.none hnot]; rfl⟩
  rw [accruals_applyAll hc.admissible hentries.journalled hinv.keys, List.length_append,
    List.length_map]

theorem unpaid_of_commits (hc : (occurrenceRules env s₀).Commits s T l h a) {accountId : Uuid}
    (hnot : accountId ∉ l.payees) (hunpaid : s₀.Unpaid s accountId) :
    s₀.Unpaid (database.applyAll (writes h) s) accountId := by
  intro ledgerAccount hl
  obtain ⟨n, hlength, -, hnone⟩ := accruals_of_commits hc hl
  rw [hlength, hnone hnot, hunpaid ledgerAccount hl, Nat.add_zero]

theorem paidOnce_of_commits (hc : (occurrenceRules env s₀).Commits s T l h a) :
    s₀.PaidOnce (database.applyAll (writes h) s) := by
  have hinv : s₀.PaidOnce s := hc.inv
  refine ⟨hinv.extended.trans (extends_applyAll _ s), foreignKeys_applyAll hc.admissible hinv.keys,
    fun accountId ledgerAccount hl => ?_⟩
  obtain ⟨n, hlength, hle, hnone⟩ := accruals_of_commits hc hl
  rw [hlength]
  by_cases hmem : accountId ∈ l.payees
  · rw [(hc.pre.2 accountId hmem).2 ledgerAccount hl]
    exact Nat.add_le_add_left hle _
  · rw [hnone hmem]
    exact hinv.once accountId ledgerAccount hl

/-- The snapshot of the accounts has one row for each of them. -/
theorem distinctAccounts_of_committed {ws : List Write} (h : Committed (Saw s) env l a ws) :
    distinctAccounts l a := by
  cases h with
  | @statement _ q r ws hread =>
      cases q with
      | findActiveAccounts =>
          obtain ⟨s₁, ch, -, hexec⟩ := hread
          cases hexec
          show ((s₁.activeAccounts.map s₁.snapshot).map (·.id)).Nodup
          rw [List.map_map]
          have hperm : s₁.activeAccounts.Perm (s₁.accounts.rows.filter fun a => a.status = .active) :=
            List.perm_insertionSort ..
          exact ((hperm.map (·.id)).nodup_iff).mpr
            (s₁.accounts.pk_nodup.sublist (List.filter_sublist.map _))
      | _ => trivial
  | _ => trivial

end Commits

/-! ## One delivery -/

section Delivery

variable {env : Env} {s₀ s : Store}

/-- A delivery shares its accounts out while they are unpaid. -/
theorem shares_delivery (batchRunId : Uuid) : Shares (occurrenceRules env s₀) s₀ batchRunId
    (fun a => {a}) fun x s => s₀.Unpaid s x.id where
  disjoint := fun hne => Set.disjoint_singleton.mpr hne
  move := fun hmove hheld => ⟨hheld.1, hmove.rely _ (hheld.1 rfl) hheld.2⟩
  item := fun hheld => ⟨trivial, List.forall_mem_singleton.mpr ⟨hheld.1 rfl, hheld.2⟩⟩
  failed := fun _ _ => ⟨trivial, by simp [Label.payees]⟩
  chunk := by
    refine fun hground hheld => ⟨hground, fun a ha => ?_⟩
    obtain ⟨x, hx, rfl⟩ := List.mem_map.mp ha
    exact ⟨(hheld x hx).1 rfl, (hheld x hx).2⟩
  others := by
    rintro s s' T T' accounts revenue u x ⟨rfl, -, hkept⟩ hnot hheld
    exact ⟨hheld.1, hkept _ (hheld.1 rfl) hnot hheld.2⟩
  load := fun _ => ⟨trivial, by simp [Label.payees]⟩
  loaded := by
    rintro s s' T T' currencies r ⟨rfl, ⟨hlearned, -⟩, hkept⟩
    exact ⟨hlearned, fun x hheld => ⟨hheld.1, hkept _ (hheld.1 rfl) (by simp [Label.payees]) hheld.2⟩⟩

/-- A statement outside of the transactions pays nobody. -/
theorem statement_delivery {α β : Type} {q : Stmt α} (hq : Outside q) {f : α → Process β}
    {A : β → Store → Set Uuid → Prop} (hs : ∀ a, s₀.Unpaid s a)
    (hf : ∀ r s, learned s₀ (.statement q) r → distinctAccounts (.statement q) r →
      (∀ a, s₀.Unpaid s a) →
        (occurrenceRules env s₀).Safe (f r) A (fun _ _ _ => True) s Set.univ) :
    (occurrenceRules env s₀).Safe (statement q >>= f) A (fun _ _ _ => True) s Set.univ := by
  refine .bind (.transaction (fun _ _ => ⟨hq, by simp [Label.payees]⟩) (fun _ _ _ => trivial) ?_)
  rintro s' hmove r s'' T'' - - ⟨rfl, ⟨hlearned, hdistinct⟩, hkept⟩
  exact hf r s'' hlearned hdistinct fun a => hkept a trivial (by simp [Label.payees])
    (hmove.rely a trivial (hs a))

/-- A process that pays nobody. -/
theorem unpaying_delivery {α : Type} {p : Process α}
    (hp : p.Uses fun l => grounds s₀ l ∧ l.payees = []) {T : Set Uuid} :
    (occurrenceRules env s₀).Safe p (fun _ _ _ => True) (fun _ _ _ => True) s T := by
  refine Rules.Safe.of_uses (P := fun _ => True) hp (fun _ _ _ h => h) ?_ trivial
  rintro β s T l ⟨hl, hnone⟩ -
  exact ⟨hl, by simp [hnone]⟩

theorem runBatch_delivery (triggeredBy : String) (hs : ∀ a, s₀.Unpaid s a) :
    (occurrenceRules env s₀).Safe (runBatch env triggeredBy) (fun _ _ _ => True)
      (fun _ _ _ => True) s Set.univ := by
  have houtside : ∀ {α : Type} {q : Stmt α}, Outside q →
      (statement q).Uses fun l => grounds s₀ l ∧ l.payees = [] :=
    fun hq => .transaction ⟨hq, rfl⟩
  refine .bind (statement_delivery (by trivial) hs fun uuid s _ _ hs => Rules.safe_return.mpr ?_)
  refine statement_delivery (by trivial) hs fun scheduledFor s _ _ hs => ?_
  refine statement_delivery (by trivial) hs fun startedAt s _ _ hs => ?_
  refine statement_delivery (by trivial) hs fun batchRun s _ _ hs => ?_
  refine statement_delivery (by trivial) hs fun accounts s haccounts hdistinct hs => ?_
  refine statement_delivery (by trivial) hs fun _ s _ _ hs => ?_
  refine .bind (.mono (fun _ s T _ => ?_) (fun _ _ _ _ => trivial)
    (processBatchRunAccounts_safe (shares_delivery batchRun.id) hdistinct haccounts
      fun x _ => ⟨Set.subset_univ _, hs x.id⟩))
  refine unpaying_delivery (.bind (houtside (by trivial)) fun processedCount => ?_)
  refine .bind (houtside (by trivial)) fun successCount => .bind (houtside (by trivial)) fun failureCount => ?_
  refine .bind (houtside (by trivial)) fun completedAt => .bind (houtside (by trivial)) fun _ => ?_
  exact .bind (houtside (by trivial)) fun _ => .pure

theorem transfer_delivery {call : Call} (hcall : call.ofTransfers = true) {T : Set Uuid} :
    (occurrenceRules env s₀).Safe (call.program env) (fun _ _ _ => True) (fun _ _ _ => True) s T := by
  refine unpaying_delivery ((transferProgram_uses hcall).mono fun l hl => ?_)
  cases l with
  | processBatchChunk _ _ _ => exact False.elim hl
  | processBatchItem _ _ => exact False.elim hl
  | statement q => exact ⟨hl, rfl⟩
  | _ => exact ⟨trivial, rfl⟩

theorem occurrenceRules_valid : (occurrenceRules env s₀).Valid (freshDeliveries s₀) where
  lawful := lawful_database
  le_refl := Store.Extends.refl
  le_trans := fun _ _ _ => .trans
  rely_refl := fun _ _ _ _ h => h
  rely_trans := fun _ _ _ _ h h' a ha hs => h' a ha (h a ha hs)
  born_mono := fun _ _ _ => Set.Subset.refl _
  statements := Rules.unguarded_statements (fun _ => rfl) fun _ _ _ _ => trivial
  commit := fun s T l h a hc => ⟨paidOnce_of_commits hc, extends_applyAll _ s⟩
  guarantee := by
    refine fun s T l h a T' hc hdisjoint accountId hmem => unpaid_of_commits hc fun hpaid => ?_
    exact Set.disjoint_left.mp hdisjoint (hc.pre.2 accountId hpaid).1 hmem
  result := by
    intro β s T l h a hc
    have hinv : s₀.PaidOnce s := hc.inv
    have hcommitted := delivery_committed hc
    exact ⟨T, Set.subset_union_left, rfl, ⟨hcommitted.learned hinv.extended fun _ _ h => h,
      distinctAccounts_of_committed hcommitted⟩, fun a _ hnot => unpaid_of_commits hc hnot⟩
  start := by
    intro c call hok hinv
    have htransfer : ∀ call : Call, call.ofTransfers = true →
        (occurrenceRules env s₀).Safe ((server env).program call) ((occurrenceRules env s₀).done call)
          (fun _ _ _ => True) c.store ∅ := fun call hcall => transfer_delivery hcall
    cases call with
    | runBatch triggeredBy =>
        obtain ⟨hquiet, hunpaid⟩ := Bool.and_eq_true_iff.mp hok
        exact Or.inr ⟨hquiet, rfl, rfl, fun _ _ _ _ _ => trivial,
          .bind (.mono (fun _ _ _ _ => trivial) (fun _ _ _ _ => trivial)
            (runBatch_delivery triggeredBy (unpaid_of_fresh hunpaid)))⟩
    | retryFailedItems id context => cases hok
    | _ =>
        exact Or.inl (htransfer _ hok)
  done_le := fun _ _ _ _ _ _ _ _ => trivial
  done_idle := fun _ _ _ => trivial
  owners := Or.inr fun _ => rfl

end Delivery

end BatchService

/-- Redeliveries pay every account at most once, if none starts after an earlier one paid. -/
theorem paid_once {env : Env} {s : Store} (hkeys : s.ForeignKeys) {c : ServerConfig}
    (hrun : Steps (server env) (freshDeliveries s) (.initial s) c) {accountId : Uuid}
    {l : LedgerAccount} (hl : s.ledgerAccountOf accountId = some l) :
    (c.store.accruals l.id).length ≤ (s.accruals l.id).length + 1 := by
  have hs : s.PaidOnce s := ⟨.refl s, hkeys, fun _ _ _ => Nat.le_succ _⟩
  obtain ⟨⟨own, hsound⟩, -⟩ := Rules.sound_of_steps BatchService.occurrenceRules_valid hs hrun
  have hinv : s.PaidOnce c.store := hsound.inv
  exact hinv.once accountId l hl

/-! ## Two deliveries -/

/-- A delivery makes `n` steps, the process stops, and the job is delivered again. -/
def deliveredTwice (n : Nat) : List (Action Choice Call) :=
  .start (.runBatch "scheduler") :: (advances 0 "a" n ++
    .crash :: .start (.runBatch "scheduler") :: advances 0 "b" 49)

/-- A delivery that stops in its chunk paid nobody. -/
theorem paid_once_after_crash : demoStore.ForeignKeys ∧
    demoStore.ledgerAccountOf demoData.checkingAccountId = some checkingLedger ∧
    ∃ c, Steps (server testEnvironment) (freshDeliveries demoStore) (.initial demoStore) c ∧
      c.store.batchRuns.rows.length = 2 ∧
      (c.store.accruals checkingLedger.id).length ≤ (demoStore.accruals checkingLedger.id).length + 1 := by
  have hkeys : demoStore.ForeignKeys := seedBaseData_foreignKeys _ _ _
  obtain ⟨c, hrun, hlength⟩ := exists_of_play (server testEnvironment) (freshDeliveries demoStore)
    (.initial demoStore) (deliveredTwice 30) (·.store.batchRuns.rows.length = 2) (by decide +kernel)
  exact ⟨hkeys, checkingLedger_owned, c, hrun, hlength, paid_once hkeys hrun checkingLedger_owned⟩

/-- A delivery that stops after its chunk is followed by one that pays again. -/
theorem paid_again : demoStore.ForeignKeys ∧
    demoStore.ledgerAccountOf demoData.checkingAccountId = some checkingLedger ∧
    ∃ c, (server testEnvironment).play anySchedule (.initial demoStore) (deliveredTwice 31) = some c ∧
      c.quiet = true ∧
      (demoStore.accruals checkingLedger.id).length + 1 < (c.store.accruals checkingLedger.id).length := by
  refine ⟨seedBaseData_foreignKeys _ _ _, checkingLedger_owned, ?_⟩
  exact play_of_decide (server testEnvironment) anySchedule (.initial demoStore) (deliveredTwice 31)
    (fun c => c.quiet = true ∧ (demoStore.accruals checkingLedger.id).length + 1 <
      (c.store.accruals checkingLedger.id).length) (by decide +kernel)

end LedgerCredit
