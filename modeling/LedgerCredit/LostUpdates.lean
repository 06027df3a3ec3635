import LedgerCredit.Balances

/-!
# Overlapping transfers

Two transactions that overlap on an account lose an update: both read the
projection, and the second write takes no notice of the first.  Nothing in the
code prevents this.  What is read is only current at the commit if no other open
transaction read the same balance before.  `watched` says which balance a
statement reads, and a schedule is exclusive if no balance is read while another
open transaction has read it.  On exclusive schedules the projections agree with
the postings, and no account is overdrawn.
-/

namespace LedgerCredit

open Txn LedgerService

/-! ## Reads of balances -/

/-- The balance that a statement read: in the posting loop, and with `funds` also in the funds
check. -/
def watched (funds : Bool) (accounts : Uuid → Bool) :
    Event Stmt Write → Option (Uuid × Option BalanceProjection)
  | ⟨.findBalanceProjection a, b, _⟩ => if accounts a then some (a, b) else none
  | ⟨.findAccountWithBalance a, r, _⟩ =>
      r.bind fun r => if funds && accounts a then some (a, r.balanceProjection) else none
  | _ => none

/-- The account whose balance was read. -/
def watchedAccount (funds : Bool) (accounts : Uuid → Bool) (e : Event Stmt Write) : List Uuid :=
  ((watched funds accounts e).map (·.1)).toList

variable {funds : Bool} {accounts : Uuid → Bool} {accountId : Uuid} {b : Option BalanceProjection}

/-- A balance that is read is the one of the store. -/
theorem watched_exec {α : Type} {q : Stmt α} {ch : Choice} {s : Store} {r : α} {ws : List Write}
    (hexec : s.exec q ch = .ok (r, ws)) (h : watched funds accounts ⟨q, r, ws⟩ = some (accountId, b)) :
    b = s.balanceProjections.get? accountId := by
  cases q with
  | findBalanceProjection a =>
      cases hexec
      obtain ⟨-, hr⟩ := Option.ite_none_right_eq_some.mp h
      cases hr
      rfl
  | findAccountWithBalance a =>
      cases hexec
      obtain ⟨found, hfound, h⟩ := Option.bind_eq_some_iff.mp h
      obtain ⟨account, hget, rfl⟩ := Option.map_eq_some_iff.mp hfound
      obtain ⟨-, hr⟩ := Option.ite_none_right_eq_some.mp h
      cases hr
      simp only [Store.accountWithBalance, (Table.get?_eq_some.mp hget).2]
  | _ => cases h

/-- Only the accounts that are asked for are watched. -/
theorem watched_accounts {e : Event Stmt Write} (h : watched funds accounts e = some (accountId, b)) :
    accounts accountId = true := by
  obtain ⟨q, r, ws⟩ := e
  cases q with
  | findBalanceProjection a =>
      obtain ⟨hacc, hr⟩ := Option.ite_none_right_eq_some.mp h
      cases hr
      exact hacc
  | findAccountWithBalance a =>
      obtain ⟨_, -, h⟩ := Option.bind_eq_some_iff.mp h
      obtain ⟨hacc, hr⟩ := Option.ite_none_right_eq_some.mp h
      cases hr
      exact (Bool.and_eq_true_iff.mp hacc).2
  | _ => cases h

theorem watchedAccount_of_watched {e : Event Stmt Write}
    (h : watched funds accounts e = some (accountId, b)) :
    watchedAccount funds accounts e = [accountId] := by
  simp [watchedAccount, h]

theorem projection_congr {s s' : Store}
    (h : s'.balanceProjections.get? accountId = s.balanceProjections.get? accountId)
    (p : List Write) : (database.applyAll p s').balanceProjections.get? accountId =
      (database.applyAll p s).balanceProjections.get? accountId := by
  induction p generalizing s s' with
  | nil => exact h
  | cons w p ih =>
      have hnext : (w.apply s').balanceProjections.get? accountId =
          (w.apply s).balanceProjections.get? accountId := by
        cases w with
        | balanceProjection r => simp only [Write.apply, Table.get?_upsert, h]
        | _ => exact h
      exact ih hnext

/-- A projection that no write names stays. -/
theorem projection_frame {ws : List Write}
    (h : ∀ r, .balanceProjection r ∈ ws → r.accountId ≠ accountId) (s : Store) :
    (database.applyAll ws s).balanceProjections.get? accountId =
      s.balanceProjections.get? accountId := by
  induction ws generalizing s with
  | nil => rfl
  | cons w ws ih =>
      rw [Database.applyAll_cons, ih fun r hr => h r (List.mem_cons_of_mem _ hr)]
      cases w with
      | balanceProjection r =>
          have hne := h r (List.mem_cons_self ..)
          exact (get?_balanceProjection s r accountId).trans (if_neg hne)
      | _ => rfl

/-! ## Exclusive schedules -/

section Rules

variable (env : Env) (funds : Bool) (accounts : Uuid → Bool)

/-- Schedules of calls about transfers in which no balance is read while another open transaction
has read it. -/
def exclusiveTransfers (c : ServerConfig) (a : Action Choice Call) : Bool :=
  Starts Call.ofTransfers a && (server env).Exclusive (watchedAccount funds accounts) c a

/-- The rules of transfers that overlap on no balance. -/
def balanceRules (Inv : Store → Prop) : Rules (server env) Uuid Empty :=
  Rules.static (server env) Inv Store.Extends ofTransfers (fun _ _ => True)
    (watchedAccount funds accounts) fun s _ p e => ∀ accountId b,
      watched funds accounts e = some (accountId, b) →
        b = (database.applyAll p s).balanceProjections.get? accountId

variable {env funds accounts} {Inv : Store → Prop}

theorem ofTransfers_grounds {s : Store} {α : Type} {l : Label α} (h : ofTransfers l) :
    grounds s l ∧ l.isChunk = false := by
  cases l with
  | processBatchChunk _ _ _ => exact False.elim h
  | processBatchItem _ _ => exact False.elim h
  | _ => exact ⟨h, rfl⟩

/-- What is known of a transaction that commits. -/
theorem committed_of_balanceRules {s : Store} {T : Set Empty} {α : Type} {l : Label α}
    {h : List (Event Stmt Write)} {a : α}
    (hc : (balanceRules env funds accounts Inv).Commits s T l h a) :
    Committed (fun p e => Saw s p e ∧ e ∈ h ∧ ∀ accountId b,
      watched funds accounts e = some (accountId, b) →
        b = (database.applyAll p s).balanceProjections.get? accountId) env l a (writes h) := by
  have hev : Holds (fun p e => Saw s p e ∧ e ∈ h ∧ ∀ accountId b,
      watched funds accounts e = some (accountId, b) →
        b = (database.applyAll p s).balanceProjections.get? accountId) [] h :=
    hc.evidence.mono fun p e he hve => ⟨saw_of_seen (fun _ _ h => h) hve.1, he, hve.2⟩
  exact committed_of_runs (answering_of_saw fun _ _ he => he.1) (runs_of_completes hc.path hev)

theorem balanceRules_statements :
    (balanceRules env funds accounts Inv).Statements (exclusiveTransfers env funds accounts) where
  guarded := by
    intro c i ch call pool β α l h q k' k r ws hok hth hexec
    exact exclusive_statement (Bool.and_eq_true_iff.mp hok).2 hth hexec
  current := by
    intro c i ch call pool β α l h q k' k r ws T _ _ hexec _ _ accountId b hread
    exact watched_exec hexec hread
  frame := by
    intro β β' s T l h a T' l' p e hc _ _ _ hdis hcur accountId b hread
    -- the committing transaction read every projection that it writes, and this one it did not
    rw [hcur accountId b hread]
    refine (projection_congr (projection_frame (fun r hr hacc => ?_) s) p).symm
    subst hacc
    obtain ⟨hground, hchunk⟩ := ofTransfers_grounds (s := s) hc.pre
    obtain ⟨p', b', -, hmem, -⟩ := (committed_of_balanceRules hc).read
      (answering_of_saw fun _ _ he => he.1) hground hchunk hr
    have hkey := watchedAccount_of_watched hread
    have hwatched : watchedAccount funds accounts (⟨.findBalanceProjection r.accountId, b', []⟩ :
        Event Stmt Write) = [r.accountId] := by
      simp [watchedAccount, watched, watched_accounts hread]
    have hnot : r.accountId ∉ watchedAccount funds accounts e := by
      refine hdis (List.mem_flatMap.mpr ⟨_, hmem, ?_⟩)
      show r.accountId ∈ watchedAccount funds accounts _
      rw [hwatched]
      exact List.mem_singleton_self _
    exact hnot (by simp [hkey])

/-- The postings explain the projections of some accounts as on `s`. -/
structure Store.Kept (accounts : Uuid → Bool) (s s' : Store) : Prop where
  extended : s.Extends s'
  opening : ∀ accountId l, accounts accountId = true → s.ledgerAccountOf accountId = some l →
    s'.openingBalance accountId l = s.openingBalance accountId l

theorem Store.Kept.refl (s : Store) : s.Kept accounts s := ⟨.refl s, fun _ _ _ _ => rfl⟩

/-- A commit moves a projection as far as its postings. -/
theorem Store.Kept.commit {s₀ s : Store} (hs : s₀.Kept accounts s) {T : Set Empty} {α : Type}
    {l : Label α} {h : List (Event Stmt Write)} {a : α}
    (hc : (balanceRules env funds accounts Inv).Commits s T l h a) :
    s₀.Kept accounts (database.applyAll (writes h) s) where
  extended := hs.extended.trans (extends_applyAll _ s)
  opening := by
    intro accountId ledgerAccount hacc hl
    obtain ⟨hground, hchunk⟩ := ofTransfers_grounds (s := s) hc.pre
    have hl' : s.ledgerAccountOf accountId = some ledgerAccount :=
      (ledgerAccountOf_eq hs.extended.ledgerAccounts accountId).trans hl
    rw [← hs.opening accountId ledgerAccount hacc hl]
    refine (committed_of_balanceRules hc).openingBalance (fun p b he => ?_)
      (fun _ _ he => he.1) hl' hground hchunk hc.admissible
    exact he.2.2 accountId b (if_pos hacc)

theorem balanceRules_valid (commit : ∀ {α : Type} s T (l : Label α) h a,
    (balanceRules env funds accounts Inv).Commits s T l h a →
      Inv (database.applyAll (writes h) s)) :
    (balanceRules env funds accounts Inv).Valid (exclusiveTransfers env funds accounts) := by
  refine Rules.static_valid lawful_database Store.Extends.refl (fun _ _ _ => .trans)
    balanceRules_statements ?_ ?_
  · exact fun s T l h a hc => ⟨commit s T l h a hc, extends_applyAll (writes h) s, trivial⟩
  · intro c call hok _
    exact transferProgram_fine (fun _ _ _ hl => hl) (Bool.and_eq_true_iff.mp hok).1 _ _

end Rules

/-! ## The projections agree -/

/-- The projections agree with the postings, if no posting loop reads a balance that an open
transaction has read in its own. -/
theorem agrees_of_exclusive {env : Env} {s : Store} {c : ServerConfig}
    (hrun : Steps (server env) (exclusiveTransfers env false fun _ => true) (.initial s) c) :
    s.Agrees c.store := by
  have hvalid : (balanceRules env false (fun _ => true) (s.Kept fun _ => true)).Valid
      (exclusiveTransfers env false fun _ => true) :=
    balanceRules_valid fun _ _ _ _ _ hc => Store.Kept.commit hc.inv hc
  obtain ⟨⟨own, hsound⟩, -⟩ := Rules.sound_of_steps hvalid (Store.Kept.refl s) hrun
  have hkept : s.Kept (fun _ => true) c.store := hsound.inv
  intro accountId l hl
  have hopening := hkept.opening accountId l rfl hl
  simp only [Store.openingBalance] at hopening ⊢
  omega

/-- Two transfers of an amount from checking to savings, started together. -/
def twoTransfers (minorUnits : Int) : List (Action Choice Call) :=
  ["k", "l"].map fun key => .start (.createTransfer
    (demoTransfer (.internalAccount demoData.savingsAccountId) minorUnits) (demoContext key))

/-- Both transfers make `n` of their 24 steps, then the first ends, and then the second. -/
def overlapping (minorUnits : Int) (n : Nat) : List (Action Choice Call) :=
  twoTransfers minorUnits ++ advances 0 "a" n ++ advances 1 "b" n ++ advances 0 "c" (24 - n) ++
    advances 1 "d" (24 - n)

/-- Up to the read of the first projection the transfers may overlap. -/
theorem agrees_overlapping :
    ∃ c, Steps (server testEnvironment) (exclusiveTransfers testEnvironment false fun _ => true)
      (.initial demoStore) c ∧ c.store.postings.rows.length = 4 ∧ demoStore.Agrees c.store := by
  obtain ⟨c, hrun, hlen⟩ := exists_of_play (server testEnvironment)
    (exclusiveTransfers testEnvironment false fun _ => true) (.initial demoStore)
    (overlapping 2500 12) (·.store.postings.rows.length = 4) (by decide +kernel)
  exact ⟨c, hrun, hlen, agrees_of_exclusive hrun⟩

/-- The ledger account of the checking account. -/
def checkingLedger : LedgerAccount :=
  ⟨"ledger-checking", some demoData.checkingAccountId, .customer, "USD", .credit⟩

theorem checkingLedger_owned :
    demoStore.ledgerAccountOf demoData.checkingAccountId = some checkingLedger := by
  decide +kernel

/-- Once both have read the projection of the checking account, the second forgets the debit of
the first. -/
theorem lost_update :
    ∃ c, (server testEnvironment).play anySchedule (.initial demoStore) (overlapping 2500 13) =
        some c ∧ c.quiet = true ∧ ¬ demoStore.Agrees c.store := by
  obtain ⟨c, hplay, hquiet, hlost⟩ := play_of_decide (server testEnvironment) anySchedule
    (.initial demoStore) (overlapping 2500 13)
    (fun c => c.quiet = true ∧ c.store.projected demoData.checkingAccountId ≠
      demoStore.openingBalance demoData.checkingAccountId checkingLedger +
        c.store.ledgerSum checkingLedger) (by decide +kernel)
  exact ⟨c, hplay, hquiet, fun h => hlost (h _ _ checkingLedger_owned)⟩

/-! ## No overdraft -/

section Overdraft

variable {s : Store} {accountId : Uuid} {l : LedgerAccount} {amount : Money}

/-- A credit does not lower a credit-normal balance. -/
theorem effectOf_credit (hnormal : l.normalBalanceDirection = .credit)
    (hpos : 0 < amount.minorUnits) (id : Uuid) : 0 ≤ l.effectOf ⟨id, .credit, amount⟩ := by
  simp only [LedgerAccount.effectOf, computeBalanceEffect, hnormal, if_true]
  split
  · exact hpos.le
  · exact le_rfl

/-- A debit of a credit-normal balance takes its amount. -/
theorem effectOf_debit (hnormal : l.normalBalanceDirection = .credit) :
    l.effectOf ⟨l.id, .debit, amount⟩ = -amount.minorUnits := by
  simp [LedgerAccount.effectOf, computeBalanceEffect, hnormal]

theorem effectOf_other {id : Uuid} {direction : Direction} (h : id ≠ l.id) :
    l.effectOf ⟨id, direction, amount⟩ = 0 := if_neg h

/-- The sums of the postings and the projections move together. -/
theorem projected_applyAll {ws : List Write} (hadm : database.Admissible s ws)
    (h : (database.applyAll ws s).openingBalance accountId l = s.openingBalance accountId l) :
    (database.applyAll ws s).projected accountId =
      s.projected accountId + ((ws.filterMap Write.posting?).map l.effect).sum := by
  simp only [Store.openingBalance, ledgerSum_applyAll hadm] at h
  omega

theorem solvent_pair {balance : Int} {x y : LedgerPostingInput} (hx : 0 ≤ balance + l.effectOf x)
    (hy : 0 ≤ l.effectOf y) : 0 ≤ balance + ([x, y].map l.effectOf).sum := by
  simp only [List.map_cons, List.map_nil, List.sum_cons, List.sum_nil]
  omega

/-- A transfer takes from its source account at most what it has. -/
theorem solvent_debit {V : View} {env : Env} {args : CreateTransferArgs} {p : List Write}
    {source : Account} {sourceLedger : LedgerAccount} {b : Option BalanceProjection}
    (hsaw : ∀ p e, V p e → Saw s p e) (hnormal : l.normalBalanceDirection = .credit)
    (hl : s.ledgerAccountOf accountId = some l)
    (hfunds : ∀ p found, V p ⟨.findAccountWithBalance accountId, some found, []⟩ →
      found.balanceProjection = (database.applyAll p s).balanceProjections.get? accountId)
    (hbefore : ∀ w ∈ p, w.kind ≠ .ledger) (hs : 0 ≤ s.projected accountId)
    (h : TransfersService.SourceChecked V env args p source sourceLedger amount b) :
    0 ≤ s.projected accountId + l.effectOf ⟨sourceLedger.id, .debit, amount⟩ := by
  by_cases hid : sourceLedger.id = l.id
  · obtain ⟨howns, hsource⟩ := saw_findAccountWithBalance (hsaw _ _ h.read)
    obtain ⟨hmem, hacc⟩ := ledgerAccountOf_some.mp howns.ledgerAccount
    obtain ⟨hmem', hacc'⟩ := ledgerAccountOf_some.mp hl
    obtain rfl := Table.eq_of_pk hmem hmem' hid
    have haccount : args.input.sourceAccountId = accountId :=
      hsource.symm.trans (Option.some.inj (hacc.symm.trans hacc'))
    have hb : b = s.balanceProjections.get? accountId := by
      rw [← (Store.sameLedger_applyAll hbefore s).balanceProjections]
      exact hfunds _ _ (haccount ▸ h.read)
    have hcheck : amount.minorUnits ≤ s.projected accountId := by
      rw [Store.projected, ← hb]
      exact h.funds
    rw [effectOf_debit hnormal]
    omega
  · rw [effectOf_other hid]
    omega

/-- No transaction of a transfer takes more from an account than it has, if the funds that were
checked are still there. -/
theorem Committed.solvent {V : View} {env : Env} (hsaw : ∀ p e, V p e → Saw s p e)
    (hnormal : l.normalBalanceDirection = .credit) (hcategory : l.category ≠ .clearing)
    (hl : s.ledgerAccountOf accountId = some l)
    (hfunds : ∀ p found, V p ⟨.findAccountWithBalance accountId, some found, []⟩ →
      found.balanceProjection = (database.applyAll p s).balanceProjections.get? accountId)
    {α : Type} {label : Label α} (hlabel : ofTransfers label) {a : α} {ws : List Write}
    (h : Committed V env label a ws) (hs : 0 ≤ s.projected accountId) :
    0 ≤ s.projected accountId + ((ws.filterMap Write.posting?).map l.effect).sum := by
  have hclearing : ∀ {p : List Write} {currency : String} {l' : LedgerAccount},
      V p ⟨.findFirstLedgerAccount .clearing currency, some l', []⟩ → l'.id ≠ l.id := by
    intro p currency l' hread hid
    obtain ⟨hmem, hcategory', -⟩ := saw_findFirstLedgerAccount (hsaw _ _ hread)
    obtain rfl := Table.eq_of_pk hmem (ledgerAccountOf_some.mp hl).1 hid
    exact hcategory hcategory'
  have hnone : ∀ {ws : List Write}, (∀ w ∈ ws, w.kind ≠ .ledger) →
      0 ≤ s.projected accountId + ((ws.filterMap Write.posting?).map l.effect).sum := by
    intro ws hkind
    simpa [(Journalled.nil_of_kind hkind).postings] using hs
  cases h with
  | createTransfer hrun =>
      cases hrun with
      | replay _ _ _ => exact hnone (by simp)
      | internal _ _ _ _ hcreated _ _ hposted =>
          have hdebit := solvent_debit hsaw hnormal hl hfunds (by simp [Write.kind]) hs
            hcreated.checked
          have hcredit := effectOf_credit hnormal hcreated.checked.positive
          rw [effects_journalPosted hposted (hcreated.before rfl) (by simp [Write.kind])]
          exact solvent_pair hdebit (hcredit _)
      | external _ _ _ _ hcreated hread hposted =>
          have hdebit := solvent_debit hsaw hnormal hl hfunds (by simp [Write.kind]) hs
            hcreated.checked
          have hcredit := effectOf_credit hnormal hcreated.checked.positive
          rw [effects_journalPosted hposted (hcreated.before rfl) (by simp [Write.kind])]
          exact solvent_pair hdebit (hcredit _)
  | applyNormalizedEvent hrun =>
      cases hrun with
      | compensated _ _ _ _ hcomp =>
          have hcredit := effectOf_credit hnormal
            (hcomp.entry.positive _ (List.mem_cons_self ..))
          rw [effects_journalPosted hcomp.entry (by simp [Write.kind]) (by simp [Write.kind])]
          refine solvent_pair ?_ (hcredit _)
          rwa [effectOf_other (hclearing hcomp.clearingRead), add_zero]
      | _ => exact hnone (by simp [Write.kind])
  | processBatchChunk _ => exact False.elim hlabel
  | processBatchItem _ => exact False.elim hlabel
  | statement hread =>
      refine hnone fun w hw => ?_
      simp [kind_of_outside (answering_of_saw hsaw) hlabel hread w hw]

/-- What the ledger says an account has: its opening balance on `s` and the postings since. -/
def Store.ledgerBalance (s s' : Store) (accountId : Uuid) (l : LedgerAccount) : Int :=
  s.projected accountId + (s'.ledgerSum l - s.ledgerSum l)

/-- No account is overdrawn, if neither its funds nor its projection are read while an open
transaction has read them. -/
theorem no_overdraft_of_exclusive {env : Env} {c : ServerConfig}
    (hl : s.ledgerAccountOf accountId = some l) (hnormal : l.normalBalanceDirection = .credit)
    (hcategory : l.category ≠ .clearing) (hs : 0 ≤ s.projected accountId)
    (hrun : Steps (server env) (exclusiveTransfers env true fun id => id = accountId)
      (.initial s) c) : 0 ≤ s.ledgerBalance c.store accountId l := by
  let Inv : Store → Prop := fun s' => s.Kept (fun id => id = accountId) s' ∧ 0 ≤ s'.projected accountId
  have hvalid : (balanceRules env true (fun id => id = accountId) Inv).Valid
      (exclusiveTransfers env true fun id => id = accountId) := by
    refine balanceRules_valid fun s' T label h a hc => ?_
    obtain ⟨hkept, hnonneg⟩ : Inv s' := hc.inv
    have hkept' := hkept.commit hc
    refine ⟨hkept', ?_⟩
    have hopening := hkept'.opening accountId l (by simp) hl
    rw [← hkept.opening accountId l (by simp) hl] at hopening
    have hl' : s'.ledgerAccountOf accountId = some l :=
      (ledgerAccountOf_eq hkept.extended.ledgerAccounts accountId).trans hl
    rw [projected_applyAll hc.admissible hopening]
    refine (committed_of_balanceRules hc).solvent (fun _ _ he => he.1) hnormal hcategory hl'
      (fun p found he => he.2.2 accountId found.balanceProjection ?_) hc.pre hnonneg
    simp [watched]
  obtain ⟨⟨own, hsound⟩, -⟩ := Rules.sound_of_steps hvalid ⟨Store.Kept.refl s, hs⟩ hrun
  obtain ⟨hkept, hnonneg⟩ : Inv c.store := hsound.inv
  have hopening := hkept.opening accountId l (by simp) hl
  simp only [Store.openingBalance] at hopening
  unfold Store.ledgerBalance
  omega

theorem no_overdraft_overlapping :
    ∃ c, Steps (server testEnvironment)
      (exclusiveTransfers testEnvironment true fun id => id = demoData.checkingAccountId)
      (.initial demoStore) c ∧ c.store.postings.rows.length = 4 ∧
        0 ≤ demoStore.ledgerBalance c.store demoData.checkingAccountId checkingLedger := by
  obtain ⟨c, hrun, hlen⟩ := exists_of_play (server testEnvironment)
    (exclusiveTransfers testEnvironment true fun id => id = demoData.checkingAccountId)
    (.initial demoStore) (overlapping 100000 3) (·.store.postings.rows.length = 4)
    (by decide +kernel)
  exact ⟨c, hrun, hlen, no_overdraft_of_exclusive checkingLedger_owned rfl (by decide)
    (by decide +kernel) hrun⟩

/-- Two transfers that both see the funds take them twice. -/
theorem overdraft :
    demoStore.ledgerAccountOf demoData.checkingAccountId = some checkingLedger ∧
      checkingLedger.normalBalanceDirection = .credit ∧
      0 ≤ demoStore.projected demoData.checkingAccountId ∧
      ∃ c, (server testEnvironment).play anySchedule (.initial demoStore)
          (overlapping 200000 13) = some c ∧
        demoStore.ledgerBalance c.store demoData.checkingAccountId checkingLedger < 0 := by
  refine ⟨checkingLedger_owned, rfl, by decide +kernel, ?_⟩
  exact play_of_decide (server testEnvironment) anySchedule (.initial demoStore)
    (overlapping 200000 13)
    (demoStore.ledgerBalance ·.store demoData.checkingAccountId checkingLedger < 0)
    (by decide +kernel)

end Overdraft

end LedgerCredit
