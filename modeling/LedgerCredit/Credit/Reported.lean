import LedgerCredit.Credit.Ownership
import LedgerCredit.Number.Rounding
import LedgerCredit.Txn.Isolated

/-!
# Reported money

Six fields of the responses hold money, and each is made with `Number` of the stored
`BIGINT`.  `Number` rounds to 53 significant bits (`numberOfBigInt_eq`), and none of the
fields is checked, as `Money.toJSON` checks its number.

So a field is the stored integer exactly if this one fits into 53 bits
(`reported_exactly_iff`).
-/

namespace LedgerCredit

/-- A double is the integer. -/
def Representable (n : Int) : Prop := Rounding.Fits 53 n.natAbs

/-- `Number` keeps small integers, and rounds the others to 53 bits. -/
theorem numberOfBigInt_eq (n : Int) : numberOfBigInt n =
    if n.natAbs < 2 ^ 53 then n else n.sign * (Rounding.roundEven 53 n.natAbs : Nat) := by
  unfold numberOfBigInt Rounding.roundEven Rounding.nearestMultiple Rounding.unit
  have hexp : n.natAbs.log2 + 1 - 53 = n.natAbs.log2 - 52 := by omega
  simp only [hexp, ite_mul]

/-- `Number` is the integer exactly if a double is. -/
theorem numberOfBigInt_eq_self_iff {n : Int} : numberOfBigInt n = n ↔ Representable n := by
  rw [numberOfBigInt_eq]
  split
  · rename_i hsmall
    exact iff_of_true rfl (Rounding.fits_of_lt hsmall)
  · rename_i hlarge
    rw [Nat.not_lt] at hlarge
    rw [Representable, ← Rounding.roundEven_eq_self_iff (by decide) hlarge]
    have hsign : n.sign * (n.natAbs : Int) = n := Int.sign_mul_natAbs n
    have hne : n.sign ≠ 0 := by
      rw [ne_eq, Int.sign_eq_zero_iff_zero]
      rintro rfl
      exact absurd hlarge (by decide)
    constructor
    · intro h
      have hcancel := Int.eq_of_mul_eq_mul_left hne (h.trans hsign.symm)
      exact Int.ofNat_inj.mp hcancel
    · intro h
      rw [h, hsign]

end LedgerCredit

namespace LedgerCredit.Credit

open Txn

/-! ## Fields -/

section Fields

variable {env : Env} {ok : Store → Choice → Prop} {s : Store}

/-- The balance of an account, which is zero without a projection. -/
def Store.balanceMinor (s : Store) (accountId : Uuid) : Int :=
  ((s.ledger.balanceProjections.get? accountId).map (·.currentMinor)).getD 0

theorem getBalance_reported (accountId : Uuid) (context : RequestContext) :
    Returns (services env) ok (AccountsService.getBalance accountId context) s fun r _ =>
      r.minorUnits = numberOfBigInt (s.balanceMinor accountId) := by
  refine Returns.bind (returns_statement fun ch found ws hexec => ?_)
  refine Returns.bind (returns_orThrow fun row hrow => ?_)
  refine Returns.bind (returns_ofExcept fun _ _ => ?_)
  subst hrow
  obtain ⟨account, b⟩ := row
  have hbalance : (b.map (·.currentMinor)).getD 0 = s.balanceMinor accountId := by
    simp only [Store.exec, Except.ok.injEq, Prod.mk.injEq, Option.map_eq_some_iff] at hexec
    obtain ⟨⟨account', haccount, rfl, rfl⟩, -⟩ := hexec
    rw [(Table.get?_eq_some.mp haccount).2]
    rfl
  exact Returns.bind (returns_auditRecord.mono fun _ _ _ => congrArg numberOfBigInt hbalance)

/-- The item shows the line. -/
def AccountsService.LedgerEntryItem.Shows (item : AccountsService.LedgerEntryItem)
    (line : AccountStatementProjection) : Prop :=
  item.postingId = line.postingId ∧ item.minorUnits = numberOfBigInt line.amountMinor ∧
    item.runningBalanceMinor = numberOfBigInt line.runningBalanceMinor

theorem getLedgerEntries_reported (accountId : Uuid) (context : RequestContext)
    (cursor : Option String) (limit : Option Int) :
    Returns (services env) ok (AccountsService.getLedgerEntries env accountId context cursor limit) s
      fun r _ => ∀ item ∈ r.items, ∃ line ∈ s.ledger.statementLines.rows, item.Shows line := by
  refine Returns.bind (returns_statement fun ch found ws hexec => ?_)
  refine Returns.bind (returns_orThrow fun row hrow => ?_)
  refine Returns.bind (returns_ofExcept fun _ _ => ?_)
  subst hrow
  obtain ⟨account, b⟩ := row
  obtain ⟨-, -, rfl⟩ := exec_findAccount hexec
  refine Returns.bind (returns_ofExcept fun _ _ => ?_)
  refine Returns.bind (returns_statement fun ch lines ws hlines => ?_)
  refine Returns.bind (returns_auditRecord.mono fun _ _ _ item hitem => ?_)
  cases hlines
  obtain ⟨line, hline, rfl⟩ := List.mem_map.mp hitem
  exact ⟨line.1, (mem_takeRows (List.mem_of_mem_take hline)).1, rfl, rfl, rfl⟩

theorem getTransferById_reported (transferRequestId : Uuid) (context : RequestContext) :
    Returns (services env) ok (TransfersService.getTransferById env transferRequestId context) s
      fun r _ => ∃ t ∈ s.ledger.transferRequests.rows, t.id = transferRequestId ∧
        r.minorUnits = numberOfBigInt t.amountMinor := by
  refine Returns.bind (returns_statement fun ch found ws hexec => ?_)
  refine Returns.bind (returns_orThrow fun row hrow => ?_)
  refine Returns.bind (returns_ofExcept fun _ _ => ?_)
  subst hrow
  obtain ⟨transfer, sourceAccount⟩ := row
  have hget : s.ledger.transferRequests.get? transferRequestId = some transfer := by
    simp only [Store.exec] at hexec
    cases hfind : s.ledger.transferRequests.get? transferRequestId with
    | none => simp [hfind, withRow] at hexec
    | some t =>
        simp only [hfind, withRow] at hexec
        split at hexec
        · cases hexec
          rfl
        · cases hexec
  obtain ⟨hmem, hid⟩ := Table.get?_eq_some.mp hget
  exact ⟨transfer, hmem, hid, rfl⟩

end Fields

/-- Each field of a response that holds money is the stored integer exactly if a double is, so
that stored integers which doubles are do not share a number. -/
theorem reported_exactly_iff (env : Env) (s : Store) :
    (∀ accountId context, Returns (services env) (fun _ _ => True)
      (AccountsService.getBalance accountId context) s fun r _ =>
        r.minorUnits = s.balanceMinor accountId ↔ Representable (s.balanceMinor accountId)) ∧
    (∀ accountId context cursor limit, Returns (services env) (fun _ _ => True)
      (AccountsService.getLedgerEntries env accountId context cursor limit) s fun r _ =>
        ∀ item ∈ r.items, ∃ line ∈ s.ledger.statementLines.rows, item.postingId = line.postingId ∧
          (item.minorUnits = line.amountMinor ↔ Representable line.amountMinor) ∧
          (item.runningBalanceMinor = line.runningBalanceMinor ↔
            Representable line.runningBalanceMinor)) ∧
    (∀ transferRequestId context, Returns (services env) (fun _ _ => True)
      (TransfersService.getTransferById env transferRequestId context) s fun r _ =>
        ∃ t ∈ s.ledger.transferRequests.rows, t.id = transferRequestId ∧
          (r.minorUnits = t.amountMinor ↔ Representable t.amountMinor)) ∧
    (∀ t, (ExternalRailService.mapTransferResponse t).minorUnits = t.amountMinor ↔
      Representable t.amountMinor) ∧
    (∀ assessment snapshot,
      (CreditService.mapAssessment assessment snapshot).averageBalanceMinor =
        snapshot.averageBalanceMinor ↔ Representable snapshot.averageBalanceMinor) ∧
    ∀ m n, Representable m → Representable n → numberOfBigInt m = numberOfBigInt n → m = n := by
  refine ⟨fun accountId context => ?_, fun accountId context cursor limit => ?_,
    fun transferRequestId context => ?_, fun t => numberOfBigInt_eq_self_iff,
    fun assessment snapshot => numberOfBigInt_eq_self_iff, fun m n hm hn h => ?_⟩
  · refine (getBalance_reported accountId context).mono fun r _ hr => ?_
    rw [hr]
    exact numberOfBigInt_eq_self_iff
  · refine (getLedgerEntries_reported accountId context cursor limit).mono fun r _ hr item hitem => ?_
    obtain ⟨line, hline, hposting, hamount, hrunning⟩ := hr item hitem
    refine ⟨line, hline, hposting, ?_, ?_⟩
    · rw [hamount]
      exact numberOfBigInt_eq_self_iff
    · rw [hrunning]
      exact numberOfBigInt_eq_self_iff
  · refine (getTransferById_reported transferRequestId context).mono fun r _ hr => ?_
    obtain ⟨t, ht, hid, hamount⟩ := hr
    refine ⟨t, ht, hid, ?_⟩
    rw [hamount]
    exact numberOfBigInt_eq_self_iff
  · rw [numberOfBigInt_eq_self_iff.mpr hm, numberOfBigInt_eq_self_iff.mpr hn] at h
    exact h

/-! ## A balance of 54 bits -/

/-- A balance of the checking account. -/
def checkingBalance (currentMinor : Int) : BalanceProjection :=
  ⟨demoData.checkingAccountId, "USD", currentMinor, none⟩

/-- The seed with another balance of the checking account. -/
def balanceStore (currentMinor : Int) : Store :=
  .over ((LedgerCredit.Write.balanceProjection (checkingBalance currentMinor)).apply demoStore)

/-- The choice of the one audit event. -/
def auditChoice (_ : Store) : Choice := ⟨fun _ => "audit", fun _ => by decide, 0, []⟩

/-- `2 ^ 53 + 1` is reported as `2 ^ 53`. -/
theorem balance_reported_inexactly :
    ∃ r s', Finishes (services testEnvironment) (fun _ _ => True)
        (AccountsService.getBalance demoData.checkingAccountId (demoContext "k"))
        (balanceStore (2 ^ 53 + 1)) (.ok (r, s')) ∧
      inBigInt (2 ^ 53 + 1) = true ∧
      (balanceStore (2 ^ 53 + 1)).balanceMinor demoData.checkingAccountId = 2 ^ 53 + 1 ∧
      r.minorUnits = 2 ^ 53 ∧ numberOfBigInt (2 ^ 53) = 2 ^ 53 := by
  refine ⟨_, _, finishes_of_eval auditChoice (fun _ => trivial) rfl, ?_⟩
  decide +kernel

end LedgerCredit.Credit
