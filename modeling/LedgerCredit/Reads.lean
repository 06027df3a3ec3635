import LedgerCredit.Answers

/-!
# What a statement saw

A statement of an open transaction was executed on an earlier store.  `Saw s` is
that knowledge, when the store has come to be `s`.  Accounts and ledger accounts
never change, so what was read of them is true of `s`.  Of a transfer the columns
that no update touches are.  Of a balance, a status or the absence of a row
nothing is known any more.
-/

namespace LedgerCredit

open Txn

/-- What a statement saw, on a store that has come to be `s`. -/
def Saw (s : Store) : View := fun p e =>
  ∃ s₀ ch, s₀.Extends s ∧ (database.applyAll p s₀).exec e.query ch = .ok (e.reply, e.writes)

theorem saw_of_seen {env : Env} {I : Store → Prop} {le : Store → Store → Prop} {s : Store}
    {p : List Write} {e : Event Stmt Write} (hle : ∀ s₀ s₁, le s₀ s₁ → s₀.Extends s₁)
    (h : Seen (server env) I le s p e) : Saw s p e := by
  obtain ⟨s₀, ch, _, hs₀, hexec⟩ := h
  exact ⟨s₀, ch, hle _ _ hs₀, hexec⟩

theorem answering_of_saw {s : Store} {V : View} (hV : ∀ p e, V p e → Saw s p e) : Answering V := by
  intro p α q r ws h
  obtain ⟨_, _, _, hexec⟩ := hV _ _ h
  exact exec_answers hexec

variable {s : Store} {p ws : List Write}

theorem ledgerAccountOf_eq {s₀ s : Store} (h : s₀.ledgerAccounts = s.ledgerAccounts) (id : Uuid) :
    s₀.ledgerAccountOf id = s.ledgerAccountOf id := by
  simp only [Store.ledgerAccountOf, h]

/-- The view of a transaction has the static tables of the store. -/
theorem static_of_extends {s₀ : Store} (h : s₀.Extends s) :
    (database.applyAll p s₀).accounts = s.accounts ∧
      (database.applyAll p s₀).ledgerAccounts = s.ledgerAccounts :=
  ⟨(applyAll_accounts p s₀).trans h.accounts.symm,
    (applyAll_ledgerAccounts p s₀).trans h.ledgerAccounts.symm⟩

/-! ## Accounts and ledger accounts -/

/-- The account `a` has the ledger account `l`. -/
structure Store.Owns (s : Store) (a : Account) (l : Option LedgerAccount) : Prop where
  account : a ∈ s.accounts.rows
  ledgerAccount : s.ledgerAccountOf a.id = l

theorem saw_findAccountWithBalance {id : Uuid} {a : Account} {l : Option LedgerAccount}
    {b : Option BalanceProjection}
    (h : Saw s p ⟨.findAccountWithBalance id, some ⟨a, l, b⟩, ws⟩) : s.Owns a l ∧ a.id = id := by
  obtain ⟨s₀, ch, hs₀, hexec⟩ := h
  obtain ⟨hacc, hled⟩ := static_of_extends (p := p) hs₀
  simp only [Store.exec, Except.ok.injEq, Prod.mk.injEq, Option.map_eq_some_iff] at hexec
  obtain ⟨⟨a', ha', heq⟩, -⟩ := hexec
  rw [hacc] at ha'
  cases heq
  obtain ⟨hmem, hid⟩ := Table.get?_eq_some.mp ha'
  exact ⟨⟨hmem, (ledgerAccountOf_eq hled _).symm⟩, hid⟩

theorem saw_findAccountWithLedger {id : Uuid} {a : Account} {l : Option LedgerAccount}
    (h : Saw s p ⟨.findAccountWithLedger id, some ⟨a, l⟩, ws⟩) : s.Owns a l ∧ a.id = id := by
  obtain ⟨s₀, ch, hs₀, hexec⟩ := h
  obtain ⟨hacc, hled⟩ := static_of_extends (p := p) hs₀
  simp only [Store.exec, Except.ok.injEq, Prod.mk.injEq, Option.map_eq_some_iff] at hexec
  obtain ⟨⟨a', ha', heq⟩, -⟩ := hexec
  rw [hacc] at ha'
  cases heq
  obtain ⟨hmem, hid⟩ := Table.get?_eq_some.mp ha'
  exact ⟨⟨hmem, (ledgerAccountOf_eq hled _).symm⟩, hid⟩

theorem saw_findLedgerAccounts {ids : List Uuid} {r : List LedgerAccount}
    (h : Saw s p ⟨.findLedgerAccounts ids, r, ws⟩) (l : LedgerAccount) :
    l ∈ r ↔ l ∈ s.ledgerAccounts.rows ∧ l.id ∈ ids := by
  obtain ⟨s₀, ch, hs₀, hexec⟩ := h
  obtain ⟨-, hled⟩ := static_of_extends (p := p) hs₀
  cases hexec
  rw [mem_arrange, List.mem_filter, hled]
  simp

theorem saw_findFirstLedgerAccount {category : LedgerAccountCategory} {currency : String}
    {l : LedgerAccount} (h : Saw s p ⟨.findFirstLedgerAccount category currency, some l, ws⟩) :
    l ∈ s.ledgerAccounts.rows ∧ l.category = category ∧ l.currency = currency := by
  obtain ⟨s₀, ch, hs₀, hexec⟩ := h
  obtain ⟨-, hled⟩ := static_of_extends (p := p) hs₀
  simp only [Store.exec, Except.ok.injEq, Prod.mk.injEq] at hexec
  have hmem := List.mem_filter.mp (mem_arrange.mp (List.mem_of_head? hexec.1))
  rw [hled] at hmem
  simpa using hmem

theorem saw_findLedgerAccountsIn {category : LedgerAccountCategory} {currencies : List String}
    {r : List LedgerAccount} (h : Saw s p ⟨.findLedgerAccountsIn category currencies, r, ws⟩) :
    ∀ l ∈ r, l ∈ s.ledgerAccounts.rows ∧ l.category = category := by
  obtain ⟨s₀, ch, hs₀, hexec⟩ := h
  obtain ⟨-, hled⟩ := static_of_extends (p := p) hs₀
  cases hexec
  intro l hl
  have hmem := List.mem_filter.mp (mem_arrange.mp hl)
  rw [hled] at hmem
  simp only [Bool.and_eq_true, decide_eq_true_eq] at hmem
  exact ⟨hmem.1, hmem.2.1⟩

/-- The snapshot of an account, up to its balance. -/
structure Store.SnapshotOf (s : Store) (x : BatchAccountSnapshot) (a : Account) : Prop where
  account : a ∈ s.accounts.rows
  id : x.id = a.id
  currency : x.currency = a.currency
  ledgerAccountId : x.ledgerAccountId = (s.ledgerAccountOf a.id).map (·.id)

theorem saw_findActiveAccounts {r : List BatchAccountSnapshot}
    (h : Saw s p ⟨.findActiveAccounts, r, ws⟩) : ∀ x ∈ r, ∃ a, s.SnapshotOf x a := by
  obtain ⟨s₀, ch, hs₀, hexec⟩ := h
  obtain ⟨hacc, hled⟩ := static_of_extends (p := p) hs₀
  cases hexec
  intro x hx
  obtain ⟨a, ha, rfl⟩ := List.mem_map.mp hx
  have hmem := (List.mem_insertionSort _).mp ha
  rw [hacc] at hmem
  exact ⟨a, (List.mem_filter.mp hmem).1, rfl, rfl,
    congrArg (Option.map _) (ledgerAccountOf_eq hled a.id)⟩

/-! ## Maps -/

theorem mapGet_none {α : Type} {entries : List (String × α)} {key : String}
    (h : mapGet entries key = none) (a : α) : (key, a) ∉ entries := by
  intro hmem
  have hnone := List.find?_eq_none.mp (Option.map_eq_none_iff.mp h) _ (List.mem_reverse.mpr hmem)
  simp at hnone

theorem mapGet_mem {α : Type} {entries : List (String × α)} {key : String} {a : α}
    (h : mapGet entries key = some a) : (key, a) ∈ entries := by
  obtain ⟨⟨k, a'⟩, hfind, rfl⟩ := Option.map_eq_some_iff.mp h
  have hkey : k = key := by simpa using List.find?_some hfind
  exact hkey ▸ List.mem_reverse.mp (List.mem_of_find?_eq_some hfind)

/-! ## Transfers -/

/-- A transfer that was read, with its source account. -/
structure Store.Found (s : Store) (found : TransferWithSource) : Prop where
  transfer : ∃ t ∈ s.transferRequests.rows, found.transfer.Same t
  source : s.Owns found.sourceAccount.account found.sourceAccount.ledgerAccount
  sourceId : found.sourceAccount.account.id = found.transfer.sourceAccountId

theorem includeSource_some {s₀ : Store} {o : Option TransferRequest} {found : TransferWithSource}
    (h : s₀.includeSource o = .ok (some found, ws)) :
    o = some found.transfer ∧
      s₀.accounts.get? found.transfer.sourceAccountId = some found.sourceAccount.account ∧
      found.sourceAccount.ledgerAccount = s₀.ledgerAccountOf found.sourceAccount.account.id := by
  cases o with
  | none => cases h
  | some t =>
      simp only [Store.includeSource] at h
      split at h
      · rename_i a ha
        cases h
        exact ⟨rfl, ha, rfl⟩
      · cases h

theorem saw_findFirstTransferRequest {id ref : Option String} {found : TransferWithSource}
    (h : Saw s [] ⟨.findFirstTransferRequest id ref, some found, ws⟩) : s.Found found := by
  obtain ⟨s₀, ch, hs₀, hexec⟩ := h
  obtain ⟨hread, hsource, hledger⟩ := includeSource_some hexec
  have hmem := (List.mem_filter.mp (mem_arrange.mp (List.mem_of_head? hread))).1
  rw [Database.applyAll_nil, ← hs₀.accounts] at hsource
  obtain ⟨hacc, hid⟩ := Table.get?_eq_some.mp hsource
  exact ⟨hs₀.transferRequests _ hmem,
    ⟨hacc, (hledger.trans (ledgerAccountOf_eq hs₀.ledgerAccounts.symm _)).symm⟩, hid⟩

end LedgerCredit
