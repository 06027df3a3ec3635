import LedgerCredit.TransferEffects
import LedgerCredit.Balances

/-!
# Clearing

What the bank owes other banks is on the clearing accounts: the net credit over
all of them is the sum of the external transfers that are under way or settled.
A transfer that came back has two entries that cancel.  This ties the status
column of the transfers to the postings of another service.

`Booked` says which entries a transfer has, as its status tells.  A commit that
acts on the status that it read keeps this (`reconciled_commit`), so it is true
of every store that atomic transactions reach.
-/

namespace LedgerCredit

open Txn LedgerService ExternalRailService

/-! ## Net credit -/

/-- The ledger account is a clearing account of the currency. -/
def Store.IsClearing (s : Store) (currency : String) (ledgerAccountId : Uuid) : Prop :=
  ∃ l ∈ s.ledgerAccounts.rows,
    l.id = ledgerAccountId ∧ l.category = .clearing ∧ l.currency = currency

instance (s : Store) (currency : String) (ledgerAccountId : Uuid) :
    Decidable (s.IsClearing currency ledgerAccountId) :=
  inferInstanceAs (Decidable (∃ l ∈ s.ledgerAccounts.rows,
    l.id = ledgerAccountId ∧ l.category = .clearing ∧ l.currency = currency))

/-- The net credit of a posting on the clearing accounts of a currency. -/
def Store.netCredit (s : Store) (currency : String) (p : Posting) : Int :=
  if s.IsClearing currency p.ledgerAccountId then
    computeBalanceEffect p.direction .credit p.amountMinor
  else 0

/-- The net credit over all clearing accounts of a currency. -/
def Store.clearingBalance (s : Store) (currency : String) : Int :=
  s.postings.sum (s.netCredit currency)

/-- What a transfer counts for: its amount, if it is external and under way or settled. -/
def TransferRequest.outstanding (currency : String) (t : TransferRequest) : Int :=
  if t.transferType = .interbank ∧ t.currency = currency ∧
      (t.status = .pendingExternal ∨ t.status = .settled) then t.amountMinor
  else 0

/-- The sum of the external transfers of a currency that are under way or settled. -/
def Store.outstanding (s : Store) (currency : String) : Int :=
  s.transferRequests.sum (·.outstanding currency)

variable {s s' : Store} {currency : String} {l : LedgerAccount}

theorem isClearing_congr (h : s'.ledgerAccounts = s.ledgerAccounts) :
    s'.IsClearing currency = s.IsClearing currency := by
  funext id
  simp only [Store.IsClearing, h]

theorem netCredit_congr (h : s'.ledgerAccounts = s.ledgerAccounts) :
    s'.netCredit currency = s.netCredit currency := by
  funext p
  simp only [Store.netCredit, isClearing_congr h]

theorem isClearing_iff (hl : l ∈ s.ledgerAccounts.rows) :
    s.IsClearing currency l.id ↔ l.category = .clearing ∧ l.currency = currency := by
  constructor
  · rintro ⟨l', hl', hid, h⟩
    obtain rfl := Table.eq_of_pk hl' hl hid
    exact h
  · intro h
    exact ⟨l, hl, rfl, h⟩

/-- The clearing accounts are linked to no account. -/
def Store.ClearingUnlinked (s : Store) : Prop :=
  ∀ l ∈ s.ledgerAccounts.rows, l.category = .clearing → l.accountId = none

/-- The ledger account of an account is no clearing account. -/
theorem not_isClearing_of_owned (hs : s.ClearingUnlinked) (currency : String) {accountId : Uuid}
    (hl : s.ledgerAccountOf accountId = some l) : ¬ s.IsClearing currency l.id := by
  obtain ⟨hmem, hlink⟩ := Table.find?_mem hl
  intro h
  have hnone := hs l hmem ((isClearing_iff hmem).mp h).1
  exact nomatch hlink.symm.trans hnone

/-- The net credit of an entry that moves an amount. -/
theorem Moves.netCredit {entry : JournalEntry} {postings : List Posting} {transferId : Uuid}
    {operation : String} {debited credited : Uuid} {amountMinor : Int}
    (h : Moves entry postings transferId operation debited credited amountMinor) :
    (postings.map (s.netCredit currency)).sum =
      (if s.IsClearing currency debited then -amountMinor else 0) +
        if s.IsClearing currency credited then amountMinor else 0 := by
  obtain ⟨debit, credit, rfl, hdir, hacc, hamount, hdir', hacc', hamount'⟩ := h.postings
  simp [Store.netCredit, computeBalanceEffect, hdir, hacc, hamount, hdir', hacc', hamount']

/-- Interest does not touch clearing. -/
theorem PaysInterest.netCredit {e : JournalEntry × List Posting} (h : PaysInterest s e)
    (hs : s.ClearingUnlinked) : (e.2.map (s.netCredit currency)).sum = 0 := by
  refine List.sum_eq_zero fun x hx => ?_
  obtain ⟨q, hq, rfl⟩ := List.mem_map.mp hx
  obtain ⟨l, hl, hid, hcases⟩ := h.accounts q hq
  refine if_neg ?_
  rw [← hid]
  rcases hcases with hcategory | ⟨accountId, howned⟩
  · intro hclearing
    have := ((isClearing_iff hl).mp hclearing).1
    simp [hcategory] at this
  · exact not_isClearing_of_owned hs currency howned

/-! ## Entries of a transfer -/

/-- The journal entries of a transfer, oldest first. -/
def Store.entriesOf (s : Store) (transferId : Uuid) : List JournalEntry :=
  s.journalEntries.rows.filter fun e => e.transferRequestId = some transferId

section Append

variable {ws : List Write} {entries : List (JournalEntry × List Posting)} {id : Uuid}

theorem clearingBalance_append (hadm : database.Admissible s ws) (hj : Journalled ws entries) :
    (database.applyAll ws s).clearingBalance currency = s.clearingBalance currency +
      (entries.map fun e => (e.2.map (s.netCredit currency)).sum).sum := by
  rw [Store.clearingBalance, netCredit_congr (applyAll_ledgerAccounts ws s), Table.sum,
    postings_of_journalled hadm hj, List.map_append, List.sum_append, List.map_flatMap,
    List.flatMap_def, List.sum_flatten, List.map_map]
  rfl

theorem entriesOf_append (hadm : database.Admissible s ws) (hj : Journalled ws entries) :
    (database.applyAll ws s).entriesOf id = s.entriesOf id ++
      (entries.map (·.1)).filter fun e => e.transferRequestId = some id := by
  rw [Store.entriesOf, journalEntries_of_journalled hadm hj, List.filter_append]
  rfl

theorem entriesOf_other (hadm : database.Admissible s ws) (hj : Journalled ws entries)
    (hne : ∀ e ∈ entries, e.1.transferRequestId ≠ some id) :
    (database.applyAll ws s).entriesOf id = s.entriesOf id := by
  rw [entriesOf_append hadm hj, List.append_right_eq_self, List.filter_eq_nil_iff]
  intro e he
  obtain ⟨g, hg, rfl⟩ := List.mem_map.mp he
  simpa using hne g hg

theorem entriesOf_own {e : JournalEntry} {postings : List Posting}
    (hadm : database.Admissible s ws) (hj : Journalled ws [(e, postings)])
    (hown : e.transferRequestId = some id) :
    (database.applyAll ws s).entriesOf id = s.entriesOf id ++ [e] := by
  rw [entriesOf_append hadm hj]
  simp [hown]

/-- A transfer that is not there yet has no entries. -/
theorem entriesOf_fresh (hs : s.ForeignKeys) (hid : ∀ t ∈ s.transferRequests.rows, t.id ≠ id) :
    s.entriesOf id = [] := by
  refine List.filter_eq_nil_iff.mpr fun e he => ?_
  simp only [decide_eq_true_eq]
  intro htransfer
  obtain ⟨t, ht⟩ := Option.isSome_iff_exists.mp (hs.transfer e he id htransfer)
  obtain ⟨hmem, heq⟩ := Table.get?_eq_some.mp ht
  exact hid t hmem heq

end Append

/-- The entry took the amount of a transfer from its source account and gave it to clearing. -/
structure Store.Debited (s : Store) (t : TransferRequest) (e : JournalEntry)
    (source : LedgerAccount) : Prop where
  owned : s.ledgerAccountOf t.sourceAccountId = some source
  entry : ∃ clearing, s.IsClearing t.currency clearing ∧ Moves e (s.postingsOf e.id) t.id
    "INTERBANK_TRANSFER_INITIATED" source.id clearing t.amountMinor

/-- The entry gave the amount of a transfer back. -/
def Store.Refunded (s : Store) (t : TransferRequest) (e : JournalEntry) (source : LedgerAccount) :
    Prop :=
  ∃ clearing, s.IsClearing t.currency clearing ∧ Moves e (s.postingsOf e.id) t.id
    "INTERBANK_TRANSFER_COMPENSATION" clearing source.id t.amountMinor

/-- An external transfer has the entries that its status tells. -/
inductive Store.Booked (s : Store) (t : TransferRequest) : Prop where
  | underway {e : JournalEntry} {source : LedgerAccount} :
      t.status = .pendingExternal ∨ t.status = .settled → s.entriesOf t.id = [e] →
      s.Debited t e source → Booked s t
  | compensated {e e' : JournalEntry} {source : LedgerAccount} :
      t.status = .compensated → s.entriesOf t.id = [e, e'] → s.Debited t e source →
      s.Refunded t e' source → Booked s t

section Step

variable {ws : List Write} {entries : List (JournalEntry × List Posting)} {t t' : TransferRequest}
  {e e' : JournalEntry} {source : LedgerAccount}

theorem mem_of_entriesOf {id : Uuid} (he : e ∈ s.entriesOf id) : e ∈ s.journalEntries.rows :=
  (List.mem_filter.mp he).1

theorem Store.Debited.step (hadm : database.Admissible s ws) (hj : Journalled ws entries)
    (hsame : t.Same t') (he : e ∈ s.journalEntries.rows) (h : s.Debited t e source) :
    (database.applyAll ws s).Debited t' e source where
  owned := by
    rw [hsame.sourceAccountId, ledgerAccountOf_eq (applyAll_ledgerAccounts ws s)]
    exact h.owned
  entry := by
    obtain ⟨clearing, hclearing, hmoves⟩ := h.entry
    refine ⟨clearing, ?_, ?_⟩
    · rw [isClearing_congr (applyAll_ledgerAccounts ws s), hsame.currency]
      exact hclearing
    · rw [postingsOf_old hadm hj he, hsame.id, hsame.amountMinor]
      exact hmoves

theorem Store.Refunded.step (hadm : database.Admissible s ws) (hj : Journalled ws entries)
    (hsame : t.Same t') (he : e ∈ s.journalEntries.rows) (h : s.Refunded t e source) :
    (database.applyAll ws s).Refunded t' e source := by
  obtain ⟨clearing, hclearing, hmoves⟩ := h
  refine ⟨clearing, ?_, ?_⟩
  · rw [isClearing_congr (applyAll_ledgerAccounts ws s), hsame.currency]
    exact hclearing
  · rw [postingsOf_old hadm hj he, hsame.id, hsame.amountMinor]
    exact hmoves

/-- Entries of other transfers leave a transfer booked. -/
theorem Store.Booked.step (hadm : database.Admissible s ws) (hj : Journalled ws entries)
    (hne : ∀ e ∈ entries, e.1.transferRequestId ≠ some t.id) (h : s.Booked t) :
    (database.applyAll ws s).Booked t := by
  have hentries := entriesOf_other hadm hj hne
  cases h with
  | underway hstatus hof hdebited =>
      refine .underway hstatus (hentries.trans hof) (hdebited.step hadm hj (.refl t) ?_)
      exact mem_of_entriesOf (hof ▸ List.mem_cons_self ..)
  | compensated hstatus hof hdebited hrefunded =>
      refine .compensated hstatus (hentries.trans hof) (hdebited.step hadm hj (.refl t) ?_)
        (hrefunded.step hadm hj (.refl t) ?_)
      · exact mem_of_entriesOf (hof ▸ List.mem_cons_self ..)
      · exact mem_of_entriesOf (hof ▸ List.mem_cons_of_mem _ (List.mem_cons_self ..))

end Step

/-! ## Reconciliation -/

/-- The transfers, their entries and the clearing accounts agree. -/
structure Store.Reconciled (s₀ s : Store) : Prop where
  extended : s₀.Extends s
  unlinked : s.ClearingUnlinked
  keys : s.ForeignKeys
  id_ne : ∀ t ∈ s.transferRequests.rows, t.id ≠ ""
  internal : ∀ t ∈ s.transferRequests.rows, t.transferType = .internal → t.status = .settled
  clearing : ∀ currency, s.clearingBalance currency = s.outstanding currency
  booked : ∀ t ∈ s.transferRequests.rows, t.transferType = .interbank → s.Booked t

section Commit

variable {ws : List Write} {entries : List (JournalEntry × List Posting)} {s₀ : Store}

/-- The parts of the invariant that every commit keeps. -/
theorem Store.Reconciled.frame (h : s₀.Reconciled s) (hadm : database.Admissible s ws) :
    s₀.Extends (database.applyAll ws s) ∧ (database.applyAll ws s).ClearingUnlinked ∧
      (database.applyAll ws s).ForeignKeys := by
  refine ⟨h.extended.trans (extends_applyAll ws s), ?_, foreignKeys_applyAll hadm h.keys⟩
  unfold Store.ClearingUnlinked
  rw [applyAll_ledgerAccounts]
  exact h.unlinked

/-- A commit that leaves the transfers alone. -/
theorem Store.Reconciled.other (h : s₀.Reconciled s) (hadm : database.Admissible s ws)
    (hj : Journalled ws entries)
    (htransfers : (database.applyAll ws s).transferRequests = s.transferRequests)
    (hentries : ∀ e ∈ entries, PaysInterest s e) : s₀.Reconciled (database.applyAll ws s) := by
  obtain ⟨hext, hunlinked, hkeys⟩ := h.frame hadm
  refine ⟨hext, hunlinked, hkeys, htransfers ▸ h.id_ne, htransfers ▸ h.internal, fun currency => ?_,
    fun t ht htype => ?_⟩
  · have hzero : (entries.map fun e => (e.2.map (s.netCredit currency)).sum).sum = 0 := by
      refine List.sum_eq_zero fun x hx => ?_
      obtain ⟨e, he, rfl⟩ := List.mem_map.mp hx
      exact (hentries e he).netCredit h.unlinked
    rw [clearingBalance_append hadm hj, hzero, add_zero, h.clearing currency]
    simp only [Store.outstanding, htransfers]
  · rw [htransfers] at ht
    refine (h.booked t ht htype).step hadm hj fun e he => ?_
    simp [(hentries e he).transfer]

/-- A new transfer is another one than those that are there. -/
theorem Initiated.fresh {args : CreateTransferArgs} {r : TransferMutationResult} {t : TransferRequest} {u : Uuid}
    {source : LedgerAccount} (h : Initiated s s' args r t u source) :
    ∀ t' ∈ s.transferRequests.rows, t'.id ≠ t.id := by
  intro t' ht' heq
  have hnodup := s'.transferRequests.pk_nodup
  rw [h.transferRequests, List.map_append] at hnodup
  exact (List.nodup_append.mp hnodup).2.2 t'.id (List.mem_map_of_mem ht') t.id
    (List.mem_singleton_self _) heq

/-- The entry of a transfer names it, if it has an identifier. -/
theorem Moves.transferId {entry : JournalEntry} {postings : List Posting} {transferId : Uuid}
    {operation : String} {debited credited : Uuid} {amountMinor : Int}
    (h : Moves entry postings transferId operation debited credited amountMinor)
    (hne : transferId ≠ "") : entry.transferRequestId = some transferId := by
  rw [h.transfer]
  simp [truthy, hne]

/-- A commit that creates a transfer, with the entry that goes with it. -/
theorem Store.Reconciled.created (h : s₀.Reconciled s) (hadm : database.Admissible s ws)
    {args : CreateTransferArgs} {r : TransferMutationResult} {t : TransferRequest} {u : Uuid}
    {source : LedgerAccount} {entry : JournalEntry} {postings : List Posting} {operation : String}
    {credited : Uuid} (hj : Journalled ws [(entry, postings)])
    (hinitiated : Initiated s (database.applyAll ws s) args r t u source)
    (hmoves : Moves entry postings t.id operation source.id credited t.amountMinor)
    (hinternal : t.transferType = .internal → t.status = .settled)
    (hclearing : ∀ currency, (if s.IsClearing currency credited then t.amountMinor else 0) =
      t.outstanding currency)
    (hbooked : t.transferType = .interbank → (database.applyAll ws s).Booked t) :
    s₀.Reconciled (database.applyAll ws s) := by
  obtain ⟨hext, hunlinked, hkeys⟩ := h.frame hadm
  have hrows := hinitiated.transferRequests
  refine ⟨hext, hunlinked, hkeys, ?_, ?_, fun currency => ?_, ?_⟩
  · rw [hrows]
    exact List.forall_mem_append.mpr ⟨h.id_ne, List.forall_mem_singleton.mpr hinitiated.id_ne⟩
  · rw [hrows]
    exact List.forall_mem_append.mpr ⟨h.internal, List.forall_mem_singleton.mpr hinternal⟩
  · have hnot := not_isClearing_of_owned h.unlinked currency hinitiated.source
    have hsum : (database.applyAll ws s).outstanding currency =
        s.outstanding currency + t.outstanding currency := by
      simp [Store.outstanding, Table.sum, hrows]
    rw [clearingBalance_append hadm hj, h.clearing currency, hsum, ← hclearing currency]
    simp [hmoves.netCredit, hnot]
  · rw [hrows]
    refine List.forall_mem_append.mpr ⟨fun t' ht' htype => ?_, List.forall_mem_singleton.mpr hbooked⟩
    refine (h.booked t' ht' htype).step hadm hj (List.forall_mem_singleton.mpr fun heq => ?_)
    have hid := (hmoves.transferId hinitiated.id_ne).symm.trans heq
    exact hinitiated.fresh t' ht' (Option.some.inj hid).symm

/-- The rows after a change of one transfer. -/
theorem forall_mem_changed {P : TransferRequest → Prop} {rows : List TransferRequest} {id : Uuid}
    {f : TransferRequest → TransferRequest} (hother : ∀ t ∈ rows, t.id ≠ id → P t)
    (hchanged : ∀ t ∈ rows, t.id = id → P (f t)) :
    ∀ t ∈ rows.map (fun t => if t.id = id then f t else t), P t := by
  intro t ht
  obtain ⟨t₀, ht₀, rfl⟩ := List.mem_map.mp ht
  by_cases hid : t₀.id = id
  · rw [if_pos hid]
    exact hchanged t₀ ht₀ hid
  · rw [if_neg hid]
    exact hother t₀ ht₀ hid

/-- Only external transfers are under way. -/
theorem Store.Reconciled.interbank (h : s₀.Reconciled s) {t : TransferRequest}
    (ht : t ∈ s.transferRequests.rows) (hpending : t.status = .pendingExternal) :
    t.transferType = .interbank := by
  cases hty : t.transferType with
  | interbank => rfl
  | internal => exact nomatch (h.internal t ht hty).symm.trans hpending

/-- A transfer that is under way has one entry. -/
theorem Store.Reconciled.underway (h : s₀.Reconciled s) {t : TransferRequest}
    (ht : t ∈ s.transferRequests.rows) (hpending : t.status = .pendingExternal) :
    ∃ e source, s.entriesOf t.id = [e] ∧ s.Debited t e source ∧ e ∈ s.journalEntries.rows := by
  cases h.booked t ht (h.interbank ht hpending) with
  | underway _ hof hdebited =>
      exact ⟨_, _, hof, hdebited, mem_of_entriesOf (hof ▸ List.mem_cons_self ..)⟩
  | compensated hstatus _ _ _ => exact nomatch hpending.symm.trans hstatus

/-- A commit that changes a transfer that is under way. -/
theorem Store.Reconciled.changed (h : s₀.Reconciled s) (hadm : database.Admissible s ws)
    (hj : Journalled ws entries) {t : TransferRequest} (ht : t ∈ s.transferRequests.rows)
    (hpending : t.status = .pendingExternal) {f : TransferRequest → TransferRequest}
    (hrows : (database.applyAll ws s).transferRequests.rows =
      s.transferRequests.rows.map fun t' => if t'.id = t.id then f t' else t')
    (hsame : t.Same (f t)) (hothers : ∀ e ∈ entries, e.1.transferRequestId = some t.id)
    (hclearing : ∀ currency, (entries.map fun e => (e.2.map (s.netCredit currency)).sum).sum =
      (f t).outstanding currency - t.outstanding currency)
    (hbooked : (database.applyAll ws s).Booked (f t)) :
    s₀.Reconciled (database.applyAll ws s) := by
  obtain ⟨hext, hunlinked, hkeys⟩ := h.frame hadm
  have hunique : ∀ t' ∈ s.transferRequests.rows, t'.id = t.id → t' = t := fun t' ht' hid =>
    Table.eq_of_pk ht' ht hid
  have htype := h.interbank ht hpending
  refine ⟨hext, hunlinked, hkeys, ?_, ?_, fun currency => ?_, ?_⟩
  · rw [hrows]
    refine forall_mem_changed (fun t' ht' _ => h.id_ne t' ht') fun t' ht' hid => ?_
    rw [hunique t' ht' hid, hsame.id]
    exact h.id_ne t ht
  · rw [hrows]
    refine forall_mem_changed (fun t' ht' _ => h.internal t' ht') fun t' ht' hid hty => ?_
    rw [hunique t' ht' hid, hsame.transferType, htype] at hty
    cases hty
  · have hsum : (database.applyAll ws s).outstanding currency =
        s.outstanding currency - t.outstanding currency + (f t).outstanding currency := by
      rw [Store.outstanding, Table.sum, hrows]
      exact Table.sum_changed ht rfl
    rw [clearingBalance_append hadm hj, h.clearing currency, hsum, hclearing currency]
    omega
  · rw [hrows]
    refine forall_mem_changed (fun t' ht' hne hty => ?_) fun t' ht' hid _ => ?_
    · refine (h.booked t' ht' hty).step hadm hj fun e he heq => hne ?_
      exact Option.some.inj (heq.symm.trans (hothers e he))
    · rw [hunique t' ht' hid]
      exact hbooked

/-- The entry that a commit adds has its postings. -/
theorem moves_new {entry : JournalEntry} {postings : List Posting} {transferId : Uuid}
    {operation : String} {debited credited : Uuid} {amountMinor : Int} (hs : s.ForeignKeys)
    (hadm : database.Admissible s ws) (hj : Journalled ws [(entry, postings)])
    (h : Moves entry postings transferId operation debited credited amountMinor) :
    Moves entry ((database.applyAll ws s).postingsOf entry.id) transferId operation debited credited
      amountMinor := by
  rw [postingsOf_new hadm hj hs (List.mem_singleton_self (entry, postings))]
  exact h

/-- Every commit that acts on the transfer as it is keeps the books. -/
theorem Store.Reconciled.step {V : View} {env : Env} (h : s₀.Reconciled s)
    (hV : ∀ p e, V p e → Saw s p e) (hadm : database.Admissible s ws) (hj : Journalled ws entries)
    {α : Type} {l : Label α} {a : α}
    (heffect : TransferEffect V env s (database.applyAll ws s) l a entries)
    (hcur : ∀ event found row, Received V event found row →
      found.transfer ∈ s.transferRequests.rows) : s₀.Reconciled (database.applyAll ws s) := by
  cases heffect with
  | replayed _ _ _ hsame =>
      rw [hsame]
      exact h
  | other _ htransfers _ hentries => exact h.other hadm hj htransfers hentries
  | @internal _ _ t _ _ _ _ _ _ hinitiated hstatus htype hdest hmoves =>
      refine h.created hadm hj hinitiated hmoves (fun _ => hstatus) (fun currency => ?_) fun hty => ?_
      · rw [if_neg (not_isClearing_of_owned h.unlinked currency hdest)]
        simp [TransferRequest.outstanding, htype]
      · exact nomatch htype.symm.trans hty
  | @external _ _ t _ source clearing e _ hinitiated hstatus htype _ _ hmem hcategory hcurrency hmoves =>
      have hiff : ∀ currency, s.IsClearing currency clearing.id ↔ t.currency = currency :=
        fun currency => (isClearing_iff hmem).trans (by simp [hcategory, hcurrency])
      refine h.created hadm hj hinitiated hmoves (fun hty => ?_) (fun currency => ?_) fun _ => ?_
      · exact nomatch htype.symm.trans hty
      · simp [TransferRequest.outstanding, hiff, htype, hstatus]
      · have hof : (database.applyAll ws s).entriesOf t.id = [e] := by
          rw [entriesOf_own hadm hj (hmoves.transferId hinitiated.id_ne),
            entriesOf_fresh h.keys hinitiated.fresh, List.nil_append]
        have hdebited : (database.applyAll ws s).Debited t e source := by
          refine ⟨?_, clearing.id, ?_, moves_new h.keys hadm hj hmoves⟩
          · rw [ledgerAccountOf_eq (applyAll_ledgerAccounts ws s)]
            exact hinitiated.source
          · rw [isClearing_congr (applyAll_ledgerAccounts ws s)]
            exact (hiff t.currency).mpr rfl
        exact .underway (Or.inl hstatus) hof hdebited
  | @settled event found row settledAt _ hreceived hpending hrows _ =>
      have ht := hcur event found row hreceived
      refine h.changed hadm hj ht hpending hrows (TransferRequestUpdate.apply_same ..) (by simp)
        (fun currency => ?_) ?_
      · simp [TransferRequest.outstanding, settledUpdate, TransferRequestUpdate.apply, hpending]
      · obtain ⟨e, source, hof, hdebited, he⟩ := h.underway ht hpending
        refine .underway (Or.inr rfl) (e := e) ?_
          (hdebited.step hadm hj (TransferRequestUpdate.apply_same ..) he)
        exact (entriesOf_other hadm hj (by simp)).trans hof
  | @compensated event found row source clearing e _ _ hreceived hpending hrows _ hsource hmem hcategory
      hcurrency hmoves =>
      have ht := hcur event found row hreceived
      obtain ⟨-, howns, hid⟩ := saw_findFirstTransferRequest (hV _ _ hreceived.lookup)
      have howned : s.ledgerAccountOf found.transfer.sourceAccountId = some source := by
        rw [← hid, howns.ledgerAccount, hsource]
      have hiff : ∀ currency, s.IsClearing currency clearing.id ↔ found.transfer.currency = currency :=
        fun currency => (isClearing_iff hmem).trans (by simp [hcategory, hcurrency])
      have hsame : found.transfer.Same ((TransfersService.statusUpdate .compensated).apply
          ((failedUpdate event).apply found.transfer)) := ⟨rfl, rfl, rfl, rfl, rfl, rfl, rfl, rfl⟩
      have hentry := hmoves.transferId (h.id_ne _ ht)
      refine h.changed hadm hj ht hpending hrows hsame (List.forall_mem_singleton.mpr hentry)
        (fun currency => ?_) ?_
      · have hnot := not_isClearing_of_owned h.unlinked currency howned
        have htype := h.interbank ht hpending
        by_cases hcur : found.transfer.currency = currency <;>
          simp [hmoves.netCredit, hnot, hiff, hcur, TransferRequest.outstanding, htype, hpending,
            TransfersService.statusUpdate, failedUpdate, TransferRequestUpdate.apply]
      · obtain ⟨e₀, source₀, hof, hdebited, he₀⟩ := h.underway ht hpending
        obtain rfl := Option.some.inj (hdebited.owned.symm.trans howned)
        have hentries := (entriesOf_own hadm hj hentry).trans (congrArg (· ++ [e]) hof)
        refine .compensated rfl hentries (hdebited.step hadm hj hsame he₀)
          ⟨clearing.id, ?_, moves_new h.keys hadm hj hmoves⟩
        rw [isClearing_congr (applyAll_ledgerAccounts ws s)]
        exact (hiff _).mpr rfl

end Commit

/-! ## Runs -/

/-- The sum of the postings of a journal entry, as `f` counts them. -/
def Store.entrySum (s : Store) (f : Posting → Int) (e : JournalEntry) : Int :=
  ((s.postingsOf e.id).map f).sum

/-- A transfer has two entries, whose effects on its source account and on clearing cancel. -/
def Store.Cancelled (s : Store) (t : TransferRequest) : Prop :=
  ∃ e e' source, s.entriesOf t.id = [e, e'] ∧
    s.ledgerAccountOf t.sourceAccountId = some source ∧
    s.entrySum source.effect e = computeBalanceEffect .debit source.normalBalanceDirection
      t.amountMinor ∧
    s.entrySum source.effect e' = -s.entrySum source.effect e ∧
    s.entrySum (s.netCredit t.currency) e = t.amountMinor ∧
    s.entrySum (s.netCredit t.currency) e' = -t.amountMinor

/-- The status and the entries of an external transfer. -/
structure Store.InOrder (s : Store) (t : TransferRequest) : Prop where
  status : t.status = .pendingExternal ∨ t.status = .settled ∨ t.status = .compensated
  cancelled : t.status = .compensated → s.Cancelled t

/-- The effect of an entry that moves an amount on a ledger account that it touches once. -/
theorem Moves.effect {entry : JournalEntry} {postings : List Posting} {transferId : Uuid}
    {operation : String} {debited credited : Uuid} {amountMinor : Int}
    (h : Moves entry postings transferId operation debited credited amountMinor)
    (hne : debited ≠ credited) :
    (l.id = debited → (postings.map l.effect).sum =
        computeBalanceEffect .debit l.normalBalanceDirection amountMinor) ∧
      (l.id = credited → (postings.map l.effect).sum =
        computeBalanceEffect .credit l.normalBalanceDirection amountMinor) := by
  obtain ⟨debit, credit, rfl, hdir, hacc, hamount, hdir', hacc', hamount'⟩ := h.postings
  constructor
  · rintro rfl
    simp [LedgerAccount.effect, hdir, hacc, hamount, hacc', hne.symm]
  · rintro rfl
    simp [LedgerAccount.effect, hdir', hacc, hacc', hamount', hne]

theorem computeBalanceEffect_credit (normal : Direction) (amountMinor : Int) :
    computeBalanceEffect .credit normal amountMinor =
      -computeBalanceEffect .debit normal amountMinor := by
  cases normal <;> simp [computeBalanceEffect]

theorem Store.Booked.inOrder {t : TransferRequest} (h : s.Booked t) (hs : s.ClearingUnlinked) :
    s.InOrder t := by
  cases h with
  | underway hstatus _ _ =>
      refine ⟨hstatus.imp_right Or.inl, fun hcomp => ?_⟩
      rcases hstatus with hstatus | hstatus <;> exact nomatch hstatus.symm.trans hcomp
  | @compensated e e' source hstatus hof hdebited hrefunded =>
      refine ⟨Or.inr (Or.inr hstatus), fun _ => ⟨e, e', source, hof, hdebited.owned, ?_⟩⟩
      obtain ⟨clearing, hclearing, hmoves⟩ := hdebited.entry
      obtain ⟨clearing', hclearing', hmoves'⟩ := hrefunded
      have hnot := not_isClearing_of_owned hs t.currency hdebited.owned
      have hne : source.id ≠ clearing := fun heq => hnot (heq ▸ hclearing)
      have hne' : clearing' ≠ source.id := fun heq => hnot (heq ▸ hclearing')
      have heffect := (hmoves.effect (l := source) hne).1 rfl
      refine ⟨heffect, ?_, ?_, ?_⟩
      · refine ((hmoves'.effect (l := source) hne').2 rfl).trans ?_
        rw [Store.entrySum, heffect, computeBalanceEffect_credit]
      · simp [Store.entrySum, hmoves.netCredit, hnot, hclearing]
      · simp [Store.entrySum, hmoves'.netCredit, hnot, hclearing']

/-- The rules of atomic transactions from the store `s` on. -/
def clearingRules (env : Env) (s : Store) : Rules (server env) Unit Empty :=
  Rules.static (server env) s.Reconciled Store.Extends (grounds s) (learned s) (fun _ => [()])
    fun s' _ p e => ∃ ch, (server env).exec e.query ch ((server env).applyAll p s') =
      .ok (e.reply, e.writes)

variable {env : Env}

theorem clearingRules_valid : (clearingRules env s).Valid (server env).Serial := by
  refine serialRules_valid (fun _ hinv => hinv.extended) ?_
  intro α s' l a ws hinv hl hadm hcommitted
  obtain ⟨entries, hj, heffect⟩ := hcommitted.effect (fun _ _ => saw_of_now) hl hadm
  exact hinv.step (fun _ _ => saw_of_now) hadm hj heffect
    fun _ _ _ hreceived => now_findFirstTransferRequest hreceived.lookup

/-- The clearing accounts show what is under way or settled, and every external transfer is in
order, in every store that atomic transactions reach. -/
theorem clearing_reconciles (hs : s.ClearingUnlinked) (hkeys : s.ForeignKeys)
    (htransfers : s.transferRequests.rows = []) (hentries : s.journalEntries.rows = [])
    {c : ServerConfig} (hrun : Steps (server env) (server env).Serial (.initial s) c) :
    (∀ currency, c.store.clearingBalance currency = c.store.outstanding currency) ∧
      ∀ t ∈ c.store.transferRequests.rows, t.transferType = .interbank → c.store.InOrder t := by
  have hinit : s.Reconciled s := by
    refine ⟨.refl s, hs, hkeys, by simp [htransfers], by simp [htransfers], fun currency => ?_,
      by simp [htransfers]⟩
    simp [Store.clearingBalance, Store.outstanding, Table.sum, htransfers,
      hkeys.postings_nil hentries]
  obtain ⟨⟨own, hsound⟩, -⟩ := Rules.sound_of_steps clearingRules_valid hinit hrun
  have hreconciled : s.Reconciled c.store := hsound.inv
  exact ⟨hreconciled.clearing, fun t ht hty =>
    (hreconciled.booked t ht hty).inOrder hreconciled.unlinked⟩

/-- An external transfer of the demo customer, which the rail rejects once it is created. -/
def returnedSchedule : List (Action Choice Call) :=
  .start (.createTransfer (demoTransfer (.externalBank none "NATL" "1099" "Jane Doe") 2500)
      (demoContext "k")) :: advances 0 "a" 21 ++
    .start (.applyNormalizedEvent
      { terminalEvent "failed" .failed with transferRequestId := some "id-a4-0" }) ::
    advances 1 "b" 22

theorem clearing_reconciles_returned :
    ∃ c, Steps (server testEnvironment) (server testEnvironment).Serial (.initial demoStore) c ∧
      ∃ t ∈ c.store.transferRequests.rows, t.status = .compensated ∧ c.store.Cancelled t ∧
        c.store.clearingBalance t.currency = c.store.outstanding t.currency := by
  obtain ⟨c, hrun, t, ht, htype, hstatus⟩ := exists_of_play (server testEnvironment)
    (server testEnvironment).Serial (.initial demoStore) returnedSchedule
    (fun c => ∃ t ∈ c.store.transferRequests.rows,
      t.transferType = .interbank ∧ t.status = .compensated) (by decide +kernel)
  have hseeded := seedBaseData_seeded (by decide +kernel : testEnvironment.toUpperCase "USD" = "USD") "customer"
    "ledger-checking" "ledger-savings"
  obtain ⟨hclearing, horder⟩ := clearing_reconciles
    (fun l hl hcategory => hseeded.unlinked l hl (by simp [hcategory]))
    (seedBaseData_foreignKeys "customer" "ledger-checking" "ledger-savings") rfl rfl hrun
  exact ⟨c, hrun, t, ht, hstatus, (horder t ht htype).cancelled hstatus, hclearing t.currency⟩

end LedgerCredit
