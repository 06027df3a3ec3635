import LedgerCredit.Txn.Rules
import LedgerCredit.Services

/-!
# Answers

What a statement may answer and write, whatever the store.  `Answers` is read
off `exec` once, here.  The specifications of the transactions are about
histories in which every event answers its statement (`Answering`).

`Store.Extends` is how stores evolve.  A write adds rows and updates some
columns, so accounts and ledger accounts never change, journal entries,
postings and statement lines are only appended, and the rows of the other tables
keep the columns that no update touches.
-/

namespace LedgerCredit

open Txn

/-- What is asked of the events of a history, each after the writes before it. -/
abbrev View := List Write → Event Stmt Write → Prop

/-- The replies and writes a statement may have. -/
def Answers : {α : Type} → Stmt α → α → List Write → Prop
  | _, .findLedgerAccounts ids, r, ws => (∀ l ∈ r, l.id ∈ ids) ∧ ws = []
  | _, .findFirstLedgerAccount category currency, r, ws =>
      (∀ l, r = some l → l.category = category ∧ l.currency = currency) ∧ ws = []
  | _, .findLedgerAccountsIn category currencies, r, ws =>
      (∀ l ∈ r, l.category = category ∧ l.currency ∈ currencies) ∧ ws = []
  | _, .createJournalEntry data, r, ws => (∃ u, r = data u) ∧ ws = [.journalEntry r]
  | _, .createJournalEntries data, _, ws => ws = data.map .journalEntry
  | _, .createPosting data, r, ws => (∃ u, r = data u) ∧ 0 < r.amountMinor ∧ ws = [.posting r]
  | _, .createPostings data, _, ws => (∀ p ∈ data, 0 < p.amountMinor) ∧ ws = data.map .posting
  | _, .createStatementLine data, _, ws => ∃ u, ws = [.statementLine (data u)]
  | _, .createStatementLines data, _, ws => ws = data.map .statementLine
  | _, .upsertBalanceProjection row, _, ws => ws = [.balanceProjection row]
  | _, .upsertBalanceProjections rows, _, ws =>
      (rows.map (·.accountId)).Nodup ∧ ws = rows.map .balanceProjection
  | _, .createTransferRequest data, r, ws =>
      (∃ u t, u ≠ "" ∧ r = data u t) ∧ ws = [.transferRequest r]
  | _, .updateTransferRequest id data, r, ws =>
      (∃ t, t.id = id ∧ r = data.apply t) ∧ ws = [.updateTransferRequest id data]
  | _, .createIdempotencyRecord data, r, ws => (∃ u, r = data u) ∧ ws = [.idempotencyRecord r]
  | _, .updateIdempotencyRecord id data, _, ws => ws = [.updateIdempotencyRecord id data]
  | _, .createExternalEvent data, _, ws => ∃ u, ws = [.externalEvent (data u)]
  | _, .createAuditEvent data, _, ws => ∃ u, ws = [.auditEvent (data u)]
  | _, .createBatchRun data, r, ws => (∃ u, u ≠ "" ∧ r = data u) ∧ ws = [.batchRun r]
  | _, .updateBatchRun id data, _, ws => ws = [.updateBatchRun id data]
  | _, .createBatchRunItems data, _, ws =>
      ∃ uuid : Nat → Uuid, ws = data.zipIdx.map fun d => .batchRunItem (d.1 (uuid d.2))
  | _, .updateBatchRunItem id data, _, ws => ws = [.updateBatchRunItem id data]
  | _, .updateBatchRunItemOf _ _ _ data, _, ws => ∃ id, ws = [.updateBatchRunItem id data]
  | _, .updateBatchRunItems _ _ _ data, _, ws =>
      ∃ ids : List Uuid, ws = ids.map fun id => .updateBatchRunItem id data
  | _, .publishJob job, _, ws => ws = [.job job]
  | _, _, _, ws => ws = []

/-- Every event answers its statement. -/
def Answering (V : View) : Prop :=
  ∀ p {α : Type} (q : Stmt α) r ws, V p ⟨q, r, ws⟩ → Answers q r ws

theorem includeSource_writes {s : Store} {o : Option TransferRequest}
    {r : Option TransferWithSource} {ws : List Write} (h : s.includeSource o = .ok (r, ws)) :
    ws = [] := by
  cases o with
  | none => cases h; rfl
  | some t =>
      simp only [Store.includeSource] at h
      split at h
      · cases h
        rfl
      · cases h

/-- The ranges and the checks hold of every write that was not refused. -/
theorem range_of_violations {ws : List Write} {s : Store} (h : s.violations ws = none) :
    ∀ w ∈ ws, (∀ n ∈ w.bigInts, inBigInt n = true) ∧ w.check = true := by
  induction ws generalizing s with
  | nil => simp
  | cons w ws ih =>
      obtain ⟨hw, hws⟩ := Database.firstViolation_cons.mp h
      obtain ⟨-, -, hbig, hcheck⟩ := violation_none hw
      exact List.forall_mem_cons.mpr ⟨⟨hbig, hcheck⟩, ih hws⟩

theorem exec_answers {α : Type} {q : Stmt α} {c : Choice} {s : Store} {r : α} {ws : List Write}
    (h : s.exec q c = .ok (r, ws)) : Answers q r ws := by
  cases q with
  | findLedgerAccounts ids =>
      cases h
      exact ⟨fun l hl => by simpa using (List.mem_filter.mp (mem_arrange.mp hl)).2, rfl⟩
  | findFirstLedgerAccount category currency =>
      cases h
      refine ⟨fun l hl => ?_, rfl⟩
      simpa using (List.mem_filter.mp (mem_arrange.mp (List.mem_of_head? hl))).2
  | findLedgerAccountsIn category currencies =>
      cases h
      exact ⟨fun l hl => by simpa using (List.mem_filter.mp (mem_arrange.mp hl)).2, rfl⟩
  | findTransferRequest id => exact includeSource_writes h
  | findFirstTransferRequest id ref => exact includeSource_writes h
  | upsertBalanceProjections rows =>
      simp only [Store.exec] at h
      split at h
      · rename_i hnodup
        exact ⟨hnodup, (attempt_ok h).2.1⟩
      · cases h
  | updateTransferRequest id data =>
      simp only [Store.exec] at h
      split at h
      · rename_i t ht
        obtain ⟨rfl, rfl, _⟩ := attempt_ok h
        exact ⟨⟨t, (Table.get?_eq_some.mp ht).2, rfl⟩, rfl⟩
      · cases h
  | updateBatchRunItemOf b t r data =>
      simp only [Store.exec] at h
      split at h
      · exact ⟨_, (attempt_ok h).2.1⟩
      · cases h
  | updateBatchRunItems b t rs data =>
      simp only [Store.exec] at h
      obtain ⟨_, rfl, _⟩ := attempt_ok h
      exact ⟨(s.batchRunItems.rows.filter fun i =>
        i.batchRunId = b && i.resourceType = t && i.resourceId ∈ rs).map (·.id),
        by rw [List.map_map]; rfl⟩
  | createTransferRequest data =>
      simp only [Store.exec] at h
      obtain ⟨rfl, rfl, _⟩ := attempt_ok h
      exact ⟨⟨_, _, c.uuid_ne 0, rfl⟩, rfl⟩
  | createBatchRun data =>
      simp only [Store.exec] at h
      obtain ⟨rfl, rfl, _⟩ := attempt_ok h
      exact ⟨⟨_, c.uuid_ne 0, rfl⟩, rfl⟩
  | createPosting data =>
      simp only [Store.exec] at h
      obtain ⟨rfl, rfl, hviol⟩ := attempt_ok h
      have hcheck := (range_of_violations hviol _ (List.mem_singleton_self _)).2
      exact ⟨⟨_, rfl⟩, by simpa [Write.check] using hcheck, rfl⟩
  | createPostings data =>
      simp only [Store.exec] at h
      obtain ⟨_, rfl, hviol⟩ := attempt_ok h
      refine ⟨fun p hp => ?_, rfl⟩
      simpa [Write.check] using (range_of_violations hviol _ (List.mem_map_of_mem hp)).2
  | createJournalEntry data | createIdempotencyRecord data =>
      simp only [Store.exec] at h
      obtain ⟨rfl, rfl, _⟩ := attempt_ok h
      exact ⟨⟨_, rfl⟩, rfl⟩
  | createStatementLine data | createExternalEvent data | createAuditEvent data
  | createBatchRunItems data =>
      simp only [Store.exec] at h
      exact ⟨_, (attempt_ok h).2.1⟩
  | createJournalEntries data | createStatementLines data
  | upsertBalanceProjection row | updateIdempotencyRecord id data | updateBatchRun id data
  | updateBatchRunItem id data | publishJob job =>
      simp only [Store.exec] at h
      exact (attempt_ok h).2.1
  | _ => cases h; rfl

/-! ## How stores evolve -/

/-- The columns of a transfer that no update touches. -/
structure TransferRequest.Same (t t' : TransferRequest) : Prop where
  id : t'.id = t.id
  transferType : t'.transferType = t.transferType
  sourceAccountId : t'.sourceAccountId = t.sourceAccountId
  destinationAccountId : t'.destinationAccountId = t.destinationAccountId
  amountMinor : t'.amountMinor = t.amountMinor
  currency : t'.currency = t.currency
  idempotencyKey : t'.idempotencyKey = t.idempotencyKey
  requestHash : t'.requestHash = t.requestHash

theorem TransferRequest.Same.refl (t : TransferRequest) : t.Same t :=
  ⟨rfl, rfl, rfl, rfl, rfl, rfl, rfl, rfl⟩

theorem TransferRequest.Same.trans {t t' t'' : TransferRequest} (h : t.Same t') (h' : t'.Same t'') :
    t.Same t'' :=
  ⟨h'.1.trans h.1, h'.2.trans h.2, h'.3.trans h.3, h'.4.trans h.4, h'.5.trans h.5, h'.6.trans h.6,
    h'.7.trans h.7, h'.8.trans h.8⟩

theorem TransferRequestUpdate.apply_same (d : TransferRequestUpdate) (t : TransferRequest) :
    t.Same (d.apply t) := ⟨rfl, rfl, rfl, rfl, rfl, rfl, rfl, rfl⟩

/-- How stores evolve. -/
structure Store.Extends (s s' : Store) : Prop where
  accounts : s'.accounts = s.accounts
  ledgerAccounts : s'.ledgerAccounts = s.ledgerAccounts
  journalEntries : s.journalEntries.rows <+: s'.journalEntries.rows
  postings : s.postings.rows <+: s'.postings.rows
  statementLines : s.statementLines.rows <+: s'.statementLines.rows
  externalEvents : s.externalEvents.rows <+: s'.externalEvents.rows
  transferRequests : ∀ t ∈ s.transferRequests.rows, ∃ t' ∈ s'.transferRequests.rows, t.Same t'

namespace Store.Extends

theorem refl (s : Store) : s.Extends s :=
  ⟨rfl, rfl, List.prefix_rfl, List.prefix_rfl, List.prefix_rfl, List.prefix_rfl,
    fun t ht => ⟨t, ht, .refl t⟩⟩

theorem trans {s s' s'' : Store} (h : s.Extends s') (h' : s'.Extends s'') : s.Extends s'' where
  accounts := h'.accounts.trans h.accounts
  ledgerAccounts := h'.ledgerAccounts.trans h.ledgerAccounts
  journalEntries := h.journalEntries.trans h'.journalEntries
  postings := h.postings.trans h'.postings
  statementLines := h.statementLines.trans h'.statementLines
  externalEvents := h.externalEvents.trans h'.externalEvents
  transferRequests := by
    intro t ht
    obtain ⟨t', ht', hsame⟩ := h.transferRequests t ht
    obtain ⟨t'', ht'', hsame'⟩ := h'.transferRequests t' ht'
    exact ⟨t'', ht'', hsame.trans hsame'⟩

end Store.Extends

theorem prefix_insert {α ι υ : Type} {pk : α → ι} {uk : α → Option υ} [DecidableEq ι]
    [DecidableEq υ] (t : Table α pk uk) (r : α) : t.rows <+: (t.insert r).rows := by
  by_cases h : t.Fresh r
  · rw [Table.rows_insert h]
    exact List.prefix_append ..
  · simp [Table.insert, h]

theorem extends_apply (w : Write) (s : Store) : s.Extends (w.apply s) := by
  have hs := Store.Extends.refl s
  cases w with
  | journalEntry r => exact { hs with journalEntries := prefix_insert _ _ }
  | posting r => exact { hs with postings := prefix_insert _ _ }
  | statementLine r => exact { hs with statementLines := prefix_insert _ _ }
  | externalEvent r => exact { hs with externalEvents := prefix_insert _ _ }
  | transferRequest r =>
      exact { hs with
        transferRequests := fun t ht => ⟨t, (prefix_insert _ _).subset ht, .refl t⟩ }
  | updateTransferRequest id d =>
      refine { hs with transferRequests := fun t ht => ?_ }
      refine ⟨if t.id = id then d.apply t else t, List.mem_map.mpr ⟨t, ht, rfl⟩, ?_⟩
      split
      · exact d.apply_same t
      · exact .refl t
  | _ => exact { hs with }

/-- Any writes extend the store. -/
theorem extends_applyAll (ws : List Write) (s : Store) : s.Extends (database.applyAll ws s) := by
  induction ws generalizing s with
  | nil => exact .refl s
  | cons w ws ih => exact (extends_apply w s).trans (ih _)

@[simp] theorem applyAll_accounts (ws : List Write) (s : Store) :
    (database.applyAll ws s).accounts = s.accounts := (extends_applyAll ws s).accounts

@[simp] theorem applyAll_ledgerAccounts (ws : List Write) (s : Store) :
    (database.applyAll ws s).ledgerAccounts = s.ledgerAccounts :=
  (extends_applyAll ws s).ledgerAccounts

end LedgerCredit
