import LedgerCredit.Bank
import LedgerCredit.Accruals
import LedgerCredit.AuditTrail
import LedgerCredit.Deliveries
import LedgerCredit.DoubleEntry
import LedgerCredit.Txn.Log

/-!
# What the services are for

Behind keys, journals, statuses and messages there is a `Bank`.  What it owes to an account is what
the postings on its ledger account credit, and how far it has come with a transfer to another bank
is what the status tells (`Store.bank`).

*Commits.*  `Store.Matches` says which flows of this bank match a commit: a new transfer moves or
sends its amount, an event lets it arrive or brings it back, each new entry of interest credits its
amount, and a replay, a duplicate and a statement outside of a transaction are no flow at all.
Every commit of an atomic transaction has such flows, and they lead from the bank of the store
before it to that of the store after it (`Committed.flows`).

*Runs.*  So every run of atomic transactions is matched by a run of the bank, commit by commit
(`Matched`), and what is proved of the bank is true of the services (`bank_refined`).  A transaction
that is rolled back is no commit.
-/

namespace LedgerCredit

open Txn LedgerService ExternalRailService

/-! ## The bank of a store -/

/-- How far a transfer to another bank has come, as its status tells. -/
def TransferRequest.stage (t : TransferRequest) : Bank.Stage Uuid :=
  match t.transferType, t.status with
  | .interbank, .pendingExternal => .underway t.sourceAccountId t.amountMinor
  | .interbank, .settled => .arrived t.sourceAccountId t.amountMinor
  | .interbank, .compensated => .returned t.sourceAccountId t.amountMinor
  | _, _ => .absent

/-- What a posting credits to an account. -/
def Store.creditTo (s : Store) (accountId : Uuid) (p : Posting) : Int :=
  if (s.ledgerAccountOf accountId).map (·.id) = some p.ledgerAccountId then
    computeBalanceEffect p.direction .credit p.amountMinor
  else 0

/-- What the postings credit to an account. -/
def Store.owed (s : Store) (accountId : Uuid) : Int := s.postings.sum (s.creditTo accountId)

def Store.bank (s : Store) : Bank.State Uuid Uuid where
  owed := s.owed
  stage id := (s.transferRequests.get? id).elim .absent TransferRequest.stage

def Store.currencyOf (s : Store) (accountId : Uuid) : Option String :=
  (s.accounts.get? accountId).map (·.currency)

/-- What is owed to all accounts in a currency. -/
def Store.deposits (s : Store) (currency : String) : Int :=
  s.accounts.sum fun a => if a.currency = currency then s.owed a.id else 0

def Store.accountIds (s : Store) : Finset Uuid := (s.accounts.rows.map (·.id)).toFinset

def Store.transferIds (s : Store) : Finset Uuid := (s.transferRequests.rows.map (·.id)).toFinset

section Store

variable {s s' : Store} {env : Env} {accountId : Uuid} {l : LedgerAccount} {t : TransferRequest}

/-- The ledger account of one account is that of no other. -/
theorem ledgerAccountOf_id (h : s.ledgerAccountOf accountId = some l) (a : Uuid) :
    (s.ledgerAccountOf a).map (·.id) = some l.id ↔ accountId = a := by
  constructor
  · intro ha
    obtain ⟨l', hl', hid⟩ := Option.map_eq_some_iff.mp ha
    exact ((ledgerAccountOf_inj h hl').mp hid).symm
  · rintro rfl
    rw [h]
    rfl

/-- A ledger account of the bank is that of no account. -/
theorem Store.Seeded.unowned (hs : s.Seeded env) (hl : l ∈ s.ledgerAccounts.rows)
    (hcategory : l.category ≠ .customer) (a : Uuid) :
    (s.ledgerAccountOf a).map (·.id) ≠ some l.id := by
  intro ha
  obtain ⟨l', hl', hid⟩ := Option.map_eq_some_iff.mp ha
  obtain ⟨hmem, hlink⟩ := ledgerAccountOf_some.mp hl'
  obtain rfl := Table.eq_of_pk hmem hl hid
  cases (hs.unlinked l' hl hcategory).symm.trans hlink

theorem Store.Seeded.currencyOf (hs : s.Seeded env) (h : s.ledgerAccountOf accountId = some l) :
    accountId ∈ s.accountIds ∧ s.currencyOf accountId = some l.currency := by
  obtain ⟨hl, hlink⟩ := ledgerAccountOf_some.mp h
  obtain ⟨a, ha, rfl, hcurrency⟩ := hs.linked l hl accountId hlink
  refine ⟨List.mem_toFinset.mpr (List.mem_map_of_mem ha), ?_⟩
  rw [Store.currencyOf, Table.get?_eq_some.mpr ⟨ha, rfl⟩, Option.map_some, hcurrency]

theorem creditTo_congr (h : s'.ledgerAccounts = s.ledgerAccounts) :
    s'.creditTo accountId = s.creditTo accountId := by
  funext p
  simp only [Store.creditTo, ledgerAccountOf_eq h]

theorem mem_transferIds (ht : t ∈ s.transferRequests.rows) : t.id ∈ s.transferIds :=
  List.mem_toFinset.mpr (List.mem_map_of_mem ht)

/-- A new transfer takes its stage. -/
theorem stage_append (h : s'.transferRequests.rows = s.transferRequests.rows ++ [t]) :
    s.bank.stage t.id = .absent ∧
      ∀ id, s'.bank.stage id = if t.id = id then t.stage else s.bank.stage id := by
  have hnodup := s'.transferRequests.pk_nodup
  rw [h, List.map_append] at hnodup
  have hnone : s.transferRequests.get? t.id = none := Table.get?_eq_none.mpr fun t' ht' hid =>
    (List.nodup_append.mp hnodup).2.2 t'.id (List.mem_map_of_mem ht') t.id
      (List.mem_singleton_self _) hid
  refine ⟨by simp [Store.bank, hnone], fun id => ?_⟩
  simp only [Store.bank, Table.get?, h, List.find?_append]
  by_cases hid : t.id = id
  · subst hid
    rw [← Table.get?, hnone]
    simp
  · simp [hid]

/-- A change of one transfer changes its stage only. -/
theorem stage_changed {f : TransferRequest → TransferRequest} (ht : t ∈ s.transferRequests.rows)
    (hid : (f t).id = t.id) (h : s'.transferRequests.rows =
      s.transferRequests.rows.map fun t' => if t'.id = t.id then f t' else t') :
    s.bank.stage t.id = t.stage ∧
      ∀ id, s'.bank.stage id = if t.id = id then (f t).stage else s.bank.stage id := by
  have hget : s.transferRequests.get? t.id = some t := Table.get?_eq_some.mpr ⟨ht, rfl⟩
  refine ⟨by simp [Store.bank, hget], fun id => ?_⟩
  by_cases hne : t.id = id
  · subst hne
    have hnew : s'.transferRequests.get? t.id = some (f t) :=
      Table.get?_eq_some.mpr ⟨h ▸ List.mem_map.mpr ⟨t, ht, if_pos rfl⟩, hid⟩
    simp [Store.bank, hnew]
  · rw [if_neg hne]
    cases hold : s.transferRequests.get? id with
    | some t' =>
        obtain ⟨ht', rfl⟩ := Table.get?_eq_some.mp hold
        have hnew : s'.transferRequests.get? t'.id = some t' :=
          Table.get?_eq_some.mpr ⟨h ▸ List.mem_map.mpr ⟨t', ht', if_neg (Ne.symm hne)⟩, rfl⟩
        simp [Store.bank, hold, hnew]
    | none =>
        have hnew : s'.transferRequests.get? id = none := by
          refine Table.get?_eq_none.mpr ?_
          rw [h]
          refine forall_mem_changed (fun t' ht' _ => Table.get?_eq_none.mp hold t' ht') ?_
          intro t' ht' hid'
          rw [Table.eq_of_pk ht' ht hid', hid]
          exact hne
        simp [Store.bank, hold, hnew]

end Store

/-! ## What a commit makes of the bank -/

section Commit

variable {s : Store} {env : Env} {ws : List Write} {entries : List (JournalEntry × List Posting)}

theorem owed_append (hadm : database.Admissible s ws) (hj : Journalled ws entries) (a : Uuid) :
    (database.applyAll ws s).bank.owed a =
      s.bank.owed a + (entries.map fun e => (e.2.map (s.creditTo a)).sum).sum := by
  simp only [Store.bank, Store.owed]
  rw [creditTo_congr (applyAll_ledgerAccounts ws s), Table.sum, postings_of_journalled hadm hj,
    List.map_append, List.sum_append, List.map_flatMap, List.flatMap_def, List.sum_flatten,
    List.map_map]
  rfl

/-- The entries of a commit are good, however they are listed. -/
theorem Committed.good {V : View} (hV : ∀ p e, V p e → Saw s p e) {α : Type} {l : Label α} {a : α}
    (h : Committed V env l a ws) (hs : s.Seeded env) (hkeys : s.ForeignKeys)
    (ht : s.TransferCurrencies) (hl : grounds s l) (hadm : database.Admissible s ws)
    (hj : Journalled ws entries) : ∀ e ∈ entries, s.Balanced e.2 := by
  intro e he
  obtain ⟨entries', hj', hgood⟩ := h.entries hV hs ht hl
  have hmem : e.1 ∈ entries'.map (·.1) :=
    hj'.journalEntries ▸ hj.journalEntries ▸ List.mem_map_of_mem he
  obtain ⟨e', he', heq⟩ := List.mem_map.mp hmem
  rw [← postingsOf_new hadm hj hkeys he, ← heq, postingsOf_new hadm hj' hkeys he']
  exact hgood e' he'

variable {entry : JournalEntry} {postings : List Posting} {transferId : Uuid} {operation : String}
  {debited credited : LedgerAccount} {amountMinor : Int}

/-- What an entry that moves an amount credits to an account. -/
theorem Moves.creditTo (h : Moves entry postings transferId operation debited.id credited.id
    amountMinor) (a : Uuid) : (postings.map (s.creditTo a)).sum =
      (if (s.ledgerAccountOf a).map (·.id) = some credited.id then amountMinor else 0) -
        if (s.ledgerAccountOf a).map (·.id) = some debited.id then amountMinor else 0 := by
  obtain ⟨debit, credit, rfl, hdir, hacc, hamount, hdir', hacc', hamount'⟩ := h.postings
  simp only [List.map_cons, List.map_nil, List.sum_cons, List.sum_nil, Store.creditTo, hacc, hacc',
    hdir, hdir', hamount, hamount', computeBalanceEffect, reduceCtorEq, if_true, if_false]
  split_ifs <;> omega

/-- A good entry moves a positive amount between ledger accounts of one currency. -/
theorem Moves.good (h : Moves entry postings transferId operation debited.id credited.id
    amountMinor) (hb : s.Balanced postings) (hdebited : debited ∈ s.ledgerAccounts.rows)
    (hcredited : credited ∈ s.ledgerAccounts.rows) :
    0 < amountMinor ∧ debited.currency = credited.currency := by
  obtain ⟨debit, credit, rfl, -, hacc, hamount, -, hacc', -⟩ := h.postings
  obtain ⟨l, hl, hid, hcurrency⟩ := hb.account debit (by simp)
  obtain ⟨l', hl', hid', hcurrency'⟩ := hb.account credit (by simp)
  obtain rfl := Table.eq_of_pk hl hdebited (hid.trans hacc)
  obtain rfl := Table.eq_of_pk hl' hcredited (hid'.trans hacc')
  exact ⟨hamount ▸ hb.positive debit (by simp), hcurrency.trans
    ((hb.oneCurrency debit (by simp) credit (by simp)).trans hcurrency'.symm)⟩

/-! ## Interest -/

/-- What an entry that pays interest credits. -/
theorem PaysInterestTo.creditTo {e : JournalEntry × List Posting} {accountId : Uuid} {n : Int}
    (h : PaysInterestTo s e accountId n) (hs : s.Seeded env) (a : Uuid) :
    (e.2.map (s.creditTo a)).sum = if accountId = a then n else 0 := by
  obtain ⟨revenue, hrevenue, hcategory, l, hl, hmoves⟩ := h
  have hnot := hs.unowned hrevenue (by simp [hcategory]) a
  simp [hmoves.creditTo, hnot, ledgerAccountOf_id hl]

/-- What is credited is positive, and goes to an account that is there. -/
theorem PaysInterestTo.good {e : JournalEntry × List Posting} {accountId : Uuid} {n : Int}
    (h : PaysInterestTo s e accountId n) (hs : s.Seeded env) (hb : s.Balanced e.2) :
    0 < n ∧ accountId ∈ s.accountIds := by
  obtain ⟨revenue, hrevenue, -, l, hl, hmoves⟩ := h
  exact ⟨(hmoves.good hb hrevenue (ledgerAccountOf_some.mp hl).1).1, (hs.currencyOf hl).1⟩

/-- Each of the entries pays the interest of one of the credits. -/
def Store.Pays (s : Store) : List (JournalEntry × List Posting) → List (Uuid × Int) → Prop :=
  List.Forall₂ fun e c => PaysInterestTo s e c.1 c.2

theorem exists_pays (h : ∀ e ∈ entries, PaysInterest s e) : ∃ credits, s.Pays entries credits := by
  induction entries with
  | nil => exact ⟨[], .nil⟩
  | cons e entries ih =>
      obtain ⟨⟨accountId, n, he⟩, hentries⟩ := List.forall_mem_cons.mp h
      obtain ⟨credits, hcredits⟩ := ih hentries
      exact ⟨(accountId, n) :: credits, .cons he hcredits⟩

variable {credits : List (Uuid × Int)}

theorem Store.Pays.creditTo (h : s.Pays entries credits) (hs : s.Seeded env) (a : Uuid) :
    (entries.map fun e => (e.2.map (s.creditTo a)).sum).sum =
      (credits.map fun c => if c.1 = a then c.2 else 0).sum := by
  induction h with
  | nil => rfl
  | cons he _ ih => rw [List.map_cons, List.map_cons, List.sum_cons, List.sum_cons, ih,
      he.creditTo hs]

theorem Store.Pays.good (h : s.Pays entries credits) (hs : s.Seeded env)
    (hgood : ∀ e ∈ entries, s.Balanced e.2) : ∀ c ∈ credits, 0 < c.2 ∧ c.1 ∈ s.accountIds := by
  induction h with
  | nil => simp
  | cons he _ ih =>
      obtain ⟨hb, hrest⟩ := List.forall_mem_cons.mp hgood
      exact List.forall_mem_cons.mpr ⟨he.good hs hb, ih hrest⟩

/-- The entry pays the interest that the flow credits. -/
def Store.Credits (s s' : Store) (e : JournalEntry) (f : Bank.Flow Uuid Uuid) : Prop :=
  ∃ accountId amountMinor, f = .credited accountId amountMinor ∧
    PaysInterestTo s (e, s'.postingsOf e.id) accountId amountMinor

theorem Store.Pays.matched {s' : Store} (h : s.Pays entries credits)
    (hpostings : ∀ e ∈ entries, s'.postingsOf e.1.id = e.2) :
    List.Forall₂ (s.Credits s') (entries.map (·.1)) (credits.map fun c => .credited c.1 c.2) := by
  induction h with
  | nil => exact .nil
  | @cons e c _ _ he _ ih =>
      obtain ⟨heq, hrest⟩ := List.forall_mem_cons.mp hpostings
      refine .cons ⟨c.1, c.2, rfl, ?_⟩ (ih hrest)
      rw [heq]
      exact he

/-! ## What matches a commit -/

/-- Neither the transfers nor the journal change. -/
structure Store.SameBooks (s s' : Store) : Prop where
  transferRequests : s'.transferRequests = s.transferRequests
  journalEntries : s'.journalEntries.rows = s.journalEntries.rows

/-- The journal gets one entry of the operation, for the transfer. -/
def Store.Enters (s s' : Store) (operation : String) (transferId : Uuid) : Prop :=
  ∃ entry, s'.journalEntries.rows = s.journalEntries.rows ++ [entry] ∧
    entry.sourceOperationType = operation ∧ entry.transferRequestId = some transferId

/-- The flows that match a commit which leads from one store to the next. -/
inductive Store.Matches (s s' : Store) :
    {α : Type} → Label α → List (Bank.Flow Uuid Uuid) → Prop where
  /-- A replay changes nothing. -/
  | replayed {args : CreateTransferArgs} : s' = s → Matches s s' (.createTransfer args) []
  | moved {args : CreateTransferArgs} {t : TransferRequest} {destinationId : Uuid} :
      s'.transferRequests.rows = s.transferRequests.rows ++ [t] →
      t.idempotencyKey = args.idempotencyKey → t.transferType = .internal →
      args.input.destination = .internalAccount destinationId →
      s.Enters s' "INTERNAL_TRANSFER" t.id →
      Matches s s' (.createTransfer args) [.moved t.sourceAccountId destinationId t.amountMinor]
  | sent {args : CreateTransferArgs} {t : TransferRequest} :
      s'.transferRequests.rows = s.transferRequests.rows ++ [t] →
      t.idempotencyKey = args.idempotencyKey → t.transferType = .interbank →
      t.status = .pendingExternal → s.Enters s' "INTERBANK_TRANSFER_INITIATED" t.id →
      Matches s s' (.createTransfer args) [.sent t.id t.sourceAccountId t.amountMinor]
  | arrived {event : NormalizedExternalRailEvent} {t : TransferRequest} :
      s.recorded event = false → event.eventType = .settled →
      t ∈ s.transferRequests.rows → event.identifies t = true → t.status = .pendingExternal →
      s'.statusOf t.id = some .settled → s'.journalEntries.rows = s.journalEntries.rows →
      Matches s s' (.applyNormalizedEvent event) [.arrived t.id t.sourceAccountId t.amountMinor]
  | returned {event : NormalizedExternalRailEvent} {t : TransferRequest} :
      s.recorded event = false → event.eventType = .failed →
      t ∈ s.transferRequests.rows → event.identifies t = true → t.status = .pendingExternal →
      s'.statusOf t.id = some .compensated →
      s.Enters s' "INTERBANK_TRANSFER_COMPENSATION" t.id →
      Matches s s' (.applyNormalizedEvent event) [.returned t.id t.sourceAccountId t.amountMinor]
  /-- A duplicate, or an event that is recorded only. -/
  | ignored {event : NormalizedExternalRailEvent} : s.SameBooks s' →
      Matches s s' (.applyNormalizedEvent event) []
  /-- One credit for each new entry of the journal. -/
  | credited {α : Type} {l : Label α} {entries : List JournalEntry}
      {fs : List (Bank.Flow Uuid Uuid)} : l.pays = true →
      s'.transferRequests = s.transferRequests →
      s'.journalEntries.rows = s.journalEntries.rows ++ entries →
      List.Forall₂ (s.Credits s') entries fs → Matches s s' l fs
  | aside {α : Type} {q : Stmt α} : s.SameBooks s' → Matches s s' (.statement q) []

/-! ## Flows -/

/-- The flows lead from the bank of one store to that of the next. -/
structure Store.Flows (s s' : Store) (fs : List (Bank.Flow Uuid Uuid)) : Prop where
  run : Bank.Run s.currencyOf s.bank fs s'.bank
  inside : ∀ f ∈ fs, f.Inside s'.accountIds s'.transferIds

theorem Store.Flows.refl (s : Store) : s.Flows s [] := ⟨.nil, by simp⟩

theorem Store.Flows.one {s' : Store} {f : Bank.Flow Uuid Uuid}
    (h : Bank.Step s.currencyOf s.bank f s'.bank) (hin : f.Inside s'.accountIds s'.transferIds) :
    s.Flows s' [f] := ⟨.one h, List.forall_mem_singleton.mpr hin⟩

/-- Interest is credited. -/
theorem flows_credited (hs : s.Seeded env) (hadm : database.Admissible s ws)
    (hj : Journalled ws entries) (hgood : ∀ e ∈ entries, s.Balanced e.2)
    (hpays : s.Pays entries credits)
    (htransfers : (database.applyAll ws s).transferRequests = s.transferRequests) :
    s.Flows (database.applyAll ws s) (credits.map fun c => .credited c.1 c.2) := by
  have hcredits := hpays.good hs hgood
  refine ⟨Bank.Run.credits (fun c hc => (hcredits c hc).1) (fun a => ?_) fun id => ?_, ?_⟩
  · rw [owed_append hadm hj, hpays.creditTo hs]
  · simp [Store.bank, htransfers]
  · intro f hf
    obtain ⟨c, hc, rfl⟩ := List.mem_map.mp hf
    refine ⟨List.forall_mem_singleton.mpr ?_, by simp [Bank.Flow.transfer?]⟩
    simpa [Store.accountIds] using (hcredits c hc).2

section New

variable {args : CreateTransferArgs} {r : TransferMutationResult} {t : TransferRequest} {u : Uuid}
  {source destination : LedgerAccount} {destinationId : Uuid}

/-- An internal transfer is moved. -/
theorem Initiated.moved (h : Initiated s (database.applyAll ws s) args r t u source)
    (hs : s.Seeded env) (hadm : database.Admissible s ws)
    (hj : Journalled ws [(entry, postings)]) (hgood : s.Balanced postings)
    (htype : t.transferType = .internal)
    (hdest : s.ledgerAccountOf destinationId = some destination)
    (hmoves : Moves entry postings t.id operation source.id destination.id t.amountMinor) :
    0 < t.amountMinor ∧ s.Flows (database.applyAll ws s)
      [.moved t.sourceAccountId destinationId t.amountMinor] := by
  obtain ⟨hin, hcurrency⟩ := hs.currencyOf h.source
  obtain ⟨hin', hcurrency'⟩ := hs.currencyOf hdest
  obtain ⟨hpos, hsame⟩ := hmoves.good hgood (ledgerAccountOf_some.mp h.source).1
    (ledgerAccountOf_some.mp hdest).1
  obtain ⟨habsent, hstage⟩ := stage_append h.transferRequests
  refine ⟨hpos, .one ⟨hpos, ?_, fun a => ?_, nofun, fun id => ?_⟩ ⟨?_, nofun⟩⟩
  · simp [Bank.Flow.accounts, hcurrency, hcurrency', hsame]
  · rw [owed_append hadm hj]
    simp [hmoves.creditTo, ledgerAccountOf_id h.source, ledgerAccountOf_id hdest, Bank.Flow.effect]
  · rw [hstage id]
    split
    · rename_i heq
      subst heq
      simp [Bank.Flow.transfer?, TransferRequest.stage, htype, habsent]
    · simp [Bank.Flow.transfer?]
  · simp only [Bank.Flow.accounts, List.forall_mem_cons, Store.accountIds, applyAll_accounts]
    exact ⟨hin, hin', by simp⟩

/-- An external transfer is sent. -/
theorem Initiated.sent (h : Initiated s (database.applyAll ws s) args r t u source)
    (hs : s.Seeded env) (hadm : database.Admissible s ws)
    (hj : Journalled ws [(entry, postings)]) (hgood : s.Balanced postings)
    (htype : t.transferType = .interbank) (hstatus : t.status = .pendingExternal)
    (hclearing : destination ∈ s.ledgerAccounts.rows) (hcategory : destination.category = .clearing)
    (hmoves : Moves entry postings t.id operation source.id destination.id t.amountMinor) :
    0 < t.amountMinor ∧ s.Flows (database.applyAll ws s)
      [.sent t.id t.sourceAccountId t.amountMinor] := by
  obtain ⟨hin, -⟩ := hs.currencyOf h.source
  obtain ⟨hpos, -⟩ := hmoves.good hgood (ledgerAccountOf_some.mp h.source).1 hclearing
  obtain ⟨habsent, hstage⟩ := stage_append h.transferRequests
  have hnot := hs.unowned hclearing (by simp [hcategory])
  refine ⟨hpos, .one ⟨hpos, ?_, fun a => ?_, ?_, fun id => ?_⟩ ⟨?_, ?_⟩⟩
  · simp [Bank.Flow.accounts]
  · rw [owed_append hadm hj]
    simp only [List.map_cons, List.map_nil, List.sum_cons, List.sum_nil, hmoves.creditTo, hnot,
      ledgerAccountOf_id h.source, Bank.Flow.effect, if_false]
    split_ifs <;> omega
  · rintro _ ⟨⟩
    exact habsent
  · simp [hstage id, Bank.Flow.transfer?, Bank.Flow.stages, TransferRequest.stage, htype, hstatus]
  · simpa [Bank.Flow.accounts, Store.accountIds] using hin
  · rintro _ ⟨⟩
    exact mem_transferIds (h.transferRequests ▸ List.mem_append_right _ (List.mem_singleton_self t))

end New

section Event

variable {t : TransferRequest} {f : TransferRequest → TransferRequest}

/-- A transfer that is under way takes its next stage. -/
theorem flows_changed {flow : Bank.Flow Uuid Uuid} (hs : s.TransferCurrencies)
    (ht : t ∈ s.transferRequests.rows) (hsame : t.Same (f t))
    (hrows : (database.applyAll ws s).transferRequests.rows =
      s.transferRequests.rows.map fun t' => if t'.id = t.id then f t' else t')
    (hpos : 0 < flow.amount) (htransfer : flow.transfer? = some t.id)
    (haccounts : flow.accounts = [t.sourceAccountId])
    (hstages : flow.stages = (t.stage, (f t).stage))
    (howed : ∀ a, (database.applyAll ws s).bank.owed a = s.bank.owed a + flow.effect a) :
    s.Flows (database.applyAll ws s) [flow] := by
  obtain ⟨hbefore, hafter⟩ := stage_changed ht hsame.id hrows
  refine .one ⟨hpos, by simp [haccounts], howed, fun id hid => ?_, fun id => ?_⟩ ⟨?_, ?_⟩
  · obtain rfl := Option.some.inj (htransfer.symm.trans hid)
    rw [hbefore, hstages]
  · simp [hafter id, htransfer, hstages]
  · obtain ⟨a, ha, hid, -⟩ := hs t ht
    rw [haccounts, ← hid]
    refine List.forall_mem_singleton.mpr ?_
    simpa [Store.accountIds] using ⟨a, ha, rfl⟩
  · intro id hid
    obtain rfl := Option.some.inj (htransfer.symm.trans hid)
    rw [← hsame.id]
    exact mem_transferIds (hrows ▸ List.mem_map.mpr ⟨t, ht, if_pos rfl⟩)

end Event

/-- A commit that leaves the transfers alone pays the interest of its entries, if it is of a
batch, and changes no books otherwise. -/
theorem matches_other {α : Type} {l : Label α} (hcreates : l.creates = false)
    (hadm : database.Admissible s ws) (hkeys : s.ForeignKeys) (hj : Journalled ws entries)
    (htransfers : (database.applyAll ws s).transferRequests = s.transferRequests)
    (hpays : s.Pays entries credits) (hnone : l.pays = false → entries = []) :
    s.Matches (database.applyAll ws s) l (credits.map fun c => .credited c.1 c.2) := by
  have hrows := journalEntries_of_journalled hadm hj
  have hsame : l.pays = false → credits = [] ∧ s.SameBooks (database.applyAll ws s) := by
    intro hl
    obtain rfl := hnone hl
    exact ⟨List.forall₂_nil_left_iff.mp hpays, htransfers, hrows.trans (List.append_nil _)⟩
  have hcredited : l.pays = true →
      s.Matches (database.applyAll ws s) l (credits.map fun c => .credited c.1 c.2) := fun hl =>
    .credited hl htransfers hrows (hpays.matched fun e he => postingsOf_new hadm hj hkeys he)
  cases l with
  | createTransfer args => cases hcreates
  | applyNormalizedEvent event =>
      obtain ⟨rfl, hbooks⟩ := hsame rfl
      exact .ignored hbooks
  | processBatchChunk batchRunId accounts revenue => exact hcredited rfl
  | processBatchItem batchRunId accountId => exact hcredited rfl
  | statement q =>
      obtain ⟨rfl, hbooks⟩ := hsame rfl
      exact .aside hbooks

theorem enters_of_moves (hadm : database.Admissible s ws) (hj : Journalled ws [(entry, postings)])
    {debitedId creditedId : Uuid}
    (hmoves : Moves entry postings transferId operation debitedId creditedId amountMinor)
    (hne : transferId ≠ "") : s.Enters (database.applyAll ws s) operation transferId :=
  ⟨entry, journalEntries_of_journalled hadm hj, hmoves.operation, hmoves.transferId hne⟩

/-- The transfer that an event changes is identified by it and waits, and the event is new. -/
theorem received_now {event : NormalizedExternalRailEvent} {found : TransferWithSource}
    {row : ExternalTransferEvent} (h : Received (Now s) event found row) :
    s.LooksUp event found ∧ s.recorded event = false := by
  refine ⟨looksUp_of_now h.lookup, ?_⟩
  rw [Store.recorded, ← now_findExternalEvent h.absent]
  rfl

/-- Every commit of an atomic transaction is matched by flows of the bank. -/
theorem Committed.flows {s₀ : Store} {α : Type} {l : Label α} {a : α}
    (h : Committed (Now s) env l a ws) (hr : s₀.Reconciled s) (hs : s.Seeded env)
    (hc : s.TransferCurrencies) (hpos : ∀ t ∈ s.transferRequests.rows, 0 < t.amountMinor)
    (hl : grounds s l) (hadm : database.Admissible s ws) :
    (∃ fs, s.Matches (database.applyAll ws s) l fs ∧ s.Flows (database.applyAll ws s) fs) ∧
      ∀ t ∈ (database.applyAll ws s).transferRequests.rows, 0 < t.amountMinor := by
  have hV : ∀ p e, Now s p e → Saw s p e := fun _ _ => saw_of_now
  obtain ⟨entries, hj, heffect⟩ := h.effect hV hl hadm
  have hgood := h.good hV hs hr.keys hc hl hadm hj
  cases heffect with
  | other hcreates htransfers _ hinterest hnone =>
      obtain ⟨credits, hpays⟩ := exists_pays hinterest
      exact ⟨⟨_, matches_other hcreates hadm hr.keys hj htransfers hpays hnone,
        flows_credited hs hadm hj hgood hpays htransfers⟩, htransfers ▸ hpos⟩
  | replayed _ _ _ hsame =>
      rw [hsame]
      exact ⟨⟨[], .replayed rfl, .refl s⟩, hpos⟩
  | internal hinitiated _ htype hdest hmoves hinput =>
      obtain ⟨hnew, hflows⟩ := hinitiated.moved hs hadm hj (hgood _ List.mem_cons_self) htype hdest
        hmoves
      have henters := enters_of_moves hadm hj hmoves hinitiated.id_ne
      refine ⟨⟨_, .moved hinitiated.transferRequests hinitiated.key htype hinput henters, hflows⟩,
        ?_⟩
      rw [hinitiated.transferRequests]
      exact List.forall_mem_append.mpr ⟨hpos, List.forall_mem_singleton.mpr hnew⟩
  | external hinitiated hstatus htype _ _ hclearing hcategory _ hmoves =>
      obtain ⟨hnew, hflows⟩ := hinitiated.sent hs hadm hj (hgood _ List.mem_cons_self) htype hstatus
        hclearing hcategory hmoves
      have henters := enters_of_moves hadm hj hmoves hinitiated.id_ne
      refine ⟨⟨_, .sent hinitiated.transferRequests hinitiated.key htype hstatus henters, hflows⟩,
        ?_⟩
      rw [hinitiated.transferRequests]
      exact List.forall_mem_append.mpr ⟨hpos, List.forall_mem_singleton.mpr hnew⟩
  | @settled _ found _ settledAt _ hreceived hpending hrows _ hevent =>
      obtain ⟨hfound, hnew⟩ := received_now hreceived
      have ht := hfound.transfer
      have htype := hr.interbank ht hpending
      have hstatus := statusOf_changed (f := (settledUpdate settledAt).apply) hrows
        (fun _ => rfl) (fun _ => rfl) (statusOf_eq_some.mpr ⟨_, ht, rfl, hpending⟩)
      have hrest := (journalEntries_of_journalled hadm hj).trans (List.append_nil _)
      refine ⟨⟨_, .arrived hnew hevent ht hfound.identified hpending hstatus hrest,
        flows_changed hc ht (TransferRequestUpdate.apply_same ..) hrows (hpos _ ht) rfl rfl ?_
          fun x => ?_⟩, ?_⟩
      · simp [Bank.Flow.stages, TransferRequest.stage, htype, hpending, settledUpdate,
          TransferRequestUpdate.apply]
      · rw [owed_append hadm hj]
        rfl
      · rw [hrows]
        exact forall_mem_changed (fun t ht _ => hpos t ht) fun t ht _ => hpos t ht
  | @compensated event found _ _ _ _ _ _ hreceived hpending hrows _ hsource hmem hcategory _ hmoves
      hevent =>
      obtain ⟨hfound, hnew⟩ := received_now hreceived
      have ht := hfound.transfer
      have htype := hr.interbank ht hpending
      have howned := hfound.ledgerAccount.symm.trans hsource
      have hnot := hs.unowned hmem (by simp [hcategory])
      have hstatus := statusOf_changed (f := fun t =>
        (TransfersService.statusUpdate .compensated).apply ((failedUpdate event).apply t)) hrows
        (fun _ => rfl) (fun _ => rfl) (statusOf_eq_some.mpr ⟨_, ht, rfl, hpending⟩)
      have henters := enters_of_moves hadm hj hmoves (hr.id_ne _ ht)
      refine ⟨⟨_, .returned hnew hevent ht hfound.identified hpending hstatus henters,
        flows_changed hc ht ⟨rfl, rfl, rfl, rfl, rfl, rfl, rfl, rfl⟩ hrows (hpos _ ht) rfl rfl ?_
          fun x => ?_⟩, ?_⟩
      · simp [Bank.Flow.stages, TransferRequest.stage, htype, hpending, failedUpdate,
          TransfersService.statusUpdate, TransferRequestUpdate.apply]
      · rw [owed_append hadm hj]
        simp [hmoves.creditTo, hnot, ledgerAccountOf_id howned, Bank.Flow.effect]
      · rw [hrows]
        exact forall_mem_changed (fun t ht _ => hpos t ht) fun t ht _ => hpos t ht

end Commit

/-! ## Runs -/

/-- What is owed and what is outstanding is the worth of the bank. -/
theorem worth_bank {s : Store} (hs : s.TransferCurrencies) (currency : String) :
    s.bank.worth s.currencyOf s.accountIds s.transferIds (some currency) =
      s.deposits currency + s.outstanding currency := by
  have hof : ∀ a ∈ s.accounts.rows, s.currencyOf a.id = some a.currency := fun a ha => by
    rw [Store.currencyOf, Table.get?_eq_some.mpr ⟨ha, rfl⟩, Option.map_some]
  unfold Bank.State.worth
  congr 1
  · rw [Finset.sum_filter, Store.accountIds, List.sum_toFinset _ s.accounts.pk_nodup, List.map_map,
      Store.deposits, Table.sum]
    refine congrArg List.sum (List.map_congr_left fun a ha => ?_)
    simp [hof a ha, Store.bank]
  · rw [Store.transferIds, List.sum_toFinset _ s.transferRequests.pk_nodup, List.map_map,
      Store.outstanding, Table.sum]
    refine congrArg List.sum (List.map_congr_left fun t ht => ?_)
    obtain ⟨a, ha, hid, hcurrency⟩ := hs t ht
    have hget : s.transferRequests.get? t.id = some t := Table.get?_eq_some.mpr ⟨ht, rfl⟩
    have hsource : s.currencyOf t.sourceAccountId = some t.currency := by
      rw [← hid, hof a ha, hcurrency]
    simp only [Function.comp_apply, Store.bank, hget, Option.elim_some, TransferRequest.stage,
      TransferRequest.outstanding]
    cases htype : t.transferType <;> cases hstatus : t.status <;>
      simp [Bank.Stage.held, hsource]

/-- The store is good, and comes from the store `s`. -/
structure Store.Banked (env : Env) (s s' : Store) : Prop where
  reconciled : s.Reconciled s'
  seeded : s'.Seeded env
  currencies : s'.TransferCurrencies
  positive : ∀ t ∈ s'.transferRequests.rows, 0 < t.amountMinor

theorem currencyOf_extends {s s' : Store} (h : s.Extends s') : s'.currencyOf = s.currencyOf := by
  funext a
  simp only [Store.currencyOf, h.accounts]

theorem Store.Flows.append {s s' s'' : Store} {fs fs' : List (Bank.Flow Uuid Uuid)}
    (h : s.Flows s' fs) (h' : s'.Flows s'' fs') (hext : s.Extends s') (hext' : s'.Extends s'') :
    s.Flows s'' (fs ++ fs') := by
  refine ⟨h.run.append (currencyOf_extends hext ▸ h'.run),
    List.forall_mem_append.mpr ⟨fun f hf => ?_, h'.inside⟩⟩
  refine ⟨fun a ha => ?_, fun id hid => ?_⟩
  · have hin := (h.inside f hf).account a ha
    rwa [Store.accountIds, ← hext'.accounts] at hin
  · obtain ⟨t, ht, rfl⟩ := List.mem_map.mp (List.mem_toFinset.mp ((h.inside f hf).transfer id hid))
    obtain ⟨t', ht', hsame⟩ := hext'.transferRequests t ht
    rw [← hsame.id]
    exact mem_transferIds ht'

theorem banked_of_committed {env : Env} {s s' : Store} {α : Type} (l : Label α) (a : α)
    (ws : List Write) (hs : s.Banked env s') (hl : grounds s' l)
    (hadm : database.Admissible s' ws) (h : Committed (Now s') env l a ws) :
    s.Banked env (database.applyAll ws s') := by
  have hV : ∀ p e, Now s' p e → Saw s' p e := fun _ _ => saw_of_now
  have hcur : ∀ event found row, Received (Now s') event found row →
      found.transfer ∈ s'.transferRequests.rows :=
    fun _ _ _ hreceived => now_findFirstTransferRequest hreceived.lookup
  obtain ⟨entries, hj, heffect⟩ := h.effect hV hl hadm
  have hpositive := (h.flows hs.reconciled hs.seeded hs.currencies hs.positive hl hadm).2
  exact ⟨hs.reconciled.step hV hadm hj heffect hcur, hs.seeded.of_extends (extends_applyAll ws s'),
    h.transferCurrencies hV hs.seeded hs.currencies hl, hpositive⟩

/-- The commits of a run from the store `s`, oldest first, with the flows that match each of them
and lead from the bank of the store before it to that of the store after it. -/
inductive Matched (s : Store) : List (Commit Stmt Label Write) → List (List (Bank.Flow Uuid Uuid)) →
    Store → Prop where
  | nil : Matched s [] [] s
  | snoc {cs : List (Commit Stmt Label Write)} {fss : List (List (Bank.Flow Uuid Uuid))}
      {s' : Store} {commit : Commit Stmt Label Write} {fs : List (Bank.Flow Uuid Uuid)} :
      Matched s cs fss s' →
      s'.Matches (database.applyAll (writes commit.history) s') commit.label fs →
      Bank.Run s'.currencyOf s'.bank fs (database.applyAll (writes commit.history) s').bank →
      Matched s (cs ++ [commit]) (fss ++ [fs]) (database.applyAll (writes commit.history) s')

section Run

variable {env : Env} {s : Store} {cs : List (Commit Stmt Label Write)} {c : ServerConfig}

/-- The stores that are reached are good, and the commits that led there are matched. -/
theorem matched_of_traced (hinit : s.Banked env s)
    (hrun : Traced (server env) (server env).Serial (.initial s) cs c) :
    s.Banked env c.store ∧ ∃ fss, Matched s cs fss c.store ∧ s.Flows c.store fss.flatten := by
  have hvalid : (serialRules env s (s.Banked env)).Valid (server env).Serial :=
    serialRules_valid (fun _ h => h.reconciled.extended) fun _ => banked_of_committed
  obtain ⟨⟨own, hsound⟩, -⟩ := Rules.sound_of_steps hvalid hinit hrun.steps
  refine ⟨hsound.inv, (Rules.sound_initial hinit).traced hvalid (P := fun _ _ _ => true)
    (J := fun s' cs => ∃ fss, Matched s cs fss s' ∧ s.Flows s' fss.flatten) ⟨[], .nil, .refl s⟩ ?_
    (hrun.mono fun c a hok => ?_)⟩
  · rintro α s' cs T l h a ⟨fss, hmatched, hflows⟩ hc -
    have hs : s.Banked env s' := hc.inv
    have hext := hs.reconciled.extended
    obtain ⟨⟨fs, hmatches, hfs⟩, -⟩ := (serial_committed hc).flows hs.reconciled hs.seeded
      hs.currencies hs.positive (grounds_of_extends hext hc.pre) hc.admissible
    refine ⟨fss ++ [fs], .snoc hmatched hmatches hfs.run, ?_⟩
    rw [List.flatten_append, List.flatten_singleton]
    exact hflows.append hfs hext (extends_applyAll _ s')
  · rw [hok, Bool.true_and]
    cases a with
    | advance i ch =>
        simp only [CommitsOnly]
        split <;> rfl
    | _ => rfl

/-- Every run of atomic transactions is matched by a run of the bank, commit by commit.  Each
transfer to another bank has the flows that its status tells, and in every currency what is owed
and what is outstanding is what was credited. -/
theorem bank_refined (hs : s.Seeded env) (hkeys : s.ForeignKeys)
    (htransfers : s.transferRequests.rows = []) (hentries : s.journalEntries.rows = [])
    (hrun : Traced (server env) (server env).Serial (.initial s) cs c) :
    ∃ fss, Matched s cs fss c.store ∧
      Bank.Run s.currencyOf s.bank fss.flatten c.store.bank ∧
      (∀ t ∈ c.store.transferRequests.rows,
        fss.flatten.filter (fun f => f.transfer? = some t.id) = t.stage.history t.id) ∧
      ∀ currency, c.store.deposits currency + c.store.outstanding currency =
        (fss.flatten.map (·.credit s.currencyOf (some currency))).sum := by
  have hpostings := hkeys.postings_nil hentries
  have hinit : s.Banked env s := by
    refine ⟨⟨.refl s, fun l hl hcategory => hs.unlinked l hl (by simp [hcategory]), hkeys,
      by simp [htransfers], by simp [htransfers], fun currency => ?_, by simp [htransfers]⟩, hs,
      by simp [Store.TransferCurrencies, htransfers], by simp [htransfers]⟩
    simp [Store.clearingBalance, Store.outstanding, Table.sum, htransfers, hpostings]
  obtain ⟨hbanked, fss, hmatched, hfs, hinside⟩ := matched_of_traced hinit hrun
  refine ⟨fss, hmatched, hfs, fun t ht => ?_, fun currency => ?_⟩
  · have hhistory := hfs.history t.id
    have hget : c.store.transferRequests.get? t.id = some t := Table.get?_eq_some.mpr ⟨ht, rfl⟩
    have hnone : s.transferRequests.get? t.id = none :=
      Table.get?_eq_none.mpr (by simp [htransfers])
    simpa [Store.bank, hget, hnone, Bank.Stage.history] using hhistory.symm
  · have hzero : s.bank.worth s.currencyOf c.store.accountIds c.store.transferIds
        (some currency) = 0 := by
      have howed : ∀ a, s.bank.owed a = 0 := fun a => by
        simp [Store.bank, Store.owed, Table.sum, hpostings]
      have hstage : ∀ id, s.bank.stage id = .absent := fun id => by
        simp [Store.bank, Table.get?, htransfers]
      simp [Bank.State.worth, howed, hstage, Bank.Stage.held]
    rw [← worth_bank hbanked.currencies, currencyOf_extends hbanked.reconciled.extended,
      hfs.worth hinside, hzero, zero_add]

end Run

/-- A transfer that the rail rejects is sent and comes back. -/
theorem bank_refined_returned :
    ∃ cs c, Traced (server testEnvironment) (server testEnvironment).Serial (.initial demoStore)
        cs c ∧
      ∃ fss, Matched demoStore cs fss c.store ∧
        ∃ t ∈ c.store.transferRequests.rows,
          fss.flatten.filter (fun f => f.transfer? = some t.id) =
            [.sent t.id t.sourceAccountId t.amountMinor,
              .returned t.id t.sourceAccountId t.amountMinor] := by
  obtain ⟨c, hplay, t, ht, hstage⟩ := play_of_decide (server testEnvironment)
    (server testEnvironment).Serial (.initial demoStore) returnedSchedule
    (fun c => ∃ t ∈ c.store.transferRequests.rows,
      t.stage = .returned t.sourceAccountId t.amountMinor) (by decide +kernel)
  obtain ⟨fss, hmatched, -, hhistory, -⟩ := bank_refined (seedBaseData_seeded (by decide +kernel) ..)
    (seedBaseData_foreignKeys ..) rfl rfl (traced_of_play hplay)
  refine ⟨_, c, traced_of_play hplay, fss, hmatched, t, ht, ?_⟩
  rw [hhistory t ht, hstage]
  rfl

end LedgerCredit
