import LedgerCredit.Journal
import LedgerCredit.Seed
import LedgerCredit.Txn.Soundness

/-!
# Balances

The projection of an account should be its opening balance plus the signed sum of
the postings on its ledger account.  `Agrees s₀ s` says so, where the opening
balance is what the projection shows on `s₀` and the postings of `s₀` do not
explain.  The ledger service keeps a projection up to date by reading it, adding
the effect of a posting and writing it back.  `agrees_posted` shows that this
works if what was read is still there when the transaction commits.
-/

namespace LedgerCredit

open Txn LedgerService

/-! ## Projections and postings -/

/-- The effect of a posting on the balance of a ledger account. -/
def LedgerAccount.effect (l : LedgerAccount) (p : Posting) : Int :=
  if p.ledgerAccountId = l.id then
    computeBalanceEffect p.direction l.normalBalanceDirection p.amountMinor
  else 0

/-- The effect of a posting input on the balance of a ledger account. -/
def LedgerAccount.effectOf (l : LedgerAccount) (x : LedgerPostingInput) : Int :=
  if x.ledgerAccountId = l.id then
    computeBalanceEffect x.direction l.normalBalanceDirection x.amount.minorUnits
  else 0

/-- The signed sum of the postings on a ledger account. -/
def Store.ledgerSum (s : Store) (l : LedgerAccount) : Int := s.postings.sum l.effect

/-- The balance that the projection of an account shows. -/
def Store.projected (s : Store) (accountId : Uuid) : Int :=
  balanceOf (s.balanceProjections.get? accountId)

/-- The part of the projection that the postings do not explain. -/
def Store.openingBalance (s : Store) (accountId : Uuid) (l : LedgerAccount) : Int :=
  s.projected accountId - s.ledgerSum l

/-- Every projection is the opening balance of `s₀` plus the postings. -/
def Store.Agrees (s₀ s : Store) : Prop :=
  ∀ accountId l, s₀.ledgerAccountOf accountId = some l →
    s.projected accountId = s₀.openingBalance accountId l + s.ledgerSum l

theorem Store.Agrees.refl (s : Store) : s.Agrees s := by
  intro accountId l _
  simp [Store.openingBalance]

variable {s : Store} {ws : List Write}

theorem ledgerSum_applyAll (h : database.Admissible s ws) (l : LedgerAccount) :
    (database.applyAll ws s).ledgerSum l =
      s.ledgerSum l + ((ws.filterMap Write.posting?).map l.effect).sum := by
  simp [Store.ledgerSum, Table.sum, postings_applyAll h]

theorem get?_balanceProjection (s : Store) (r : BalanceProjection) (accountId : Uuid) :
    ((Write.balanceProjection r).apply s).balanceProjections.get? accountId =
      if r.accountId = accountId then some r else s.balanceProjections.get? accountId := by
  simp only [Write.apply, Table.get?_upsert]

theorem projected_upsert (s : Store) (r : BalanceProjection) (accountId : Uuid) :
    ((Write.balanceProjection r).apply s).projected accountId =
      if r.accountId = accountId then r.currentMinor else s.projected accountId := by
  simp only [Store.projected, get?_balanceProjection]
  split <;> rfl

/-- Writes to other tables leave the balances alone. -/
theorem openingBalance_of_sameLedger {s s' : Store} (h : s.SameLedger s') (accountId : Uuid)
    (l : LedgerAccount) : s'.openingBalance accountId l = s.openingBalance accountId l := by
  simp only [Store.openingBalance, Store.projected, Store.ledgerSum, h.balanceProjections,
    h.postings]

theorem openingBalance_applyAll (h : ∀ w ∈ ws, w.kind ≠ .ledger) (s : Store) (accountId : Uuid)
    (l : LedgerAccount) :
    (database.applyAll ws s).openingBalance accountId l = s.openingBalance accountId l :=
  openingBalance_of_sameLedger (Store.sameLedger_applyAll h s) accountId l

/-! ## Ledger accounts -/

theorem ledgerAccountOf_some {accountId : Uuid} {l : LedgerAccount} :
    s.ledgerAccountOf accountId = some l ↔
      l ∈ s.ledgerAccounts.rows ∧ l.accountId = some accountId :=
  Table.find?_eq_some

/-- What the map of ledger accounts knows: the accounts with the ids of the postings. -/
def Store.Mapped (s : Store) (ledgerAccounts : List LedgerAccount) (ids : List Uuid) : Prop :=
  ∀ l, l ∈ ledgerAccounts ↔ l ∈ s.ledgerAccounts.rows ∧ l.id ∈ ids

section Mapped

variable {ledgerAccounts : List LedgerAccount} {ids : List Uuid} {id accountId : Uuid}
  {l : LedgerAccount}

/-- The loop finds the customer account of a ledger account. -/
theorem customerAccount_some (hmap : s.Mapped ledgerAccounts ids)
    (h : customerAccount ledgerAccounts id = some (l, accountId)) :
    s.ledgerAccountOf accountId = some l ∧ l.id = id := by
  obtain ⟨l', hget, hacc⟩ := Option.bind_eq_some_iff.mp h
  obtain ⟨accountId', hid, heq⟩ := Option.map_eq_some_iff.mp hacc
  cases heq
  obtain ⟨l'', hl, heq⟩ := List.mem_map.mp (mapGet_mem hget)
  cases heq
  exact ⟨ledgerAccountOf_some.mpr ⟨((hmap _).mp hl).1, hid⟩, rfl⟩

/-- The loop misses no ledger account of a customer. -/
theorem customerAccount_none (hmap : s.Mapped ledgerAccounts ids) (hid : id ∈ ids)
    (h : customerAccount ledgerAccounts id = none) (hl : s.ledgerAccountOf accountId = some l) :
    l.id ≠ id := by
  rintro rfl
  obtain ⟨hmem, hacc⟩ := ledgerAccountOf_some.mp hl
  have hfound : l ∈ ledgerAccounts := (hmap l).mpr ⟨hmem, hid⟩
  cases hget : mapGet (ledgerAccounts.map fun l => (l.id, l)) l.id with
  | none => exact mapGet_none hget l (List.mem_map.mpr ⟨l, hfound, rfl⟩)
  | some l' =>
      obtain ⟨l'', hl'', heq⟩ := List.mem_map.mp (mapGet_mem hget)
      obtain ⟨hid', rfl⟩ := Prod.mk.inj heq
      obtain rfl := Table.eq_of_pk ((hmap _).mp hl'').1 hmem hid'
      simp [customerAccount, hget, hacc] at h

end Mapped

/-! ## The ledger service -/

/-- What the posting loop read of the projection of an account is what the view on `s` has. -/
def ReadsBalance (V : View) (s : Store) (accountId : Uuid) : Prop :=
  ∀ p b, V p ⟨.findBalanceProjection accountId, b, []⟩ →
    b = (database.applyAll p s).balanceProjections.get? accountId

section Posted

variable {V : View} {ledgerAccounts : List LedgerAccount} {ids : List Uuid}
  {journalEntry : JournalEntry} {p : List Write} {accountId : Uuid} {l : LedgerAccount}

/-- One turn of the posting loop moves the projection of an account as far as its postings. -/
theorem openingBalance_posted (hV : ReadsBalance V s accountId) (hmap : s.Mapped ledgerAccounts ids)
    {input : LedgerPostingInput} {posting : Posting} (hid : input.ledgerAccountId ∈ ids)
    (h : Posted V ledgerAccounts journalEntry input p ws posting)
    (hadm : database.Admissible (database.applyAll p s) ws)
    (hl : s.ledgerAccountOf accountId = some l) :
    (database.applyAll (p ++ ws) s).openingBalance accountId l =
      (database.applyAll p s).openingBalance accountId l := by
  rw [Database.applyAll_append]
  unfold Store.openingBalance
  rw [ledgerSum_applyAll hadm]
  cases h with
  | @unlinked u _ hnone =>
      have hne : (postingData journalEntry input u).ledgerAccountId ≠ l.id :=
        Ne.symm (customerAccount_none hmap hid hnone hl)
      have heffect : l.effect (postingData journalEntry input u) = 0 := if_neg hne
      simp only [List.filterMap_cons, Write.posting?, List.filterMap_nil, List.map_cons,
        List.map_nil, List.sum_cons, List.sum_nil, heffect]
      have hsame : (database.applyAll [.posting (postingData journalEntry input u)]
          (database.applyAll p s)).projected accountId =
            (database.applyAll p s).projected accountId := rfl
      omega
  | @linked u lineId accountId' l' b running _ hsome hread hrunning =>
      obtain ⟨hl', hid'⟩ := customerAccount_some hmap hsome
      have hproj : (database.applyAll [.posting (postingData journalEntry input u),
          .balanceProjection
            (balanceData journalEntry (postingData journalEntry input u) accountId' running),
          .statementLine (statementLineData journalEntry (postingData journalEntry input u)
            accountId' running lineId)] (database.applyAll p s)).projected accountId =
          if accountId' = accountId then running
          else (database.applyAll p s).projected accountId := projected_upsert _ _ _
      rw [hproj]
      by_cases hacc : accountId' = accountId
      · subst hacc
        obtain rfl := Option.some.inj (hl'.symm.trans hl)
        have heffect : l'.effect (postingData journalEntry input u) =
            computeBalanceEffect input.direction l'.normalBalanceDirection
              input.amount.minorUnits := if_pos hid'.symm
        have hbalance : balanceOf b = (database.applyAll p s).projected accountId' := by
          rw [hV _ _ hread, Database.applyAll_append]
          rfl
        simp only [List.filterMap_cons, Write.posting?, List.filterMap_nil, List.map_cons,
          List.map_nil, List.sum_cons, List.sum_nil, heffect, if_true, hrunning, hbalance]
        omega
      · have hne : l'.id ≠ l.id := by
          intro heq
          obtain ⟨hmem', hacc'⟩ := ledgerAccountOf_some.mp hl'
          obtain ⟨hmem, hacc''⟩ := ledgerAccountOf_some.mp hl
          obtain rfl := Table.eq_of_pk hmem' hmem heq
          exact hacc (Option.some.inj (hacc'.symm.trans hacc''))
        have heffect : l.effect (postingData journalEntry input u) = 0 :=
          if_neg fun heq => hne (hid'.trans heq)
        simp only [List.filterMap_cons, Write.posting?, List.filterMap_nil, List.map_cons,
          List.map_nil, List.sum_cons, List.sum_nil, heffect, if_neg hacc]
        omega

/-- A projection is written after it was read. -/
theorem read_of_posted {input : LedgerPostingInput} {posting : Posting} {r : BalanceProjection}
    (h : Posted V ledgerAccounts journalEntry input p ws posting)
    (hr : .balanceProjection r ∈ ws) : ∃ p b, V p ⟨.findBalanceProjection r.accountId, b, []⟩ := by
  cases h with
  | unlinked _ _ => simp at hr
  | linked _ _ hread _ =>
      obtain rfl : r = _ := by simpa using hr
      exact ⟨_, _, hread⟩

theorem read_of_postedAll {inputs : List LedgerPostingInput} {postings : List Posting}
    {r : BalanceProjection} (h : PostedAll V ledgerAccounts journalEntry p inputs ws postings)
    (hr : .balanceProjection r ∈ ws) : ∃ p b, V p ⟨.findBalanceProjection r.accountId, b, []⟩ := by
  induction h with
  | nil => cases hr
  | cons hposted _ ih =>
      rcases List.mem_append.mp hr with hr | hr
      · exact read_of_posted hposted hr
      · exact ih hr

theorem read_of_journalPosted {input : PostJournalEntryInput} {postings : List Posting}
    {rest : List Write} {r : BalanceProjection}
    (h : JournalPosted V input p ws journalEntry postings ledgerAccounts rest)
    (hr : .balanceProjection r ∈ ws) : ∃ p b, V p ⟨.findBalanceProjection r.accountId, b, []⟩ := by
  rw [h.writes] at hr
  exact read_of_postedAll h.posted (by simpa using hr)

theorem openingBalance_postedAll (hV : ReadsBalance V s accountId) (hmap : s.Mapped ledgerAccounts ids)
    {inputs : List LedgerPostingInput} {postings : List Posting}
    (hids : ∀ input ∈ inputs, input.ledgerAccountId ∈ ids)
    (h : PostedAll V ledgerAccounts journalEntry p inputs ws postings)
    (hadm : database.Admissible (database.applyAll p s) ws)
    (hl : s.ledgerAccountOf accountId = some l) :
    (database.applyAll (p ++ ws) s).openingBalance accountId l =
      (database.applyAll p s).openingBalance accountId l := by
  induction h with
  | nil => rw [List.append_nil]
  | @cons p ws ws' input inputs posting postings hposted _ ih =>
      obtain ⟨hid, hids⟩ := List.forall_mem_cons.mp hids
      obtain ⟨hadm₁, hadm₂⟩ := Database.Admissible.of_append lawful_database hadm
      rw [← Database.applyAll_append] at hadm₂
      rw [← List.append_assoc, ih hids hadm₂,
        openingBalance_posted hV hmap hid hposted hadm₁ hl]

/-- A journal entry moves the projection of every account as far as its postings. -/
theorem openingBalance_journalPosted (hV : ReadsBalance V s accountId) (hsaw : ∀ p e, V p e → Saw s p e)
    {input : PostJournalEntryInput} {postings : List Posting} {rest : List Write}
    (h : JournalPosted V input p ws journalEntry postings ledgerAccounts rest)
    (hadm : database.Admissible (database.applyAll p s) ws)
    (hl : s.ledgerAccountOf accountId = some l) :
    (database.applyAll (p ++ ws) s).openingBalance accountId l =
      (database.applyAll p s).openingBalance accountId l := by
  have hmap : s.Mapped ledgerAccounts (input.postings.map (·.ledgerAccountId)) :=
    saw_findLedgerAccounts (hsaw _ _ h.found)
  have hws : ws = [.journalEntry journalEntry] ++ rest := h.writes
  subst hws
  obtain ⟨_, hadm⟩ := Database.Admissible.of_append lawful_database hadm
  rw [← Database.applyAll_append] at hadm
  rw [← List.append_assoc, openingBalance_postedAll hV hmap
    (fun x hx => List.mem_map.mpr ⟨x, hx, rfl⟩) h.posted hadm hl, Database.applyAll_append]
  rfl

/-- The same with writes to other tables before and after. -/
theorem openingBalance_wrap (hV : ReadsBalance V s accountId) (hsaw : ∀ p e, V p e → Saw s p e)
    {input : PostJournalEntryInput} {postings : List Posting} {rest after : List Write}
    (h : JournalPosted V input p ws journalEntry postings ledgerAccounts rest)
    (hbefore : ∀ w ∈ p, w.kind ≠ .ledger) (hafter : ∀ w ∈ after, w.kind ≠ .ledger)
    (hadm : database.Admissible s (p ++ ws ++ after)) (hl : s.ledgerAccountOf accountId = some l) :
    (database.applyAll (p ++ ws ++ after) s).openingBalance accountId l =
      s.openingBalance accountId l := by
  obtain ⟨hadm, -⟩ := Database.Admissible.of_append lawful_database hadm
  obtain ⟨-, hadm⟩ := Database.Admissible.of_append lawful_database hadm
  rw [Database.applyAll_append, openingBalance_applyAll hafter,
    openingBalance_journalPosted hV hsaw h hadm hl, openingBalance_applyAll hbefore]

/-- The effect of an entry on the balance of a ledger account. -/
theorem effects_journalPosted {input : PostJournalEntryInput} {postings : List Posting}
    {rest before after : List Write}
    (h : JournalPosted V input p ws journalEntry postings ledgerAccounts rest)
    (hbefore : ∀ w ∈ before, w.kind ≠ .ledger) (hafter : ∀ w ∈ after, w.kind ≠ .ledger)
    (l : LedgerAccount) :
    ((before ++ ws ++ after).filterMap Write.posting?).map l.effect =
      input.postings.map l.effectOf :=
  h.measure (fun id direction amountMinor => if id = l.id then
    computeBalanceEffect direction l.normalBalanceDirection amountMinor else 0) hbefore hafter

end Posted

/-! ## The transactions -/

/-- Chunks compute balances on their own. -/
def Label.isChunk : {α : Type} → Label α → Bool
  | _, .processBatchChunk .. => true
  | _, _ => false

/-- Every other transaction moves the projection of an account as far as its postings, if what it
read of it is still there. -/
theorem Committed.openingBalance {V : View} {env : Env} {accountId : Uuid} {l : LedgerAccount}
    (hV : ReadsBalance V s accountId) (hsaw : ∀ p e, V p e → Saw s p e)
    (hl : s.ledgerAccountOf accountId = some l) {α : Type} {label : Label α}
    (hground : grounds s label) (hchunk : label.isChunk = false) {a : α}
    (h : Committed V env label a ws) (hadm : database.Admissible s ws) :
    (database.applyAll ws s).openingBalance accountId l = s.openingBalance accountId l := by
  cases h with
  | createTransfer hrun =>
      cases hrun with
      | replay _ _ _ => rfl
      | internal _ _ _ _ hcreated _ _ hposted =>
          exact openingBalance_wrap hV hsaw hposted (hcreated.before rfl) (by simp [Write.kind])
            hadm hl
      | external _ _ _ _ hcreated _ hposted =>
          exact openingBalance_wrap hV hsaw hposted (hcreated.before rfl) (by simp [Write.kind])
            hadm hl
  | applyNormalizedEvent hrun =>
      cases hrun with
      | compensated _ _ _ _ hcomp =>
          exact openingBalance_wrap hV hsaw hcomp.entry (by simp [Write.kind])
            (by simp [Write.kind]) hadm hl
      | _ => exact openingBalance_applyAll (by simp [Write.kind]) s accountId l
  | processBatchChunk _ => cases hchunk
  | processBatchItem hrun =>
      cases hrun with
      | processed _ _ _ hpaid =>
          cases hpaid with
          | none _ => exact openingBalance_applyAll (by simp [Write.kind]) s accountId l
          | paid _ _ _ hposted =>
              exact openingBalance_wrap hV hsaw hposted (by simp [Write.kind])
                (by simp [Write.kind]) hadm hl
      | _ => rfl
  | statement hread =>
      refine openingBalance_applyAll (fun w hw => ?_) s accountId l
      simp [kind_of_outside (answering_of_saw hsaw) hground hread w hw]

/-- Every other transaction writes a projection after it read it. -/
theorem Committed.read {V : View} {env : Env} (hV : Answering V) {α : Type} {label : Label α}
    (hground : grounds s label) (hchunk : label.isChunk = false) {a : α}
    (h : Committed V env label a ws) {r : BalanceProjection} (hr : .balanceProjection r ∈ ws) :
    ∃ p b, V p ⟨.findBalanceProjection r.accountId, b, []⟩ := by
  cases h with
  | createTransfer hrun =>
      cases hrun with
      | replay _ _ _ => cases hr
      | internal _ _ _ _ hcreated _ _ hposted =>
          exact read_of_journalPosted hposted (by simpa [hcreated.writes] using hr)
      | external _ _ _ _ hcreated _ hposted =>
          exact read_of_journalPosted hposted (by simpa [hcreated.writes] using hr)
  | applyNormalizedEvent hrun =>
      cases hrun with
      | compensated _ _ _ _ hcomp => exact read_of_journalPosted hcomp.entry (by simpa using hr)
      | _ => simp at hr
  | processBatchChunk _ => cases hchunk
  | processBatchItem hrun =>
      cases hrun with
      | processed _ _ _ hpaid =>
          cases hpaid with
          | none _ => simp at hr
          | paid _ _ _ hposted => exact read_of_journalPosted hposted (by simpa using hr)
      | _ => cases hr
  | statement hread => cases kind_of_outside hV hground hread _ hr

end LedgerCredit
