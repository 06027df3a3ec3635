import LedgerCredit.Answers

/-!
# What the ledger service does

`Posted` says what one turn of the posting loop writes, and which projection it
read.  `JournalPosted` says it for a whole journal entry.  Both speak of the
writes before them, since a statement sees the writes of its own transaction.
-/

namespace LedgerCredit

open Txn

theorem runs_ofExcept {V : View} {p ws : List Write} {α : Type} {x : Except AppException α}
    {a : α} : Runs V p (ofExcept x) ws a ↔ ws = [] ∧ x = .ok a := by
  cases x <;> simp [ofExcept]

theorem fromMinorUnits_ok {env : Env} {currency : String} {n : MoneyInput} {amount : Money}
    (h : Money.fromMinorUnits env currency n = .ok amount) :
    amount.currency = env.toUpperCase currency ∧ toBigInt n = .ok amount.minorUnits := by
  cases hn : toBigInt n with
  | error e =>
      rw [Money.fromMinorUnits, hn] at h
      cases h
  | ok k =>
      rw [Money.fromMinorUnits, hn] at h
      cases h
      exact ⟨rfl, rfl⟩

namespace LedgerService

/-- The balance a projection stands for; an absent one is zero. -/
def balanceOf (b : Option BalanceProjection) : Int := (b.map (·.currentMinor)).getD 0

/-- What one turn of the posting loop writes after `p`. -/
inductive Posted (V : View) (ledgerAccounts : List LedgerAccount) (journalEntry : JournalEntry)
    (input : LedgerPostingInput) : List Write → List Write → Posting → Prop where
  | unlinked {p : List Write} {u : Uuid} :
      0 < input.amount.minorUnits →
      customerAccount ledgerAccounts input.ledgerAccountId = none →
      Posted V ledgerAccounts journalEntry input p [.posting (postingData journalEntry input u)]
        (postingData journalEntry input u)
  | linked {p : List Write} {u id accountId : Uuid} {ledgerAccount : LedgerAccount}
      {b : Option BalanceProjection} {running : Int} :
      0 < input.amount.minorUnits →
      customerAccount ledgerAccounts input.ledgerAccountId = some (ledgerAccount, accountId) →
      V (p ++ [.posting (postingData journalEntry input u)])
        ⟨.findBalanceProjection accountId, b, []⟩ →
      running = balanceOf b + computeBalanceEffect input.direction
        ledgerAccount.normalBalanceDirection input.amount.minorUnits →
      Posted V ledgerAccounts journalEntry input p
        [.posting (postingData journalEntry input u),
          .balanceProjection
            (balanceData journalEntry (postingData journalEntry input u) accountId running),
          .statementLine (statementLineData journalEntry (postingData journalEntry input u) accountId
            running id)]
        (postingData journalEntry input u)

/-- What the posting loop writes. -/
inductive PostedAll (V : View) (ledgerAccounts : List LedgerAccount)
    (journalEntry : JournalEntry) :
    List Write → List LedgerPostingInput → List Write → List Posting → Prop where
  | nil {p : List Write} : PostedAll V ledgerAccounts journalEntry p [] [] []
  | cons {p ws ws' : List Write} {input : LedgerPostingInput} {inputs : List LedgerPostingInput}
      {posting : Posting} {postings : List Posting} :
      Posted V ledgerAccounts journalEntry input p ws posting →
      PostedAll V ledgerAccounts journalEntry (p ++ ws) inputs ws' postings →
      PostedAll V ledgerAccounts journalEntry p (input :: inputs) (ws ++ ws') (posting :: postings)

/-- What `postJournalEntry` checks and writes. -/
structure JournalPosted (V : View) (input : PostJournalEntryInput) (p ws : List Write)
    (journalEntry : JournalEntry) (postings : List Posting) (ledgerAccounts : List LedgerAccount)
    (rest : List Write) : Prop where
  two : 2 ≤ input.postings.length
  balanced : total .debit input.postings = total .credit input.postings
  currency : ∀ x ∈ input.postings, ∀ y ∈ input.postings, x.amount.currency = y.amount.currency
  found : V p ⟨.findLedgerAccounts (input.postings.map (·.ledgerAccountId)), ledgerAccounts, []⟩
  accounts : ledgerAccounts.length = input.postings.length
  entry : ∃ u, journalEntry = journalEntryData input u
  writes : ws = .journalEntry journalEntry :: rest
  posted : PostedAll V ledgerAccounts journalEntry (p ++ [.journalEntry journalEntry])
    input.postings rest postings

variable {V : View} {ledgerAccounts : List LedgerAccount} {journalEntry : JournalEntry}

theorem postPosting_runs (hV : Answering V) {input : LedgerPostingInput} {p ws : List Write}
    {posting : Posting} (hr : Runs V p (postPosting ledgerAccounts journalEntry input) ws posting) :
    Posted V ledgerAccounts journalEntry input p ws posting := by
  simp only [postPosting, runs_bind, runs_send] at hr
  obtain ⟨_, _, hcreate, _, rfl, hr⟩ := hr
  obtain ⟨⟨u, rfl⟩, hpos, rfl⟩ := hV _ _ _ _ hcreate
  split at hr
  · rename_i hlinked
    obtain ⟨rfl, rfl⟩ := runs_return.mp hr
    exact .unlinked hpos hlinked
  · rename_i ledgerAccount accountId hlinked
    simp only [runs_bind, runs_send, runs_return] at hr
    obtain ⟨_, b, hread, _, rfl, _, _, hupsert, _, rfl, _, _, hline, _, rfl, rfl, rfl⟩ := hr
    obtain rfl := hV _ _ _ _ hread
    obtain rfl := hV _ _ _ _ hupsert
    obtain ⟨id, rfl⟩ := hV _ _ _ _ hline
    exact .linked hpos hlinked hread rfl

theorem postPostings_runs (hV : Answering V) {inputs : List LedgerPostingInput}
    {p ws : List Write} {postings : List Posting}
    (hr : Runs V p (postPostings ledgerAccounts journalEntry inputs) ws postings) :
    PostedAll V ledgerAccounts journalEntry p inputs ws postings := by
  induction inputs generalizing p ws postings with
  | nil =>
      obtain ⟨rfl, rfl⟩ := runs_return.mp hr
      exact .nil
  | cons input inputs ih =>
      simp only [postPostings, runs_bind, runs_return] at hr
      obtain ⟨_, posting, hfirst, _, rfl, _, rest, hrest, _, rfl, rfl, rfl⟩ := hr
      rw [List.append_nil]
      exact .cons (postPosting_runs hV hfirst) (ih hrest)

theorem postJournalEntry_runs (hV : Answering V) {input : PostJournalEntryInput}
    {p ws : List Write} {r : JournalEntry × List Posting}
    (hr : Runs V p (postJournalEntry input) ws r) :
    ∃ ledgerAccounts rest, JournalPosted V input p ws r.1 r.2 ledgerAccounts rest := by
  simp only [postJournalEntry, runs_bind, assert, runs_ensure, runs_send, runs_return] at hr
  obtain ⟨_, _, ⟨rfl, htwo⟩, _, rfl, _, _, ⟨rfl, hbal⟩, _, rfl, _, _, ⟨rfl, hcur⟩, _, rfl, _,
    ledgerAccounts, hfound, _, rfl, _, _, ⟨rfl, hlen⟩, _, rfl, _, journalEntry, hentry, _, rfl, rest,
    postings, hpost, _, rfl, rfl, rfl⟩ := hr
  simp only [List.append_nil] at *
  obtain ⟨_, rfl⟩ := hV _ _ _ _ hfound
  obtain ⟨hu, rfl⟩ := hV _ _ _ _ hentry
  simp only [List.append_nil, List.nil_append, List.singleton_append] at *
  refine ⟨ledgerAccounts, rest, by simpa using htwo, by simpa using hbal, ?_, hfound,
    by simpa using hlen, hu, rfl, postPostings_runs hV hpost⟩
  intro x hx y hy
  have hall := List.all_eq_true.mp hcur
  have hx' : some x.amount.currency = input.postings.head?.map (·.amount.currency) := by
    simpa using hall x hx
  have hy' : some y.amount.currency = input.postings.head?.map (·.amount.currency) := by
    simpa using hall y hy
  exact Option.some.inj (hx'.trans hy'.symm)

theorem findSystemLedgerAccount_runs (hV : Answering V) {category : LedgerAccountCategory}
    {currency : String} {p ws : List Write} {l : LedgerAccount}
    (hr : Runs V p (findSystemLedgerAccount category currency) ws l) :
    ws = [] ∧ V p ⟨.findFirstLedgerAccount category currency, some l, []⟩ := by
  simp only [findSystemLedgerAccount, runs_bind, runs_send, orThrow, runs_require] at hr
  obtain ⟨_, o, hfind, _, rfl, rfl, rfl⟩ := hr
  obtain ⟨_, rfl⟩ := hV _ _ _ _ hfind
  exact ⟨rfl, hfind⟩

end LedgerService

end LedgerCredit
