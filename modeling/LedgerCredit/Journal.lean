import LedgerCredit.Processes

/-!
# Journal entries and their postings

`postingsOf` are the postings of a journal entry.  `Journalled ws entries` says
that some writes add the journal entries `entries`, each with its postings, and
nothing else to the journal.  `postingsOf_applyAll` is what this means for a
store: old entries keep their postings, and each new one has its own.
-/

namespace LedgerCredit

open Txn

/-- The postings of a journal entry. -/
def Store.postingsOf (s : Store) (journalEntryId : Uuid) : List Posting :=
  s.postings.rows.filter fun p => p.journalEntryId = journalEntryId

/-- The writes add these journal entries with these postings. -/
structure Journalled (ws : List Write) (entries : List (JournalEntry × List Posting)) : Prop where
  journalEntries : ws.filterMap Write.journalEntry? = entries.map (·.1)
  postings : ws.filterMap Write.posting? = entries.flatMap (·.2)
  own : ∀ e ∈ entries, ∀ p ∈ e.2, p.journalEntryId = e.1.id

namespace Journalled

theorem nil_of_kind {ws : List Write} (h : ∀ w ∈ ws, w.kind ≠ .ledger) : Journalled ws [] where
  journalEntries := List.filterMap_eq_nil_iff.mpr fun w hw => Write.journalEntry?_of_kind (h w hw)
  postings := List.filterMap_eq_nil_iff.mpr fun w hw => Write.posting?_of_kind (h w hw)
  own := nofun

theorem append {ws ws' : List Write} {es es' : List (JournalEntry × List Posting)}
    (h : Journalled ws es) (h' : Journalled ws' es') : Journalled (ws ++ ws') (es ++ es') where
  journalEntries := by
    rw [List.filterMap_append, h.journalEntries, h'.journalEntries, List.map_append]
  postings := by rw [List.filterMap_append, h.postings, h'.postings, List.flatMap_append]
  own := by
    intro e he
    rcases List.mem_append.mp he with he | he
    · exact h.own e he
    · exact h'.own e he

/-- Writes to other tables before and after make no difference. -/
theorem wrap {ws before after : List Write} {es : List (JournalEntry × List Posting)}
    (h : Journalled ws es) (hbefore : ∀ w ∈ before, w.kind ≠ .ledger)
    (hafter : ∀ w ∈ after, w.kind ≠ .ledger) : Journalled (before ++ ws ++ after) es := by
  simpa using ((nil_of_kind hbefore).append h).append (nil_of_kind hafter)

end Journalled

/-! ## The store after a transaction -/

section Store

variable {s : Store} {ws : List Write} {entries : List (JournalEntry × List Posting)}

theorem journalEntries_of_journalled (h : database.Admissible s ws) (hj : Journalled ws entries) :
    (database.applyAll ws s).journalEntries.rows = s.journalEntries.rows ++ entries.map (·.1) := by
  rw [journalEntries_applyAll h, hj.journalEntries]

theorem postings_of_journalled (h : database.Admissible s ws) (hj : Journalled ws entries) :
    (database.applyAll ws s).postings.rows = s.postings.rows ++ entries.flatMap (·.2) := by
  rw [postings_applyAll h, hj.postings]

/-- New entries have new ids. -/
theorem nodup_of_journalled (h : database.Admissible s ws) (hj : Journalled ws entries) :
    (s.journalEntries.rows.map (·.id) ++ entries.map (·.1.id)).Nodup := by
  have hnodup := (database.applyAll ws s).journalEntries.pk_nodup
  rw [journalEntries_of_journalled h hj, List.map_append, List.map_map] at hnodup
  exact hnodup

/-- Old entries keep their postings. -/
theorem postingsOf_old (h : database.Admissible s ws) (hj : Journalled ws entries)
    {e : JournalEntry} (he : e ∈ s.journalEntries.rows) :
    (database.applyAll ws s).postingsOf e.id = s.postingsOf e.id := by
  have hnew : ∀ g ∈ entries, e.id ≠ g.1.id := fun g hg =>
    (List.nodup_append.mp (nodup_of_journalled h hj)).2.2 _ (List.mem_map_of_mem he) _
      (List.mem_map.mpr ⟨g, hg, rfl⟩)
  unfold Store.postingsOf
  rw [postings_of_journalled h hj, List.filter_append]
  refine List.append_right_eq_self.mpr (List.filter_eq_nil_iff.mpr fun p hp => ?_)
  obtain ⟨g, hg, hp⟩ := List.mem_flatMap.mp hp
  simpa [hj.own g hg p hp] using Ne.symm (hnew g hg)

/-- A new entry has the postings that were written with it. -/
theorem postingsOf_new (h : database.Admissible s ws) (hj : Journalled ws entries)
    (hkeys : s.ForeignKeys) {e : JournalEntry × List Posting} (he : e ∈ entries) :
    (database.applyAll ws s).postingsOf e.1.id = e.2 := by
  obtain ⟨-, hnodup, hnew⟩ := List.nodup_append.mp (nodup_of_journalled h hj)
  have hold : s.postingsOf e.1.id = [] := by
    refine List.filter_eq_nil_iff.mpr fun p hp => ?_
    obtain ⟨e', he'⟩ := Option.isSome_iff_exists.mp (hkeys.posting p hp)
    obtain ⟨hmem, hid⟩ := Table.get?_eq_some.mp he'
    have hne := hnew e'.id (List.mem_map_of_mem hmem) e.1.id (List.mem_map.mpr ⟨e, he, rfl⟩)
    simpa [← hid] using hne
  have hgroup : (entries.flatMap (·.2)).filter (fun p => p.journalEntryId = e.1.id) = e.2 :=
    Table.filter_flatMap_eq (fun g : JournalEntry × List Posting => g.1.id) hnodup hj.own he
  have happend : (database.applyAll ws s).postingsOf e.1.id =
      s.postingsOf e.1.id ++ (entries.flatMap (·.2)).filter fun p => p.journalEntryId = e.1.id := by
    unfold Store.postingsOf
    rw [postings_of_journalled h hj, List.filter_append]
  rw [happend, hold, hgroup, List.nil_append]

end Store

/-! ## What the transactions add -/

namespace LedgerService

variable {V : View} {ledgerAccounts : List LedgerAccount} {journalEntry : JournalEntry}
  {p ws : List Write}

theorem Posted.kind {input : LedgerPostingInput} {posting : Posting}
    (h : Posted V ledgerAccounts journalEntry input p ws posting) : ∀ w ∈ ws, w.kind = .ledger := by
  cases h <;> simp [Write.kind]

theorem PostedAll.kind {inputs : List LedgerPostingInput} {postings : List Posting}
    (h : PostedAll V ledgerAccounts journalEntry p inputs ws postings) :
    ∀ w ∈ ws, w.kind = .ledger := by
  induction h with
  | nil => simp
  | cons hposted _ ih =>
      intro w hw
      rcases List.mem_append.mp hw with hw | hw
      · exact hposted.kind w hw
      · exact ih w hw

/-- What an input and its posting have in common. -/
structure PostingOf (journalEntry : JournalEntry) (input : LedgerPostingInput) (posting : Posting) :
    Prop where
  positive : 0 < posting.amountMinor
  data : ∃ u, posting = postingData journalEntry input u

/-- One turn of the loop adds one posting and no journal entry. -/
theorem Posted.rows {input : LedgerPostingInput} {posting : Posting}
    (h : Posted V ledgerAccounts journalEntry input p ws posting) :
    PostingOf journalEntry input posting ∧ ws.filterMap Write.journalEntry? = [] ∧
      ws.filterMap Write.posting? = [posting] := by
  cases h with
  | unlinked hpos _ => exact ⟨⟨hpos, _, rfl⟩, rfl, rfl⟩
  | linked hpos _ _ _ => exact ⟨⟨hpos, _, rfl⟩, rfl, rfl⟩

/-- The loop adds one posting for each input and no journal entry. -/
theorem PostedAll.rows {inputs : List LedgerPostingInput} {postings : List Posting}
    (h : PostedAll V ledgerAccounts journalEntry p inputs ws postings) :
    List.Forall₂ (PostingOf journalEntry) inputs postings ∧
      ws.filterMap Write.journalEntry? = [] ∧ ws.filterMap Write.posting? = postings := by
  induction h with
  | nil => exact ⟨.nil, rfl, rfl⟩
  | cons hposted _ ih =>
      obtain ⟨hstep, hentry, hposting⟩ := hposted.rows
      obtain ⟨hforall, hentries, hpostings⟩ := ih
      refine ⟨.cons hstep hforall, ?_, ?_⟩
      · rw [List.filterMap_append, hentry, hentries, List.append_nil]
      · rw [List.filterMap_append, hposting, hpostings, List.singleton_append]

variable {input : PostJournalEntryInput} {postings : List Posting} {rest : List Write}

theorem JournalPosted.kind
    (h : JournalPosted V input p ws journalEntry postings ledgerAccounts rest) :
    ∀ w ∈ ws, w.kind = .ledger := by
  rw [h.writes]
  exact List.forall_mem_cons.mpr ⟨rfl, h.posted.kind⟩

theorem mem_of_forall₂ {α β : Type} {R : α → β → Prop} {as : List α} {bs : List β}
    (h : List.Forall₂ R as bs) {b : β} (hb : b ∈ bs) : ∃ a ∈ as, R a b := by
  induction h with
  | nil => cases hb
  | cons hr _ ih =>
      rcases List.mem_cons.mp hb with rfl | hb
      · exact ⟨_, List.mem_cons_self .., hr⟩
      · obtain ⟨a, ha, hr⟩ := ih hb
        exact ⟨a, List.mem_cons_of_mem _ ha, hr⟩

/-- The postings of an entry belong to it. -/
theorem own_of_forall₂ {inputs : List LedgerPostingInput} {postings : List Posting}
    (h : List.Forall₂ (PostingOf journalEntry) inputs postings) :
    ∀ q ∈ postings, q.journalEntryId = journalEntry.id := by
  induction h with
  | nil => simp
  | cons hposting _ ih =>
      obtain ⟨u, rfl⟩ := hposting.data
      exact List.forall_mem_cons.mpr ⟨rfl, ih⟩

theorem JournalPosted.journalled
    (h : JournalPosted V input p ws journalEntry postings ledgerAccounts rest) :
    Journalled ws [(journalEntry, postings)] := by
  obtain ⟨hforall, hentries, hpostings⟩ := h.posted.rows
  rw [h.writes]
  refine ⟨congrArg _ hentries, hpostings.trans (List.append_nil _).symm, ?_⟩
  rintro e he q hq
  obtain rfl := List.mem_singleton.mp he
  exact own_of_forall₂ hforall q hq

/-- The amounts of an entry are positive. -/
theorem positive_of_forall₂ {inputs : List LedgerPostingInput} {postings : List Posting}
    (h : List.Forall₂ (PostingOf journalEntry) inputs postings) :
    ∀ x ∈ inputs, 0 < x.amount.minorUnits := by
  induction h with
  | nil => simp
  | cons hposting _ ih =>
      obtain ⟨u, rfl⟩ := hposting.data
      exact List.forall_mem_cons.mpr ⟨hposting.positive, ih⟩

theorem JournalPosted.positive
    (h : JournalPosted V input p ws journalEntry postings ledgerAccounts rest) :
    ∀ x ∈ input.postings, 0 < x.amount.minorUnits := positive_of_forall₂ h.posted.rows.1

/-- The postings measure what the inputs do. -/
theorem measure_of_forall₂ (f : Uuid → Direction → Int → Int) {inputs : List LedgerPostingInput}
    {postings : List Posting} (h : List.Forall₂ (PostingOf journalEntry) inputs postings) :
    postings.map (fun q => f q.ledgerAccountId q.direction q.amountMinor) =
      inputs.map fun x => f x.ledgerAccountId x.direction x.amount.minorUnits := by
  induction h with
  | nil => rfl
  | cons hposting _ ih =>
      obtain ⟨u, rfl⟩ := hposting.data
      rw [List.map_cons, List.map_cons, ih]
      rfl

theorem JournalPosted.measure (f : Uuid → Direction → Int → Int)
    (h : JournalPosted V input p ws journalEntry postings ledgerAccounts rest)
    {before after : List Write} (hbefore : ∀ w ∈ before, w.kind ≠ .ledger)
    (hafter : ∀ w ∈ after, w.kind ≠ .ledger) :
    ((before ++ ws ++ after).filterMap Write.posting?).map
        (fun q => f q.ledgerAccountId q.direction q.amountMinor) =
      input.postings.map fun x => f x.ledgerAccountId x.direction x.amount.minorUnits := by
  rw [(h.journalled.wrap hbefore hafter).postings, List.flatMap_singleton,
    measure_of_forall₂ f h.posted.rows.1]

end LedgerService

namespace BatchService

/-- The entries of the rows of a chunk. -/
def entriesOf (rows : List InterestRows) : List (JournalEntry × List Posting) :=
  rows.map fun r => (r.journalEntry, [r.debit, r.credit])

theorem rowWrites_kind {rows : List InterestRows} : ∀ w ∈ rowWrites rows, w.kind = .ledger := by
  intro w hw
  simp only [rowWrites, List.mem_append, List.mem_map, List.mem_flatMap, List.mem_cons,
    List.not_mem_nil, or_false] at hw
  rcases hw with ((⟨r, _, rfl⟩ | ⟨r, _, rfl | rfl⟩) | ⟨r, _, rfl⟩) | ⟨r, _, rfl⟩ <;> rfl

theorem filterMap_map_some {α β γ : Type} (f : β → Option γ) (g : α → β) (k : α → γ)
    (h : ∀ a, f (g a) = some (k a)) (l : List α) : (l.map g).filterMap f = l.map k := by
  rw [List.filterMap_map, ← List.filterMap_eq_map]
  exact congrArg (List.filterMap · l) (funext h)

theorem filterMap_map_none {α β γ : Type} {f : β → Option γ} {g : α → β}
    (h : ∀ a, f (g a) = none) (l : List α) : (l.map g).filterMap f = [] := by
  rw [List.filterMap_map]
  exact List.filterMap_eq_nil_iff.mpr fun a _ => h a

theorem rowWrites_journalled {rows : List InterestRows}
    (hown : ∀ r ∈ rows, r.debit.journalEntryId = r.journalEntry.id ∧
      r.credit.journalEntryId = r.journalEntry.id) :
    Journalled (rowWrites rows) (entriesOf rows) where
  journalEntries := by
    have hentries : (rows.map fun r => Write.journalEntry r.journalEntry).filterMap
        Write.journalEntry? = rows.map (·.journalEntry) :=
      filterMap_map_some _ _ _ (fun _ => by rfl) rows
    have hpostings : (rows.flatMap fun r => [Write.posting r.debit, .posting r.credit]).filterMap
        Write.journalEntry? = [] := by
      rw [List.filterMap_flatMap]
      exact List.flatMap_eq_nil_iff.mpr fun r _ => rfl
    have hlines : (rows.map fun r => Write.statementLine r.statementLine).filterMap
        Write.journalEntry? = [] := filterMap_map_none (fun _ => rfl) rows
    have hbalances : (rows.map fun r => Write.balanceProjection r.balance).filterMap
        Write.journalEntry? = [] := filterMap_map_none (fun _ => rfl) rows
    rw [rowWrites, List.filterMap_append, List.filterMap_append, List.filterMap_append, hentries,
      hpostings, hlines, hbalances]
    simp [entriesOf]
  postings := by
    have hentries : (rows.map fun r => Write.journalEntry r.journalEntry).filterMap
        Write.posting? = [] := filterMap_map_none (fun _ => rfl) rows
    have hpostings : (rows.flatMap fun r => [Write.posting r.debit, .posting r.credit]).filterMap
        Write.posting? = rows.flatMap fun r => [r.debit, r.credit] := by
      rw [List.filterMap_flatMap]
      rfl
    have hlines : (rows.map fun r => Write.statementLine r.statementLine).filterMap
        Write.posting? = [] := filterMap_map_none (fun _ => rfl) rows
    have hbalances : (rows.map fun r => Write.balanceProjection r.balance).filterMap
        Write.posting? = [] := filterMap_map_none (fun _ => rfl) rows
    rw [rowWrites, List.filterMap_append, List.filterMap_append, List.filterMap_append, hentries,
      hpostings, hlines, hbalances]
    simp [entriesOf, List.flatMap_map]
  own := by
    intro e he q hq
    obtain ⟨r, hr, rfl⟩ := List.mem_map.mp he
    obtain ⟨hdebit, hcredit⟩ := hown r hr
    rcases List.mem_cons.mp hq with rfl | hq
    · exact hdebit
    · rw [List.mem_singleton.mp hq]
      exact hcredit

/-- The payment of an item writes to the ledger only. -/
theorem InterestPaid.kind {V : View} {env : Env} {batchRunId : Uuid} {account : Account}
    {ledgerAccount : LedgerAccount} {interestMinor : Int} {p paid : List Write}
    (h : InterestPaid V env batchRunId account ledgerAccount interestMinor p paid) :
    ∀ w ∈ paid, w.kind = .ledger := by
  cases h with
  | none _ => simp
  | paid _ _ _ hposted => exact hposted.kind

theorem kind_of_updateBatchRunItems {V : View} (hV : Answering V) {p ws : List Write}
    {batchRunId : Uuid} {resourceType : String} {ids : List String} {data : BatchRunItemUpdate}
    {u : Unit} (h : V p ⟨.updateBatchRunItems batchRunId resourceType ids data, u, ws⟩) :
    ∀ w ∈ ws, w.kind = .batch := by
  obtain ⟨_, rfl⟩ := hV _ _ _ _ h
  simp [Write.kind]

section ChunkRun

variable {V : View} {env : Env} {batchRunId : Uuid} {accounts : List BatchAccountSnapshot}
  {interestRevenueAccountIds : List (String × Uuid)} {ws running completed : List Write}
  {effectiveAt : Time} {rows : List InterestRows}

/-- Each row of a chunk is the row of one of its accounts. -/
theorem ChunkRun.rowOf (h : ChunkRun V env batchRunId accounts interestRevenueAccountIds ws
    effectiveAt rows running completed) : ∀ row ∈ rows, ∃ x ∈ accounts,
      RowOf env batchRunId interestRevenueAccountIds effectiveAt x row := by
  intro row hrow
  obtain ⟨uuid, hrows⟩ := h.built
  obtain ⟨x, hx, hof⟩ := LedgerService.mem_of_forall₂ (chunkRows_forall hrows) hrow
  exact ⟨x, (List.mem_filter.mp hx).1, hof⟩

/-- A chunk adds one entry for each of its rows. -/
theorem ChunkRun.journalled (hV : Answering V) (h : ChunkRun V env batchRunId accounts
    interestRevenueAccountIds ws effectiveAt rows running completed) :
    Journalled ws (entriesOf rows) := by
  have hown : Journalled (rowWrites rows) (entriesOf rows) := by
    refine rowWrites_journalled fun row hrow => ?_
    obtain ⟨_, _, _, _, _, _, _, rfl⟩ := h.rowOf row hrow
    exact ⟨rfl, rfl⟩
  rw [h.writes]
  refine hown.wrap (fun w hw => ?_) fun w hw => ?_
  · simp [kind_of_updateBatchRunItems hV h.marked w hw]
  · simp [kind_of_updateBatchRunItems hV h.closed w hw]

end ChunkRun

end BatchService

/-! ## New transfers -/

namespace TransfersService

variable {V : View} {env : Env} {args : CreateTransferArgs} {p : List Write} {source : Account}
  {sourceLedger : LedgerAccount} {amount : Money} {b : Option BalanceProjection}

theorem Created.kind {record : IdempotencyRecord} {transfer : TransferRequest}
    (h : Created V env args record source sourceLedger amount b transfer p) :
    ∀ w ∈ p, w.kind = .transfer := by
  rw [h.writes]
  simp [Write.kind]

/-- Nothing is written to the ledger before the entry. -/
theorem Created.before {record : IdempotencyRecord} {transfer : TransferRequest} {w' : Write}
    (h : Created V env args record source sourceLedger amount b transfer p)
    (hw' : w'.kind = .transfer) : ∀ w ∈ p ++ [w'], w.kind ≠ .ledger := by
  intro w hw
  have hkind : w.kind = .transfer := by
    rcases List.mem_append.mp hw with hw | hw
    · exact h.kind w hw
    · rwa [List.mem_singleton.mp hw]
  simp [hkind]

end TransfersService

/-- A transfer that a transaction adds was created by `createTransfer`. -/
theorem Committed.newTransfer {V : View} (hV : Answering V) {env : Env} {s : Store} {α : Type}
    {l : Label α} (hl : grounds s l) {a : α} {ws : List Write} (h : Committed V env l a ws)
    {r : TransferRequest} (hr : .transferRequest r ∈ ws) :
    ∃ args record source sourceLedger amount b p,
      TransfersService.Created V env args record source sourceLedger amount b r p := by
  have hledger : ∀ {ws : List Write}, (∀ w ∈ ws, w.kind = .ledger) → .transferRequest r ∉ ws :=
    fun hkind hmem => nomatch hkind _ hmem
  have hbatch : ∀ {ws : List Write}, (∀ w ∈ ws, w.kind = .batch) → .transferRequest r ∉ ws :=
    fun hkind hmem => nomatch hkind _ hmem
  cases h with
  | createTransfer hrun =>
      cases hrun with
      | replay _ _ _ => cases hr
      | internal _ _ _ _ hcreated _ _ hposted =>
          obtain rfl : r = _ := by simpa [hcreated.writes, hledger hposted.kind] using hr
          exact ⟨_, _, _, _, _, _, _, hcreated⟩
      | external _ _ _ _ hcreated _ hposted =>
          obtain rfl : r = _ := by simpa [hcreated.writes, hledger hposted.kind] using hr
          exact ⟨_, _, _, _, _, _, _, hcreated⟩
  | applyNormalizedEvent hrun =>
      cases hrun with
      | compensated _ _ _ _ hcomp => simp [hledger hcomp.entry.kind] at hr
      | _ => simp at hr
  | processBatchChunk hrun =>
      obtain ⟨_, hrunning⟩ := hV _ _ _ _ hrun.marked
      obtain ⟨_, hcompleted⟩ := hV _ _ _ _ hrun.closed
      simp [hrun.writes, hledger BatchService.rowWrites_kind, hrunning, hcompleted] at hr
  | processBatchItem hrun =>
      cases hrun with
      | processed _ _ _ hpaid =>
          cases hpaid with
          | none _ => simp at hr
          | paid _ _ _ hposted => simp [hledger hposted.kind] at hr
      | _ => cases hr
  | statement hread => exact absurd hr (hbatch (kind_of_outside hV hl hread))

end LedgerCredit
