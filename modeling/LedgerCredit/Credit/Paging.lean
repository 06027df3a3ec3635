import LedgerCredit.Credit.Ownership
import Mathlib.Data.List.Sort

/-!
# Paging through ledger entries

`getLedgerEntries` reads one line more than a page, and makes the cursor from it.
The next page starts strictly after the cursor, so the line that was only looked
at is on no page.  It also reads 101 lines at most, and with a limit above 100 it
takes the end of what it read for the end of the lines.

`Pages` is what a reader gets who follows the cursors.  `pages_iff` says when this is
every line: only when all of them fit on the first page.
-/

namespace LedgerCredit.Credit

open Txn

/-! ## Lists in order -/

/-- In a list in strict order, the elements after one are those behind it. -/
theorem filter_after {α : Type} {r : α → α → Prop} [DecidableRel r] {l : List α}
    (hl : l.Pairwise r) (hasymm : ∀ x y, r x y → ¬ r y x) {i : Nat} (hi : i < l.length) :
    l.filter (fun x => r l[i] x) = l.drop (i + 1) := by
  have hsplit : l = l.take i ++ l[i] :: l.drop (i + 1) := by simp
  generalize l[i] = a at hsplit ⊢
  generalize l.take i = before at hsplit
  generalize l.drop (i + 1) = after at hsplit
  subst hsplit
  obtain ⟨-, hafter, hbefore⟩ := List.pairwise_append.mp hl
  have hirrefl : ¬ r a a := fun h => hasymm a a h h
  have hnone : before.filter (fun x => r a x) = [] := by
    refine List.filter_eq_nil_iff.mpr fun x hx => ?_
    simpa using hasymm x a (hbefore x hx a (List.mem_cons_self ..))
  have hall : after.filter (fun x => r a x) = after :=
    List.filter_eq_self.mpr fun x hx => by simpa using List.rel_of_pairwise_cons hafter hx
  rw [List.filter_append, hnone, List.filter_cons_of_neg (by simpa using hirrefl), hall]
  rfl

/-! ## The lines in order -/

/-- The line is after the cursor. -/
def CursorPayload.before (cursor : CursorPayload) (line : AccountStatementProjection) : Bool :=
  line.effectiveAt < cursor.effectiveAt ||
    line.effectiveAt = cursor.effectiveAt && line.id < cursor.id

/-- The cursor that stands for a line. -/
def cursorOf (line : AccountStatementProjection) : CursorPayload := ⟨line.effectiveAt, line.id⟩

section Order

variable {x y z : AccountStatementProjection}

theorem lineBefore_iff : Store.lineBefore x y = true ↔
    y.effectiveAt < x.effectiveAt ∨ x.effectiveAt = y.effectiveAt ∧ y.id ≤ x.id := by
  simp [Store.lineBefore]

theorem before_iff : (cursorOf x).before y = true ↔
    y.effectiveAt < x.effectiveAt ∨ y.effectiveAt = x.effectiveAt ∧ y.id < x.id := by
  simp only [CursorPayload.before, Bool.or_eq_true, Bool.and_eq_true, decide_eq_true_eq]
  rfl

theorem before_asymm (h : (cursorOf x).before y = true) : ¬ (cursorOf y).before x = true := by
  rw [before_iff] at h ⊢
  rintro (h' | ⟨htime, h'⟩) <;> rcases h with h | ⟨htime', h⟩
  · exact Nat.lt_asymm h h'
  · exact Nat.lt_irrefl _ (htime' ▸ h')
  · exact Nat.lt_irrefl _ (htime ▸ h)
  · exact String.lt_asymm h h'

theorem before_trans {cursor : CursorPayload} (h : cursor.before x = true)
    (h' : (cursorOf x).before y = true) : cursor.before y = true := by
  have h : (cursorOf { x with effectiveAt := cursor.effectiveAt, id := cursor.id }).before x := h
  rw [before_iff] at h h'
  show (cursorOf { x with effectiveAt := cursor.effectiveAt, id := cursor.id }).before y = true
  rw [before_iff]
  rcases h with h | ⟨htime, h⟩ <;> rcases h' with h' | ⟨htime', h'⟩
  · exact Or.inl (Nat.lt_trans h' h)
  · exact Or.inl (htime' ▸ h)
  · exact Or.inl (htime ▸ h')
  · exact Or.inr ⟨htime'.trans htime, String.lt_trans h' h⟩

/-- Of two lines one is before the other, or they have one id. -/
theorem before_of_lineBefore (h : Store.lineBefore x y = true) (hne : x.id ≠ y.id) :
    (cursorOf x).before y = true := by
  rw [lineBefore_iff] at h
  rw [before_iff]
  rcases h with h | ⟨htime, h⟩
  · exact Or.inl h
  · refine Or.inr ⟨htime.symm, ?_⟩
    by_contra hlt
    exact hne (String.le_antisymm (String.not_lt.mp hlt) h)

instance : Std.Total fun x y : AccountStatementProjection => Store.lineBefore x y = true where
  total := by
    intro x y
    simp only [lineBefore_iff]
    rcases Nat.lt_trichotomy x.effectiveAt y.effectiveAt with h | h | h
    · exact Or.inr (Or.inl h)
    · rcases String.le_total x.id y.id with hid | hid
      · exact Or.inr (Or.inr ⟨h.symm, hid⟩)
      · exact Or.inl (Or.inr ⟨h, hid⟩)
    · exact Or.inl (Or.inl h)

instance : IsTrans AccountStatementProjection fun x y => Store.lineBefore x y = true where
  trans := by
    intro x y z hxy hyz
    simp only [lineBefore_iff] at hxy hyz ⊢
    rcases hxy with hxy | ⟨hxy, hidxy⟩ <;> rcases hyz with hyz | ⟨hyz, hidyz⟩
    · exact Or.inl (Nat.lt_trans hyz hxy)
    · exact Or.inl (hyz ▸ hxy)
    · exact Or.inl (hxy ▸ hyz)
    · exact Or.inr ⟨hxy.trans hyz, String.le_trans hidyz hidxy⟩

end Order

section Lines

variable {s : LedgerCredit.Store} {accountId : Uuid} {cursor : Option CursorPayload}

theorem linesOf_perm : (Store.linesOf s accountId cursor).Perm
    (s.statementLines.rows.filter fun line =>
      line.accountId = accountId && cursor.all fun c => c.before line) :=
  List.perm_insertionSort ..

theorem linesOf_sorted : (Store.linesOf s accountId cursor).Pairwise fun x y =>
    Store.lineBefore x y = true :=
  List.pairwise_insertionSort ..

theorem mem_linesOf {line : AccountStatementProjection} :
    line ∈ Store.linesOf s accountId cursor ↔ line ∈ s.statementLines.rows ∧
      line.accountId = accountId ∧ cursor.all (fun c => c.before line) = true := by
  rw [linesOf_perm.mem_iff, List.mem_filter]
  simp

/-- The lines are in strict order. -/
theorem linesOf_strict : (Store.linesOf s accountId cursor).Pairwise fun x y =>
    (cursorOf x).before y = true := by
  have hnodup : ((Store.linesOf s accountId cursor).map (·.id)).Nodup := by
    rw [(linesOf_perm.map _).nodup_iff]
    exact (List.filter_sublist.map _).nodup s.statementLines.pk_nodup
  have hids := List.pairwise_map.mp hnodup
  exact (linesOf_sorted.and hids).imp fun h => before_of_lineBefore h.1 h.2

/-- The lines after one of the lines. -/
theorem linesOf_after {x : AccountStatementProjection}
    (hx : x ∈ Store.linesOf s accountId cursor) :
    Store.linesOf s accountId (some (cursorOf x)) =
      (Store.linesOf s accountId cursor).filter fun y => (cursorOf x).before y := by
  obtain ⟨-, -, hcursor⟩ := mem_linesOf.mp hx
  refine List.Perm.eq_of_pairwise (fun a b _ _ hab hba => absurd hba (before_asymm hab))
    linesOf_strict (linesOf_strict.filter _) ?_
  refine linesOf_perm.trans (List.Perm.trans (List.Perm.of_eq ?_) (linesOf_perm.filter _).symm)
  rw [List.filter_filter]
  refine List.filter_congr fun y _ => ?_
  rw [Bool.eq_iff_iff]
  simp only [Option.all_some, Bool.and_eq_true, decide_eq_true_eq]
  constructor
  · rintro ⟨haccount, hbefore⟩
    refine ⟨hbefore, haccount, ?_⟩
    cases cursor with
    | none => rfl
    | some c => exact before_trans hcursor hbefore
  · rintro ⟨hbefore, haccount, -⟩
    exact ⟨haccount, hbefore⟩

end Lines

/-! ## Pages -/

/-- The lines of an account after a cursor, in order, with their journal entries. -/
def Store.entriesAfter (s : Store) (accountId : Uuid) (cursor : Option CursorPayload) :
    List (AccountStatementProjection × JournalEntry) :=
  Store.withJournalEntries s.ledger (Store.linesOf s.ledger accountId cursor)

/-- The items of all lines of an account, the latest first. -/
def Store.ledgerItems (s : Store) (accountId : Uuid) : List AccountsService.LedgerEntryItem :=
  (s.entriesAfter accountId none).map fun line => AccountsService.ledgerEntryItem line.1 line.2

/-- The accounts, the statement lines and the journal entries are the same. -/
structure Store.Unchanged (s s' : Store) : Prop where
  accounts : s'.ledger.accounts = s.ledger.accounts
  statementLines : s'.ledger.statementLines = s.ledger.statementLines
  journalEntries : s'.ledger.journalEntries = s.ledger.journalEntries

/-- However the call with the cursor goes while nothing changes, it returns the page. -/
def Store.Shows (s : Store) (env : Env) (accountId : Uuid) (context : RequestContext) (limit : Int)
    (cursor : Option String) (page : AccountsService.LedgerEntriesResponse) : Prop :=
  ∀ t o, s.Unchanged t →
    Finishes (services env) (fun u ch => u.ledger.Fresh ch)
      (AccountsService.getLedgerEntries env accountId context cursor (some limit)) t o →
    ∃ t', o = .ok (page, t')

/-- Who calls with the cursor, and then with each cursor that is returned, comes to an end and gets
the items, in pages of at most `limit` items. -/
inductive Store.Pages (s : Store) (env : Env) (accountId : Uuid) (context : RequestContext)
    (limit : Int) : Option String → List AccountsService.LedgerEntryItem → Prop where
  | last {cursor : Option String} {items : List AccountsService.LedgerEntryItem} :
      s.Shows env accountId context limit cursor ⟨items, none⟩ → (items.length : Int) ≤ limit →
      Store.Pages s env accountId context limit cursor items
  | more {cursor : Option String} {next : String}
      {items rest : List AccountsService.LedgerEntryItem} :
      s.Shows env accountId context limit cursor ⟨items, some next⟩ →
      (items.length : Int) ≤ limit → Store.Pages s env accountId context limit (some next) rest →
      Store.Pages s env accountId context limit cursor (items ++ rest)

/-! ## One page -/

/-- A statement that has one reply. -/
theorem finishes_statement {α β : Type} {env : Env} {ok : Store → Choice → Prop} {s : Store}
    {q : Stmt α} {k : α → Process β} {o : Except TxError (β × Store)} (hok : ∃ ch, ok s ch) (r : α)
    (ws : List Write) (h : ∀ ch, s.exec q ch = .ok (r, ws)) :
    Finishes (services env) ok (statement q >>= k) s o ↔
      Finishes (services env) ok (k r) (database.applyAll ws s) o := by
  constructor
  · intro hfinishes
    cases hfinishes with
    | result hends hrest =>
        cases hends with
        | query hch hexec hpure =>
            cases hpure
            cases (h _).symm.trans hexec
            exact hrest
    | error hends hrest =>
        cases hends with
        | failed hch hexec => cases (h _).symm.trans hexec
        | query hch hexec hthrow => cases hthrow
  · intro hrest
    obtain ⟨ch, hch⟩ := hok
    exact .result (.query hch (h ch) .pure) hrest

section Page

variable {env : Env} {s t : Store} {accountId : Uuid} {context : RequestContext} {limit : Int}
  {cursor : Option String} {before : Option CursorPayload} {account : Account}

/-- The entries that a page is made of. -/
def Store.taken (s : Store) (accountId : Uuid) (before : Option CursorPayload) (limit : Int) :
    List (AccountStatementProjection × JournalEntry) :=
  takeRows (min limit 100 + 1) (s.entriesAfter accountId before)

theorem Store.Unchanged.taken (h : s.Unchanged t) :
    t.taken accountId before limit = s.taken accountId before limit := by
  simp only [Store.taken, Store.entriesAfter, Store.withJournalEntries, Store.linesOf,
    h.statementLines, h.journalEntries]

/-- With a new identifier an audit event is recorded. -/
theorem exec_auditEvent {ch : Choice} (hch : s.ledger.Fresh ch) (context : RequestContext)
    (input : AuditRecordInput) : s.exec (.createAuditEvent (auditData context input)) ch =
      .ok ((), [.ledger (.auditEvent (auditData context input (ch.uuid 0)))]) := by
  have htable : TableName.auditEvent ≠ .balanceProjection := by decide
  have habsent := absent_of_new (hch.new 0) htable
  have hid : (auditData context input (ch.uuid 0)).id = ch.uuid 0 := rfl
  simp [Store.exec, Store.attempt, Store.violation, LedgerCredit.Store.violation,
    LedgerCredit.Write.adds, LedgerCredit.Write.needs, LedgerCredit.Write.bigInts,
    LedgerCredit.Write.check, hid, habsent]

theorem finishes_auditRecord {α : Type} {input : AuditRecordInput} {r : α}
    {o : Except TxError (α × Store)}
    (h : Finishes (services env) (fun u ch => u.ledger.Fresh ch)
      (auditRecord context input >>= fun _ => pure r) s o) : ∃ s', o = .ok (r, s') := by
  cases h with
  | result hends hrest =>
      cases hrest
      exact ⟨_, rfl⟩
  | error hends _ =>
      cases hends with
      | failed hch hexec =>
          have hrecorded := exec_auditEvent hch context input
          cases hrecorded.symm.trans hexec
      | query hch hexec hthrow => cases hthrow

theorem exists_auditRecord {α : Type} {input : AuditRecordInput} {r : α} :
    ∃ s', Finishes (services env) (fun u ch => u.ledger.Fresh ch)
      (auditRecord context input >>= fun _ => pure r) s (.ok (r, s')) := by
  obtain ⟨ch, hch⟩ := exists_fresh s.ledger
  have hrecorded := exec_auditEvent hch context input
  exact ⟨_, .result (.query hch hrecorded .pure) .pure⟩

/-- A call reads its entries, records the read and returns the page. -/
theorem getLedgerEntries_finishes (haccount : s.ledger.accounts.get? accountId = some account)
    (howner : assertCustomerOwnsResource context account.customerId = .ok ())
    (hcursor : AccountsService.decodeCursor env cursor = .ok before)
    {o : Except TxError (AccountsService.LedgerEntriesResponse × Store)} :
    Finishes (services env) (fun u ch => u.ledger.Fresh ch)
        (AccountsService.getLedgerEntries env accountId context cursor (some limit)) s o ↔
      Finishes (services env) (fun u ch => u.ledger.Fresh ch)
        (auditRecord context ⟨"account.ledger_entries_viewed", "account", accountId⟩ >>= fun _ =>
          pure (AccountsService.ledgerEntries env limit (s.taken accountId before limit))) s o := by
  have hok : ∃ ch, s.ledger.Fresh ch := exists_fresh s.ledger
  refine (finishes_statement hok (some (account, s.ledger.balanceProjections.get? account.id))
    [] fun ch => by simp [Store.exec, haccount]).trans ?_
  have hchecked : Process.ofExcept (assertCustomerOwnsResource context account.customerId) =
      .pure () := by rw [howner]; rfl
  have hdecoded : Process.ofExcept (AccountsService.decodeCursor env cursor) = .pure before := by
    rw [hcursor]; rfl
  simp only [Process.orThrow, hchecked, hdecoded, Proc.pure_bind, Option.getD_some]
  exact finishes_statement hok (s.taken accountId before limit) [] fun ch => rfl

/-- A page is made of the entries that are taken. -/
theorem shows_iff (haccount : s.ledger.accounts.get? accountId = some account)
    (howner : assertCustomerOwnsResource context account.customerId = .ok ())
    (hcursor : AccountsService.decodeCursor env cursor = .ok before)
    {page : AccountsService.LedgerEntriesResponse} :
    s.Shows env accountId context limit cursor page ↔
      page = AccountsService.ledgerEntries env limit (s.taken accountId before limit) := by
  constructor
  · intro h
    obtain ⟨s', hfinishes⟩ := exists_auditRecord
    obtain ⟨t', heq⟩ := h s _ ⟨rfl, rfl, rfl⟩
      ((getLedgerEntries_finishes haccount howner hcursor).mpr hfinishes)
    cases heq
    rfl
  · rintro rfl t o hsame hfinishes
    rw [getLedgerEntries_finishes (hsame.accounts ▸ haccount) howner hcursor,
      hsame.taken] at hfinishes
    exact finishes_auditRecord hfinishes

end Page

/-! ## The entries of a page -/

section Entries

variable {env : Env} {s : Store} {accountId : Uuid} {limit : Int} {before : Option CursorPayload}

theorem entriesAfter_strict : (s.entriesAfter accountId before).Pairwise fun x y =>
    (cursorOf x.1).before y.1 = true := by
  refine List.pairwise_filterMap.mpr (linesOf_strict.imp fun {x y} hbefore p hp q hq => ?_)
  obtain ⟨_, -, rfl⟩ := Option.map_eq_some_iff.mp hp
  obtain ⟨_, -, rfl⟩ := Option.map_eq_some_iff.mp hq
  exact hbefore

/-- The entries after one of the entries. -/
theorem entriesAfter_cursorOf {i : Nat} (hi : i < (s.entriesAfter accountId before).length) :
    s.entriesAfter accountId (some (cursorOf (s.entriesAfter accountId before)[i].1)) =
      (s.entriesAfter accountId before).drop (i + 1) := by
  rw [← filter_after entriesAfter_strict (fun _ _ => before_asymm) hi]
  generalize hp : (s.entriesAfter accountId before)[i] = p
  have hmem : p ∈ s.entriesAfter accountId before := hp ▸ List.getElem_mem hi
  obtain ⟨line, hline, hentry⟩ := List.mem_filterMap.mp hmem
  obtain ⟨_, -, rfl⟩ := Option.map_eq_some_iff.mp hentry
  unfold Store.entriesAfter Store.withJournalEntries
  rw [linesOf_after hline, List.filterMap_filter, List.filter_filterMap]
  refine List.filterMap_congr fun y _ => ?_
  cases hget : s.ledger.journalEntries.get? y.journalEntryId <;>
    by_cases hbefore : (cursorOf line).before y = true <;> simp [Option.filter, hbefore]

/-- At most 101 entries are taken, and one more than the limit. -/
theorem taken_eq (hlimit : 1 ≤ limit) : s.taken accountId before limit =
    (s.entriesAfter accountId before).take (min limit 100 + 1).toNat := by
  have hnonneg : 0 ≤ min limit 100 + 1 := by omega
  exact if_pos hnonneg

/-- The page without a next one shows all that was taken. -/
theorem ledgerEntries_last (hlimit : 1 ≤ limit) {items : List AccountsService.LedgerEntryItem}
    (h : ⟨items, none⟩ =
      AccountsService.ledgerEntries env limit (s.taken accountId before limit)) :
    items.length ≤ min limit 101 ∧ items.length ≤ (s.entriesAfter accountId before).length := by
  obtain ⟨hitems, hnext⟩ := AccountsService.LedgerEntriesResponse.mk.inj h
  rw [taken_eq hlimit] at hitems
  subst hitems
  simp only [AccountsService.sliceTo, if_pos (show 0 ≤ limit by omega), List.length_map,
    List.length_take]
  omega

/-- The page with a next one loses the entry of its cursor. -/
theorem ledgerEntries_more (hlimit : 1 ≤ limit) {items : List AccountsService.LedgerEntryItem}
    {next : String}
    (hcursors : ∀ c, AccountsService.decodeCursor env (some (env.encodeCursor c)) = .ok (some c))
    (h : ⟨items, some next⟩ =
      AccountsService.ledgerEntries env limit (s.taken accountId before limit)) :
    ∃ after, AccountsService.decodeCursor env (some next) = .ok after ∧
      items.length + (s.entriesAfter accountId after).length <
        (s.entriesAfter accountId before).length := by
  obtain ⟨hitems, hnext⟩ := AccountsService.LedgerEntriesResponse.mk.inj h
  rw [taken_eq hlimit] at hitems hnext
  have hnonneg : 0 ≤ limit := by omega
  split at hnext
  · rename_i hmore
    obtain ⟨p, hp, rfl⟩ := Option.map_eq_some_iff.mp hnext.symm
    rw [AccountsService.lineAt, if_pos hnonneg, List.getElem?_take] at hp
    rw [List.length_take] at hmore
    rw [if_pos (by omega)] at hp
    obtain ⟨hi, rfl⟩ := List.getElem?_eq_some_iff.mp hp
    refine ⟨_, hcursors _, ?_⟩
    show _ + (s.entriesAfter accountId (some (cursorOf _))).length < _
    rw [entriesAfter_cursorOf hi, hitems, List.length_map, AccountsService.sliceTo, if_pos hnonneg,
      List.length_take, List.length_take, List.length_drop]
    omega
  · cases hnext

end Entries

/-! ## Following the cursors -/

section Pages

variable {env : Env} {s : Store} {accountId : Uuid} {context : RequestContext} {limit : Int}
  {account : Account}

/-- The pages from a cursor on hold at most the entries after it. -/
theorem Store.Pages.length_le (haccount : s.ledger.accounts.get? accountId = some account)
    (howner : assertCustomerOwnsResource context account.customerId = .ok ()) (hlimit : 1 ≤ limit)
    (hcursors : ∀ c, AccountsService.decodeCursor env (some (env.encodeCursor c)) = .ok (some c))
    {cursor : Option String} {items : List AccountsService.LedgerEntryItem}
    (h : s.Pages env accountId context limit cursor items) {before : Option CursorPayload}
    (hcursor : AccountsService.decodeCursor env cursor = .ok before) :
    items.length ≤ (s.entriesAfter accountId before).length := by
  induction h generalizing before with
  | last hshows _ =>
      exact (ledgerEntries_last hlimit ((shows_iff haccount howner hcursor).mp hshows)).2
  | more hshows _ _ ih =>
      obtain ⟨after, hafter, hlt⟩ := ledgerEntries_more hlimit hcursors
        ((shows_iff haccount howner hcursor).mp hshows)
      have hrest := ih hafter
      rw [List.length_append]
      omega

/-- Who gets all entries gets them on the first page. -/
theorem Store.Pages.fits (haccount : s.ledger.accounts.get? accountId = some account)
    (howner : assertCustomerOwnsResource context account.customerId = .ok ()) (hlimit : 1 ≤ limit)
    (hcursors : ∀ c, AccountsService.decodeCursor env (some (env.encodeCursor c)) = .ok (some c))
    (h : s.Pages env accountId context limit none (s.ledgerItems accountId)) :
    ((s.ledgerItems accountId).length : Int) ≤ min limit 101 := by
  have hfirst : AccountsService.decodeCursor env none = .ok none := rfl
  have hlength : (s.ledgerItems accountId).length = (s.entriesAfter accountId none).length :=
    List.length_map ..
  generalize s.ledgerItems accountId = items at h hlength ⊢
  cases h with
  | last hshows _ =>
      exact (ledgerEntries_last hlimit ((shows_iff haccount howner hfirst).mp hshows)).1
  | more hshows _ hrest =>
      obtain ⟨after, hafter, hlt⟩ := ledgerEntries_more hlimit hcursors
        ((shows_iff haccount howner hfirst).mp hshows)
      have hle := hrest.length_le haccount howner hlimit hcursors hafter
      rw [List.length_append] at hlength
      omega

/-- Entries that fit on the first page are all there. -/
theorem pages_of_fits (haccount : s.ledger.accounts.get? accountId = some account)
    (howner : assertCustomerOwnsResource context account.customerId = .ok ()) (hlimit : 1 ≤ limit)
    (hle : ((s.ledgerItems accountId).length : Int) ≤ min limit 101) :
    s.Pages env accountId context limit none (s.ledgerItems accountId) := by
  rw [Store.ledgerItems, List.length_map] at hle
  refine .last ((shows_iff haccount howner rfl).mpr ?_) ?_
  · have htaken : s.taken accountId none limit = s.entriesAfter accountId none := by
      rw [taken_eq hlimit, List.take_of_length_le (by omega)]
    rw [htaken, AccountsService.ledgerEntries, if_neg (by omega), AccountsService.sliceTo,
      if_pos (by omega), List.take_of_length_le (by omega)]
    rfl
  · rw [Store.ledgerItems, List.length_map]
    omega

/-- Who follows the cursors gets all entries of an account if and only if there are at most `limit`
and at most 101 of them. -/
theorem pages_iff (s : Store) (env : Env) (accountId : Uuid) (context : RequestContext) (limit : Int)
    (account : Account) (haccount : s.ledger.accounts.get? accountId = some account)
    (howner : assertCustomerOwnsResource context account.customerId = .ok ()) (hlimit : 1 ≤ limit)
    (hcursors : ∀ c, AccountsService.decodeCursor env (some (env.encodeCursor c)) = .ok (some c)) :
    s.Pages env accountId context limit none (s.ledgerItems accountId) ↔
      ((s.ledgerItems accountId).length : Int) ≤ min limit 101 :=
  ⟨fun h => h.fits haccount howner hlimit hcursors, pages_of_fits haccount howner hlimit⟩

end Pages

/-! ## Two lines on two pages -/

/-- A text of a cursor, which stands for the `base64url` of its JSON. -/
def cursorText (cursor : CursorPayload) : String :=
  String.ofList (Nat.toDigits 10 cursor.effectiveAt ++ '/' :: cursor.id.toList)

def cursorOfText (text : String) : CursorPayload where
  effectiveAt := Nat.ofDigitChars 10 (text.toList.takeWhile Char.isDigit) 0
  id := String.ofList ((text.toList.dropWhile Char.isDigit).drop 1)

/-- The test environment with cursors in both directions. -/
def pagingEnvironment : Env :=
  { testEnvironment with
    decodeCursor := fun text => .ok (cursorOfText text)
    encodeCursor := cursorText }

theorem cursorOfText_cursorText (c : CursorPayload) : cursorOfText (cursorText c) = c := by
  have hdigits : ∀ x ∈ Nat.toDigits 10 c.effectiveAt, x.isDigit = true := fun x hx =>
    Nat.isDigit_of_mem_toDigits (by decide) (by decide) hx
  have hslash : ¬ Char.isDigit '/' = true := by decide
  rw [cursorOfText, cursorText, String.toList_ofList, List.takeWhile_append_of_pos hdigits,
    List.dropWhile_append_of_pos hdigits, List.takeWhile_cons_of_neg hslash,
    List.dropWhile_cons_of_neg hslash]
  simp [Nat.ofDigitChars_ten_toDigits]

theorem cursors_pagingEnvironment (c : CursorPayload) : AccountsService.decodeCursor
    pagingEnvironment (some (pagingEnvironment.encodeCursor c)) = .ok (some c) := by
  have hne : cursorText c ≠ "" := by
    intro h
    have hnil := congrArg String.toList h
    simp [cursorText] at hnil
  have htruthy : truthy (some (cursorText c)) = some (cursorText c) := by simp [truthy, hne]
  show AccountsService.decodeCursor pagingEnvironment (some (cursorText c)) = _
  rw [AccountsService.decodeCursor, htruthy]
  show Except.ok (some (cursorOfText (cursorText c))) = _
  rw [cursorOfText_cursorText]

/-- A line of the checking account. -/
def checkingLine (id postingId : Uuid) : AccountStatementProjection where
  id := id
  accountId := demoData.checkingAccountId
  journalEntryId := "entry"
  postingId := postingId
  effectiveAt := 0
  amountMinor := 100
  currency := "USD"
  direction := .debit
  runningBalanceMinor := 0

/-- The demo store with two lines of one journal entry. -/
def linesStore : Store := .over
  { demoStore with
    journalEntries := demoStore.journalEntries.insert
      ⟨"entry", none, none, 0, "INTERNAL_TRANSFER", none, none, none⟩
    statementLines := (demoStore.statementLines.insert (checkingLine "line-1" "posting-1")).insert
      (checkingLine "line-2" "posting-2") }

theorem checking_linesStore : linesStore.ledger.accounts.get? demoData.checkingAccountId =
    some ⟨demoData.checkingAccountId, "customer", "USD", .active⟩ := by decide +kernel

theorem length_linesStore : (linesStore.ledgerItems demoData.checkingAccountId).length = 2 := by
  decide +kernel

/-- Both lines are on the first page of two. -/
theorem pages_two_lines : (2 : Int) ≤ min 2 101 ∧
    linesStore.Pages pagingEnvironment demoData.checkingAccountId (demoContext "k") 2 none
      (linesStore.ledgerItems demoData.checkingAccountId) := by
  refine ⟨by decide, (pages_iff linesStore pagingEnvironment _ (demoContext "k") 2 _
    checking_linesStore rfl (by decide) cursors_pagingEnvironment).mpr ?_⟩
  rw [length_linesStore]
  decide

/-- With one line on a page the second line is lost. -/
theorem line_lost : ¬ linesStore.Pages pagingEnvironment demoData.checkingAccountId (demoContext "k")
    1 none (linesStore.ledgerItems demoData.checkingAccountId) := by
  intro h
  have hle := h.fits checking_linesStore rfl (by decide) cursors_pagingEnvironment
  rw [length_linesStore] at hle
  exact absurd hle (by decide)

end LedgerCredit.Credit
