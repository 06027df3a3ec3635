import LedgerCredit.Answers

/-!
# What writes do to the tables

Every write belongs to the ledger, to transfers or to batches, and leaves the
tables of the other two alone.  `SameLedger` and `SameTransfers` are frames of
this kind.  The tables of the journal only grow: their rows after some
admitted writes are the rows before and the rows of the writes.

`ForeignKeys` is what the foreign keys promise about the tables of the ledger.
Admitted writes keep it.
-/

namespace LedgerCredit

open Txn

/-! ## Kinds of writes -/

inductive WriteKind where
  | ledger | transfer | batch
  deriving DecidableEq, Repr

namespace Write

/-- The part of the database that a write belongs to. -/
def kind : Write → WriteKind
  | .journalEntry _ | .posting _ | .balanceProjection _ | .statementLine _ => .ledger
  | .transferRequest _ | .updateTransferRequest .. | .idempotencyRecord _
  | .updateIdempotencyRecord .. | .externalEvent _ => .transfer
  | .auditEvent _ | .batchRun _ | .updateBatchRun .. | .batchRunItem _ | .updateBatchRunItem ..
  | .job _ => .batch

/-- The journal entry that a write adds. -/
def journalEntry? : Write → Option JournalEntry
  | .journalEntry r => some r
  | _ => none

/-- The posting that a write adds. -/
def posting? : Write → Option Posting
  | .posting r => some r
  | _ => none

/-- The statement line that a write adds. -/
def statementLine? : Write → Option AccountStatementProjection
  | .statementLine r => some r
  | _ => none

/-- The external event that a write adds. -/
def externalEvent? : Write → Option ExternalTransferEvent
  | .externalEvent r => some r
  | _ => none

theorem journalEntry?_of_kind {w : Write} (h : w.kind ≠ .ledger) : w.journalEntry? = none := by
  cases w <;> first | rfl | exact absurd rfl h

theorem posting?_of_kind {w : Write} (h : w.kind ≠ .ledger) : w.posting? = none := by
  cases w <;> first | rfl | exact absurd rfl h

end Write

/-! ## Frames -/

namespace Store

structure SameLedger (s s' : Store) : Prop where
  journalEntries : s'.journalEntries = s.journalEntries
  postings : s'.postings = s.postings
  balanceProjections : s'.balanceProjections = s.balanceProjections
  statementLines : s'.statementLines = s.statementLines

structure SameTransfers (s s' : Store) : Prop where
  transferRequests : s'.transferRequests = s.transferRequests
  idempotencyRecords : s'.idempotencyRecords = s.idempotencyRecords
  externalEvents : s'.externalEvents = s.externalEvents

variable {ws : List Write}

theorem sameLedger_applyAll (h : ∀ w ∈ ws, w.kind ≠ .ledger) (s : Store) :
    s.SameLedger (database.applyAll ws s) := by
  induction ws generalizing s with
  | nil => exact ⟨rfl, rfl, rfl, rfl⟩
  | cons w ws ih =>
      obtain ⟨hw, hws⟩ := List.forall_mem_cons.mp h
      have hstep : s.SameLedger (w.apply s) := by
        cases w <;> first | exact ⟨rfl, rfl, rfl, rfl⟩ | exact absurd rfl hw
      obtain ⟨h₁, h₂, h₃, h₄⟩ := ih hws (w.apply s)
      exact ⟨h₁.trans hstep.1, h₂.trans hstep.2, h₃.trans hstep.3, h₄.trans hstep.4⟩

theorem sameTransfers_applyAll (h : ∀ w ∈ ws, w.kind ≠ .transfer) (s : Store) :
    s.SameTransfers (database.applyAll ws s) := by
  induction ws generalizing s with
  | nil => exact ⟨rfl, rfl, rfl⟩
  | cons w ws ih =>
      obtain ⟨hw, hws⟩ := List.forall_mem_cons.mp h
      have hstep : s.SameTransfers (w.apply s) := by
        cases w <;> first | exact ⟨rfl, rfl, rfl⟩ | exact absurd rfl hw
      obtain ⟨h₁, h₂, h₃⟩ := ih hws (w.apply s)
      exact ⟨h₁.trans hstep.1, h₂.trans hstep.2, h₃.trans hstep.3⟩

end Store

/-! ## Growing tables -/

section Grow

variable {α ι υ : Type} {pk : α → ι} {uk : α → Option υ}

/-- A table of the store grows by the rows that `row?` picks, if each admitted write adds the row
it picks and leaves the table alone if it picks none. -/
theorem rows_applyAll (table : Store → Table α pk uk) (row? : Write → Option α)
    (hsome : ∀ w s r, row? w = some r → database.Admissible s [w] →
      (table (w.apply s)).rows = (table s).rows ++ [r])
    (hnone : ∀ w s, row? w = none → table (w.apply s) = table s) {ws : List Write} {s : Store}
    (h : database.Admissible s ws) :
    (table (database.applyAll ws s)).rows = (table s).rows ++ ws.filterMap row? := by
  induction ws generalizing s with
  | nil => simp
  | cons w ws ih =>
      have hcut : database.Admissible s ([w] ++ ws) := h
      obtain ⟨hw, hws⟩ := Database.Admissible.of_append lawful_database hcut
      have hstep : (table (database.applyAll (w :: ws) s)).rows =
          (table (w.apply s)).rows ++ ws.filterMap row? := ih hws
      cases hr : row? w with
      | none => rw [hstep, hnone w s hr, List.filterMap_cons_none hr]
      | some r =>
          rw [hstep, hsome w s r hr hw, List.filterMap_cons_some hr, List.append_assoc,
            List.singleton_append]

end Grow

/-- The keys that an admitted write adds are absent. -/
theorem absent_of_admissible {w : Write} {s : Store} (h : database.Admissible s [w]) {x : Key}
    (hx : x ∈ w.adds) : s.present x = false := by
  have habsent : ¬ s.present x = true := h.1 x hx
  simpa using habsent

variable {ws : List Write} {s : Store}

theorem journalEntries_applyAll (h : database.Admissible s ws) :
    (database.applyAll ws s).journalEntries.rows =
      s.journalEntries.rows ++ ws.filterMap Write.journalEntry? := by
  refine rows_applyAll (·.journalEntries) _ (fun w s r hr hw => ?_) (fun w s hr => ?_) h
  · cases w <;> cases hr
    exact Table.rows_insert (Table.fresh_of_pk
      (absent_of_admissible hw (x := .row .journalEntry r.id) (by simp [Write.adds])) rfl)
  · cases w <;> first | rfl | cases hr

theorem postings_applyAll (h : database.Admissible s ws) :
    (database.applyAll ws s).postings.rows = s.postings.rows ++ ws.filterMap Write.posting? := by
  refine rows_applyAll (·.postings) _ (fun w s r hr hw => ?_) (fun w s hr => ?_) h
  · cases w <;> cases hr
    exact Table.rows_insert (Table.fresh_of_pk
      (absent_of_admissible hw (x := .row .posting r.id) (by simp [Write.adds])) rfl)
  · cases w <;> first | rfl | cases hr

theorem statementLines_applyAll (h : database.Admissible s ws) :
    (database.applyAll ws s).statementLines.rows =
      s.statementLines.rows ++ ws.filterMap Write.statementLine? := by
  refine rows_applyAll (·.statementLines) _ (fun w s r hr hw => ?_) (fun w s hr => ?_) h
  · cases w <;> cases hr
    refine Table.rows_insert (Table.fresh_of_absent
      (absent_of_admissible hw (x := .row .statementLine r.id) (by simp [Write.adds])) ?_)
    rintro u ⟨⟩
    exact absent_of_admissible hw (x := .statementLinePosting r.postingId) (by simp [Write.adds])
  · cases w <;> first | rfl | cases hr

theorem externalEvents_applyAll (h : database.Admissible s ws) :
    (database.applyAll ws s).externalEvents.rows =
      s.externalEvents.rows ++ ws.filterMap Write.externalEvent? := by
  refine rows_applyAll (·.externalEvents) _ (fun w s r hr hw => ?_) (fun w s hr => ?_) h
  · cases w <;> cases hr
    refine Table.rows_insert (Table.fresh_of_absent
      (absent_of_admissible hw (x := .row .externalEvent r.id) (by simp [Write.adds])) ?_)
    intro u hu
    obtain ⟨e, he, rfl⟩ := Option.map_eq_some_iff.mp hu
    exact absent_of_admissible hw (x := .providerEvent r.provider e) (by simp [Write.adds, he])
  · cases w <;> first | rfl | cases hr

/-! ## Transfers -/

/-- A transfer after some writes was there before, or was added by one of them. -/
theorem transferRequests_applyAll (ws : List Write) (s : Store) {t : TransferRequest}
    (ht : t ∈ (database.applyAll ws s).transferRequests.rows) :
    (∃ t₀ ∈ s.transferRequests.rows, t₀.Same t) ∨ ∃ r, .transferRequest r ∈ ws ∧ r.Same t := by
  induction ws generalizing s with
  | nil => exact Or.inl ⟨t, ht, .refl t⟩
  | cons w ws ih =>
      rcases ih (w.apply s) ht with ⟨t₁, ht₁, hsame⟩ | ⟨r, hr, hsame⟩
      · have hstep : (∃ t₀ ∈ s.transferRequests.rows, t₀.Same t₁) ∨ w = .transferRequest t₁ := by
          cases w with
          | transferRequest r =>
              by_cases hfresh : s.transferRequests.Fresh r
              · simp only [Write.apply, Table.rows_insert hfresh, List.mem_append,
                  List.mem_singleton] at ht₁
                rcases ht₁ with ht₁ | rfl
                · exact Or.inl ⟨t₁, ht₁, .refl t₁⟩
                · exact Or.inr rfl
              · simp only [Write.apply, Table.insert, hfresh, dite_false] at ht₁
                exact Or.inl ⟨t₁, ht₁, .refl t₁⟩
          | updateTransferRequest id d =>
              obtain ⟨t₀, ht₀, rfl⟩ := List.mem_map.mp ht₁
              refine Or.inl ⟨t₀, ht₀, ?_⟩
              split
              · exact d.apply_same t₀
              · exact .refl t₀
          | _ => exact Or.inl ⟨t₁, ht₁, .refl t₁⟩
        rcases hstep with ⟨t₀, ht₀, hsame'⟩ | rfl
        · exact Or.inl ⟨t₀, ht₀, hsame'.trans hsame⟩
        · exact Or.inr ⟨t₁, List.mem_cons_self .., hsame⟩
      · exact Or.inr ⟨r, List.mem_cons_of_mem _ hr, hsame⟩

/-! ## Foreign keys -/

/-- The foreign keys of the journal. -/
structure Store.ForeignKeys (s : Store) : Prop where
  posting : ∀ p ∈ s.postings.rows, s.present (.row .journalEntry p.journalEntryId) = true
  transfer : ∀ e ∈ s.journalEntries.rows, ∀ t, e.transferRequestId = some t →
    s.present (.row .transferRequest t) = true
  line : ∀ l ∈ s.statementLines.rows, s.present (.row .posting l.postingId) = true

theorem present_applyAll {x : Key} (h : database.Admissible s ws) (hx : s.present x = true) :
    (database.applyAll ws s).present x = true :=
  (Database.present_applyAll lawful_database h x).mpr (Or.inl hx)

/-- What an admitted write needs is present after all of them. -/
theorem needs_applyAll (h : database.Admissible s ws) {w : Write} (hw : w ∈ ws) {x : Key}
    (hx : x ∈ w.needs) : (database.applyAll ws s).present x = true := by
  obtain ⟨ws₁, ws₂, rfl⟩ := List.append_of_mem hw
  obtain ⟨h₁, h₂⟩ := Database.Admissible.of_append lawful_database h
  rw [Database.applyAll_append]
  exact present_applyAll h₂ (h₂.2.1 x hx)

theorem foreignKeys_applyAll (h : database.Admissible s ws) (hs : s.ForeignKeys) :
    (database.applyAll ws s).ForeignKeys where
  posting := by
    intro p hp
    rw [postings_applyAll h] at hp
    rcases List.mem_append.mp hp with hp | hp
    · exact present_applyAll h (hs.posting p hp)
    · obtain ⟨w, hw, hr⟩ := List.mem_filterMap.mp hp
      cases w <;> cases hr
      exact needs_applyAll h hw (by simp [Write.needs])
  transfer := by
    intro e he t ht
    rw [journalEntries_applyAll h] at he
    rcases List.mem_append.mp he with he | he
    · exact present_applyAll h (hs.transfer e he t ht)
    · obtain ⟨w, hw, hr⟩ := List.mem_filterMap.mp he
      cases w <;> cases hr
      exact needs_applyAll h hw (by simp [Write.needs, ht])
  line := by
    intro l hl
    rw [statementLines_applyAll h] at hl
    rcases List.mem_append.mp hl with hl | hl
    · exact present_applyAll h (hs.line l hl)
    · obtain ⟨w, hw, hr⟩ := List.mem_filterMap.mp hl
      cases w <;> cases hr
      exact needs_applyAll h hw (by simp [Write.needs])

/-- Without journal entries there are no postings. -/
theorem Store.ForeignKeys.postings_nil (hs : s.ForeignKeys) (h : s.journalEntries.rows = []) :
    s.postings.rows = [] := by
  refine List.eq_nil_iff_forall_not_mem.mpr fun p hp => ?_
  obtain ⟨e, he⟩ := Option.isSome_iff_exists.mp (hs.posting p hp)
  have := (Table.get?_eq_some.mp he).1
  simp [h] at this

end LedgerCredit
