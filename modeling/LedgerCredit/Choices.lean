import LedgerCredit.Txn.Alone
import LedgerCredit.Processes
import Mathlib.Algebra.Order.BigOperators.Group.List

/-!
# New identifiers

A generated identifier is one that no row has.  `Store.Fresh` says this of a
choice, and `exists_fresh` finds such a choice for every store, every time and
every order of rows.  With new identifiers a statement that creates a row fails
only on what the service put into the row.
-/

namespace LedgerCredit

open Txn

namespace Store

/-- The identifiers of the rows of a store. -/
def ids (s : Store) : List Uuid :=
  s.accounts.rows.map (·.id) ++ s.ledgerAccounts.rows.map (·.id) ++
    s.journalEntries.rows.map (·.id) ++ s.postings.rows.map (·.id) ++
    s.statementLines.rows.map (·.id) ++ s.transferRequests.rows.map (·.id) ++
    s.idempotencyRecords.rows.map (·.id) ++ s.externalEvents.rows.map (·.id) ++
    s.auditEvents.rows.map (·.id) ++ s.batchRuns.rows.map (·.id) ++ s.batchRunItems.rows.map (·.id)

/-- The choice generates identifiers that are new and distinct. -/
structure Fresh (s : Store) (ch : Choice) : Prop where
  new : ∀ n, ch.uuid n ∉ s.ids
  distinct : Function.Injective ch.uuid

end Store

theorem isSome_get?_of_notMem {α υ : Type} {pk : α → Uuid} {uk : α → Option υ} {t : Table α pk uk}
    {u : Uuid} (h : u ∉ t.rows.map pk) : (t.get? u).isSome = false := by
  rw [Option.isSome_eq_false_iff, Option.isNone_iff_eq_none, Table.get?_eq_none]
  exact fun r hr heq => h (List.mem_map.mpr ⟨r, hr, heq⟩)

/-- A new identifier is not the key of a row. -/
theorem absent_of_new {s : Store} {u : Uuid} (h : u ∉ s.ids) {table : TableName}
    (htable : table ≠ .balanceProjection) : s.present (.row table u) = false := by
  simp only [Store.ids, List.mem_append, not_or] at h
  obtain ⟨⟨⟨⟨⟨⟨⟨⟨⟨⟨h₁, h₂⟩, h₃⟩, h₄⟩, h₅⟩, h₆⟩, h₇⟩, h₈⟩, h₉⟩, h₁₀⟩, h₁₁⟩ := h
  cases table <;> first
    | exact absurd rfl htable
    | exact isSome_get?_of_notMem h₁ | exact isSome_get?_of_notMem h₂
    | exact isSome_get?_of_notMem h₃ | exact isSome_get?_of_notMem h₄
    | exact isSome_get?_of_notMem h₅ | exact isSome_get?_of_notMem h₆
    | exact isSome_get?_of_notMem h₇ | exact isSome_get?_of_notMem h₈
    | exact isSome_get?_of_notMem h₉ | exact isSome_get?_of_notMem h₁₀
    | exact isSome_get?_of_notMem h₁₁

/-- An identifier longer than all others. -/
def longId (s : Store) (n : Nat) : Uuid :=
  String.ofList (List.replicate ((s.ids.map String.length).sum + 1 + n) 'a')

theorem length_longId (s : Store) (n : Nat) :
    (longId s n).length = (s.ids.map String.length).sum + 1 + n := by
  simp [longId]

/-- A choice of new identifiers, at a time and with an order of rows. -/
def freshChoice (s : Store) (now : Time) (order : List Nat) : Choice where
  uuid := longId s
  uuid_ne := fun n h => by
    have hlen := length_longId s n
    rw [h] at hlen
    simp at hlen
    omega
  now := now
  order := order

theorem fresh_freshChoice (s : Store) (now : Time) (order : List Nat) :
    s.Fresh (freshChoice s now order) where
  new := by
    intro n hmem
    have hle : (longId s n).length ≤ (s.ids.map String.length).sum :=
      List.le_sum_of_mem (List.mem_map_of_mem hmem)
    have hlen := length_longId s n
    omega
  distinct := by
    intro n m h
    have hn := length_longId s n
    have hm := length_longId s m
    simp only [freshChoice] at h
    rw [h] at hn
    omega

theorem exists_fresh (s : Store) : ∃ ch, s.Fresh ch := ⟨_, fresh_freshChoice s 0 []⟩

/-- Any row can come first. -/
theorem exists_arrange_head {α : Type} {a : α} {l : List α} (h : a ∈ l) :
    ∃ order, (arrange order l).head? = some a := by
  induction l with
  | nil => cases h
  | cons b l ih =>
      rcases List.mem_cons.mp h with rfl | h
      · exact ⟨[0], by simp [arrange]⟩
      · obtain ⟨order, horder⟩ := ih h
        refine ⟨1 :: order, ?_⟩
        have hpos : 0 < l.length := List.length_pos_of_mem h
        cases harr : arrange order l with
        | nil => simp [harr] at horder
        | cons c rest =>
            rw [harr] at horder
            simp only [arrange, harr]
            rw [Nat.mod_eq_of_lt (by omega)]
            simpa using horder

end LedgerCredit
