import Mathlib.Data.List.Nodup
import Mathlib.Algebra.BigOperators.Group.List.Basic
import Mathlib.Algebra.Ring.Int.Defs

/-!
# Tables

A table is a list of rows, oldest first, with a primary key and an optional
second unique key.  That the keys are unique is a field of the table, so a table
with two rows under one key cannot be built.  `insert` leaves the table alone if
a key is taken; a database rejects such a statement before it comes to this.
`modify` changes the row under a key and keeps both keys of the row.

`sum` adds up an amount over the rows.  `sum_changed` says how a change of one
row moves it.
-/

namespace Txn

/-- Rows `α` with the primary key `pk` and the unique key `uk`, which may be null. -/
structure Table (α : Type) {ι υ : Type} (pk : α → ι) (uk : α → Option υ) where
  /-- The rows, oldest first. -/
  rows : List α
  /-- No two rows have the same primary key. -/
  pk_nodup : (rows.map pk).Nodup
  /-- No two rows have the same unique key. -/
  uk_nodup : (rows.filterMap uk).Nodup

namespace Table

variable {α ι υ : Type} {pk : α → ι} {uk : α → Option υ}

/-- The table without rows. -/
def empty : Table α pk uk := ⟨[], by simp, by simp⟩

variable [DecidableEq ι] [DecidableEq υ] (t : Table α pk uk)

/-- The row under a primary key. -/
def get? (k : ι) : Option α := t.rows.find? fun r => pk r = k

/-- The row under a unique key. -/
def find? (u : υ) : Option α := t.rows.find? fun r => uk r = some u

/-- No row has a key of `r`. -/
def Fresh (r : α) : Prop := pk r ∉ t.rows.map pk ∧ ∀ u, uk r = some u → u ∉ t.rows.filterMap uk

instance (r : α) : Decidable (t.Fresh r) :=
  match h : uk r with
  | none => decidable_of_iff (pk r ∉ t.rows.map pk) (by simp [Fresh, h])
  | some u => decidable_of_iff (pk r ∉ t.rows.map pk ∧ u ∉ t.rows.filterMap uk) (by simp [Fresh, h])

/-- Add a row, if its keys are free. -/
def insert (r : α) : Table α pk uk :=
  if h : t.Fresh r then
    { rows := t.rows ++ [r]
      pk_nodup := by
        rw [List.map_append, List.map_singleton]
        exact List.nodup_append.mpr ⟨t.pk_nodup, by simp, by
          rintro a ha b hb rfl
          exact h.1 (List.mem_singleton.mp hb ▸ ha)⟩
      uk_nodup := by
        rw [List.filterMap_append]
        refine List.nodup_append.mpr ⟨t.uk_nodup, ?_, ?_⟩
        · cases hu : uk r <;> simp [hu]
        · rintro a ha b hb rfl
          cases hu : uk r with
          | none => simp [hu] at hb
          | some u =>
              simp only [List.filterMap_cons, hu, List.filterMap_nil, List.mem_singleton] at hb
              exact h.2 u hu (hb ▸ ha) }
  else t

/-- Change the row under a key by `f`, which keeps its keys. -/
def modify (k : ι) (f : α → α) (hp : ∀ r, pk (f r) = pk r) (hu : ∀ r, uk (f r) = uk r) :
    Table α pk uk where
  rows := t.rows.map fun r => if pk r = k then f r else r
  pk_nodup := by
    have h : (pk ∘ fun r => if pk r = k then f r else r) = pk := by
      funext r
      by_cases hk : pk r = k <;> simp [hk, hp]
    rw [List.map_map, h]
    exact t.pk_nodup
  uk_nodup := by
    have h : (uk ∘ fun r => if pk r = k then f r else r) = uk := by
      funext r
      by_cases hk : pk r = k <;> simp [hk, hu]
    rw [List.filterMap_map, h]
    exact t.uk_nodup

/-- Put a row in the place of the row with its key, or add it. -/
def upsert (r : α) (hu : ∀ r, uk r = none) : Table α pk uk :=
  if (t.get? (pk r)).isSome then
    { rows := t.rows.map fun x => if pk x = pk r then r else x
      pk_nodup := by
        have h : (pk ∘ fun x => if pk x = pk r then r else x) = pk := by
          funext x
          by_cases hk : pk x = pk r <;> simp [hk]
        rw [List.map_map, h]
        exact t.pk_nodup
      uk_nodup := by simp [funext hu] }
  else t.insert r

/-- The sum of `f` over the rows. -/
def sum (f : α → Int) : Int := (t.rows.map f).sum

/-! ## Rows and keys -/

variable {t}

omit [DecidableEq ι] [DecidableEq υ] in
theorem eq_of_pk {r r' : α} (hr : r ∈ t.rows) (hr' : r' ∈ t.rows) (h : pk r = pk r') : r = r' :=
  List.inj_on_of_nodup_map t.pk_nodup hr hr' h

omit [DecidableEq υ] in
theorem get?_eq_some {k : ι} {r : α} : t.get? k = some r ↔ r ∈ t.rows ∧ pk r = k := by
  constructor
  · intro h
    exact ⟨List.mem_of_find?_eq_some h, by simpa using List.find?_some h⟩
  · rintro ⟨hr, rfl⟩
    cases h : t.get? (pk r) with
    | none => exact absurd hr (fun hr => by simpa using List.find?_eq_none.mp h r hr)
    | some r' =>
        have hk : pk r' = pk r := by simpa using List.find?_some h
        rw [eq_of_pk (List.mem_of_find?_eq_some h) hr hk]

omit [DecidableEq υ] in
theorem get?_eq_none {k : ι} : t.get? k = none ↔ ∀ r ∈ t.rows, pk r ≠ k := by
  simp [get?, List.find?_eq_none]

omit [DecidableEq ι] in
theorem find?_mem {u : υ} {r : α} (h : t.find? u = some r) : r ∈ t.rows ∧ uk r = some u :=
  ⟨List.mem_of_find?_eq_some h, by simpa using List.find?_some h⟩

omit [DecidableEq ι] in
theorem find?_eq_none {u : υ} : t.find? u = none ↔ ∀ r ∈ t.rows, uk r ≠ some u := by
  simp [find?, List.find?_eq_none]

omit [DecidableEq ι] [DecidableEq υ] in
theorem eq_of_uk {r r' : α} {u : υ} (hr : r ∈ t.rows) (hr' : r' ∈ t.rows) (h : uk r = some u)
    (h' : uk r' = some u) : r = r' := by
  have hnd := t.uk_nodup
  generalize t.rows = l at hr hr' hnd
  induction l with
  | nil => cases hr
  | cons a l ih =>
      have htail : (l.filterMap uk).Nodup := by
        cases ha : uk a with
        | none => simpa [ha] using hnd
        | some v =>
            rw [List.filterMap_cons_some ha] at hnd
            exact (List.nodup_cons.mp hnd).2
      have hhead : ∀ b ∈ l, uk a = some u → uk b ≠ some u := by
        intro b hb ha hbu
        rw [List.filterMap_cons_some ha] at hnd
        exact (List.nodup_cons.mp hnd).1 (List.mem_filterMap.mpr ⟨b, hb, hbu⟩)
      rcases List.mem_cons.mp hr with hra | hr
      · rcases List.mem_cons.mp hr' with hra' | hr'
        · exact hra.trans hra'.symm
        · exact absurd h' (hhead r' hr' (hra ▸ h))
      · rcases List.mem_cons.mp hr' with hra' | hr'
        · exact absurd h (hhead r hr (hra' ▸ h'))
        · exact ih hr hr' htail

omit [DecidableEq ι] in
theorem find?_eq_some {u : υ} {r : α} : t.find? u = some r ↔ r ∈ t.rows ∧ uk r = some u := by
  refine ⟨find?_mem, fun ⟨hr, hu⟩ => ?_⟩
  cases h : t.find? u with
  | none => exact absurd hu (find?_eq_none.mp h r hr)
  | some r' => rw [eq_of_uk (find?_mem h).1 hr (find?_mem h).2 hu]

omit [DecidableEq ι] [DecidableEq υ] in
@[simp] theorem rows_empty : (empty : Table α pk uk).rows = [] := rfl

theorem rows_insert {r : α} (h : t.Fresh r) : (t.insert r).rows = t.rows ++ [r] := by
  simp [insert, h]

omit [DecidableEq υ] in
@[simp] theorem rows_modify {k : ι} {f : α → α} {hp hu} :
    (t.modify k f hp hu).rows = t.rows.map fun r => if pk r = k then f r else r := rfl

omit [DecidableEq υ] in
/-- A change of the last row. -/
theorem rows_modify_last {l : List α} {r : α} (h : t.rows = l ++ [r]) {k : ι} (hk : pk r = k)
    (f : α → α) (hp : ∀ r, pk (f r) = pk r) (hu : ∀ r, uk (f r) = uk r) :
    (t.modify k f hp hu).rows = l ++ [f r] := by
  have hnodup := t.pk_nodup
  rw [h, List.map_append, List.nodup_append] at hnodup
  have hkeep : ∀ x ∈ l, (if pk x = k then f x else x) = x := by
    intro x hx
    refine if_neg fun heq => ?_
    exact hnodup.2.2 (pk x) (List.mem_map_of_mem hx) (pk r) (by simp) (heq.trans hk.symm)
  rw [rows_modify, h, List.map_append, List.map_congr_left hkeep, List.map_id', List.map_singleton,
    if_pos hk]

omit [DecidableEq υ] in
/-- A modified table has the old row, or the changed one, under each key. -/
theorem get?_modify {k k' : ι} {f : α → α} {hp hu} :
    (t.modify k f hp hu).get? k' = (t.get? k').map fun r => if k' = k then f r else r := by
  simp only [get?, rows_modify, List.find?_map]
  have h : ((fun r => decide (pk r = k')) ∘ fun r => if pk r = k then f r else r) =
      fun r => decide (pk r = k') := by
    funext r
    by_cases hk : pk r = k <;> simp [hk, hp]
  rw [h]
  cases hget : t.rows.find? fun r => decide (pk r = k') with
  | none => rfl
  | some r =>
      have hk : pk r = k' := by simpa using List.find?_some hget
      simp [hk]

theorem find?_modify {k : ι} {u : υ} {f : α → α} {hp hu} :
    (t.modify k f hp hu).find? u = (t.find? u).map fun r => if pk r = k then f r else r := by
  simp only [find?, rows_modify, List.find?_map]
  have h : ((fun r => decide (uk r = some u)) ∘ fun r => if pk r = k then f r else r) =
      fun r => decide (uk r = some u) := by
    funext r
    by_cases hk : pk r = k <;> simp [hk, hu]
  rw [h]

theorem get?_insert {r : α} (h : t.Fresh r) (k : ι) :
    (t.insert r).get? k = if pk r = k then some r else t.get? k := by
  rw [get?, rows_insert h, List.find?_append]
  by_cases hk : pk r = k
  · have hnone : t.get? k = none := get?_eq_none.mpr fun r' hr' hk' =>
      h.1 (List.mem_map.mpr ⟨r', hr', hk'.trans hk.symm⟩)
    simp only [get?] at hnone
    simp [hnone, hk]
  · simp [hk, get?]

theorem find?_insert {r : α} (h : t.Fresh r) (u : υ) :
    (t.insert r).find? u = if uk r = some u then some r else t.find? u := by
  rw [find?, rows_insert h, List.find?_append]
  by_cases hu : uk r = some u
  · have hnone : t.find? u = none := find?_eq_none.mpr fun r' hr' hu' =>
      h.2 u hu (List.mem_filterMap.mpr ⟨r', hr', hu'⟩)
    simp only [find?] at hnone
    simp [hnone, hu]
  · simp [hu, find?]

/-- What an upsert leaves under each key. -/
theorem get?_upsert {r : α} {hu : ∀ r : α, uk r = none} (k : ι) :
    (t.upsert r hu).get? k = if pk r = k then some r else t.get? k := by
  unfold upsert
  by_cases hs : (t.get? (pk r)).isSome
  · rw [if_pos hs]
    simp only [get?, List.find?_map]
    have h : ((fun x => decide (pk x = k)) ∘ fun x => if pk x = pk r then r else x) =
        fun x => decide (pk x = k) := by
      funext x
      by_cases hx : pk x = pk r <;> simp [hx]
    rw [h]
    by_cases hk : pk r = k
    · subst hk
      obtain ⟨x, hx⟩ := Option.isSome_iff_exists.mp hs
      have hpk : pk x = pk r := (get?_eq_some.mp hx).2
      simp only [get?] at hx
      simp [hx, hpk]
    · cases hx : t.rows.find? fun x => decide (pk x = k) with
      | none => simp [hk]
      | some x =>
          have hpk : pk x = k := by simpa using List.find?_some hx
          have hne : pk x ≠ pk r := fun he => hk (he.symm.trans hpk)
          simp [hk, hne]
  · rw [if_neg hs]
    have hfresh : t.Fresh r := by
      refine ⟨fun hmem => hs ?_, by simp [hu]⟩
      obtain ⟨x, hx, hpk⟩ := List.mem_map.mp hmem
      exact Option.isSome_iff_exists.mpr ⟨x, get?_eq_some.mpr ⟨hx, hpk⟩⟩
    exact get?_insert hfresh k

theorem isSome_get?_insert {r : α} (h : t.Fresh r) (k : ι) :
    ((t.insert r).get? k).isSome = ((t.get? k).isSome || decide (k = pk r)) := by
  rw [get?_insert h]
  by_cases hk : pk r = k
  · simp [hk]
  · simp [hk, Ne.symm hk]

theorem isSome_find?_insert {r : α} (h : t.Fresh r) (u : υ) :
    ((t.insert r).find? u).isSome = ((t.find? u).isSome || decide (some u = uk r)) := by
  rw [find?_insert h]
  by_cases hu : uk r = some u
  · simp [hu]
  · simp [hu, Ne.symm hu]

omit [DecidableEq υ] in
@[simp] theorem isSome_get?_modify {k k' : ι} {f : α → α} {hp hu} :
    ((t.modify k f hp hu).get? k').isSome = (t.get? k').isSome := by
  simp [get?_modify]

@[simp] theorem isSome_find?_modify {k : ι} {u : υ} {f : α → α} {hp hu} :
    ((t.modify k f hp hu).find? u).isSome = (t.find? u).isSome := by
  simp [find?_modify]

theorem fresh_of_absent {r : α} (hk : (t.get? (pk r)).isSome = false)
    (hu : ∀ u, uk r = some u → (t.find? u).isSome = false) : t.Fresh r := by
  refine ⟨fun hmem => ?_, fun u hru hmem => ?_⟩
  · obtain ⟨x, hx, hpk⟩ := List.mem_map.mp hmem
    rw [get?_eq_some.mpr ⟨hx, hpk⟩] at hk
    cases hk
  · obtain ⟨x, hx, hux⟩ := List.mem_filterMap.mp hmem
    have := hu u hru
    rw [find?_eq_some.mpr ⟨hx, hux⟩] at this
    cases this

/-- A row without a second key is fresh if its primary key is. -/
theorem fresh_of_pk {r : α} (hk : (t.get? (pk r)).isSome = false) (hu : uk r = none) : t.Fresh r :=
  fresh_of_absent hk fun _ hsome => by simp [hu] at hsome

/-! ## Groups -/

/-- The rows of one group among the rows of groups with different keys. -/
theorem filter_flatMap_eq {κ : Type} [DecidableEq κ] {γ : Type} {groups : List γ} (key : γ → κ)
    {items : γ → List α} {tag : α → κ} (hkeys : (groups.map key).Nodup)
    (htag : ∀ g ∈ groups, ∀ a ∈ items g, tag a = key g) {g : γ} (hg : g ∈ groups) :
    (groups.flatMap items).filter (fun a => tag a = key g) = items g := by
  have hself : ∀ g ∈ groups, ∀ k, key g = k → (items g).filter (fun a => tag a = k) = items g := by
    rintro g hg _ rfl
    exact List.filter_eq_self.mpr fun a ha => by simpa using htag g hg a ha
  have hother : ∀ g ∈ groups, ∀ k, key g ≠ k → (items g).filter (fun a => tag a = k) = [] := by
    intro g hg k hk
    exact List.filter_eq_nil_iff.mpr fun a ha => by simpa [htag g hg a ha] using hk
  induction groups with
  | nil => cases hg
  | cons g' groups ih =>
      obtain ⟨hfresh, hkeys⟩ := List.nodup_cons.mp hkeys
      have htail := ih hkeys (fun g hg => htag g (List.mem_cons_of_mem _ hg))
      have hself' := fun g hg => hself g (List.mem_cons_of_mem _ hg)
      have hother' := fun g hg => hother g (List.mem_cons_of_mem _ hg)
      rw [List.flatMap_cons, List.filter_append]
      rcases List.mem_cons.mp hg with rfl | hmem
      · rw [hself g hg _ rfl, List.filter_flatMap]
        refine List.append_right_eq_self.mpr (List.flatMap_eq_nil_iff.mpr fun g' hg' => ?_)
        exact hother' g' hg' _ fun he => hfresh (he ▸ List.mem_map_of_mem hg')
      · rw [hother g' (List.mem_cons_self ..) _ fun he => hfresh (he ▸ List.mem_map_of_mem hmem),
          List.nil_append]
        exact htail hmem hself' hother'

/-! ## Sums -/

variable {f : α → Int}

omit [DecidableEq υ] in
/-- A modification moves a sum by what it does to the one row it changes. -/
theorem sum_changed {k : ι} {g : α → α} {r : α} (hmem : r ∈ t.rows) (hk : pk r = k) :
    ((t.rows.map fun x => if pk x = k then g x else x).map f).sum = t.sum f - f r + f (g r) := by
  have hnd := t.pk_nodup
  simp only [sum, List.map_map]
  generalize t.rows = l at hmem hnd
  induction l with
  | nil => cases hmem
  | cons a l ih =>
      obtain ⟨ha, hl⟩ := List.nodup_cons.mp hnd
      have hout : ∀ b ∈ l, pk b = pk a → False := fun b hb he =>
        ha (List.mem_map.mpr ⟨b, hb, he⟩)
      rcases List.mem_cons.mp hmem with rfl | hmem
      · have hrest : l.map (f ∘ fun r => if pk r = k then g r else r) = l.map f := by
          refine List.map_congr_left fun b hb => ?_
          have hb' : pk b ≠ k := fun he => hout b hb (he.trans hk.symm)
          simp [hb']
        simp only [List.map_cons, List.sum_cons, Function.comp_apply, hk, if_true, hrest]
        omega
      · have hak : pk a ≠ k := fun he => hout r hmem (hk.trans he.symm)
        have hrec := ih hmem hl
        simp only [List.map_cons, List.sum_cons, Function.comp_apply, hak, if_false]
        omega

end Table

end Txn
