import LedgerCredit.Journal

/-!
# The items of batch runs

Writes change an item in its status, its attempts and its last error only.
`Store.KeepsItems` says that an item stays under its key, with its identifier, and
that its attempts never become fewer.  `itemOf_applyAll` computes the item of an
account after some writes: it is changed by the updates of its own row
(`Write.onItem`), and nothing else.
-/

namespace LedgerCredit

open Txn

/-- The item of an account in a run. -/
def Store.itemOf (s : Store) (batchRunId accountId : Uuid) : Option BatchRunItem :=
  s.batchRunItems.find? (batchRunId, "account", accountId)

/-- What a write does to an item. -/
def Write.onItem (i : BatchRunItem) : Write → BatchRunItem
  | .updateBatchRunItem id d => if i.id = id then d.apply i else i
  | _ => i

@[simp] theorem Write.onItem_id (i : BatchRunItem) (w : Write) : (w.onItem i).id = i.id := by
  cases w with
  | updateBatchRunItem id d =>
      simp only [Write.onItem]
      split <;> rfl
  | _ => rfl

/-- A write keeps the columns of an item that no update touches. -/
theorem Write.onItem_same (i : BatchRunItem) (w : Write) :
    (w.onItem i).batchRunId = i.batchRunId ∧ (w.onItem i).resourceType = i.resourceType ∧
      (w.onItem i).resourceId = i.resourceId := by
  cases w with
  | updateBatchRunItem id d =>
      simp only [Write.onItem]
      split <;> exact ⟨rfl, rfl, rfl⟩
  | _ => exact ⟨rfl, rfl, rfl⟩

theorem Write.attemptCount_le_onItem (i : BatchRunItem) (w : Write) :
    i.attemptCount ≤ (w.onItem i).attemptCount := by
  cases w with
  | updateBatchRunItem id d =>
      simp only [Write.onItem]
      split
      · exact Nat.le_add_right ..
      · exact Nat.le_refl _
  | _ => exact Nat.le_refl _

/-- A write that belongs to another part of the database leaves the items alone. -/
theorem Write.onItem_of_kind {w : Write} (h : w.kind = .ledger) (i : BatchRunItem) :
    w.onItem i = i := by
  cases w <;> first | rfl | cases h

/-- What some writes do to an item, one after another. -/
def onItems (ws : List Write) (i : BatchRunItem) : BatchRunItem := ws.foldl Write.onItem i

@[simp] theorem onItems_nil (i : BatchRunItem) : onItems [] i = i := rfl

@[simp] theorem onItems_cons (w : Write) (ws : List Write) (i : BatchRunItem) :
    onItems (w :: ws) i = onItems ws (w.onItem i) := rfl

@[simp] theorem onItems_append (ws vs : List Write) (i : BatchRunItem) :
    onItems (ws ++ vs) i = onItems vs (onItems ws i) := by
  simp [onItems, List.foldl_append]

@[simp] theorem onItems_id (ws : List Write) (i : BatchRunItem) : (onItems ws i).id = i.id := by
  induction ws generalizing i with
  | nil => rfl
  | cons w ws ih => rw [onItems_cons, ih, Write.onItem_id]

theorem attemptCount_le_onItems (ws : List Write) (i : BatchRunItem) :
    i.attemptCount ≤ (onItems ws i).attemptCount := by
  induction ws generalizing i with
  | nil => exact Nat.le_refl _
  | cons w ws ih => exact (Write.attemptCount_le_onItem i w).trans (ih _)

theorem onItems_keeps {P : BatchRunItem → Prop} {ws : List Write}
    (h : ∀ w ∈ ws, ∀ i, P i → P (w.onItem i)) {i : BatchRunItem} (hi : P i) : P (onItems ws i) := by
  induction ws generalizing i with
  | nil => exact hi
  | cons w ws ih =>
      obtain ⟨hw, hws⟩ := List.forall_mem_cons.mp h
      exact ih hws (hw i hi)

theorem onItems_of_kind {ws : List Write} (h : ∀ w ∈ ws, w.kind = .ledger) (i : BatchRunItem) :
    onItems ws i = i :=
  onItems_keeps (P := (· = i)) (fun w hw _ hi => hi ▸ Write.onItem_of_kind (h w hw) _) rfl

/-- An update of several rows changes an item once, if its row is among them. -/
theorem onItems_updates (d : BatchRunItemUpdate) {ids : List Uuid} (hnodup : ids.Nodup)
    (i : BatchRunItem) :
    onItems (ids.map fun id => .updateBatchRunItem id d) i = if i.id ∈ ids then d.apply i else i := by
  induction ids generalizing i with
  | nil => simp
  | cons id ids ih =>
      obtain ⟨hid, hids⟩ := List.nodup_cons.mp hnodup
      rw [List.map_cons, onItems_cons, ih hids, Write.onItem_id]
      by_cases hi : i.id = id
      · subst hi
        simp [Write.onItem, hid]
      · simp [Write.onItem, hi]

/-! ## Items under their keys -/

variable {s : Store} {u : Uuid × String × String}

/-- An item after a write. -/
theorem findItem_apply (w : Write) {i : BatchRunItem} (h : s.batchRunItems.find? u = some i) :
    (w.apply s).batchRunItems.find? u = some (w.onItem i) := by
  cases w with
  | batchRunItem r =>
      by_cases hfresh : s.batchRunItems.Fresh r
      · refine (Table.find?_insert hfresh u).trans ?_
        obtain ⟨hmem, hu⟩ := Table.find?_mem h
        have hne : some (r.batchRunId, r.resourceType, r.resourceId) ≠ some u := fun heq =>
          hfresh.2 u heq (List.mem_filterMap.mpr ⟨i, hmem, hu⟩)
        rw [if_neg hne, h]
        rfl
      · rw [Write.apply, Table.insert, dif_neg hfresh]
        exact h
  | updateBatchRunItem id d =>
      show (s.batchRunItems.modify id d.apply d.apply_id d.apply_uk).find? u = _
      rw [Table.find?_modify, h]
      rfl
  | _ => exact h

theorem findItem_applyAll (ws : List Write) {i : BatchRunItem}
    (h : s.batchRunItems.find? u = some i) :
    (database.applyAll ws s).batchRunItems.find? u = some (onItems ws i) := by
  induction ws generalizing s i with
  | nil => exact h
  | cons w ws ih => exact ih (findItem_apply w h)

/-- An item that appears is created by the write. -/
theorem findItem_absent (w : Write) (h : s.batchRunItems.find? u = none) :
    (w.apply s).batchRunItems.find? u = none ∨
      ∃ r, w = .batchRunItem r ∧ (w.apply s).batchRunItems.find? u = some r := by
  cases w with
  | batchRunItem r =>
      by_cases hfresh : s.batchRunItems.Fresh r
      · have hinsert := Table.find?_insert hfresh u
        split at hinsert
        · exact Or.inr ⟨r, rfl, hinsert⟩
        · exact Or.inl (hinsert.trans h)
      · rw [Write.apply, Table.insert, dif_neg hfresh]
        exact Or.inl h
  | updateBatchRunItem id d =>
      refine Or.inl ?_
      show (s.batchRunItems.modify id d.apply d.apply_id d.apply_uk).find? u = none
      rw [Table.find?_modify, h]
      rfl
  | _ => exact Or.inl h

/-- What the created rows have, and the writes keep, holds of an item that appears. -/
theorem findItem_created {P : BatchRunItem → Prop} {ws : List Write} {i : BatchRunItem}
    (h : s.batchRunItems.find? u = none)
    (hi : (database.applyAll ws s).batchRunItems.find? u = some i)
    (hP : ∀ r, .batchRunItem r ∈ ws → P r) (hkeep : ∀ w ∈ ws, ∀ i, P i → P (w.onItem i)) : P i := by
  induction ws generalizing s with
  | nil =>
      rw [Database.applyAll_nil, h] at hi
      cases hi
  | cons w ws ih =>
      obtain ⟨-, hws⟩ := List.forall_mem_cons.mp hkeep
      rcases findItem_absent w h with hnone | ⟨r, rfl, hsome⟩
      · exact ih hnone hi (fun r hr => hP r (List.mem_cons_of_mem _ hr)) hws
      · have happears := (findItem_applyAll ws hsome).symm.trans hi
        cases happears
        exact onItems_keeps hws (hP r (List.mem_cons_self ..))

/-- Without creations an item that is absent stays absent. -/
theorem findItem_none {ws : List Write} (h : s.batchRunItems.find? u = none)
    (hws : ∀ r, .batchRunItem r ∉ ws) : (database.applyAll ws s).batchRunItems.find? u = none := by
  cases hi : (database.applyAll ws s).batchRunItems.find? u with
  | none => rfl
  | some i => exact (findItem_created (P := fun _ => False) h hi hws fun _ _ _ => id).elim

/-! ## How items evolve -/

/-- The items stay, and their attempts never become fewer. -/
def Store.KeepsItems (s s' : Store) : Prop :=
  ∀ u i, s.batchRunItems.find? u = some i → ∃ i', s'.batchRunItems.find? u = some i' ∧
    i'.id = i.id ∧ i.attemptCount ≤ i'.attemptCount

namespace Store.KeepsItems

variable {s' s'' : Store}

theorem refl (s : Store) : s.KeepsItems s := fun _ i hi => ⟨i, hi, rfl, Nat.le_refl _⟩

theorem trans (h : s.KeepsItems s') (h' : s'.KeepsItems s'') : s.KeepsItems s'' := by
  intro u i hi
  obtain ⟨i', hi', hid, hle⟩ := h u i hi
  obtain ⟨i'', hi'', hid', hle'⟩ := h' u i' hi'
  exact ⟨i'', hi'', hid'.trans hid, hle.trans hle'⟩

theorem applyAll (ws : List Write) (s : Store) : s.KeepsItems (database.applyAll ws s) :=
  fun _ i hi => ⟨_, findItem_applyAll ws hi, onItems_id ws i, attemptCount_le_onItems ws i⟩

/-- Items under different keys have different identifiers, also at different times. -/
theorem eq_key (h : s.KeepsItems s') {u u' : Uuid × String × String} {i i' : BatchRunItem}
    (hi : s.batchRunItems.find? u = some i) (hi' : s'.batchRunItems.find? u' = some i')
    (hid : i'.id = i.id) : u = u' := by
  obtain ⟨j, hj, hjid, -⟩ := h u i hi
  obtain ⟨hmem, hu⟩ := Table.find?_mem hj
  obtain ⟨hmem', hu'⟩ := Table.find?_mem hi'
  obtain rfl : j = i' := Table.eq_of_pk hmem hmem' (hjid.trans hid.symm)
  exact Option.some.inj (hu.symm.trans hu')

end Store.KeepsItems

/-- The rows that an update of the items of some resources changes. -/
def Store.itemIds (s : Store) (batchRunId : Uuid) (resourceType : String)
    (resourceIds : List String) : List Uuid :=
  (s.batchRunItems.rows.filter fun i =>
    i.batchRunId = batchRunId && i.resourceType = resourceType && i.resourceId ∈ resourceIds).map
      (·.id)

theorem nodup_itemIds (s : Store) (batchRunId : Uuid) (resourceType : String)
    (resourceIds : List String) : (s.itemIds batchRunId resourceType resourceIds).Nodup :=
  s.batchRunItems.pk_nodup.sublist (List.filter_sublist.map _)

/-- A write that creates no item changes the items where they are. -/
theorem items_apply {w : Write} (hw : ∀ r, w ≠ .batchRunItem r) (s : Store) :
    (w.apply s).batchRunItems.rows = s.batchRunItems.rows.map fun i => w.onItem i := by
  cases w with
  | batchRunItem r => exact absurd rfl (hw r)
  | updateBatchRunItem id d => rfl
  | _ => exact (List.map_id' _).symm

/-- Without creations the rows that an update changes stay the same. -/
theorem itemIds_applyAll {ws : List Write} (hws : ∀ r, .batchRunItem r ∉ ws) (s : Store)
    (batchRunId : Uuid) (resourceType : String) (resourceIds : List String) :
    (database.applyAll ws s).itemIds batchRunId resourceType resourceIds =
      s.itemIds batchRunId resourceType resourceIds := by
  induction ws generalizing s with
  | nil => rfl
  | cons w ws ih =>
      refine (ih (fun r hr => hws r (List.mem_cons_of_mem _ hr)) (w.apply s)).trans ?_
      have hw : ∀ r, w ≠ .batchRunItem r := fun r hr => hws r (hr ▸ List.mem_cons_self ..)
      have hsame := fun i => w.onItem_same i
      simp only [Store.itemIds, items_apply hw, List.filter_map, List.map_map, Function.comp_def,
        Write.onItem_id, hsame]

/-- An update of the items of some resources changes the item of one of them. -/
theorem mem_itemIds {s' : Store} (h : s.KeepsItems s') {batchRunId accountId : Uuid}
    (batchRunId' : Uuid) (resourceIds : List String) {i : BatchRunItem}
    (hthere : batchRunId' = batchRunId → accountId ∈ resourceIds →
      (s.itemOf batchRunId accountId).isSome = true)
    (hi : s'.itemOf batchRunId accountId = some i) :
    i.id ∈ s.itemIds batchRunId' "account" resourceIds ↔
      batchRunId' = batchRunId ∧ accountId ∈ resourceIds := by
  constructor
  · intro hmem
    obtain ⟨j, hj, hid⟩ := List.mem_map.mp hmem
    simp only [List.mem_filter, Bool.and_eq_true, decide_eq_true_eq] at hj
    obtain ⟨hj, ⟨rfl, htype⟩, hresource⟩ := hj
    have hkey := h.eq_key (Table.find?_eq_some.mpr ⟨hj, rfl⟩) hi hid.symm
    obtain ⟨hrun, -, hid'⟩ : j.batchRunId = batchRunId ∧ j.resourceType = "account" ∧
      j.resourceId = accountId := by simpa using hkey
    exact ⟨hrun, hid' ▸ hresource⟩
  · rintro ⟨rfl, hmem⟩
    obtain ⟨j, hj⟩ := Option.isSome_iff_exists.mp (hthere rfl hmem)
    obtain ⟨i', hi', hid, -⟩ := h _ j hj
    obtain rfl : i' = i := Option.some.inj (hi'.symm.trans hi)
    obtain ⟨hrow, hkey⟩ := Table.find?_mem hj
    obtain ⟨hrun, htype, hresource⟩ : j.batchRunId = batchRunId' ∧ j.resourceType = "account" ∧
      j.resourceId = accountId := by simpa using hkey
    refine List.mem_map.mpr ⟨j, List.mem_filter.mpr ⟨hrow, ?_⟩, hid.symm⟩
    simp [hrun, htype, hresource, hmem]

end LedgerCredit
