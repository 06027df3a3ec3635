import LedgerCredit.Txn.Program

/-!
# Databases with unique keys and row locks

A `Database` says what a statement does to a store.  `exec q c S` is the
statement `q` on the store `S`, where the choice `c` settles what the statement
leaves open: generated identifiers, the clock, the order of unordered results.
It answers with a reply and a list of writes, or fails.

Each write has three key lists.  It *locks* keys: no other open transaction may
hold them.  It *adds* keys, which must be absent, as in a unique index.  It
*needs* keys, which must be present, as in a foreign key or in the row that an
update changes.  `Lawful` asks that a write changes the present keys exactly by
those it adds, and that a statement succeeds only on writes that the keys admit.

`admissible_applyAll` is the reason why locks are enough.  Writes that were
admitted on a store are still admitted after another transaction committed
writes with disjoint locks.
-/

namespace Txn

/-- The meaning of statements `Q` on stores `S`, by writes `W` with keys `κ`. -/
structure Database (Q : Type → Type) (ε S W C κ : Type) where
  /-- The reply and the writes of a statement. -/
  exec : {β : Type} → Q β → C → S → Except ε (β × List W)
  /-- The store after a write. -/
  apply : W → S → S
  /-- The keys a write holds until its transaction ends. -/
  locks : W → List κ
  /-- The unique keys a write adds. -/
  adds : W → List κ
  /-- The keys a write refers to. -/
  needs : W → List κ
  /-- The keys of a store. -/
  present : S → κ → Bool
  /-- The error of a transaction that the database aborts. -/
  aborted : ε

variable {Q : Type → Type} {ε S W C κ : Type}

namespace Database

variable (db : Database Q ε S W C κ)

/-- The store after a list of writes. -/
def applyAll (ws : List W) (s : S) : S := ws.foldl (fun s w => db.apply w s) s

@[simp] theorem applyAll_nil (s : S) : db.applyAll [] s = s := rfl

@[simp] theorem applyAll_cons (w : W) (ws : List W) (s : S) :
    db.applyAll (w :: ws) s = db.applyAll ws (db.apply w s) := rfl

theorem applyAll_append (ws vs : List W) (s : S) :
    db.applyAll (ws ++ vs) s = db.applyAll vs (db.applyAll ws s) := by
  simp [applyAll, List.foldl_append]

/-- The keys a list of writes locks. -/
def locksOf (ws : List W) : List κ := ws.flatMap db.locks

/-- Writes admitted one after another by a set of present keys. -/
def AdmissibleFrom : (κ → Prop) → List W → Prop
  | _, [] => True
  | P, w :: ws =>
      (∀ x ∈ db.adds w, ¬ P x) ∧ (∀ x ∈ db.needs w, P x) ∧
        AdmissibleFrom (fun x => P x ∨ x ∈ db.adds w) ws

/-- Writes that violate no key of the store. -/
def Admissible (s : S) (ws : List W) : Prop := db.AdmissibleFrom (fun x => db.present s x = true) ws

/-- What a database promises about keys. -/
structure Lawful : Prop where
  present_apply : ∀ w s, (∀ x ∈ db.adds w, ¬ db.present s x = true) → ∀ x,
    db.present (db.apply w s) x = true ↔ db.present s x = true ∨ x ∈ db.adds w
  adds_locks : ∀ w, ∀ x ∈ db.adds w, x ∈ db.locks w
  exec_admissible : ∀ {β : Type} {q : Q β} {c s r ws},
    db.exec q c s = .ok (r, ws) → db.Admissible s ws

variable {db}

theorem admissibleFrom_append {P : κ → Prop} {ws vs : List W} :
    db.AdmissibleFrom P (ws ++ vs) ↔
      db.AdmissibleFrom P ws ∧ db.AdmissibleFrom (fun x => P x ∨ x ∈ ws.flatMap db.adds) vs := by
  induction ws generalizing P with
  | nil => simp [AdmissibleFrom]
  | cons w ws ih =>
      simp only [List.cons_append, AdmissibleFrom, ih, List.flatMap_cons, List.mem_append, or_assoc,
        and_assoc]

/-- Admission depends on the keys that the writes lock or need. -/
theorem AdmissibleFrom.transfer (hdb : db.Lawful) {ws : List W} {P P' : κ → Prop}
    (h : db.AdmissibleFrom P ws) (hle : ∀ x, P x → P' x)
    (hlock : ∀ x ∈ db.locksOf ws, P' x → P x) : db.AdmissibleFrom P' ws := by
  induction ws generalizing P P' with
  | nil => trivial
  | cons w ws ih =>
      obtain ⟨hadd, hneed, hrest⟩ := h
      have hw : ∀ x ∈ db.locks w, P' x → P x := fun x hx => hlock x (by simp [locksOf, hx])
      refine ⟨fun x hx hP => hadd x hx (hw x (hdb.adds_locks w x hx) hP),
        fun x hx => hle x (hneed x hx), ih hrest ?_ ?_⟩
      · rintro x (hP | hx)
        · exact Or.inl (hle x hP)
        · exact Or.inr hx
      · rintro x hx (hP | hadd')
        · exact Or.inl (hlock x (by simp only [locksOf, List.flatMap_cons, List.mem_append];
                                    exact Or.inr hx) hP)
        · exact Or.inr hadd'

/-- The first of some admitted writes leaves the others admitted. -/
theorem admissible_cons (hdb : db.Lawful) {s : S} {w : W} {ws : List W} :
    db.Admissible s (w :: ws) ↔ (∀ x ∈ db.adds w, ¬ db.present s x = true) ∧
      (∀ x ∈ db.needs w, db.present s x = true) ∧ db.Admissible (db.apply w s) ws := by
  unfold Admissible
  refine and_congr_right fun hadd => and_congr_right fun _ => ?_
  simp only [hdb.present_apply w s hadd]

theorem present_applyAll (hdb : db.Lawful) {ws : List W} {s : S} (hw : db.Admissible s ws)
    (x : κ) : db.present (db.applyAll ws s) x = true ↔
      db.present s x = true ∨ x ∈ ws.flatMap db.adds := by
  induction ws generalizing s with
  | nil => simp
  | cons w ws ih =>
      obtain ⟨hadd, _, hrest⟩ := (admissible_cons hdb).mp hw
      rw [applyAll_cons, ih hrest, hdb.present_apply w s hadd, List.flatMap_cons, List.mem_append,
        or_assoc]

theorem adds_subset_locksOf (hdb : db.Lawful) {ws : List W} {x : κ}
    (hx : x ∈ ws.flatMap db.adds) : x ∈ db.locksOf ws := by
  obtain ⟨w, hw, hxw⟩ := List.mem_flatMap.mp hx
  exact List.mem_flatMap.mpr ⟨w, hw, hdb.adds_locks w x hxw⟩

/-- A key that admissible writes add was not there before. -/
theorem AdmissibleFrom.absent {ws : List W} {P : κ → Prop} (h : db.AdmissibleFrom P ws) {w : W}
    (hw : w ∈ ws) {x : κ} (hx : x ∈ db.adds w) : ¬ P x := by
  induction ws generalizing P with
  | nil => cases hw
  | cons v ws ih =>
      obtain ⟨hadds, -, hrest⟩ := h
      rcases List.mem_cons.mp hw with rfl | hw
      · exact hadds x hx
      · exact fun hP => ih hrest hw (Or.inl hP)

theorem Admissible.absent {s : S} {ws : List W} (h : db.Admissible s ws) {w : W} (hw : w ∈ ws)
    {x : κ} (hx : x ∈ db.adds w) : ¬ db.present s x = true :=
  AdmissibleFrom.absent h hw hx

/-- Writes executed on a view join the writes before them. -/
theorem admissible_append (hdb : db.Lawful) {s : S} {ws vs : List W} (hw : db.Admissible s ws)
    (hv : db.Admissible (db.applyAll ws s) vs) : db.Admissible s (ws ++ vs) := by
  unfold Admissible at *
  refine admissibleFrom_append.mpr ⟨hw, ?_⟩
  simpa only [present_applyAll hdb hw] using hv

/-- Writes that were admitted one after another, cut in two. -/
theorem Admissible.of_append (hdb : db.Lawful) {s : S} {ws vs : List W}
    (h : db.Admissible s (ws ++ vs)) :
    db.Admissible s ws ∧ db.Admissible (db.applyAll ws s) vs := by
  obtain ⟨hw, hv⟩ := admissibleFrom_append.mp h
  refine ⟨hw, ?_⟩
  unfold Admissible
  simpa only [present_applyAll hdb hw] using hv

/-- Writes that were admitted one after another, the first by itself. -/
theorem Admissible.of_cons (hdb : db.Lawful) {s : S} {w : W} {ws : List W}
    (h : db.Admissible s (w :: ws)) :
    db.Admissible s [w] ∧ db.Admissible (db.apply w s) ws :=
  of_append hdb (show db.Admissible s ([w] ++ ws) from h)

/-- Admitted writes stay admitted when writes with disjoint locks are committed
below them. -/
theorem admissible_applyAll (hdb : db.Lawful) {s : S} {ws vs : List W} (hw : db.Admissible s ws)
    (hv : db.Admissible s vs) (hd : List.Disjoint (db.locksOf vs) (db.locksOf ws)) :
    db.Admissible (db.applyAll vs s) ws := by
  refine AdmissibleFrom.transfer hdb hw (fun x hx => ?_) (fun x hx hp => ?_)
  · exact (present_applyAll hdb hv x).mpr (Or.inl hx)
  · rcases (present_applyAll hdb hv x).mp hp with hs | hv
    · exact hs
    · exact absurd hx (hd (adds_subset_locksOf hdb hv))

/-! ## Constraints -/

/-- The first problem that some writes have, one after another. -/
def firstViolation {E : Type} (violation : S → W → Option E) (apply : W → S → S) :
    S → List W → Option E
  | _, [] => none
  | s, w :: ws =>
      match violation s w with
      | some e => some e
      | none => firstViolation violation apply (apply w s) ws

theorem firstViolation_cons {E : Type} {violation : S → W → Option E} {apply : W → S → S} {s : S}
    {w : W} {ws : List W} : firstViolation violation apply s (w :: ws) = none ↔
      violation s w = none ∧ firstViolation violation apply (apply w s) ws = none := by
  rw [firstViolation]
  cases violation s w <;> simp

@[simp] theorem firstViolation_singleton {E : Type} {violation : S → W → Option E} {apply : W → S → S}
    {s : S} {w : W} : firstViolation violation apply s [w] = violation s w := by
  rw [firstViolation]
  cases violation s w <;> rfl

/-- Writes without a problem are admitted. -/
theorem admissible_of_violations {E : Type} {violation : S → W → Option E}
    (hpresent : ∀ w s, (∀ x ∈ db.adds w, ¬ db.present s x = true) → ∀ x,
      db.present (db.apply w s) x = true ↔ db.present s x = true ∨ x ∈ db.adds w)
    (hviolation : ∀ s w, violation s w = none →
      (∀ x ∈ db.adds w, ¬ db.present s x = true) ∧ ∀ x ∈ db.needs w, db.present s x = true)
    {ws : List W} {s : S} (h : firstViolation violation db.apply s ws = none) :
    db.Admissible s ws := by
  suffices hs : ∀ P : κ → Prop, (∀ x, P x ↔ db.present s x = true) → db.AdmissibleFrom P ws from
    hs _ fun _ => Iff.rfl
  induction ws generalizing s with
  | nil => exact fun _ _ => trivial
  | cons w ws ih =>
      intro P hP
      obtain ⟨hw, hws⟩ := firstViolation_cons.mp h
      obtain ⟨hadds, hneeds⟩ := hviolation s w hw
      refine ⟨fun x hx hpx => hadds x hx ((hP x).mp hpx), fun x hx => (hP x).mpr (hneeds x hx),
        ih hws _ fun x => ?_⟩
      rw [hP, hpresent w s hadds]

end Database

end Txn
