import LedgerCredit.Txn.Family

/-!
# Services that share tables

Two services with statements and writes of their own may work on the same tables.  A database for
both has the statements and the writes of either, and each service is carried over to it.

*Transactions.*  `Tx.lift` sends the statements of a transaction as statements of the other
database.  What is true of them is true of every event of its history (`Path.sends`).

*Keys.*  Writes that the keys of one service admit are admitted by the keys of both, if these know
the keys of the service (`AdmissibleFrom.map`).

*Processes.*  A process that runs transactions of its own service keeps to rules that allow all of
them, as long as something is known that every move keeps (`Safe.relabel`).
-/

namespace Txn

variable {Q Q' : Type → Type} {ε W W' α β : Type}

/-! ## Transactions -/

/-- The transaction with its statements sent to another database. -/
def Tx.lift (f : ∀ {β : Type}, Q β → Q' β) : Tx Q ε α → Tx Q' ε α
  | .pure a => .pure a
  | .throw e => .throw e
  | .query q k => .query (f q) fun r => (k r).lift f

/-- All statements of the transaction are in `p`. -/
inductive Tx.Sends (p : ∀ {β : Type}, Q β → Prop) : Tx Q ε α → Prop where
  | pure {a : α} : Sends p (.pure a)
  | throw {e : ε} : Sends p (.throw e)
  | query {β : Type} {q : Q β} {k : β → Tx Q ε α} :
      p q → (∀ r, Sends p (k r)) → Sends p (.query q k)

theorem Path.sends {p : ∀ {β : Type}, Q β → Prop} {t u : Tx Q ε α} {h : List (Event Q W)}
    (hpath : Path t h u) (ht : t.Sends p) : ∀ e ∈ h, p e.query := by
  induction hpath with
  | nil => simp
  | cons _ ih =>
      cases ht with
      | query hq hk => exact List.forall_mem_cons.mpr ⟨hq, ih (hk _)⟩

/-! ## Keys -/

section Keys

variable {S S' C C' κ κ' : Type} {db : Database Q ε S W C κ} {db' : Database Q' ε S' W' C' κ'}

theorem Database.AdmissibleFrom.map {f : W → W'} {g : κ → κ'} (hinj : g.Injective)
    (hadds : ∀ w, db'.adds (f w) = (db.adds w).map g)
    (hneeds : ∀ w, db'.needs (f w) = (db.needs w).map g) {ws : List W} :
    ∀ {P : κ → Prop} {P' : κ' → Prop}, db.AdmissibleFrom P ws → (∀ x, P x → P' (g x)) →
      (∀ x ∈ ws.flatMap db.adds, P' (g x) → P x) → db'.AdmissibleFrom P' (ws.map f) := by
  induction ws with
  | nil => exact fun _ _ _ => trivial
  | cons w ws ih =>
      intro P P' h hle hback
      obtain ⟨hadd, hneed, hrest⟩ := h
      have hhead : ∀ x ∈ db.adds w, P' (g x) → P x := fun x hx =>
        hback x (List.mem_flatMap.mpr ⟨w, List.mem_cons_self, hx⟩)
      rw [List.map_cons]
      refine ⟨?_, ?_, ih hrest ?_ ?_⟩
      · rw [hadds]
        exact List.forall_mem_map.mpr fun x hx hP => hadd x hx (hhead x hx hP)
      · rw [hneeds]
        exact List.forall_mem_map.mpr fun x hx => hle x (hneed x hx)
      · rintro x (hP | hx)
        · exact Or.inl (hle x hP)
        · exact Or.inr (hadds w ▸ List.mem_map_of_mem hx)
      · rintro x hx (hP | hx')
        · refine Or.inl (hback x ?_ hP)
          rw [List.flatMap_cons]
          exact List.mem_append_right _ hx
        · rw [hadds] at hx'
          exact Or.inr ((List.mem_map_of_injective hinj).mp hx')

end Keys

/-! ## Processes -/

theorem Rules.Safe.relabel {L L' : Type → Type 1} {S C κ ι K ρ γ τ : Type}
    {sys : System Q L ε S W C κ ι K ρ} {R : Rules sys γ τ} {f : ∀ {β : Type}, L' β → L β}
    {P : S → Prop} (hP : ∀ s s', R.le s s' → P s → P s')
    (hpre : ∀ {β : Type} (s : S) (T : Set τ) (l : L' β), P s → R.pre s T (f l))
    (x : Proc L' ε ι α) : ∀ {s : S} {T : Set τ}, P s →
      R.Safe (x.relabel f) (fun _ _ _ => True) (fun _ _ _ => True) s T := by
  induction x with
  | pure a => exact fun _ => trivial
  | throw e => exact fun _ => trivial
  | call l k ih =>
      intro s T hs s' hmove
      have hs' := hP _ _ hmove.le hs
      exact ⟨hpre s' T l hs', fun e => ih _ hs', fun a s'' T'' _ hle _ => ih _ (hP _ _ hle hs')⟩
  | all n ids body k hbody hk =>
      intro s T hs s' hmove
      have hs' := hP _ _ hmove.le hs
      exact ⟨∅, fun _ => ∅, Set.empty_subset _, by simp, by simp,
        fun _ id _ _ => hbody id hs', fun r s'' hmove' => hk r (hP _ _ hmove'.le hs')⟩

end Txn
