import LedgerCredit.Txn.Rules

/-!
# Reactions

Some transactions are run only as the reaction to a failure: an error handler
marks what failed.  `Reactions` says what the failure of a transaction reports,
and which transactions are run after which report.  A process *reacts* if it
runs such a transaction only when the transaction right before it failed with
that report.

*Runs.*  What is reported once is met from then on.  If that is so of every
rollback, every thread that is about to react reacts to what is met
(`reacts_step`).

*Safety.*  A process that reacts keeps to rules that allow its transactions by
what every move keeps (`safe_of_reacts`), pools included.
-/

namespace Txn

variable {Q : Type → Type} {L : Type → Type 1} {ε S W C κ ι K ρ γ τ δ : Type} {α β : Type}

/-- What failures report, and what is run after a report. -/
structure Reactions (L : Type → Type 1) (δ : Type) where
  /-- What the failure of a transaction reports. -/
  reports : {β : Type} → L β → Option δ
  /-- The transactions that are run whatever happened before. -/
  always : {β : Type} → L β → Prop
  /-- The transactions that are run right after a report. -/
  after : {β : Type} → δ → L β → Prop

namespace Reactions

variable (D : Reactions L δ)

/-- The transaction may be run after the report. -/
def Allows (d : Option δ) {β : Type} (l : L β) : Prop := D.always l ∨ ∃ x, d = some x ∧ D.after x l

end Reactions

/-- The process runs only transactions that are allowed by the report before them, where `d` is
the report before the first one. -/
def Proc.Reacts (D : Reactions L δ) : {α : Type} → Proc L ε ι α → Option δ → Prop
  | _, .pure _, _ => True
  | _, .throw _, _ => True
  | _, .call l k, d => D.Allows d l ∧ (∀ e, (k (.error e)).Reacts D (D.reports l)) ∧
      ∀ b, (k (.ok b)).Reacts D none
  | _, .all _ _ body k, _ => (∀ id, (body id).Reacts D none) ∧ ∀ r, (k r).Reacts D none

namespace Proc.Reacts

variable {D : Reactions L δ} {d : Option δ}

/-- What is run without a report is run after any. -/
theorem weaken {p : Proc L ε ι α} (hp : p.Reacts D none) (d : Option δ) : p.Reacts D d := by
  cases p with
  | pure a => trivial
  | throw e => trivial
  | call l k =>
      obtain ⟨hl | ⟨x, hx, -⟩, hk⟩ := hp
      · exact ⟨Or.inl hl, hk⟩
      · cases hx
  | all n ids body k => exact hp

theorem bind {p : Proc L ε ι α} {f : α → Proc L ε ι β} (hp : p.Reacts D d)
    (hf : ∀ a, (f a).Reacts D none) : (p >>= f).Reacts D d := by
  induction p generalizing d with
  | pure a => exact (hf a).weaken d
  | throw e => trivial
  | call l k ih => exact ⟨hp.1, fun e => ih _ (hp.2.1 e) hf, fun b => ih _ (hp.2.2 b) hf⟩
  | all n ids body k _ ih => exact ⟨hp.1, fun r => ih r (hp.2 r) hf⟩

theorem transaction {l : L α} (hl : D.Allows d l) :
    (Proc.transaction l : Proc L ε ι α).Reacts D d :=
  ⟨hl, fun _ => trivial, fun _ => trivial⟩

/-- A transaction with a handler for its failure. -/
theorem handled {l : L α} {f : ε → Proc L ε ι α} (hl : D.always l)
    (hf : ∀ e, (f e).Reacts D (D.reports l)) : ((Proc.transaction l).orElse f).Reacts D d :=
  ⟨Or.inl hl, hf, fun _ => trivial⟩

theorem pool {n : Nat} {ids : List ι} {body : ι → Proc L ε ι Unit}
    (hbody : ∀ id, (body id).Reacts D none) : (Proc.pool n ids body).Reacts D d := by
  refine ⟨hbody, fun r => ?_⟩
  cases r with
  | error e => trivial
  | ok u => trivial

end Proc.Reacts

/-! ## Runs -/

section Runs

variable (D : Reactions L δ) (met : S → δ → Prop)

/-- The thread reacts, and the report that it is about to react to is met. -/
def Code.Reacts (s : S) : Code Q L ε W ι ρ → Prop
  | .run p => ∃ d, (∀ x, d = some x → met s x) ∧ p.Reacts D d
  | .opened l _ _ k => ∃ d, (∀ x, d = some x → met s x) ∧ (Proc.call l k).Reacts D d
  | .await _ k => ∀ r, (k r).Reacts D none

/-- Every thread reacts, and so do the items of the pools. -/
structure Config.Reacts (c : Config Q L ε S W ι K ρ) : Prop where
  thread : ∀ th ∈ c.threads, th.code.Reacts D met c.store
  pool : ∀ pl ∈ c.pools, ∀ id, (pl.body id).Reacts D none

variable {D met} {c c' : Config Q L ε S W ι K ρ}

theorem reacts_initial (s : S) : (Config.initial s : Config Q L ε S W ι K ρ).Reacts D met where
  thread := by simp [Config.initial]
  pool := by simp [Config.initial]

theorem Code.Reacts.move {s s' : S} (h : ∀ x, met s x → met s' x) {code : Code Q L ε W ι ρ}
    (hc : code.Reacts D met s) : code.Reacts D met s' := by
  cases code with
  | run p =>
      obtain ⟨d, hd, hp⟩ := hc
      exact ⟨d, fun x hx => h x (hd x hx), hp⟩
  | opened l hist t k =>
      obtain ⟨d, hd, hp⟩ := hc
      exact ⟨d, fun x hx => h x (hd x hx), hp⟩
  | await n k => exact hc

theorem Code.reacts_run {p : Proc L ε ι ρ} {s : S} (hp : p.Reacts D none) :
    (.run p : Code Q L ε W ι ρ).Reacts D met s := ⟨none, nofun, hp⟩

/-- A thread inside a transaction reacts to what is met. -/
theorem Config.Reacts.allows (h : c.Reacts D met) {i : Nat} {call : K} {pool : Option Nat}
    {l : L β} {hist : List (Event Q W)} {t : Tx Q ε β} {k : Except ε β → Proc L ε ι ρ}
    (hth : c.threads[i]? = some ⟨call, pool, .opened l hist t k⟩) :
    D.always l ∨ ∃ x, met c.store x ∧ D.after x l := by
  obtain ⟨d, hd, hp⟩ := h.thread _ (List.mem_of_getElem? hth)
  exact hp.1.imp id fun ⟨x, hx, hafter⟩ => ⟨x, hd x hx, hafter⟩

variable [DecidableEq κ] {sys : System Q L ε S W C κ ι K ρ} {a : Action C K}

/-- A step keeps the threads reacting, if what a rollback reports is met and what is met stays
met. -/
theorem reacts_step (hprogram : ∀ call, a = .start call → (sys.program call).Reacts D none)
    (hmet : ∀ x, met c.store x → met c'.store x)
    (hreport : ∀ {i : Nat} {call : K} {pool : Option Nat} {β : Type} {l : L β}
      {h : List (Event Q W)} {t : Tx Q ε β} {k : Except ε β → Proc L ε ι ρ} {e : ε},
      c.threads[i]? = some ⟨call, pool, .opened l h t k⟩ → Fails sys c i h t a e →
      ∀ x, D.reports l = some x → met c.store x)
    (hc : c.Reacts D met) (hstep : sys.step c a = some c') : c'.Reacts D met := by
  have hold : ∀ {i : Nat} {call : K} {pool : Option Nat} {code : Code Q L ε W ι ρ},
      c.threads[i]? = some ⟨call, pool, code⟩ → code.Reacts D met c.store :=
    fun hth => hc.thread _ (List.mem_of_getElem? hth)
  have hset : ∀ {s : S} {i : Nat} {call : K} {pool : Option Nat} {code : Code Q L ε W ι ρ},
      (∀ x, met c.store x → met s x) → code.Reacts D met s →
      ∀ th ∈ c.threads.set i ⟨call, pool, code⟩, th.code.Reacts D met s :=
    fun hs hcode th hmem => by
      rcases List.mem_or_eq_of_mem_set hmem with hmem | rfl
      · exact (hc.thread th hmem).move hs
      · exact hcode
  cases step_cases hstep with
  | start call =>
      refine ⟨List.forall_mem_append.mpr ⟨hc.thread, List.forall_mem_singleton.mpr ?_⟩, hc.pool⟩
      exact Code.reacts_run (hprogram call rfl)
  | crash => exact ⟨by simp, by simp⟩
  | begin hth =>
      have hcode := hold hth
      exact ⟨hset (fun _ h => h) hcode, hc.pool⟩
  | statement hth _ _ =>
      have hcode := hold hth
      exact ⟨hset (fun _ h => h) hcode, hc.pool⟩
  | rollback hth hfails =>
      obtain ⟨d, -, hp⟩ := hold hth
      exact ⟨hset (fun _ h => h) ⟨_, hreport hth hfails, hp.2.1 _⟩, hc.pool⟩
  | commit hth =>
      obtain ⟨d, -, hp⟩ := hold hth
      exact ⟨hset hmet (Code.reacts_run (hp.2.2 _)), hc.pool⟩
  | @fork i ch call pool n ids body k hth =>
      obtain ⟨d, -, hp⟩ := hold hth
      refine ⟨List.forall_mem_append.mpr ⟨hset (fun _ h => h) hp.2, fun th hmem => ?_⟩,
        List.forall_mem_append.mpr ⟨hc.pool, List.forall_mem_singleton.mpr hp.1⟩⟩
      obtain ⟨-, rfl⟩ := List.mem_replicate.mp hmem
      exact Code.reacts_run (p := .pure sys.idle) trivial
  | take hth hpool =>
      have hbody := hc.pool _ (List.mem_of_getElem? hpool)
      refine ⟨hset (fun _ h => h) (Code.reacts_run ((hbody _).bind fun _ => trivial)),
        fun pl hmem => ?_⟩
      rcases List.mem_or_eq_of_mem_set hmem with hmem | rfl
      · exact hc.pool pl hmem
      · exact hbody
  | resume hth _ => exact ⟨hset (fun _ h => h) (Code.reacts_run (hold hth _)), hc.pool⟩

end Runs

/-! ## Safety -/

namespace Rules

variable {sys : System Q L ε S W C κ ι K ρ} {R : Rules sys γ τ} {D : Reactions L δ}

/-- A process that reacts is safe where its transactions are allowed by what every move keeps. -/
theorem safe_of_reacts {P : S → Prop} (hP : ∀ s s', R.le s s' → P s → P s')
    (hpre : ∀ {β : Type} (s : S) (T : Set τ) (d : Option δ) (l : L β), D.Allows d l → P s →
      R.pre s T l) {p : Proc L ε ι α} :
    ∀ {d : Option δ} {s : S} {T : Set τ}, p.Reacts D d → P s →
      R.Safe p (fun _ _ _ => True) (fun _ _ _ => True) s T := by
  induction p with
  | pure a => exact fun _ _ => trivial
  | throw e => exact fun _ _ => trivial
  | call l k ih =>
      intro d s T hp hs s' hmove
      have hs' := hP _ _ hmove.le hs
      exact ⟨hpre s' T d l hp.1 hs', fun e => ih _ (hp.2.1 e) hs',
        fun a s'' T'' _ hle _ => ih _ (hp.2.2 a) (hP _ _ hle hs')⟩
  | all n ids body k hbody ih =>
      intro d s T hp hs s' hmove
      have hs' := hP _ _ hmove.le hs
      exact ⟨T, fun _ => ∅, Set.Subset.refl T,
        fun _ => ⟨Set.empty_subset _, Set.empty_disjoint _⟩, fun _ _ _ => Set.empty_disjoint _,
        fun _ id _ _ => hbody id (hp.1 id) hs',
        fun r s'' hmove' => ih r (hp.2 r) (hP _ _ hmove'.le hs')⟩

end Rules

end Txn
