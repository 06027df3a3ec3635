import LedgerCredit.Processes

/-!
# How a batch run shares out its accounts

A batch run goes through its accounts once.  The accounts without a ledger account go to
a worker pool, the others to the chunks one after another, and when a chunk fails its
accounts go to a pool.  No account is handled in two places.

`Shares` is what rules with tokens have to grant to a run that owns a *share* for each of
its accounts and holds them *free*: it may process them, and while it owns a share nobody
else changes whether the account is free.  `processBatchRunAccounts_safe` shows that
nothing more is needed.
-/

namespace LedgerCredit

open Txn

namespace BatchService

/-- A run owns the share of an account, and the account is free. -/
def Held {τ : Type} (share : Uuid → Set τ) (free : BatchAccountSnapshot → Store → Prop) (s : Store)
    (T : Set τ) (x : BatchAccountSnapshot) : Prop := share x.id ⊆ T ∧ free x s

/-- Rules that let the owner of the shares of some accounts process them in a batch run. -/
structure Shares {γ τ : Type} {env : Env} (R : Rules (server env) γ τ) (s₀ : Store)
    (batchRunId : Uuid) (share : Uuid → Set τ) (free : BatchAccountSnapshot → Store → Prop) :
    Prop where
  disjoint : ∀ {a a' : Uuid}, a ≠ a' → Disjoint (share a) (share a')
  move : ∀ {s s' : Store} {T : Set τ} {x : BatchAccountSnapshot}, R.Move T s s' →
    Held share free s T x → Held share free s' T x
  item : ∀ {s : Store} {T : Set τ} {x : BatchAccountSnapshot}, Held share free s T x →
    R.pre s T (.processBatchItem batchRunId x.id)
  failed : ∀ {s : Store} {T : Set τ} {x : BatchAccountSnapshot} (message : String),
    Held share free s T x → R.pre s T (.statement (.updateBatchRunItemOf batchRunId "account" x.id
      { status := .failed, lastError := some (some message) }))
  chunk : ∀ {s : Store} {T : Set τ} {accounts : List BatchAccountSnapshot}
    {interestRevenueAccountIds : List (String × Uuid)},
    s₀.Grounded accounts interestRevenueAccountIds → (∀ x ∈ accounts, Held share free s T x) →
    R.pre s T (.processBatchChunk batchRunId accounts interestRevenueAccountIds)
  others : ∀ {s s' : Store} {T T' : Set τ} {accounts : List BatchAccountSnapshot}
    {interestRevenueAccountIds : List (String × Uuid)} {u : Unit} {x : BatchAccountSnapshot},
    R.post s T (.processBatchChunk batchRunId accounts interestRevenueAccountIds) u s' T' →
    x.id ∉ accounts.map (·.id) → Held share free s T x → Held share free s' T' x
  load : ∀ {s : Store} {T : Set τ} (currencies : List String),
    R.pre s T (.statement (.findLedgerAccountsIn .interestRevenue currencies))
  loaded : ∀ {s s' : Store} {T T' : Set τ} {currencies : List String} {r : List LedgerAccount},
    R.post s T (.statement (.findLedgerAccountsIn .interestRevenue currencies)) r s' T' →
    (∀ l ∈ r, l ∈ s₀.ledgerAccounts.rows ∧ l.category = .interestRevenue) ∧
      ∀ x, Held share free s T x → Held share free s' T' x

section Shares

variable {γ τ : Type} {env : Env} {R : Rules (server env) γ τ} {s₀ : Store} {batchRunId : Uuid}
  {share : Uuid → Set τ} {free : BatchAccountSnapshot → Store → Prop} {s : Store} {T : Set τ}
  {accounts : List BatchAccountSnapshot}

theorem processBatchItem_safe (hR : Shares R s₀ batchRunId share free) {x : BatchAccountSnapshot}
    (hx : Held share free s T x) :
    R.Safe (processBatchItem env batchRunId x.id) (fun _ _ _ => True) (fun _ _ _ => True) s T := by
  refine .orElse (.transaction (fun s' hmove => hR.item (hR.move hmove hx))
    (fun s' hmove error => ?_) fun _ _ _ _ _ _ _ _ => trivial)
  -- the transaction wrote nothing, so the account is still free
  have hx' := hR.move hmove hx
  exact .transaction (fun s'' hmove' => hR.failed _ (hR.move hmove' hx')) (fun _ _ _ => trivial)
    fun _ _ _ _ _ _ _ _ => trivial

/-- The workers process their accounts, and the run holds the others as before. -/
theorem processBatchItems_safe (hR : Shares R s₀ batchRunId share free)
    (others : List BatchAccountSnapshot) (hnodup : (accounts.map (·.id)).Nodup)
    (hheld : ∀ x ∈ accounts, Held share free s T x)
    (hothers : ∀ y ∈ others, y.id ∉ accounts.map (·.id) ∧ Held share free s T y) :
    R.Safe (processBatchItems env batchRunId (accounts.map (·.id)))
      (fun _ s T => ∀ y ∈ others, Held share free s T y) (fun _ _ _ => True) s T := by
  unfold processBatchItems
  split
  · exact fun y hy => (hothers y hy).2
  · refine .share (f := share) (fun id hid => ?_) ?_ (fun id hid s' hmove => ?_)
      (fun _ _ _ _ _ _ _ => trivial) fun s' s'' T₀ hmove hmove' hT₀ y hy => ?_
    · obtain ⟨x, hx, rfl⟩ := List.mem_map.mp hid
      exact (hheld x hx).1
    · exact hnodup.imp fun hne => hR.disjoint hne
    · obtain ⟨x, hx, rfl⟩ := List.mem_map.mp hid
      exact processBatchItem_safe hR ⟨Set.Subset.refl _, (hR.move hmove (hheld x hx)).2⟩
    · obtain ⟨hne, hy⟩ := hothers y hy
      refine hR.move hmove' ⟨fun t ht => ?_, (hR.move hmove hy).2⟩
      rw [hT₀]
      refine ⟨hy.1 ht, ?_⟩
      rintro ⟨id, hid, ht'⟩
      have hdisjoint : Disjoint (share y.id) (share id) :=
        hR.disjoint fun heq => hne (heq ▸ hid)
      exact Set.disjoint_left.mp hdisjoint ht ht'

/-- The chunks are processed one after another, each with its own accounts. -/
theorem processChunks_safe (hR : Shares R s₀ batchRunId share free)
    {interestRevenueAccountIds : List (String × Uuid)} {chunks : List (List BatchAccountSnapshot)}
    (hnodup : (chunks.flatten.map (·.id)).Nodup)
    (hground : ∀ chunk ∈ chunks, s₀.Grounded chunk interestRevenueAccountIds)
    (hheld : ∀ x ∈ chunks.flatten, Held share free s T x) :
    R.Safe (processChunks env batchRunId interestRevenueAccountIds chunks) (fun _ _ _ => True)
      (fun _ _ _ => True) s T := by
  induction chunks generalizing s T with
  | nil => trivial
  | cons chunk rest ih =>
      rw [List.flatten_cons, List.map_append] at hnodup
      obtain ⟨hchunk, hrest, hapart⟩ := List.nodup_append.mp hnodup
      obtain ⟨hgroundChunk, hgroundRest⟩ := List.forall_mem_cons.mp hground
      rw [List.flatten_cons] at hheld
      obtain ⟨hheldChunk, hheldRest⟩ := List.forall_mem_append.mp hheld
      have hne : ∀ y ∈ rest.flatten, y.id ∉ chunk.map (·.id) := fun y hy hmem =>
        hapart _ hmem _ (List.mem_map_of_mem hy) rfl
      -- the chunk, or its accounts one by one, leaves the other accounts to the run
      have hfirst : R.Safe ((Proc.transaction (.processBatchChunk batchRunId chunk
            interestRevenueAccountIds)).orElse fun _ =>
              processBatchItems env batchRunId (chunk.map (·.id)))
          (fun _ s T => ∀ y ∈ rest.flatten, Held share free s T y) (fun _ _ _ => True) s T := by
        refine .orElse (.transaction (fun s' hmove => ?_) (fun s' hmove e => ?_)
          fun s' hmove u s'' T'' _ _ hpost => ?_)
        · exact hR.chunk hgroundChunk fun x hx => hR.move hmove (hheldChunk x hx)
        · exact processBatchItems_safe hR rest.flatten hchunk
            (fun x hx => hR.move hmove (hheldChunk x hx))
            fun y hy => ⟨hne y hy, hR.move hmove (hheldRest y hy)⟩
        · exact fun y hy => hR.others hpost (hne y hy) (hR.move hmove (hheldRest y hy))
      exact .bind (.mono (fun _ _ _ hnext => ih hrest hgroundRest hnext) (fun _ _ _ _ => trivial)
        hfirst)

theorem flatten_chunks {α : Type} (size n : Nat) (l : List α) :
    (chunks size n l).flatten <+: l := by
  induction n generalizing l with
  | zero => exact List.nil_prefix
  | succ n ih =>
      cases l with
      | nil => exact List.nil_prefix
      | cons a l =>
          simp only [chunks, List.flatten_cons]
          obtain ⟨rest, hrest⟩ := ih ((a :: l).drop size)
          exact ⟨rest, by rw [List.append_assoc, hrest, List.take_append_drop]⟩

/-- A batch run handles each account that it holds in one place only. -/
theorem processBatchRunAccounts_safe (hR : Shares R s₀ batchRunId share free)
    (hnodup : (accounts.map (·.id)).Nodup) (hsnapshot : ∀ x ∈ accounts, ∃ a, s₀.SnapshotOf x a)
    (hheld : ∀ x ∈ accounts, Held share free s T x) :
    R.Safe (processBatchRunAccounts env batchRunId accounts) (fun _ _ _ => True)
      (fun _ _ _ => True) s T := by
  have hapart : ∀ y ∈ accounts.filter (·.ledgerAccountId.isSome),
      y.id ∉ (accounts.filter (·.ledgerAccountId.isNone)).map (·.id) := by
    intro y hy hmem
    obtain ⟨x, hx, hid⟩ := List.mem_map.mp hmem
    obtain ⟨hx, hnone⟩ := List.mem_filter.mp hx
    obtain ⟨hy, hsome⟩ := List.mem_filter.mp hy
    obtain rfl := List.inj_on_of_nodup_map hnodup hx hy hid
    simp_all
  refine .bind (.mono (fun _ s' T' hrest => ?_) (fun _ _ _ _ => trivial)
    (processBatchItems_safe hR (accounts.filter (·.ledgerAccountId.isSome))
      (hnodup.sublist (List.filter_sublist.map _)) (fun x hx => hheld x (List.mem_filter.mp hx).1)
      fun y hy => ⟨hapart y hy, hheld y (List.mem_filter.mp hy).1⟩))
  split
  · trivial
  · refine .bind (.bind (.transaction (fun _ _ => hR.load _) (fun _ _ _ => trivial)
      fun s₁ hmove ledgerAccounts s₂ T₂ _ _ hpost => ?_))
    obtain ⟨hread, hkept⟩ := hR.loaded hpost
    simp only
    split
    · trivial
    · refine processChunks_safe hR ?_ (fun chunk hchunk => ⟨fun x hx => ?_, ?_⟩) fun x hx => ?_
      · exact hnodup.sublist (((flatten_chunks ..).sublist.trans List.filter_sublist).map _)
      · exact hsnapshot x (List.mem_filter.mp (mem_of_mem_chunks hchunk hx)).1
      · intro entry hentry
        obtain ⟨l, hl, rfl⟩ := List.mem_map.mp hentry
        obtain ⟨hmem, hcategory⟩ := hread l hl
        exact ⟨l, hmem, rfl, rfl, hcategory⟩
      · exact hkept x (hR.move hmove (hrest x ((flatten_chunks ..).subset hx)))

end Shares

end BatchService

end LedgerCredit
