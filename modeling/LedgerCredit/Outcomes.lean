import LedgerCredit.TransferEffects
import LedgerCredit.Seed
import LedgerCredit.Txn.Soundness

/-!
# Outcomes of external transfers

A transfer that waits for its rail ends settled or compensated, once.  What
guards this is a plain read of the status, so two events about one transfer that
overlap can both act on it.  On schedules in which no event looks a transfer up
while another open transaction has, the first outcome is the only one.
-/

namespace LedgerCredit

open Txn LedgerService ExternalRailService

/-! ## Statuses and compensations -/

/-- The status of a transfer. -/
def Store.statusOf (s : Store) (id : Uuid) : Option TransferStatus :=
  (s.transferRequests.get? id).map (·.status)

/-- How many entries compensate a transfer. -/
def Store.compensations (s : Store) (id : Uuid) : Nat :=
  s.journalEntries.rows.countP fun e =>
    e.transferRequestId = some id ∧ e.sourceOperationType = "INTERBANK_TRANSFER_COMPENSATION"

/-- The statuses after which a transfer is over. -/
def TransferStatus.final : TransferStatus → Bool
  | .settled | .compensated => true
  | _ => false

variable {s s' : Store} {id : Uuid} {status : TransferStatus}

theorem statusOf_eq_some : s.statusOf id = some status ↔
    ∃ t ∈ s.transferRequests.rows, t.id = id ∧ t.status = status := by
  simp only [Store.statusOf, Option.map_eq_some_iff, Table.get?_eq_some, and_assoc]

theorem statusOf_congr (h : s'.transferRequests = s.transferRequests) :
    s'.statusOf id = s.statusOf id := by
  rw [Store.statusOf, h]
  rfl

/-- A new transfer is another one. -/
theorem statusOf_append {t : TransferRequest}
    (h : s'.transferRequests.rows = s.transferRequests.rows ++ [t])
    (hs : s.statusOf id = some status) : s'.statusOf id = some status ∧ t.id ≠ id := by
  obtain ⟨t₀, ht₀, hid, hstatus⟩ := statusOf_eq_some.mp hs
  refine ⟨statusOf_eq_some.mpr ⟨t₀, h ▸ List.mem_append_left _ ht₀, hid, hstatus⟩, fun hne => ?_⟩
  have hnodup := s'.transferRequests.pk_nodup
  rw [h, List.map_append] at hnodup
  exact (List.nodup_append.mp hnodup).2.2 t₀.id (List.mem_map_of_mem ht₀) t.id
    (List.mem_singleton_self _) (hid.trans hne.symm)

/-- An update of another transfer changes nothing. -/
theorem statusOf_other {id' : Uuid} {f : TransferRequest → TransferRequest}
    (h : s'.transferRequests.rows = s.transferRequests.rows.map fun t => if t.id = id' then f t else t)
    (hne : id ≠ id') (hs : s.statusOf id = some status) : s'.statusOf id = some status := by
  obtain ⟨t, ht, rfl, hstatus⟩ := statusOf_eq_some.mp hs
  refine statusOf_eq_some.mpr ⟨t, h ▸ List.mem_map.mpr ⟨t, ht, if_neg hne⟩, rfl, hstatus⟩

theorem statusOf_changed {f : TransferRequest → TransferRequest}
    (h : s'.transferRequests.rows = s.transferRequests.rows.map fun t => if t.id = id then f t else t)
    (hid : ∀ t, (f t).id = t.id) (hf : ∀ t, (f t).status = status) {old : TransferStatus}
    (hs : s.statusOf id = some old) : s'.statusOf id = some status := by
  obtain ⟨t, ht, heq, -⟩ := statusOf_eq_some.mp hs
  exact statusOf_eq_some.mpr
    ⟨f t, h ▸ List.mem_map.mpr ⟨t, ht, if_pos heq⟩, (hid t).trans heq, hf t⟩

/-! ## The life of a transfer -/

variable {V : View} {env : Env}

/-- The entries compensate a transfer so many times. -/
def compensationsIn (entries : List (JournalEntry × List Posting)) (id : Uuid) : Nat :=
  entries.countP fun e => e.1.transferRequestId = some id ∧
    e.1.sourceOperationType = "INTERBANK_TRANSFER_COMPENSATION"

theorem compensations_append {entries : List (JournalEntry × List Posting)} {ws : List Write}
    (hadm : database.Admissible s ws) (hj : Journalled ws entries) :
    (database.applyAll ws s).compensations id =
      s.compensations id + compensationsIn entries id := by
  rw [Store.compensations, journalEntries_of_journalled hadm hj, List.countP_append,
    List.countP_map]
  rfl

/-- A commit leaves a transfer alone, or it looked the transfer up, found it pending, and ended
it. -/
inductive Lifecycle (V : View) (s s' : Store) (entries : List (JournalEntry × List Posting))
    (id : Uuid) (status : TransferStatus) : Prop where
  | stays : s'.statusOf id = some status → compensationsIn entries id = 0 →
      Lifecycle V s s' entries id status
  | ends {event : NormalizedExternalRailEvent} {found : TransferWithSource}
      {row : ExternalTransferEvent} : Received V event found row → found.transfer.id = id →
      found.transfer.status = .pendingExternal →
      (s'.statusOf id = some .settled ∧ compensationsIn entries id = 0) ∨
        (s'.statusOf id = some .compensated ∧ compensationsIn entries id ≤ 1) →
      Lifecycle V s s' entries id status

theorem truthy_eq_some {o : Option String} {x : String} (h : truthy o = some x) : o = some x := by
  obtain ⟨ho, -⟩ := Option.filter_eq_some_iff.mp h
  exact ho

theorem compensationsIn_eq_zero {entries : List (JournalEntry × List Posting)}
    (h : ∀ e ∈ entries, e.1.transferRequestId ≠ some id) : compensationsIn entries id = 0 := by
  refine List.countP_eq_zero.mpr fun e he => ?_
  simp [h e he]

/-- An entry of another transfer does not count. -/
theorem Moves.other {entry : JournalEntry} {postings : List Posting} {transferId : Uuid}
    {operation : String} {debited credited : Uuid} {amountMinor : Int}
    (h : Moves entry postings transferId operation debited credited amountMinor)
    (hne : transferId ≠ id) : compensationsIn [(entry, postings)] id = 0 := by
  refine compensationsIn_eq_zero (List.forall_mem_singleton.mpr fun heq => hne ?_)
  exact Option.some.inj (truthy_eq_some (h.transfer.symm.trans heq))

theorem TransferEffect.lifecycle {α : Type} {l : Label α} {a : α}
    {entries : List (JournalEntry × List Posting)} (h : TransferEffect V env s s' l a entries)
    (hs : s.statusOf id = some status) : Lifecycle V s s' entries id status := by
  cases h with
  | replayed _ _ _ hsame => exact .stays (hsame ▸ hs) rfl
  | other _ htransfers _ hentries =>
      refine .stays ((statusOf_congr htransfers).trans hs) (compensationsIn_eq_zero fun e he => ?_)
      simp [(hentries e he).transfer]
  | internal hinitiated _ _ _ hmoves =>
      obtain ⟨hstatus, hne⟩ := statusOf_append hinitiated.transferRequests hs
      exact .stays hstatus (hmoves.other hne)
  | external hinitiated _ _ _ _ _ _ _ hmoves =>
      obtain ⟨hstatus, hne⟩ := statusOf_append hinitiated.transferRequests hs
      exact .stays hstatus (hmoves.other hne)
  | @settled _ found _ _ _ hreceived hpending htransfers _ =>
      by_cases hid : id = found.transfer.id
      · subst hid
        exact .ends hreceived rfl hpending
          (Or.inl ⟨statusOf_changed htransfers (fun _ => rfl) (fun _ => rfl) hs, rfl⟩)
      · exact .stays (statusOf_other htransfers hid hs) rfl
  | @compensated _ found _ _ _ _ _ _ hreceived hpending htransfers _ _ _ _ _ hmoves =>
      by_cases hid : id = found.transfer.id
      · subst hid
        exact .ends hreceived rfl hpending (Or.inr
          ⟨statusOf_changed htransfers (fun _ => rfl) (fun _ => rfl) hs, List.countP_le_length⟩)
      · exact .stays (statusOf_other htransfers hid hs) (hmoves.other (Ne.symm hid))

/-! ## One outcome -/

/-- How a transfer that was pending on `s` can stand. -/
inductive Store.Outcome (s s' : Store) (id : Uuid) : Prop where
  | pending : s'.statusOf id = some .pendingExternal →
      s'.compensations id = s.compensations id → Outcome s s' id
  | settled : s'.statusOf id = some .settled →
      s'.compensations id = s.compensations id → Outcome s s' id
  | compensated : s'.statusOf id = some .compensated →
      s'.compensations id ≤ s.compensations id + 1 → Outcome s s' id

/-- A status that is final stays. -/
def Store.KeepsFinal (id : Uuid) (s s' : Store) : Prop :=
  ∀ status, s.statusOf id = some status → status.final = true → s'.statusOf id = some status

theorem Store.Outcome.exists_status (h : s.Outcome s' id) : ∃ status, s'.statusOf id = some status := by
  cases h with
  | pending h _ => exact ⟨_, h⟩
  | settled h _ => exact ⟨_, h⟩
  | compensated h _ => exact ⟨_, h⟩

/-- A commit that acts on the current status leads from one outcome to the next. -/
theorem Store.Outcome.step {s'' : Store} (h : s.Outcome s' id)
    {entries : List (JournalEntry × List Posting)} (hstatus : s'.statusOf id = some status)
    (hlife : Lifecycle V s' s'' entries id status)
    (hcomp : s''.compensations id = s'.compensations id + compensationsIn entries id)
    (hcur : ∀ event found row, Received V event found row → found.transfer.id = id →
      s'.statusOf id = some found.transfer.status) :
    s.Outcome s'' id ∧ s'.KeepsFinal id s'' := by
  cases hlife with
  | stays hstays hzero =>
      rw [hzero, add_zero] at hcomp
      have hsame : ∀ status', s'.statusOf id = some status' → s''.statusOf id = some status' :=
        fun status' hs' => hstays.trans (hstatus.symm.trans hs')
      refine ⟨?_, fun status' hs' _ => hsame status' hs'⟩
      cases h with
      | pending hs' h => exact .pending (hsame _ hs') (hcomp.trans h)
      | settled hs' h => exact .settled (hsame _ hs') (hcomp.trans h)
      | compensated hs' h => exact .compensated (hsame _ hs') (hcomp.le.trans h)
  | ends hreceived hfound hpending hends =>
      have hnow := hcur _ _ _ hreceived hfound
      rw [hpending] at hnow
      have hcount : s'.compensations id = s.compensations id := by
        cases h with
        | pending _ h => exact h
        | settled hs' _ => exact nomatch hnow.symm.trans hs'
        | compensated hs' _ => exact nomatch hnow.symm.trans hs'
      constructor
      · rcases hends with ⟨hs'', hzero⟩ | ⟨hs'', hone⟩
        · exact .settled hs'' (by omega)
        · exact .compensated hs'' (by omega)
      · intro status' hs' hfinal
        obtain rfl := Option.some.inj (hnow.symm.trans hs')
        cases hfinal

/-- The transfer that a statement looked up. -/
def lookedUp : Event Stmt Write → Option TransferRequest
  | ⟨.findFirstTransferRequest .., r, _⟩ => r.map (·.transfer)
  | _ => none

/-- The guard of the lookups of a transfer. -/
def looks (id : Uuid) (e : Event Stmt Write) : List Unit :=
  if (lookedUp e).any (fun t => t.id = id) then [()] else []

/-- Schedules in which nobody looks up the transfer while an open transaction has. -/
def exclusiveLookups (env : Env) (id : Uuid) (c : ServerConfig) (a : Action Choice Call) : Bool :=
  (server env).Exclusive (looks id) c a

theorem lookedUp_exec {α : Type} {q : Stmt α} {ch : Choice} {r : α} {ws : List Write}
    {t : TransferRequest} (hexec : s.exec q ch = .ok (r, ws))
    (h : lookedUp ⟨q, r, ws⟩ = some t) (hid : t.id = id) : s.statusOf id = some t.status := by
  cases q with
  | findFirstTransferRequest a b =>
      obtain ⟨found, rfl, rfl⟩ := Option.map_eq_some_iff.mp h
      obtain ⟨hread, -, -⟩ := includeSource_some hexec
      have hmem := (List.mem_filter.mp (mem_arrange.mp (List.mem_of_head? hread))).1
      exact statusOf_eq_some.mpr ⟨_, hmem, hid, rfl⟩
  | _ => cases h

section Rules

variable (env : Env) (s : Store) (id : Uuid)

/-- The rules of a transfer that nobody looks up twice at a time. -/
def outcomeRules : Rules (server env) Unit Empty :=
  Rules.static (server env) (fun s' => s.Extends s' ∧ s.Outcome s' id)
    (fun s' s'' => s'.Extends s'' ∧ s'.KeepsFinal id s'') (grounds s) (learned s) (looks id)
    fun s' _ p e => p = [] → ∀ t, lookedUp e = some t → t.id = id → s'.statusOf id = some t.status

variable {env s id}

/-- What is known of a transaction that commits. -/
theorem committed_of_outcomeRules {s' : Store} {T : Set Empty} {α : Type} {l : Label α}
    {h : List (Event Stmt Write)} {a : α} (hc : (outcomeRules env s id).Commits s' T l h a) :
    Committed (fun p e => Saw s' p e ∧ e ∈ h ∧ (p = [] → ∀ t, lookedUp e = some t → t.id = id →
      s'.statusOf id = some t.status)) env l a (writes h) := by
  have hev : Holds (fun p e => Saw s' p e ∧ e ∈ h ∧ (p = [] → ∀ t, lookedUp e = some t →
      t.id = id → s'.statusOf id = some t.status)) [] h :=
    hc.evidence.mono fun p e he hve => ⟨saw_of_seen (fun _ _ h => h.1) hve.1, he, hve.2⟩
  exact committed_of_runs (answering_of_saw fun _ _ he => he.1) (runs_of_completes hc.path hev)

/-- What a commit does to the transfer. -/
theorem lifecycle_of_outcomeRules {s' : Store} {T : Set Empty} {α : Type} {l : Label α}
    {h : List (Event Stmt Write)} {a : α} (hc : (outcomeRules env s id).Commits s' T l h a)
    {status : TransferStatus} (hs : s'.statusOf id = some status) :
    ∃ entries, Journalled (writes h) entries ∧
      Lifecycle (fun p e => Saw s' p e ∧ e ∈ h ∧ (p = [] → ∀ t, lookedUp e = some t → t.id = id →
        s'.statusOf id = some t.status)) s' (database.applyAll (writes h) s') entries id status := by
  obtain ⟨entries, hjournalled, heffect⟩ := (committed_of_outcomeRules hc).effect
    (fun _ _ he => he.1) (grounds_of_extends hc.inv.1 hc.pre) hc.admissible
  exact ⟨entries, hjournalled, heffect.lifecycle hs⟩

theorem looks_of_lookedUp {e : Event Stmt Write} {t : TransferRequest} (h : lookedUp e = some t)
    (hid : t.id = id) : looks id e = [()] := by
  simp [looks, h, hid]

theorem outcomeRules_statements :
    (outcomeRules env s id).Statements (exclusiveLookups env id) where
  guarded := by
    intro c i ch call pool β α l h q k' k r ws hok hth hexec
    exact exclusive_statement hok hth hexec
  current := by
    intro c i ch call pool β α l h q k' k r ws T _ _ hexec _ _ hp t ht hid
    rw [hp, Database.applyAll_nil] at hexec
    exact lookedUp_exec hexec ht hid
  frame := by
    intro β β' s' T l h a T' l' p e hc _ _ _ hdis hcur hp t ht hid
    have hstatus := hcur hp t ht hid
    obtain ⟨entries, -, hlife⟩ := lifecycle_of_outcomeRules hc hstatus
    cases hlife with
    | stays hstays _ => exact hstays
    | @ends _ found _ hreceived hfound _ _ =>
        -- the committing transaction looked the transfer up as well
        have hmem : () ∈ h.flatMap (looks id) := by
          refine List.mem_flatMap.mpr ⟨_, hreceived.lookup.2.1, ?_⟩
          rw [looks_of_lookedUp (t := found.transfer) rfl hfound]
          exact List.mem_singleton_self _
        exact absurd (show () ∈ looks id e by simp [looks_of_lookedUp ht hid]) (hdis hmem)

theorem outcomeRules_valid : (outcomeRules env s id).Valid (exclusiveLookups env id) := by
  refine Rules.static_valid lawful_database (fun s => ⟨.refl s, fun _ h _ => h⟩)
    (fun s₁ s₂ s₃ h h' => ⟨h.1.trans h'.1, fun status hs hfinal =>
      h'.2 status (h.2 status hs hfinal) hfinal⟩) outcomeRules_statements ?_ ?_
  · intro α s' T l h a hc
    obtain ⟨hext, houtcome⟩ : s.Extends s' ∧ s.Outcome s' id := hc.inv
    have hext' := extends_applyAll (writes h) s'
    have hlearned := (committed_of_outcomeRules hc).learned hext fun _ _ he => he.1
    obtain ⟨status, hstatus⟩ := houtcome.exists_status
    obtain ⟨entries, hjournalled, hlife⟩ := lifecycle_of_outcomeRules hc hstatus
    obtain ⟨houtcome', hfinal⟩ := houtcome.step hstatus hlife
      (compensations_append hc.admissible hjournalled)
      fun event found row hreceived hid => hreceived.lookup.2.2 rfl found.transfer rfl hid
    exact ⟨⟨hext.trans hext', houtcome'⟩, ⟨hext', hfinal⟩, hlearned⟩
  · intro c call _ _
    exact program_fine ⟨fun _ _ _ hl => hl, fun _ _ _ _ _ _ hpost => hpost⟩ call _ _

end Rules

/-- A transfer that waits for its rail has one outcome, if no event looks it up while another open
transaction has: it is compensated at most once, and not if it was settled, and a final status
stays. -/
theorem one_outcome {env : Env} {s : Store} {id : Uuid}
    (hs : s.statusOf id = some .pendingExternal) {c c' : ServerConfig}
    (hrun : Steps (server env) (exclusiveLookups env id) (.initial s) c)
    (hrun' : Steps (server env) (exclusiveLookups env id) c c') :
    s.Outcome c.store id ∧ c.store.KeepsFinal id c'.store := by
  obtain ⟨⟨own, hsound⟩, -⟩ := Rules.sound_of_steps outcomeRules_valid
    ⟨Store.Extends.refl s, .pending hs rfl⟩ hrun
  obtain ⟨-, hle⟩ := hsound.steps outcomeRules_valid hrun'
  exact ⟨hsound.inv.2, hle.2⟩

/-- Two events about the pending transfer, started together. -/
def twoEvents (first second : ExternalRailEventType) : List (Action Choice Call) :=
  [.start (.applyNormalizedEvent (terminalEvent "first" first)),
    .start (.applyNormalizedEvent (terminalEvent "second" second))]

/-- A rejection that comes after the settlement changes nothing. -/
theorem one_outcome_settled :
    ∃ c c', Steps (server testEnvironment) (exclusiveLookups testEnvironment "transfer")
        (.initial pendingStore) c ∧
      Steps (server testEnvironment) (exclusiveLookups testEnvironment "transfer") c c' ∧
      c'.store.externalEvents.rows.length = 2 ∧ pendingStore.Outcome c.store "transfer" ∧
      c.store.KeepsFinal "transfer" c'.store := by
  obtain ⟨c, hrun, hplay⟩ := exists_of_play (server testEnvironment)
    (exclusiveLookups testEnvironment "transfer") (.initial pendingStore)
    (twoEvents .settled .failed ++ advances 0 "a" 15)
    (fun c => ((server testEnvironment).play (exclusiveLookups testEnvironment "transfer") c
      (advances 1 "b" 12)).any (fun c' => decide (c'.store.externalEvents.rows.length = 2)) = true)
    (by decide +kernel)
  obtain ⟨c', hrun', hlen⟩ := exists_of_play _ _ c (advances 1 "b" 12) _ hplay
  obtain ⟨houtcome, hfinal⟩ := one_outcome (by decide +kernel) hrun hrun'
  exact ⟨c, c', hrun, hrun', hlen, houtcome, hfinal⟩

/-- Both events look the transfer up, and then the first ends. -/
def bothLookUp (first second : ExternalRailEventType) (n : Nat) : List (Action Choice Call) :=
  twoEvents first second ++ advances 0 "a" 3 ++ advances 1 "b" 3 ++ advances 0 "c" n

/-- When the second event ends as well, the transfer is compensated after it was settled, or it is
compensated twice. -/
theorem two_outcomes :
    pendingStore.statusOf "transfer" = some .pendingExternal ∧
    (∃ c, (server testEnvironment).play anySchedule (.initial pendingStore)
        (bothLookUp .settled .failed 12) = some c ∧ c.store.statusOf "transfer" = some .settled ∧
      ∃ c', (server testEnvironment).play anySchedule c (advances 1 "d" 22) = some c' ∧
        c'.store.statusOf "transfer" = some .compensated ∧
        c'.store.compensations "transfer" = 1) ∧
    ∃ c, (server testEnvironment).play anySchedule (.initial pendingStore)
        (bothLookUp .failed .failed 22 ++ advances 1 "d" 22) = some c ∧
      c.store.compensations "transfer" = 2 := by
  refine ⟨by decide +kernel, ?_, ?_⟩
  · obtain ⟨c, hplay, hsettled, hrest⟩ := play_of_decide (server testEnvironment) anySchedule
      (.initial pendingStore) (bothLookUp .settled .failed 12)
      (fun c => c.store.statusOf "transfer" = some .settled ∧
        ((server testEnvironment).play anySchedule c (advances 1 "d" 22)).any (fun c' => decide
          (c'.store.statusOf "transfer" = some .compensated ∧
            c'.store.compensations "transfer" = 1)) = true) (by decide +kernel)
    exact ⟨c, hplay, hsettled, play_of_decide (server testEnvironment) anySchedule c _ _ hrest⟩
  · exact play_of_decide (server testEnvironment) anySchedule (.initial pendingStore)
      (bothLookUp .failed .failed 22 ++ advances 1 "d" 22)
      (·.store.compensations "transfer" = 2) (by decide +kernel)

end LedgerCredit
