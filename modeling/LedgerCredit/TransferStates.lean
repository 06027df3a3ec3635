import LedgerCredit.Seed
import LedgerCredit.TransferEffects
import LedgerCredit.Txn.Log
import Mathlib.Data.List.Chain

/-!
# The states of a transfer

The state machine of a transfer is declared in one place and followed in two
others: `createTransfer` and `applyNormalizedEvent` write the status without a
look at the table.  `transferWrites` is the part of a log that is about one transfer,
and `Course` says what it can be in a run of atomic transactions.

An internal transfer takes the declared course.  An external one goes from
`VALIDATED` to `PENDING_EXTERNAL`, which the table does not allow.
-/

namespace LedgerCredit

open Txn

/-! ## The declared transitions -/

def allowedTransitions : TransferStatus → List TransferStatus
  | .received => [.validated, .cancelled]
  | .validated => [.pendingLedger, .cancelled]
  | .pendingLedger => [.settled, .pendingExternal, .failed]
  | .pendingExternal => [.settled, .failed]
  | .settled => []
  | .failed => [.compensated]
  | .compensated => []
  | .cancelled => []

/-- The status, as it stands in messages. -/
def TransferStatus.name : TransferStatus → String
  | .received => "RECEIVED"
  | .validated => "VALIDATED"
  | .pendingLedger => "PENDING_LEDGER"
  | .pendingExternal => "PENDING_EXTERNAL"
  | .settled => "SETTLED"
  | .failed => "FAILED"
  | .compensated => "COMPENSATED"
  | .cancelled => "CANCELLED"

def assertTransferTransition (current next : TransferStatus) : Except AppException Unit :=
  if next ∉ allowedTransitions current then
    .error ⟨409, "invalid_transfer_state",
      "Transfer transition " ++ current.name ++ " -> " ++ next.name ++ " is not allowed."⟩
  else .ok ()

theorem assertTransferTransition_ok {current next : TransferStatus} :
    assertTransferTransition current next = .ok () ↔ next ∈ allowedTransitions current := by
  unfold assertTransferTransition
  split <;> simp_all

/-- The values that were written to the status of a transfer, by all writes to its row, are those
of a declared course. -/
structure Declared (log : List (Option TransferStatus)) : Prop where
  first : log.head? = some (some .received)
  allowed : log.IsChain fun current next => ∃ x y, current = some x ∧ next = some y ∧
    assertTransferTransition x y = .ok ()
  terminal : ∀ before x after, log = before ++ some x :: after → allowedTransitions x = [] →
    after = []

/-- A chain of allowed transitions ends where nothing is allowed. -/
theorem declared_of_chain {log : List (Option TransferStatus)}
    (hfirst : log.head? = some (some .received))
    (hchain : log.IsChain fun current next => ∃ x y, current = some x ∧ next = some y ∧
      assertTransferTransition x y = .ok ()) : Declared log := by
  refine ⟨hfirst, hchain, ?_⟩
  rintro before x after rfl hterminal
  cases after with
  | nil => rfl
  | cons next after =>
      obtain ⟨-, ⟨x', y, hx, -, hallowed⟩, -⟩ := List.isChain_append_cons_cons.mp hchain
      obtain rfl := Option.some.inj hx
      rw [assertTransferTransition_ok, hterminal] at hallowed
      cases hallowed

/-! ## The row of a transfer -/

/-- A write to the row of a transfer. -/
inductive RowWrite where
  | insert (row : TransferRequest)
  | update (data : TransferRequestUpdate)

namespace RowWrite

/-- The status that is written. -/
def status? : RowWrite → Option TransferStatus
  | .insert row => some row.status
  | .update data => data.status

/-- The row after the write. -/
def apply (o : Option TransferRequest) : RowWrite → Option TransferRequest
  | .insert row => some row
  | .update data => o.map data.apply

end RowWrite

/-- What a write does to the row of a transfer. -/
def Write.toTransfer (id : Uuid) : Write → Option RowWrite
  | .transferRequest r => if r.id = id then some (.insert r) else none
  | .updateTransferRequest id' d => if id' = id then some (.update d) else none
  | _ => none

/-- The writes to the row of a transfer. -/
def transferWrites (id : Uuid) (ws : List Write) : List RowWrite := ws.filterMap (Write.toTransfer id)

/-- The values that are written to the status of a transfer. -/
def statusLog (id : Uuid) (ws : List Write) : List (Option TransferStatus) :=
  (transferWrites id ws).map RowWrite.status?

section Rows

variable {s : Store} {id : Uuid} {w : Write} {ws vs : List Write}

@[simp] theorem transferWrites_nil : transferWrites id [] = [] := rfl

theorem transferWrites_cons :
    transferWrites id (w :: ws) = (w.toTransfer id).toList ++ transferWrites id ws := by
  cases h : w.toTransfer id <;> simp [transferWrites, h]

theorem transferWrites_append : transferWrites id (ws ++ vs) = transferWrites id ws ++ transferWrites id vs := by
  simp [transferWrites]

theorem transferWrites_of_kind (h : ∀ w ∈ ws, w.kind ≠ .transfer) : transferWrites id ws = [] := by
  refine List.filterMap_eq_nil_iff.mpr fun w hw => ?_
  have hkind := h w hw
  cases w <;> first | rfl | exact absurd rfl hkind

theorem get?_row (hadm : database.Admissible s [w]) :
    (w.apply s).transferRequests.get? id =
      ((w.toTransfer id).toList).foldl RowWrite.apply (s.transferRequests.get? id) := by
  cases w with
  | transferRequest r =>
      have hfresh : s.transferRequests.Fresh r := by
        refine Table.fresh_of_absent
          (absent_of_admissible hadm (x := .row .transferRequest r.id) (by simp [Write.adds])) ?_
        rintro u hu
        obtain rfl := Option.some.inj hu
        exact absent_of_admissible hadm (x := .transferIdempotencyKey r.idempotencyKey)
          (by simp [Write.adds])
      show (s.transferRequests.insert r).get? id = _
      rw [Table.get?_insert hfresh]
      by_cases hid : r.id = id <;> simp [Write.toTransfer, hid, RowWrite.apply]
  | updateTransferRequest id' d =>
      simp only [Write.apply, Table.get?_modify]
      by_cases hid : id' = id
      · simp [Write.toTransfer, hid, RowWrite.apply]
      · simp [Write.toTransfer, hid, Ne.symm hid]
  | _ => rfl

/-- The row of a transfer after admitted writes. -/
theorem get?_transferWrites (hadm : database.Admissible s ws) :
    (database.applyAll ws s).transferRequests.get? id =
      (transferWrites id ws).foldl RowWrite.apply (s.transferRequests.get? id) := by
  induction ws generalizing s with
  | nil => rfl
  | cons w ws ih =>
      obtain ⟨hw, hrest⟩ := Database.Admissible.of_cons lawful_database hadm
      have hrow : (database.apply w s).transferRequests.get? id = _ := get?_row hw
      rw [Database.applyAll_cons, ih hrest, hrow]
      rw [transferWrites_cons, List.foldl_append]

end Rows

/-! ## The course of a transfer -/

/-- What a commit does to the row of a transfer that was there as `o`. -/
inductive RowEffect (o : Option TransferRequest) : List RowWrite → Prop where
  | none : RowEffect o []
  | internal {t : TransferRequest} (settledAt : Time) : o = .none → t.transferType = .internal →
      t.status = .received → RowEffect o [.insert t,
        .update (TransfersService.statusUpdate .validated),
        .update (TransfersService.statusUpdate .pendingLedger),
        .update (ExternalRailService.settledUpdate settledAt)]
  | external {t : TransferRequest} (provider : String) : o = .none → t.transferType = .interbank →
      t.status = .received → RowEffect o [.insert t,
        .update (TransfersService.statusUpdate .validated),
        .update (TransfersService.pendingExternalData provider t.id)]
  | settled {t : TransferRequest} (settledAt : Time) : o = some t → t.status = .pendingExternal →
      RowEffect o [.update (ExternalRailService.settledUpdate settledAt)]
  | compensated {t : TransferRequest} (event : NormalizedExternalRailEvent) : o = some t →
      t.status = .pendingExternal → RowEffect o [.update (ExternalRailService.failedUpdate event),
        .update (TransfersService.statusUpdate .compensated)]

section Effect

variable {env : Env} {s : Store} {id : Uuid} {ws : List Write}

theorem transferWrites_of_ledger (h : ∀ w ∈ ws, w.kind = .ledger) : transferWrites id ws = [] :=
  transferWrites_of_kind fun w hw => by simp [h w hw]

/-- A new transfer has an id that no transfer had. -/
theorem get?_of_inserted {t : TransferRequest} (hadm : database.Admissible s ws)
    (ht : .transferRequest t ∈ ws) : s.transferRequests.get? t.id = none := by
  have habsent : ¬ s.present (.row .transferRequest t.id) = true :=
    hadm.absent ht (x := .row .transferRequest t.id) (by simp [database, Write.adds])
  simpa [Store.present] using habsent

/-- The transfer that an event is about. -/
theorem get?_of_received {event : NormalizedExternalRailEvent} {found : TransferWithSource}
    {row : ExternalTransferEvent} (h : ExternalRailService.Received (Now s) event found row) :
    s.transferRequests.get? found.transfer.id = some found.transfer :=
  Table.get?_eq_some.mpr ⟨now_findFirstTransferRequest h.lookup, rfl⟩

theorem TransfersService.TransferRun.rowEffect {args : CreateTransferArgs}
    {r : TransferMutationResult} (h : TransferRun (Now s) env args ws r)
    (hadm : database.Admissible s ws) :
    RowEffect (s.transferRequests.get? id) (transferWrites id ws) := by
  cases h with
  | replay _ _ _ => exact .none
  | @internal _ _ _ _ _ _ _ transfer _ _ _ _ _ _ _ _ settledAt _ _ hdest hcreated _ _ hposted =>
      obtain ⟨id', createdAt, -, hrow⟩ := hcreated.transferRow
      obtain rfl := hcreated.writes
      have hnone := get?_of_inserted hadm (t := transfer) (by simp)
      by_cases hid : transfer.id = id
      · subst hid
        have hws : RowEffect (s.transferRequests.get? transfer.id) [.insert transfer, _, _, _] :=
          .internal settledAt hnone (by rw [hrow, transferData, hdest]; rfl)
            (by rw [hrow]; rfl)
        simpa [transferWrites_append, transferWrites_cons, Write.toTransfer,
          transferWrites_of_ledger hposted.kind, ExternalRailService.settledUpdate] using hws
      · simpa [transferWrites_append, transferWrites_cons, Write.toTransfer, hid,
          transferWrites_of_ledger hposted.kind] using RowEffect.none
  | @external _ _ _ _ _ _ transfer _ _ _ _ _ _ _ _ _ _ _ _ _ railProvider hdest _ hcreated _
      hposted =>
      obtain ⟨id', createdAt, -, hrow⟩ := hcreated.transferRow
      obtain rfl := hcreated.writes
      have hnone := get?_of_inserted hadm (t := transfer) (by simp)
      by_cases hid : transfer.id = id
      · subst hid
        have hws : RowEffect (s.transferRequests.get? transfer.id) [.insert transfer, _, _] :=
          .external railProvider hnone (by rw [hrow, transferData, hdest]; rfl)
            (by rw [hrow]; rfl)
        simpa [transferWrites_append, transferWrites_cons, Write.toTransfer,
          transferWrites_of_ledger hposted.kind] using hws
      · simpa [transferWrites_append, transferWrites_cons, Write.toTransfer, hid,
          transferWrites_of_ledger hposted.kind] using RowEffect.none

theorem ExternalRailService.EventRun.rowEffect {event : NormalizedExternalRailEvent}
    {r : TransferRequest} (h : EventRun (Now s) env event ws r) :
    RowEffect (s.transferRequests.get? id) (transferWrites id ws) := by
  cases h with
  | duplicate _ _ => exact .none
  | recorded _ _ => exact .none
  | @settled found _ settledAt _ hreceived _ hpending =>
      have hfound := get?_of_received hreceived
      by_cases hid : found.transfer.id = id
      · subst hid
        simpa [transferWrites_cons, Write.toTransfer] using
          RowEffect.settled settledAt hfound hpending
      · simpa [transferWrites_cons, Write.toTransfer, hid] using RowEffect.none
  | @compensated found _ _ _ _ _ _ _ _ _ _ _ hreceived _ hpending _ hcomp =>
      have hfound := get?_of_received hreceived
      by_cases hid : found.transfer.id = id
      · subst hid
        simpa [transferWrites_append, transferWrites_cons, Write.toTransfer,
          transferWrites_of_ledger hcomp.entry.kind] using
            RowEffect.compensated event hfound hpending
      · simpa [transferWrites_append, transferWrites_cons, Write.toTransfer, hid,
          transferWrites_of_ledger hcomp.entry.kind] using RowEffect.none

/-- The effect of every commit on the row of a transfer. -/
theorem Committed.rowEffect {α : Type} {l : Label α} (hl : grounds s l) {a : α}
    (h : Committed (Now s) env l a ws) (hadm : database.Admissible s ws) :
    RowEffect (s.transferRequests.get? id) (transferWrites id ws) := by
  have hother : l.transfers = false →
      RowEffect (s.transferRequests.get? id) (transferWrites id ws) := fun hl' => by
    rw [transferWrites_of_kind (h.kind (answering_of_saw fun _ _ => saw_of_now) hl hl')]
    exact .none
  cases h with
  | createTransfer hrun => exact hrun.rowEffect hadm
  | applyNormalizedEvent hrun => exact hrun.rowEffect
  | _ => exact hother rfl

end Effect

/-- The course of a transfer by its type, up to its status. -/
inductive Course : TransferType → TransferStatus → List (Option TransferStatus) → Prop where
  | internal : Course .internal .settled
      [some .received, some .validated, some .pendingLedger, some .settled]
  | pending : Course .interbank .pendingExternal
      [some .received, some .validated, some .pendingExternal]
  | settled : Course .interbank .settled
      [some .received, some .validated, some .pendingExternal, some .settled]
  | compensated : Course .interbank .compensated
      [some .received, some .validated, some .pendingExternal, some .failed, some .compensated]

/-- The log of a transfer is its course. -/
def OnCourse (id : Uuid) (s : Store) (ws : List Write) : Prop :=
  match s.transferRequests.get? id with
  | some t => Course t.transferType t.status (statusLog id ws)
  | none => statusLog id ws = []

section Course

variable {s : Store} {id : Uuid} {ws vs : List Write}

theorem statusLog_append : statusLog id (ws ++ vs) = statusLog id ws ++ statusLog id vs := by
  simp [statusLog, transferWrites_append]

/-- A commit keeps a transfer on its course. -/
theorem OnCourse.commit (h : OnCourse id s ws) (hadm : database.Admissible s vs)
    (heffect : RowEffect (s.transferRequests.get? id) (transferWrites id vs)) :
    OnCourse id (database.applyAll vs s) (ws ++ vs) := by
  have hrow : (database.applyAll vs s).transferRequests.get? id =
      (transferWrites id vs).foldl RowWrite.apply (s.transferRequests.get? id) :=
    get?_transferWrites hadm
  have hlog : statusLog id vs = (transferWrites id vs).map RowWrite.status? := rfl
  unfold OnCourse at h ⊢
  rw [statusLog_append, hlog, hrow]
  generalize s.transferRequests.get? id = o at h heffect
  generalize transferWrites id vs = rows at heffect
  cases heffect with
  | none => simpa using h
  | @internal t settledAt ho htype hstatus =>
      subst ho
      have hnil : statusLog id ws = [] := h
      rw [hnil]
      show Course t.transferType .settled [some t.status, _, _, _]
      rw [htype, hstatus]
      exact .internal
  | @external t provider ho htype hstatus =>
      subst ho
      have hnil : statusLog id ws = [] := h
      rw [hnil]
      show Course t.transferType .pendingExternal [some t.status, _, _]
      rw [htype, hstatus]
      exact .pending
  | @settled t settledAt ho hpending =>
      subst ho
      have hcourse : Course t.transferType t.status (statusLog id ws) := h
      rw [hpending] at hcourse
      show Course t.transferType .settled (statusLog id ws ++ [some .settled])
      generalize t.transferType = type, statusLog id ws = log at hcourse
      cases hcourse with
      | pending => exact .settled
  | @compensated t event ho hpending =>
      subst ho
      have hcourse : Course t.transferType t.status (statusLog id ws) := h
      rw [hpending] at hcourse
      show Course t.transferType .compensated (statusLog id ws ++ [some .failed, some .compensated])
      generalize t.transferType = type, statusLog id ws = log at hcourse
      cases hcourse with
      | pending => exact .compensated

/-- A course that skips `PENDING_LEDGER` is not declared. -/
theorem not_declared_of_skipped (log : List (Option TransferStatus)) :
    ¬ Declared (some .received :: some .validated :: some .pendingExternal :: log) := by
  rintro ⟨-, hchain, -⟩
  obtain ⟨-, hrest⟩ := List.isChain_cons_cons.mp hchain
  obtain ⟨⟨x, y, hx, hy, hallowed⟩, -⟩ := List.isChain_cons_cons.mp hrest
  obtain rfl := Option.some.inj hx
  obtain rfl := Option.some.inj hy
  exact absurd (assertTransferTransition_ok.mp hallowed) (by decide)

/-- The declared course is the one of an internal transfer. -/
theorem Course.declared_iff {type : TransferType} {status : TransferStatus}
    {log : List (Option TransferStatus)} (h : Course type status log) :
    Declared log ↔ type = .internal := by
  cases h with
  | internal =>
      refine ⟨fun _ => rfl, fun _ => declared_of_chain rfl ?_⟩
      have hstep : ∀ {x y : TransferStatus}, y ∈ allowedTransitions x →
          ∃ x' y', some x = some x' ∧ some y = some y' ∧ assertTransferTransition x' y' = .ok () :=
        fun hxy => ⟨_, _, rfl, rfl, assertTransferTransition_ok.mpr hxy⟩
      simp only [List.isChain_cons_cons, List.isChain_singleton, and_true]
      exact ⟨hstep (by decide), hstep (by decide), hstep (by decide)⟩
  | pending => exact iff_of_false (not_declared_of_skipped _) (by decide)
  | settled => exact iff_of_false (not_declared_of_skipped _) (by decide)
  | compensated => exact iff_of_false (not_declared_of_skipped _) (by decide)

end Course

/-- With atomic transactions, the status of a transfer follows the declared state machine if and
only if the transfer is internal. -/
theorem declared_iff_internal {env : Env} {s : Store} {c : ServerConfig} {ws : List Write}
    (h : Logged (server env) (server env).Serial (.initial s) ws c) {t : TransferRequest}
    (ht : t ∈ c.store.transferRequests.rows) (hnew : s.transferRequests.get? t.id = none) :
    Declared (statusLog t.id ws) ↔ t.transferType = .internal := by
  have hvalid : (serialRules env s fun s' => s.Extends s').Valid (server env).Serial :=
    serialRules_valid (fun _ hs => hs) fun s' _ _ ws hs _ _ _ => hs.trans (extends_applyAll ws s')
  have hcourse : OnCourse t.id c.store ws := by
    refine (Rules.sound_initial (Store.Extends.refl s)).logged hvalid ?_ ?_ h
    · unfold OnCourse
      rw [show (Config.initial s : ServerConfig).store = s from rfl, hnew]
      rfl
    · intro β s' ws' T l hist r hJ hc
      exact hJ.commit hc.admissible ((serial_committed hc).rowEffect
        (grounds_of_extends hc.inv hc.pre) hc.admissible)
  unfold OnCourse at hcourse
  rw [Table.get?_eq_some.mpr ⟨ht, rfl⟩] at hcourse
  exact hcourse.declared_iff

/-! ### Two transfers -/

/-- A transfer to the savings account. -/
def declaredSchedule : List (Action Choice Call) :=
  .start (.createTransfer (demoTransfer (.internalAccount demoData.savingsAccountId) 100)
    (demoContext "k")) :: advances 0 "a" 24

/-- A transfer to another bank. -/
def undeclaredSchedule : List (Action Choice Call) :=
  .start (.createTransfer (demoTransfer (.externalBank none "NATL" "1099" "Jane Doe") 2500)
    (demoContext "k")) :: advances 0 "a" 21

theorem internal_declared : ∃ (c : ServerConfig) (ws : List Write),
    Logged (server testEnvironment) (server testEnvironment).Serial (.initial demoStore) ws c ∧
      ∃ t ∈ c.store.transferRequests.rows, t.status = .settled ∧ Declared (statusLog t.id ws) := by
  obtain ⟨c, hplay, ⟨t, ht, htype, hstatus⟩, hnew⟩ := play_of_decide (server testEnvironment)
    (server testEnvironment).Serial (.initial demoStore) declaredSchedule
    (fun c => (∃ t ∈ c.store.transferRequests.rows,
        t.transferType = .internal ∧ t.status = .settled) ∧
      ∀ t ∈ c.store.transferRequests.rows, demoStore.transferRequests.get? t.id = none)
    (by decide +kernel)
  exact ⟨c, _, logged_of_play hplay, t, ht, hstatus,
    (declared_iff_internal (logged_of_play hplay) ht (hnew t ht)).mpr htype⟩

/-- The transfer to another bank leaves out `PENDING_LEDGER`. -/
theorem external_undeclared : ∃ (c : ServerConfig) (ws : List Write),
    Logged (server testEnvironment) (server testEnvironment).Serial (.initial demoStore) ws c ∧
      ∃ t ∈ c.store.transferRequests.rows,
        statusLog t.id ws = [some .received, some .validated, some .pendingExternal] ∧
          ¬ Declared (statusLog t.id ws) := by
  obtain ⟨c, hplay, t, ht, hlog⟩ := play_of_decide (server testEnvironment)
    (server testEnvironment).Serial (.initial demoStore) undeclaredSchedule
    (fun c => ∃ t ∈ c.store.transferRequests.rows,
      statusLog t.id ((server testEnvironment).logOf (.initial demoStore) undeclaredSchedule) =
        [some .received, some .validated, some .pendingExternal]) (by decide +kernel)
  refine ⟨c, _, logged_of_play hplay, t, ht, hlog, ?_⟩
  rw [hlog]
  exact not_declared_of_skipped []

end LedgerCredit
