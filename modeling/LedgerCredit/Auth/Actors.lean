import LedgerCredit.Auth.Provisioning
import LedgerCredit.Txn.Soundness

/-!
# The actors of principals

`provisionPrincipal` finds a principal by the login id as well, and then makes it
one of the actor of the input.  The principal keeps its role bindings, its
external identities and its credentials, and where the input has no customer id
it keeps that too.

If every update meets a principal of its own actor, and the customer ids are
written as the database gives them back, a principal has a customer id exactly if
it is one of a customer, and no principal changes its actor.
-/

namespace LedgerCredit.Auth.Provisioning

open Txn

/-- The customer id is set for customers only, and is the actor id. -/
structure Principal.Consistent (p : Principal) : Prop where
  customer : p.actorType = .customer ↔ p.customerId.isSome
  actorId : ∀ c ∈ p.customerId, c = p.actorId

def Store.Consistent (s : Store) : Prop := ∀ p ∈ s.principals.rows, p.Consistent

/-- The principals are still there, with their actors. -/
def Store.KeepsActors (s s' : Store) : Prop :=
  ∀ p ∈ s.principals.rows, ∃ p' ∈ s'.principals.rows,
    p'.id = p.id ∧ p'.actorType = p.actorType ∧ p'.actorId = p.actorId

/-- The update is of a principal of its own actor. -/
def Write.ownActor (s : Store) : Write → Bool
  | .updatePrincipal id d => (s.principals.get? id).all fun p =>
      p.actorType = d.actorType && p.actorId = d.actorId
  | _ => true

/-- The customer id is written as the database gives it back. -/
def ProvisionPrincipalInput.canonical (input : ProvisionPrincipalInput) : Bool :=
  (truthy input.customerId).all fun c => uuidOfText c = c

/-- Every update meets a principal of its own actor, and every customer id is written as the
database gives it back. -/
def ownActors (c : ServiceConfig) : Action Choice Call → Bool
  | .start (.provisionPrincipal input _) => input.canonical
  | .advance i ch => (service.nextEvent c i ch).all fun e => e.writes.all (Write.ownActor c.store)
  | _ => true

/-! ## Inputs -/

section Inputs

variable {input : ProvisionPrincipalInput}

/-- What `superRefine` accepts. -/
theorem accepted_iff : input.issues = [] ↔
    (input.actorType = .customer → truthy input.customerId = some input.actorId) ∧
      (input.actorType ≠ .customer → truthy input.customerId = none) := by
  unfold ProvisionPrincipalInput.issues
  by_cases hcustomer : input.actorType = .customer
  · cases truthy input.customerId <;> simp [hcustomer]
  · cases truthy input.customerId <;> simp [hcustomer]

/-- The customer id of an input that is accepted. -/
theorem customerId_of_accepted (haccepted : input.issues = []) (hcanonical : input.canonical = true) :
    (truthy input.customerId).map uuidOfText =
      if input.actorType = .customer then some input.actorId else none := by
  obtain ⟨hcustomer, hother⟩ := accepted_iff.mp haccepted
  unfold ProvisionPrincipalInput.canonical at hcanonical
  by_cases h : input.actorType = .customer
  · rw [hcustomer h] at hcanonical ⊢
    simpa [h] using hcanonical
  · simp [h, hother h]

theorem create_consistent (haccepted : input.issues = []) (hcanonical : input.canonical = true)
    (id : Uuid) : (input.create id).Consistent := by
  have hcustomerId : (input.create id).customerId =
      if input.actorType = .customer then some input.actorId else none :=
    customerId_of_accepted haccepted hcanonical
  constructor
  · rw [hcustomerId]
    by_cases h : input.actorType = .customer <;> simp [h, ProvisionPrincipalInput.create]
  · rw [hcustomerId]
    by_cases h : input.actorType = .customer <;> simp [h, ProvisionPrincipalInput.create]

/-- An update of a principal of the same actor. -/
theorem update_consistent (haccepted : input.issues = []) (hcanonical : input.canonical = true)
    {p : Principal} (hp : p.Consistent) (htype : p.actorType = input.actorType)
    (hid : p.actorId = input.actorId) : (input.update.apply p).Consistent := by
  have hcustomerId : input.update.customerId =
      if input.actorType = .customer then some input.actorId else none :=
    customerId_of_accepted haccepted hcanonical
  have htype' : input.update.actorType = input.actorType := rfl
  have hid' : input.update.actorId = input.actorId := rfl
  obtain ⟨hcustomer, hactorId⟩ := hp
  rw [htype] at hcustomer
  rw [hid] at hactorId
  constructor
  · rw [PrincipalUpdate.apply_actorType, PrincipalUpdate.apply_customerId, hcustomerId, htype']
    by_cases h : input.actorType = .customer <;> simp [h, ← hcustomer]
  · rw [PrincipalUpdate.apply_actorId, PrincipalUpdate.apply_customerId, hcustomerId, hid']
    by_cases h : input.actorType = .customer
    · simp [h]
    · simpa [h] using hactorId

end Inputs

/-! ## The database -/

section Database

variable {s : Store} {w : Write} {ws : List Write}

theorem attempt_ok {β : Type} {r r' : β} {ws' : List Write}
    (h : s.attempt r ws = .ok (r', ws')) : r' = r ∧ ws' = ws ∧
      Database.firstViolation Store.violation Write.apply s ws = none := by
  unfold Store.attempt at h
  split at h
  · rename_i hnone
    cases h
    exact ⟨rfl, rfl, hnone⟩
  · cases h

theorem writePrincipal_ok {row r : Principal} (h : s.writePrincipal row w = .ok (r, ws)) :
    r = row ∧ ws = [w] ∧ Database.firstViolation Store.violation Write.apply s ws = none := by
  unfold Store.writePrincipal at h
  split at h
  · cases h
  · obtain ⟨rfl, rfl, hnone⟩ := attempt_ok h
    exact ⟨rfl, rfl, hnone⟩

theorem violation_none (h : s.violation w = none) :
    (∀ x ∈ w.adds, ¬ s.present x = true) ∧ ∀ x ∈ w.needs, s.present x = true := by
  unfold Store.violation at h
  split at h
  · cases h
  · split at h
    · cases h
    · rename_i hadds hneeds
      simp only [List.any_eq_true, not_exists, not_and] at hadds
      simp only [Bool.not_eq_true', Bool.not_eq_false, List.all_eq_true] at hneeds
      exact ⟨hadds, hneeds⟩

theorem fresh_principal {r : Principal} (h : ¬ s.present (.principal r.id) = true) :
    s.principals.Fresh r :=
  Table.fresh_of_pk (by simpa [Store.present] using h) rfl

theorem present_apply (w : Write) (s : Store) (h : ∀ x ∈ w.adds, ¬ s.present x = true) (x : Key) :
    (w.apply s).present x = true ↔ s.present x = true ∨ x ∈ w.adds := by
  cases w with
  | principal r =>
      have hfresh : s.principals.Fresh r := fresh_principal (h _ (by simp [Write.adds]))
      cases x <;> simp [Write.apply, Store.present, Write.adds, Table.isSome_get?_insert hfresh]
  | auditEvent r =>
      have hfresh : s.auditEvents.Fresh r :=
        Table.fresh_of_pk (by simpa [Store.present] using h (.auditEvent r.id) (by
          simp [Write.adds])) rfl
      cases x <;> simp [Write.apply, Store.present, Write.adds, Table.isSome_get?_insert hfresh]
  | updatePrincipal id d => cases x <;> simp [Write.apply, Store.present, Write.adds]
  | roleBinding r => cases x <;> simp [Write.apply, Store.present, Write.adds]
  | externalIdentity r => cases x <;> simp [Write.apply, Store.present, Write.adds]

theorem exec_violations {β : Type} {q : Stmt β} {c : Choice} {r : β}
    (h : s.exec q c = .ok (r, ws)) :
    Database.firstViolation Store.violation Write.apply s ws = none := by
  cases q with
  | createPrincipal data => exact (writePrincipal_ok h).2.2
  | updatePrincipal id data =>
      simp only [Store.exec] at h
      split at h
      · exact (writePrincipal_ok h).2.2
      · cases h
  | createRoleBindings data =>
      obtain ⟨-, rfl, hnone⟩ := attempt_ok h
      exact hnone
  | upsertExternalIdentity row =>
      obtain ⟨-, rfl, hnone⟩ := attempt_ok h
      exact hnone
  | createAuditEvent data =>
      obtain ⟨-, rfl, hnone⟩ := attempt_ok h
      exact hnone
  | _ => cases h; rfl

theorem lawful_database : database.Lawful where
  present_apply := fun w s h x => present_apply w s h x
  adds_locks := by
    intro w x hx
    cases w with
    | principal r =>
        obtain rfl := List.mem_singleton.mp hx
        exact List.mem_cons_self
    | auditEvent r => exact hx
    | _ => exact absurd hx List.not_mem_nil
  exec_admissible := fun h => Database.admissible_of_violations
    (fun w s h x => present_apply w s h x) (fun _ _ h => violation_none h) (exec_violations h)

end Database

/-! ## Writes -/

/-- The write leaves the principals alone. -/
def Write.outside : Write → Bool
  | .principal _ | .updatePrincipal .. => false
  | _ => true

/-- The statement leaves the principals alone. -/
def Stmt.outside : {α : Type} → Stmt α → Bool
  | _, .createPrincipal _ | _, .updatePrincipal .. => false
  | _, _ => true

section Writes

variable {s : Store} {w : Write} {ws : List Write}

theorem outside_of_exec {α : Type} {q : Stmt α} (hq : q.outside = true) {ch : Choice} {r : α}
    (h : s.exec q ch = .ok (r, ws)) : ∀ w ∈ ws, w.outside = true := by
  cases q with
  | createPrincipal data => cases hq
  | updatePrincipal id data => cases hq
  | createRoleBindings data =>
      obtain ⟨-, rfl, -⟩ := attempt_ok h
      intro w hw
      obtain ⟨row, -, rfl⟩ := List.mem_map.mp hw
      rfl
  | upsertExternalIdentity row =>
      obtain ⟨-, rfl, -⟩ := attempt_ok h
      simp [Write.outside]
  | createAuditEvent data =>
      obtain ⟨-, rfl, -⟩ := attempt_ok h
      simp [Write.outside]
  | _ => cases h; simp

theorem principals_applyAll (h : ∀ w ∈ ws, w.outside = true) (s : Store) :
    (database.applyAll ws s).principals = s.principals := by
  induction ws generalizing s with
  | nil => rfl
  | cons w ws ih =>
      obtain ⟨hw, hws⟩ := List.forall_mem_cons.mp h
      refine (ih hws _).trans ?_
      cases w with
      | principal r => cases hw
      | updatePrincipal id d => cases hw
      | _ => rfl

/-- Who writes to a principal locks it. -/
theorem get?_apply {id : Uuid} (h : Key.principal id ∉ w.locks) (s : Store) :
    (w.apply s).principals.get? id = s.principals.get? id := by
  cases w with
  | principal r =>
      have hne : r.id ≠ id := fun heq => h (by simp [Write.locks, heq])
      by_cases hfresh : s.principals.Fresh r
      · show (s.principals.insert r).get? id = _
        rw [Table.get?_insert hfresh, if_neg hne]
      · show (s.principals.insert r).get? id = _
        rw [Table.insert, dif_neg hfresh]
  | updatePrincipal id' d =>
      have hne : id ≠ id' := fun heq => h (by simp [Write.locks, heq])
      simp only [Write.apply, Table.get?_modify]
      simp [hne]
  | _ => rfl

theorem get?_applyAll {id : Uuid} (h : Key.principal id ∉ database.locksOf ws) (s : Store) :
    (database.applyAll ws s).principals.get? id = s.principals.get? id := by
  induction ws generalizing s with
  | nil => rfl
  | cons w ws ih =>
      rw [Database.locksOf, List.flatMap_cons, List.mem_append, not_or] at h
      exact (ih h.2 _).trans (get?_apply h.1 s)

end Writes

/-! ## Steps of the principals -/

/-- The store is consistent, and the principals keep their actors. -/
def Store.Kept (s s' : Store) : Prop := s'.Consistent ∧ s.KeepsActors s'

theorem Store.KeepsActors.refl (s : Store) : s.KeepsActors s :=
  fun p hp => ⟨p, hp, rfl, rfl, rfl⟩

theorem Store.KeepsActors.trans {s₁ s₂ s₃ : Store} (h : s₁.KeepsActors s₂)
    (h' : s₂.KeepsActors s₃) : s₁.KeepsActors s₃ := by
  intro p hp
  obtain ⟨p₂, hp₂, hid₂, htype₂, hactor₂⟩ := h p hp
  obtain ⟨p₃, hp₃, hid₃, htype₃, hactor₃⟩ := h' p₂ hp₂
  exact ⟨p₃, hp₃, hid₃.trans hid₂, htype₃.trans htype₂, hactor₃.trans hactor₂⟩

section Principals

variable {s s' : Store}

theorem kept_of_eq (hs : s.Consistent) (h : s'.principals = s.principals) : s.Kept s' :=
  ⟨fun p hp => hs p (h ▸ hp), fun p hp => ⟨p, h.symm ▸ hp, rfl, rfl, rfl⟩⟩

/-- A new principal. -/
theorem kept_insert (hs : s.Consistent) {r : Principal} (hfresh : s.principals.Fresh r)
    (hr : r.Consistent) (h : s'.principals.rows = (s.principals.insert r).rows) : s.Kept s' := by
  rw [Table.rows_insert hfresh] at h
  constructor
  · intro p hp
    rw [h, List.mem_append, List.mem_singleton] at hp
    rcases hp with hp | rfl
    · exact hs p hp
    · exact hr
  · intro p hp
    exact ⟨p, h ▸ List.mem_append_left _ hp, rfl, rfl, rfl⟩

/-- A principal of the same actor is updated. -/
theorem kept_modify (hs : s.Consistent) {id : Uuid} {d : PrincipalUpdate}
    (hd : ∀ p ∈ s.principals.rows, p.id = id → (d.apply p).Consistent ∧
      p.actorType = d.actorType ∧ p.actorId = d.actorId)
    (h : s'.principals.rows = s.principals.rows.map fun p => if p.id = id then d.apply p else p) :
    s.Kept s' := by
  constructor
  · intro p' hp'
    obtain ⟨p, hp, rfl⟩ := List.mem_map.mp (h ▸ hp')
    split
    · rename_i hid
      exact (hd p hp hid).1
    · exact hs p hp
  · intro p hp
    refine ⟨_, h ▸ List.mem_map_of_mem hp, ?_⟩
    split
    · rename_i hid
      obtain ⟨-, htype, hactor⟩ := hd p hp hid
      exact ⟨rfl, htype.symm, hactor.symm⟩
    · exact ⟨rfl, rfl, rfl⟩

end Principals

/-! ## Transactions -/

section Runs

variable {V : List Write → Event Stmt Write → Prop} {p ws : List Write}

/-- The event has the reply and the writes of its statement, on some store. -/
def Executed (e : Event Stmt Write) : Prop :=
  ∃ (s : Store) (ch : Choice), s.exec e.query ch = .ok (e.reply, e.writes)

theorem outside_of_executed {α : Type} {q : Stmt α} (hq : q.outside = true) {r : α}
    (h : Executed ⟨q, r, ws⟩) : ∀ w ∈ ws, w.outside = true := by
  obtain ⟨s, ch, hexec⟩ := h
  exact outside_of_exec hq hexec

/-- The write of `provisionPrincipal` to the principals, and what it writes next to it. -/
theorem provisionPrincipalTx_runs (hV : ∀ p e, V p e → Executed e) {input : ProvisionPrincipalInput}
    {r : ProvisionedPrincipal} (h : Runs V p (provisionPrincipalTx input) ws r) :
    ∃ w ws', ws = w :: ws' ∧ (∀ w ∈ ws', w.outside = true) ∧
      ((∃ id, w = .principal (input.create id)) ∨
        ∃ (id : Uuid) (r : Principal), w = .updatePrincipal id input.update ∧
          V p ⟨.updatePrincipal id input.update, r, [w]⟩) := by
  simp only [provisionPrincipalTx, runs_bind, runs_send, runs_return] at h
  obtain ⟨ws₁, existing, hfind, ws₂, rfl, ws₃, principal, hwrite, ws₄, rfl, ws₅, _, hbind, ws₆, rfl,
    ws₇, roles, hroles, _, rfl, rfl, rfl⟩ := h
  have hnil : ws₁ = [] := by
    obtain ⟨s, ch, hexec⟩ := hV _ _ hfind
    cases hexec
    rfl
  have hnil' : ws₇ = [] := by
    obtain ⟨s, ch, hexec⟩ := hV _ _ hroles
    cases hexec
    rfl
  subst hnil hnil'
  simp only [List.append_nil, List.nil_append] at hwrite ⊢
  have houtside : ∀ w ∈ ws₅, w.outside = true := outside_of_executed rfl (hV _ _ hbind)
  cases existing with
  | some existing =>
      have hevent := runs_send.mp hwrite
      obtain ⟨s, ch, hexec⟩ := hV _ _ hevent
      have hws : ws₃ = [.updatePrincipal existing.id input.update] := by
        simp only [Store.exec] at hexec
        split at hexec
        · exact (writePrincipal_ok hexec).2.1
        · cases hexec
      subst hws
      exact ⟨_, ws₅, rfl, houtside, Or.inr ⟨existing.id, principal, rfl, hevent⟩⟩
  | none =>
      obtain ⟨s, ch, hexec⟩ := hV _ _ (runs_send.mp hwrite)
      obtain ⟨-, rfl, -⟩ := writePrincipal_ok hexec
      exact ⟨_, ws₅, rfl, houtside, Or.inl ⟨_, rfl⟩⟩

theorem mapExternalIdentityTx_runs (hV : ∀ p e, V p e → Executed e)
    {input : MapExternalIdentityRequest} {r : ExternalIdentityMapping}
    (h : Runs V p (mapExternalIdentityTx input) ws r) : ∀ w ∈ ws, w.outside = true := by
  simp only [mapExternalIdentityTx, runs_bind, runs_send, runs_require, runs_return] at h
  obtain ⟨ws₁, principal, hfind, _, rfl, _, _, ⟨rfl, -⟩, _, rfl, ws₂, identity, hupsert, _, rfl, rfl,
    rfl⟩ := h
  simp only [List.append_nil]
  exact List.forall_mem_append.mpr ⟨outside_of_executed rfl (hV _ _ hfind),
    outside_of_executed rfl (hV _ _ hupsert)⟩

end Runs

/-! ## Rules -/

/-- The transactions that the calls run, on inputs whose customer id is canonical. -/
def Label.canonical : {α : Type} → Label α → Prop
  | _, .provisionPrincipal input => input.canonical = true
  | _, .mapExternalIdentity _ => True
  | _, .statement q => q.outside = true

/-- The rules of principals.  An update stays one of its own actor, since it locks the row. -/
abbrev actorRules : Rules service Unit Empty :=
  Rules.static service Store.Consistent Store.KeepsActors Label.canonical (fun _ _ => True)
    (fun _ => []) fun s _ _ e => ∀ w ∈ e.writes, w.ownActor s = true

section Rules

variable {s : Store} {T : Set Empty} {α : Type} {l : Label α} {h : List (Event Stmt Write)} {a : α}

theorem executed_of_evidence (p : List Write) (e : Event Stmt Write)
    (he : actorRules.Evidence s l p e) : Executed e := by
  obtain ⟨⟨s₀, ch, -, -, hexec⟩, -⟩ := he
  exact ⟨_, ch, hexec⟩

theorem commits_kept (hc : actorRules.Commits s T l h a) :
    s.Kept (database.applyAll (writes h) s) := by
  have hs : s.Consistent := hc.inv
  have hruns := runs_of_completes hc.path hc.evidence
  cases l with
  | statement q =>
      exact kept_of_eq hs (principals_applyAll (outside_of_executed hc.pre
        (executed_of_evidence _ _ (runs_send.mp hruns))) s)
  | mapExternalIdentity input =>
      exact kept_of_eq hs (principals_applyAll
        (mapExternalIdentityTx_runs executed_of_evidence hruns) s)
  | provisionPrincipal input =>
      have hcanonical : input.canonical = true := hc.pre
      have hadm : database.Admissible s (writes h) := hc.admissible
      obtain ⟨w, ws, hws, houtside, hw⟩ := provisionPrincipalTx_runs executed_of_evidence hruns
      have hrows : (database.applyAll (writes h) s).principals = (w.apply s).principals := by
        rw [hws]
        exact principals_applyAll houtside _
      rcases hw with ⟨id, rfl⟩ | ⟨id, r, rfl, hevidence⟩
      · have habsent : ¬ s.present (.principal id) = true :=
          hadm.absent (w := .principal (input.create id)) (by rw [hws]; exact List.mem_cons_self)
            (List.mem_singleton_self _)
        exact kept_insert hs (r := input.create id) (fresh_principal habsent)
          (create_consistent input.accepted hcanonical id) (congrArg Table.rows hrows)
      · have hown : (Write.updatePrincipal id input.update).ownActor s = true :=
          hevidence.2 _ (List.mem_singleton_self _)
        refine kept_modify hs (fun p hp hid => ?_) (congrArg Table.rows hrows)
        rw [Write.ownActor, Table.get?_eq_some.mpr ⟨hp, hid⟩] at hown
        obtain ⟨htype, hactor⟩ := Bool.and_eq_true_iff.mp hown
        have htype : p.actorType = input.actorType := of_decide_eq_true htype
        have hactor : p.actorId = input.actorId := of_decide_eq_true hactor
        exact ⟨update_consistent input.accepted hcanonical (hs p hp) htype hactor, htype, hactor⟩

theorem actorRules_statements : actorRules.Statements ownActors where
  guarded := by
    intros
    exact List.disjoint_nil_right _
  current := by
    intro c i ch call pool β α l h q k' k r ws T hok hth hexec _ _
    rw [ownActors, nextEvent_statement hth hexec] at hok
    exact List.all_eq_true.mp hok
  frame := by
    intro β β' s T l h a T' l' p e hc _ _ hlocks _ hcur w hw
    have hown := hcur w hw
    cases w with
    | updatePrincipal id d =>
        -- the update holds the lock of the row that the commit would write
        have hlock : Key.principal id ∈ database.locksOf (p ++ e.writes) :=
          List.mem_flatMap.mpr ⟨_, List.mem_append_right _ hw, List.mem_cons_self⟩
        have hrow := get?_applyAll (fun hmem => hlocks hmem hlock) s
        show ((database.applyAll (writes h) s).principals.get? id).all _ = true
        rwa [hrow]
    | _ => rfl

theorem uses_statement {q : Stmt α} (hq : q.outside = true) :
    (statement q).Uses Label.canonical := .transaction (l := Label.statement q) hq

theorem uses_ofExcept {x : Except AppException α} : (Process.ofExcept x).Uses Label.canonical := by
  cases x with
  | ok a => exact .pure
  | error e => exact .throw

theorem auditRecord_uses (context : RequestContext) (input : AuditRecordInput) :
    (auditRecord context input).Uses Label.canonical := uses_statement rfl

/-- The calls run the transactions that the rules allow. -/
theorem program_uses {call : Call} {c : ServiceConfig} (hok : ownActors c (.start call) = true) :
    call.program.Uses Label.canonical := by
  cases call with
  | provisionPrincipal input context =>
      refine .bind (.bind uses_ofExcept fun _ => ?_) fun _ => .pure
      refine .bind (.transaction (l := Label.provisionPrincipal input) hok) fun provisioned => ?_
      exact .bind (auditRecord_uses ..) fun _ => .pure
  | provisionRoleBinding input context =>
      refine .bind (.bind uses_ofExcept fun _ => ?_) fun _ => .pure
      refine .bind (uses_statement rfl) fun _ => ?_
      exact .bind (auditRecord_uses ..) fun _ => .pure
  | mapExternalIdentity input context =>
      refine .bind (.bind uses_ofExcept fun _ => ?_) fun _ => .pure
      refine .bind (.transaction (l := Label.mapExternalIdentity input) trivial) fun mapping => ?_
      exact .bind (auditRecord_uses ..) fun _ => .pure

theorem actorRules_valid : actorRules.Valid ownActors :=
  Rules.static_valid lawful_database Store.KeepsActors.refl (fun _ _ _ => .trans)
    actorRules_statements
    (fun _ _ _ _ _ hc => ⟨(commits_kept hc).1, (commits_kept hc).2, trivial⟩)
    fun c _ hok _ => Rules.Fine.of_uses (program_uses hok) (fun _ _ _ hl => hl) c.store ∅

end Rules

/-- If every update meets a principal of its own actor and every customer id is canonical, the
principals stay consistent, and none of them changes its actor. -/
theorem actors_kept {s : Store} (hs : s.Consistent) {c c' : ServiceConfig}
    (h : Steps service ownActors (.initial s) c) (h' : Steps service ownActors c c') :
    (∀ p ∈ c.store.principals.rows, (p.actorType = .customer ↔ p.customerId.isSome) ∧
      ∀ customerId, p.customerId = some customerId → customerId = p.actorId) ∧
    ∀ p ∈ c.store.principals.rows, ∃ p' ∈ c'.store.principals.rows,
      p'.id = p.id ∧ p'.actorType = p.actorType ∧ p'.actorId = p.actorId := by
  obtain ⟨⟨own, hsound⟩, -⟩ := Rules.sound_of_steps actorRules_valid hs h
  have hconsistent : c.store.Consistent := hsound.inv
  have hkeeps : c.store.KeepsActors c'.store := (hsound.steps actorRules_valid h').2
  exact ⟨fun p hp => ⟨(hconsistent p hp).customer, (hconsistent p hp).actorId⟩, hkeeps⟩

/-! ### A shared login id -/

def demoCustomer : Uuid := "c0000000-0000-4000-8000-000000000001"

/-- A customer with a principal. -/
def customerStore : Store where
  customers := [demoCustomer]
  principals := Table.empty.insert
    ⟨⟨"principal", some "shared", .customer, demoCustomer, .active⟩, some demoCustomer⟩
  roleBindings := [⟨"principal", "CUSTOMER"⟩]
  externalIdentities := []
  auditEvents := .empty

theorem customerStore_consistent : customerStore.Consistent := by
  intro p hp
  obtain rfl := List.mem_singleton.mp (show p ∈ [_] from hp)
  exact ⟨by decide, by decide⟩

/-- An administrator with the login id of the customer. -/
def adminRequest : ProvisionPrincipalRequest where
  actorType := .admin
  actorId := "admin-2"
  loginId := some "shared"
  customerId := none
  roles := ["ADMIN"]
  accepted := by decide

/-- The customer again, with another role. -/
def customerRequest : ProvisionPrincipalRequest where
  actorType := .customer
  actorId := demoCustomer
  loginId := some "shared"
  customerId := some demoCustomer
  roles := ["CUSTOMER", "VIP"]
  accepted := by decide

/-- A call by an administrator, with its two transactions. -/
def provisionSchedule (input : ProvisionPrincipalRequest) : List (Action Choice Call) :=
  .start (.provisionPrincipal input ⟨"correlation", none, some ⟨"admin", .admin⟩⟩) ::
    List.replicate 9 (.advance 0 ⟨"event", "", 0, [], []⟩)

/-- The customer is provisioned again. -/
theorem actors_kept_again : customerStore.Consistent ∧ ∃ c : ServiceConfig,
    Steps service ownActors (.initial customerStore) c ∧
      c.store.roleBindings = [⟨"principal", "CUSTOMER"⟩, ⟨"principal", "VIP"⟩] ∧
      (∀ p ∈ c.store.principals.rows, (p.actorType = .customer ↔ p.customerId.isSome) ∧
        ∀ customerId, p.customerId = some customerId → customerId = p.actorId) ∧
      ∀ p ∈ customerStore.principals.rows, ∃ p' ∈ c.store.principals.rows,
        p'.id = p.id ∧ p'.actorType = p.actorType ∧ p'.actorId = p.actorId := by
  obtain ⟨c, hrun, hroles⟩ := exists_of_play service ownActors (.initial customerStore)
    (provisionSchedule customerRequest)
    (fun c => c.store.roleBindings = [⟨"principal", "CUSTOMER"⟩, ⟨"principal", "VIP"⟩])
    (by decide +kernel)
  refine ⟨customerStore_consistent, c, hrun, hroles,
    (actors_kept customerStore_consistent hrun .refl).1, ?_⟩
  exact (actors_kept customerStore_consistent .refl hrun).2

/-- The administrator takes over the principal of the customer, with its role bindings and its
customer id. -/
theorem customer_taken_over : customerStore.Consistent ∧ ∃ c : ServiceConfig,
    Steps service (fun _ _ => true) (.initial customerStore) c ∧
      c.store.principals.rows =
        [⟨⟨"principal", some "shared", .admin, "admin-2", .active⟩, some demoCustomer⟩] ∧
      c.store.roleBindings = [⟨"principal", "CUSTOMER"⟩, ⟨"principal", "ADMIN"⟩] := by
  obtain ⟨c, hrun, hrows, hroles⟩ := exists_of_play service (fun _ _ => true)
    (.initial customerStore) (provisionSchedule adminRequest)
    (fun c => c.store.principals.rows =
        [⟨⟨"principal", some "shared", .admin, "admin-2", .active⟩, some demoCustomer⟩] ∧
      c.store.roleBindings = [⟨"principal", "CUSTOMER"⟩, ⟨"principal", "ADMIN"⟩])
    (by decide +kernel)
  exact ⟨customerStore_consistent, c, hrun, hrows, hroles⟩

end LedgerCredit.Auth.Provisioning
