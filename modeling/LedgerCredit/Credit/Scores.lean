import LedgerCredit.Credit.Reported
import LedgerCredit.Credit.Runs
import Mathlib.Algebra.Order.BigOperators.Group.List

/-!
# The score

The score of a customer is 300 and three components, which are clamped to 220, 180
and 150.  One count feeds two of them, and the balances go through two truncating
divisions and a conversion to a number before the clamp.

*Fair.*  Every step from the history to the score is monotone, and the sum of the
balances forgets their order (`score_le`, `decision_perm`).

*Stored.*  A new assessment has the score of the history of its customer
(`createAssessment_scores`).
-/

namespace LedgerCredit

/-- The clamp of a component hides what `Number` does to large integers. -/
theorem clamp_numberOfBigInt (n : Int) : max 0 (min 180 (numberOfBigInt n)) = max 0 (min 180 n) := by
  rw [numberOfBigInt_eq]
  split
  · rfl
  · rename_i hlarge
    rw [Nat.not_lt] at hlarge
    have hround : 2 ^ 53 ≤ Rounding.roundEven 53 n.natAbs :=
      Rounding.le_roundEven (by decide) hlarge ⟨1, 53, by decide, by decide⟩ hlarge
    generalize Rounding.roundEven 53 n.natAbs = m at hround
    rcases Int.le_total 0 n with hn | hn
    · rw [Int.sign_eq_one_of_pos (by omega)]
      omega
    · rw [Int.sign_eq_neg_one_of_neg (by omega)]
      omega

end LedgerCredit

namespace LedgerCredit.Credit

open Txn

/-! ## Histories -/

/-- What a score is made of. -/
structure History where
  settledTransferCount : Nat
  failedTransferCount : Nat
  /-- The balances of the accounts, where a missing one is zero. -/
  balanceValues : List Int

/-- The decision on a history. -/
def History.decision (h : History) (policy : CreditPolicyConfig) :
    Except AppException CreditDecision :=
  computeCreditDecision
    (profileInput h.balanceValues h.settledTransferCount h.failedTransferCount) policy

/-- The history `h'` has no fewer settled transfers, no more failed ones, and no lower balances,
in some order. -/
structure History.AtMost (h h' : History) : Prop where
  settled : h.settledTransferCount ≤ h'.settledTransferCount
  failed : h'.failedTransferCount ≤ h.failedTransferCount
  balances : ∃ l, l.Perm h'.balanceValues ∧ List.Forall₂ (· ≤ ·) h.balanceValues l

/-- The text of the three components. -/
def rationale (paymentComponent balanceComponent activityComponent : Int) : String :=
  "payment_history=" ++ toString paymentComponent ++ "; average_balance=" ++
    toString balanceComponent ++ "; activity=" ++ toString activityComponent

/-- The score is in its range, and the sum of 300 and the components that are printed. -/
structure CreditDecision.Explained (d : CreditDecision) : Prop where
  range : 300 ≤ d.score ∧ d.score ≤ 850
  sum : ∃ paymentComponent balanceComponent activityComponent,
    d.score = 300 + paymentComponent + balanceComponent + activityComponent ∧
      d.rationaleSummary = rationale paymentComponent balanceComponent activityComponent

/-! ## Components -/

section Components

variable {h h' : History} {policy policy' : CreditPolicyConfig} {d d' : CreditDecision}

def History.paymentComponent (h : History) : Int :=
  max 0 (min 220 (120 + h.settledTransferCount * 12 - h.failedTransferCount * 20))

def History.balanceComponent (h : History) : Int :=
  max 0 (min 180 ((averageBalance h.balanceValues).tdiv 5000))

def History.activityComponent (h : History) : Int :=
  max 0 (min 150 (h.settledTransferCount * 5))

/-- The score is the sum of its components: no clamp of the sum is ever needed. -/
theorem decision_eq (h : History) (hpolicy : policy.rejectThreshold < policy.approveThreshold) :
    ∃ d, h.decision policy = .ok d ∧
      d.score = 300 + h.paymentComponent + h.balanceComponent + h.activityComponent ∧
      d.rationaleSummary =
        rationale h.paymentComponent h.balanceComponent h.activityComponent := by
  have hpayment : max 0 (min 220 (max 0 (120 + (h.settledTransferCount : Int) * 12 -
      h.failedTransferCount * 20))) = h.paymentComponent := by
    unfold History.paymentComponent
    omega
  have hbalance : max 0 (min 180 (numberOfBigInt ((averageBalance h.balanceValues).tdiv 5000))) =
      h.balanceComponent := clamp_numberOfBigInt _
  have hscore : max baseScore (min (baseScore + maxDelta) (baseScore + h.paymentComponent +
      h.balanceComponent + h.activityComponent)) =
      300 + h.paymentComponent + h.balanceComponent + h.activityComponent := by
    unfold baseScore maxDelta History.paymentComponent History.balanceComponent
      History.activityComponent
    omega
  refine ⟨_, if_neg (by omega), ?_, ?_⟩
  · rw [← hscore, ← hpayment, ← hbalance]
    rfl
  · rw [← hpayment, ← hbalance]
    rfl

/-- There is a decision only with thresholds in order. -/
theorem policy_of_decision (hd : h.decision policy = .ok d) :
    policy.rejectThreshold < policy.approveThreshold := by
  by_contra hnot
  rw [History.decision, computeCreditDecision, if_pos (by omega)] at hd
  cases hd

theorem score_eq (hd : h.decision policy = .ok d) :
    d.score = 300 + h.paymentComponent + h.balanceComponent + h.activityComponent ∧
      d.rationaleSummary =
        rationale h.paymentComponent h.balanceComponent h.activityComponent := by
  obtain ⟨d', hd', hscore⟩ := decision_eq h (policy_of_decision hd)
  cases hd.symm.trans hd'
  exact hscore

theorem decision_explained (hd : h.decision policy = .ok d) : d.Explained := by
  obtain ⟨hscore, htext⟩ := score_eq hd
  refine ⟨?_, _, _, _, hscore, htext⟩
  unfold History.paymentComponent History.balanceComponent History.activityComponent at hscore
  omega

/-- The average grows with every balance. -/
theorem averageBalance_le {l l' : List Int} (hle : List.Forall₂ (· ≤ ·) l l') :
    averageBalance l ≤ averageBalance l' := by
  have hlength := hle.length_eq
  unfold averageBalance
  rw [← hlength]
  split
  · rename_i hpos
    exact Int.tdiv_le_tdiv (by omega) hle.sum_le_sum
  · exact le_refl 0

/-- The average does not depend on the order of the accounts. -/
theorem averageBalance_perm {l l' : List Int} (hperm : l.Perm l') :
    averageBalance l = averageBalance l' := by
  unfold averageBalance
  rw [hperm.length_eq, hperm.sum_eq]

theorem balanceComponent_le (hle : h.AtMost h') : h.balanceComponent ≤ h'.balanceComponent := by
  obtain ⟨l, hperm, hbalances⟩ := hle.balances
  have haverage : averageBalance h.balanceValues ≤ averageBalance h'.balanceValues := by
    rw [← averageBalance_perm hperm]
    exact averageBalance_le hbalances
  have hdiv := Int.tdiv_le_tdiv (c := 5000) (by decide) haverage
  unfold History.balanceComponent
  omega

/-- A history that is at least as good in every respect has at least the score. -/
theorem score_le (hle : h.AtMost h') (hd : h.decision policy = .ok d)
    (hd' : h'.decision policy' = .ok d') : d.score ≤ d'.score := by
  have hbalance := balanceComponent_le hle
  have hsettled := hle.settled
  have hfailed := hle.failed
  have hpayment : h.paymentComponent ≤ h'.paymentComponent := by
    unfold History.paymentComponent
    omega
  have hactivity : h.activityComponent ≤ h'.activityComponent := by
    unfold History.activityComponent
    omega
  rw [(score_eq hd).1, (score_eq hd').1]
  omega

/-- The order of the accounts does not matter. -/
theorem decision_perm {l : List Int} (hperm : h.balanceValues.Perm l) :
    History.decision { h with balanceValues := l } policy = h.decision policy := by
  unfold History.decision profileInput
  rw [averageBalance_perm hperm.symm]

end Components

/-! ## New assessments -/

/-- The history of a customer. -/
def Store.history (s : Store) (customerId : Uuid) : History where
  settledTransferCount := (s.transfersOf customerId [.settled]).length
  failedTransferCount := (s.transfersOf customerId [.failed, .compensated]).length
  balanceValues := (s.accountsOf customerId).map fun a =>
    ((s.ledger.balanceProjections.get? a.id).map (·.currentMinor)).getD 0

/-- The assessment has the score and the text of the decision on the history. -/
structure CreditAssessment.Scores (x : CreditAssessment) (h : History) (policy : CreditPolicyConfig) :
    Prop where
  decision : ∃ d, h.decision policy = .ok d ∧ x.score = some d.score ∧
    x.rationaleSummary = some d.rationaleSummary

section Stored

variable {env : Env} {ok : Store → Choice → Prop} {s : Store}

/-- What the transaction reads when it runs alone. -/
def Alone (s : Store) : View := fun p e =>
  ∃ ch, (database.applyAll p s).exec e.query ch = .ok (e.reply, e.writes)

theorem replying_alone : Replying (Alone s) := by
  rintro p β q r ws ⟨ch, hexec⟩
  exact replies_of_exec hexec

/-- A transaction that runs alone scores the history of the customer. -/
theorem Scored.decision_history {record : IdempotencyRecord} {customer : Customer}
    {customerId : Uuid} {balances : List (Option BalanceProjection)} {profile : CreditProfileInput}
    {settledTransferCount failedTransferCount : Nat} {decision : CreditDecision}
    (hfound : Alone s [.idempotencyRecord record]
      ⟨.findCustomer customerId, some (customer, balances), []⟩)
    (h : Scored (Alone s) env [.idempotencyRecord record] customer.id balances profile
      settledTransferCount failedTransferCount decision) :
    customer.id = customerId ∧ (s.history customerId).decision
      ⟨env.scoreApproveThreshold, env.scoreRejectThreshold⟩ = .ok decision := by
  obtain ⟨ch, hexec⟩ := hfound
  obtain ⟨_, hsettled⟩ := h.settled
  obtain ⟨_, hfailed⟩ := h.failed
  simp only [Store.exec, Except.ok.injEq, Prod.mk.injEq, Option.map_eq_some_iff] at hexec
  obtain ⟨⟨customer', hget, rfl, rfl⟩, -⟩ := hexec
  obtain rfl := (Table.get?_eq_some.mp hget).2
  cases hsettled
  cases hfailed
  refine ⟨rfl, ?_⟩
  have hperm : (s.history customer'.id).balanceValues.Perm
      (((arrange ch.order (s.accountsOf customer'.id)).map fun a =>
        s.ledger.balanceProjections.get? a.id).map fun b => (b.map (·.currentMinor)).getD 0) := by
    rw [List.map_map]
    exact (arrange_perm ch.order (s.accountsOf customer'.id)).symm.map _
  rw [← decision_perm hperm, History.decision, ← h.decided, h.profiled]
  rfl

theorem createAssessment_scores (input : CreateCreditAssessmentRequest) (context : RequestContext) :
    Returns (services env) ok (CreditService.createAssessment env input context) s fun _ s' =>
      ∀ x ∈ s'.assessments.rows, x ∈ s.assessments.rows ∨ x.customerId = input.customerId ∧
        x.Scores (s.history input.customerId)
          ⟨env.scoreApproveThreshold, env.scoreRejectThreshold⟩ := by
  refine Returns.bind (returns_ofExcept fun args hargs => ?_)
  have hinput : args.input = input := (assessmentArgs_ok hargs).2
  refine Returns.transaction (Always.of_runs (V := Alone s) lawful_database
    (fun p e ch _ hexec => ⟨ch, hexec⟩) fun r ws hruns hadm x hx => ?_)
  rcases createAssessmentTx_runs replying_alone hruns with rfl | ⟨row, snapshot, decision, hrun⟩
  · exact Or.inl hx
  · have hx := (hrun.rows hadm).1 ▸ hx
    rcases List.mem_append.mp hx with hx | hx
    · exact Or.inl hx
    · obtain rfl := List.mem_singleton.mp hx
      obtain ⟨record, customer, balances, profile, _, _, hfound, hscored, -, ⟨u, rfl⟩, -⟩ := hrun.found
      obtain ⟨hid, hdecision⟩ := hscored.decision_history hfound
      rw [hinput] at hid hdecision
      exact Or.inr ⟨hid, decision, hdecision, rfl, rfl⟩

end Stored

/-- Every history has a score in its range that is explained, a better history has no lower score,
the order of the accounts does not matter, and a new assessment has the score of the history. -/
theorem score_fair (env : Env) (s : Store) (input : CreateCreditAssessmentRequest)
    (context : RequestContext) :
    (∀ (h : History) (policy : CreditPolicyConfig), policy.rejectThreshold < policy.approveThreshold →
      ∃ d, h.decision policy = .ok d ∧ d.Explained) ∧
    (∀ (h h' : History) (policy policy' : CreditPolicyConfig) (d d' : CreditDecision),
      h.AtMost h' → h.decision policy = .ok d → h'.decision policy' = .ok d' →
        d.score ≤ d'.score) ∧
    (∀ (h : History) (policy : CreditPolicyConfig) (l : List Int), h.balanceValues.Perm l →
      History.decision { h with balanceValues := l } policy = h.decision policy) ∧
    Returns (services env) (fun _ _ => True) (CreditService.createAssessment env input context) s
      fun _ s' => ∀ x ∈ s'.assessments.rows, x ∈ s.assessments.rows ∨
        x.customerId = input.customerId ∧ x.Scores (s.history input.customerId)
          ⟨env.scoreApproveThreshold, env.scoreRejectThreshold⟩ := by
  refine ⟨fun h policy hpolicy => ?_, fun h h' policy policy' d d' hle hd hd' => score_le hle hd hd',
    fun h policy l hperm => decision_perm hperm, createAssessment_scores input context⟩
  obtain ⟨d, hd, -⟩ := decision_eq h hpolicy
  exact ⟨d, hd, decision_explained hd⟩

/-- The demo customer, with an average of 750000 and no transfers, scores 570. -/
theorem score_fair_demo : ∃ r s', Finishes (services testEnvironment) (fun _ _ => True)
      (CreditService.createAssessment testEnvironment ⟨"customer", "officer"⟩ (demoContext "k"))
      (.over demoStore) (.ok (r, s')) ∧
    (∀ x ∈ s'.assessments.rows, x.Scores ((Store.over demoStore).history "customer") ⟨700, 550⟩) ∧
    s'.assessments.rows.map (·.score) = [some 570] := by
  have hstored := (score_fair testEnvironment (.over demoStore) ⟨"customer", "officer"⟩
    (demoContext "k")).2.2.2
  have hfinishes : ∃ r s', Finishes (services testEnvironment) (fun _ _ => True)
      (CreditService.createAssessment testEnvironment ⟨"customer", "officer"⟩ (demoContext "k"))
      (.over demoStore) (.ok (r, s')) ∧ s'.assessments.rows.map (·.score) = [some 570] := by
    refine ⟨_, _, finishes_of_eval auditChoice (fun _ => trivial) rfl, ?_⟩
    decide +kernel
  obtain ⟨r, s', hrun, hscores⟩ := hfinishes
  refine ⟨r, s', hrun, fun x hx => ?_, hscores⟩
  rcases hstored.result hrun x hx with hold | ⟨-, hnew⟩
  · cases hold
  · exact hnew

end LedgerCredit.Credit
