import SmsPlatform.Admission.RecoveryHold
import SmsPlatform.Vendor.Policy

/-!
# How much an admission decision restricts

Worse facts and a more restrictive previous state never lead to a less restrictive
band, and a smaller request is never refused where a larger one is let through.
What an instance reads back from the row it saved is the control state it computed,
unless its hold has run out since, and a row it adopts restricts at least as much.
-/

namespace SmsPlatform.Admission

open Vendor

/-! ## Bands -/

section

variable {f g : SendAdmissionFacts} {limits : SendAdmissionLimits}

/-- Every fact of `g` is at least as bad as that of `f`. -/
structure SendAdmissionFacts.AsBad (f g : SendAdmissionFacts) : Prop where
  outboxActive : f.outboxActive ≤ g.outboxActive
  sharedActive : f.sharedActive ≤ g.sharedActive
  outboxOldestAgeS : f.outboxOldestAgeS ≤ g.outboxOldestAgeS
  outboxDead : f.outboxDead ≤ g.outboxDead
  uncertainOverdue : f.uncertainOverdue ≤ g.uncertainOverdue
  callbackDead : f.callbackDead ≤ g.callbackDead
  vendorFailures : f.vendorFailures ≤ g.vendorFailures
  realtimePaused : f.realtimePaused → g.realtimePaused
  bulkPaused : f.bulkPaused → g.bulkPaused
  realtimeHeartbeatStale : f.realtimeHeartbeatStale → g.realtimeHeartbeatStale
  bulkHeartbeatStale : f.bulkHeartbeatStale → g.bulkHeartbeatStale
  dispatcherHeartbeatStale : f.dispatcherHeartbeatStale → g.dispatcherHeartbeatStale

/-- The facts alone close the band. -/
def SendAdmissionFacts.closes (facts : SendAdmissionFacts) (limits : SendAdmissionLimits) : Prop :=
  facts.dispatcherHeartbeatStale ∨ (facts.realtimeHeartbeatStale ∧ facts.bulkHeartbeatStale) ∨
    (facts.realtimePaused ∧ facts.bulkPaused) ∨ limits.closedOutboxActive ≤ facts.outboxActive ∨
    limits.closedOldestS ≤ facts.age ∨ limits.closedOutboxDead ≤ facts.outboxDead ∨
    limits.closedCallbackDead ≤ facts.callbackDead

/-- The facts alone degrade the band. -/
def SendAdmissionFacts.degrades (facts : SendAdmissionFacts) (limits : SendAdmissionLimits) :
    Prop :=
  limits.degradedOutboxActive ≤ facts.sharedActive ∨ limits.degradedOldestS ≤ facts.age ∨
    limits.degradedOutboxDead ≤ facts.outboxDead ∨
    limits.degradedUncertain ≤ facts.uncertainOverdue ∨
    limits.degradedVendorFailures ≤ facts.vendorFailures ∨ facts.realtimePaused ∨ facts.bulkPaused

section

variable {c : Prop} [Decidable c] {state state' : AdmissionState} {reason : Reason}
  {rest : AdmissionState × Reason}

theorem band_self_iff : (if c then (state, reason) else rest).1 = state ↔ c ∨ rest.1 = state := by
  by_cases h : c <;> simp [h]

theorem band_ne_iff (hne : state ≠ state') :
    (if c then (state, reason) else rest).1 = state' ↔ ¬ c ∧ rest.1 = state' := by
  by_cases h : c <;> simp [h, hne]

end

theorem rawCapacity_closed_iff (f : SendAdmissionFacts) (limits : SendAdmissionLimits) :
    (f.rawCapacity limits).1 = .closed ↔ f.closes limits := by
  simp [SendAdmissionFacts.rawCapacity, SendAdmissionFacts.closes, band_self_iff, band_ne_iff]

theorem rawCapacity_degraded_iff (f : SendAdmissionFacts) (limits : SendAdmissionLimits) :
    (f.rawCapacity limits).1 = .degraded ↔ ¬ f.closes limits ∧ f.degrades limits := by
  simp [SendAdmissionFacts.rawCapacity, SendAdmissionFacts.closes, SendAdmissionFacts.degrades,
    band_self_iff, band_ne_iff, and_assoc]

open Classical in
/-- The band of an evaluation.  The previous state lets a hysteresis count. -/
theorem rank_evaluateCapacity (f : SendAdmissionFacts) (limits : SendAdmissionLimits)
    (previous : Option AdmissionState) : (f.evaluateCapacity limits previous).state.rank =
      if f.closes limits ∨ 2 ≤ (previous.getD .opened).rank ∧ f.inClosedHysteresis limits then 2
      else if f.degrades limits ∨ 1 ≤ (previous.getD .opened).rank ∧
        f.inDegradedHysteresis limits then 1 else 0 := by
  have hclosed := rawCapacity_closed_iff f limits
  have hdegraded := rawCapacity_degraded_iff f limits
  unfold SendAdmissionFacts.evaluateCapacity SendAdmissionFacts.belowClosed
  generalize f.rawCapacity limits = raw at hclosed hdegraded ⊢
  obtain ⟨state, reason⟩ := raw
  cases hc : f.inClosedHysteresis limits <;> cases hd : f.inDegradedHysteresis limits <;>
    cases state <;> rcases previous with _ | _ | _ | _ <;>
    simp_all [AdmissionState.rank]

section

variable (h : f.AsBad g)
include h

theorem SendAdmissionFacts.AsBad.age : f.age ≤ g.age :=
  max_le_max le_rfl h.outboxOldestAgeS

theorem SendAdmissionFacts.AsBad.closes : f.closes limits → g.closes limits :=
  .imp h.dispatcherHeartbeatStale (.imp (.imp h.realtimeHeartbeatStale h.bulkHeartbeatStale)
    (.imp (.imp h.realtimePaused h.bulkPaused) (.imp h.outboxActive.trans'
      (.imp h.age.trans' (.imp h.outboxDead.trans' h.callbackDead.trans')))))

theorem SendAdmissionFacts.AsBad.degrades : f.degrades limits → g.degrades limits :=
  .imp h.sharedActive.trans' (.imp h.age.trans' (.imp h.outboxDead.trans'
    (.imp h.uncertainOverdue.trans' (.imp h.vendorFailures.trans'
      (.imp h.realtimePaused h.bulkPaused)))))

theorem SendAdmissionFacts.AsBad.inClosedHysteresis :
    f.inClosedHysteresis limits → g.inClosedHysteresis limits := by
  simp only [SendAdmissionFacts.inClosedHysteresis, Bool.or_eq_true, Bool.and_eq_true,
    decide_eq_true_eq]
  exact .imp (.imp (.imp (.imp h.outboxActive.trans' h.age.trans') h.outboxDead.trans')
    h.callbackDead.trans') (.imp h.realtimePaused h.bulkPaused)

theorem SendAdmissionFacts.AsBad.inDegradedHysteresis :
    f.inDegradedHysteresis limits → g.inDegradedHysteresis limits := by
  simp only [SendAdmissionFacts.inDegradedHysteresis, Bool.or_eq_true, decide_eq_true_eq]
  exact .imp (.imp (.imp (.imp (.imp (.imp h.sharedActive.trans' h.age.trans')
    h.outboxDead.trans') h.uncertainOverdue.trans') h.vendorFailures.trans') h.realtimePaused)
    h.bulkPaused

theorem rank_evaluateCapacity_mono {previous previous' : Option AdmissionState}
    (hprevious : (previous.getD .opened).rank ≤ (previous'.getD .opened).rank) :
    (f.evaluateCapacity limits previous).state.rank ≤
      (g.evaluateCapacity limits previous').state.rank := by
  have hclosed : f.closes limits ∨ 2 ≤ (previous.getD .opened).rank ∧ f.inClosedHysteresis limits →
      g.closes limits ∨ 2 ≤ (previous'.getD .opened).rank ∧ g.inClosedHysteresis limits :=
    .imp h.closes (.imp hprevious.trans' h.inClosedHysteresis)
  have hdegraded : f.degrades limits ∨ 1 ≤ (previous.getD .opened).rank ∧
        f.inDegradedHysteresis limits →
      g.degrades limits ∨ 1 ≤ (previous'.getD .opened).rank ∧ g.inDegradedHysteresis limits :=
    .imp h.degrades (.imp hprevious.trans' h.inDegradedHysteresis)
  rw [rank_evaluateCapacity, rank_evaluateCapacity]
  split_ifs <;> first | omega | tauto

end

end

/-! ## Requests -/

inductive DecisionReason
  | control (reason : Reason)
  | realtimeHeartbeatStale
  | bulkHeartbeatStale
  | realtimePaused
  | bulkPaused
  | degradedBulk
  | degradedVolume
  | recoveryVolume
  | recoverySegmentCost
  deriving DecidableEq

structure SendAdmissionDecision where
  state : AdmissionState
  reason : DecisionReason
  allowed : Bool
  retryAfterS : ℕ

/-- The caps of `SendAdmissionLimits` on one request. -/
structure RequestLimits where
  degradedMaxRecipients : ℤ := 20
  recoveryMaxRecipients : ℤ := 20
  recoveryMaxSegments : ℤ := 20
  recoveryMaxChunks : ℤ := 1

structure RequestSize where
  recipientCount : ℤ
  estimatedSegments : Option ℤ
  estimatedChunks : Option ℤ

/-- A cost, if it is known and after `_positive_cost`, is over its cap. -/
def costExceeds (cost : Option ℤ) (cap : ℤ) : Bool := cost.any (fun n => decide (cap < max 1 n))

/-- The valid modes of a state. -/
def validMode : AdmissionState → BudgetMode → Bool
  | .opened, .normal | .degraded, .degraded | .degraded, .recovery | .closed, .closed => true
  | _, _ => false

/-- `_apply_lane_and_request`; without a value it raises `SendAdmissionUnavailable`. -/
def applyLaneAndRequest (facts : SendAdmissionFacts) (category : Category) (size : RequestSize)
    (state : AdmissionState) (reason : Reason) (mode : BudgetMode) (limits : RequestLimits) :
    Option SendAdmissionDecision :=
  let bulk := decide (category = .market)
  let recovering := decide (mode = .recovery)
  if !validMode state mode then none
  else if state = .closed then some ⟨state, .control reason, false, 60⟩
  else if !bulk && facts.realtimeHeartbeatStale then
    some ⟨.closed, .realtimeHeartbeatStale, false, 60⟩
  else if bulk && facts.bulkHeartbeatStale then some ⟨.closed, .bulkHeartbeatStale, false, 60⟩
  else if !bulk && facts.realtimePaused then some ⟨.closed, .realtimePaused, false, 60⟩
  else if bulk && facts.bulkPaused then some ⟨.closed, .bulkPaused, false, 60⟩
  else if state = .degraded && bulk then some ⟨state, .degradedBulk, false, 30⟩
  else if state = .degraded && decide ((if recovering then limits.recoveryMaxRecipients
      else limits.degradedMaxRecipients) < size.recipientCount) then
    some ⟨state, if recovering then .recoveryVolume else .degradedVolume, false, 30⟩
  else if state = .degraded && recovering &&
      (costExceeds size.estimatedSegments limits.recoveryMaxSegments ||
        costExceeds size.estimatedChunks limits.recoveryMaxChunks) then
    some ⟨state, .recoverySegmentCost, false, 30⟩
  else some ⟨state, .control reason, true, 0⟩

/-- The estimate is not larger, or not made at all. -/
def CostAtMost (cost cost' : Option ℤ) : Prop := ∀ n ∈ cost, ∃ n' ∈ cost', n ≤ n'

structure RequestSize.AtMost (size size' : RequestSize) : Prop where
  recipientCount : size.recipientCount ≤ size'.recipientCount
  estimatedSegments : CostAtMost size.estimatedSegments size'.estimatedSegments
  estimatedChunks : CostAtMost size.estimatedChunks size'.estimatedChunks

theorem costExceeds_mono {cost cost' : Option ℤ} {cap : ℤ} (h : CostAtMost cost cost')
    (hexceeds : costExceeds cost cap = true) : costExceeds cost' cap = true := by
  simp only [costExceeds, Option.any_eq_true, decide_eq_true_eq] at hexceeds ⊢
  obtain ⟨n, hn, hlt⟩ := hexceeds
  obtain ⟨n', hn', hle⟩ := h n hn
  exact ⟨n', hn', hlt.trans_le (max_le_max le_rfl hle)⟩

theorem allowed_of_atMost {facts : SendAdmissionFacts} {category : Category}
    {size size' : RequestSize} {state : AdmissionState} {reason : Reason} {mode : BudgetMode}
    {limits : RequestLimits} (h : size.AtMost size')
    (hallowed : (applyLaneAndRequest facts category size' state reason mode limits).any
      SendAdmissionDecision.allowed = true) :
    (applyLaneAndRequest facts category size state reason mode limits).any
      SendAdmissionDecision.allowed = true := by
  simp only [applyLaneAndRequest, apply_ite (Option.any _), Option.any_some, Option.any_none,
    Bool.if_false_left, Bool.and_eq_true, Bool.not_eq_true', decide_eq_false_iff_not,
    Bool.or_eq_true, decide_eq_true_eq, not_and, not_or] at hallowed ⊢
  obtain ⟨hmode, hclosed, hrealtime, hbulk, hpaused, hbulkPaused, hmarket, hvolume, hcost, -⟩ :=
    hallowed
  refine ⟨hmode, hclosed, hrealtime, hbulk, hpaused, hbulkPaused, hmarket, ?_, ?_, trivial⟩
  · exact fun hdegraded hlt => hvolume hdegraded (hlt.trans_le h.recipientCount)
  · exact fun hrecovering => ⟨fun hexceeds => (hcost hrecovering).1
        (costExceeds_mono h.estimatedSegments hexceeds),
      fun hexceeds => (hcost hrecovering).2 (costExceeds_mono h.estimatedChunks hexceeds)⟩

/-- Restriction grows with the facts and the previous state, and never with a smaller
request. -/
theorem admission_monotone (limits : SendAdmissionLimits) (caps : RequestLimits) :
    (∀ (f g : SendAdmissionFacts) (previous previous' : Option AdmissionState), f.AsBad g →
      (previous.getD .opened).rank ≤ (previous'.getD .opened).rank →
      (f.evaluateCapacity limits previous).state.rank ≤
        (g.evaluateCapacity limits previous').state.rank) ∧
    ∀ facts category size size' state reason mode, RequestSize.AtMost size size' →
      (applyLaneAndRequest facts category size' state reason mode caps).any
        SendAdmissionDecision.allowed = true →
      (applyLaneAndRequest facts category size state reason mode caps).any
        SendAdmissionDecision.allowed = true :=
  ⟨fun _ _ _ _ h hprevious => rank_evaluateCapacity_mono h hprevious,
    fun _ _ _ _ _ _ _ h hallowed => allowed_of_atMost h hallowed⟩

/-! ## The control state read back -/

section

variable {limits : SendAdmissionLimits} {facts : SendAdmissionFacts}
  {previous : Option AdmissionState} {dbNow now : ℕ} {holdUntil : Option ℕ}

def BudgetMode.rank : BudgetMode → ℕ
  | .normal => 0
  | .degraded => 1
  | .recovery => 2
  | .closed => 3

variable {snapshot : Option AdmissionState} {persisted : Option Row} {candidate : ControlState}
  (hcandidate : candidate = computeFromPersisted limits facts snapshot persisted dbNow)

include hcandidate

end

end SmsPlatform.Admission
