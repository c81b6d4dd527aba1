import Mathlib.Algebra.Order.Ring.Int

/-!
# Capacity bands of the send admission

`services/send_admission.py` grades the backlog of the platform as open, degraded
or closed.  A capacity band is left only at half of its threshold, and a closed
band is left only through a recovery hold.

Times are microseconds, the resolution of the database.
-/

namespace SmsPlatform.Admission

inductive AdmissionState
  | opened
  | degraded
  | closed
  deriving DecidableEq

/-- `_STATE_RANK`. -/
def AdmissionState.rank : AdmissionState → ℕ
  | .opened => 0
  | .degraded => 1
  | .closed => 2

inductive BudgetMode
  | normal
  | degraded
  | recovery
  | closed
  deriving DecidableEq

/-- The reason codes of a state; `bootstrap` comes with the first row of the
table. -/
inductive Reason
  | ok
  | dispatcherHeartbeatStale
  | sendLanesHeartbeatStale
  | queuesPaused
  | outboxBacklog
  | outboxOldest
  | outboxDead
  | callbackBacklog
  | uncertainOverdue
  | vendorFailures
  | queuePaused
  | capacityHysteresis
  | recoveryHold
  | bootstrap
  deriving DecidableEq

structure SendAdmissionFacts where
  outboxActive : ℤ
  outboxOldestAgeS : ℤ
  outboxDead : ℤ
  uncertainOverdue : ℤ
  callbackDead : ℤ
  realtimePaused : Bool
  bulkPaused : Bool
  vendorFailures : ℤ
  realtimeHeartbeatStale : Bool
  bulkHeartbeatStale : Bool
  dispatcherHeartbeatStale : Bool
  outboxSharedActive : Option ℤ
  deriving DecidableEq

structure SendAdmissionLimits where
  degradedOutboxActive : ℤ := 200
  closedOutboxActive : ℤ := 2000
  degradedOldestS : ℤ := 300
  closedOldestS : ℤ := 600
  degradedOutboxDead : ℤ := 10
  closedOutboxDead : ℤ := 50
  degradedUncertain : ℤ := 20
  closedCallbackDead : ℤ := 200
  degradedVendorFailures : ℤ := 3
  deriving DecidableEq

structure CapacityEvaluation where
  state : AdmissionState
  capacityReason : Reason
  hysteresisActive : Bool
  deriving DecidableEq

namespace SendAdmissionFacts

variable (facts : SendAdmissionFacts) (limits : SendAdmissionLimits)

def age : ℤ := max 0 facts.outboxOldestAgeS

/-- The shared soft protection leaves callbacks out. -/
def sharedActive : ℤ :=
  facts.outboxSharedActive.getD facts.outboxActive

/-- `_raw_capacity`: the band of the facts alone. -/
def rawCapacity : AdmissionState × Reason :=
  if facts.dispatcherHeartbeatStale then (.closed, .dispatcherHeartbeatStale)
  else if facts.realtimeHeartbeatStale && facts.bulkHeartbeatStale then
    (.closed, .sendLanesHeartbeatStale)
  else if facts.realtimePaused && facts.bulkPaused then (.closed, .queuesPaused)
  else if limits.closedOutboxActive ≤ facts.outboxActive then (.closed, .outboxBacklog)
  else if limits.closedOldestS ≤ facts.age then (.closed, .outboxOldest)
  else if limits.closedOutboxDead ≤ facts.outboxDead then (.closed, .outboxDead)
  else if limits.closedCallbackDead ≤ facts.callbackDead then (.closed, .callbackBacklog)
  else if limits.degradedOutboxActive ≤ facts.sharedActive then (.degraded, .outboxBacklog)
  else if limits.degradedOldestS ≤ facts.age then (.degraded, .outboxOldest)
  else if limits.degradedOutboxDead ≤ facts.outboxDead then (.degraded, .outboxDead)
  else if limits.degradedUncertain ≤ facts.uncertainOverdue then
    (.degraded, .uncertainOverdue)
  else if limits.degradedVendorFailures ≤ facts.vendorFailures then
    (.degraded, .vendorFailures)
  else if facts.realtimePaused || facts.bulkPaused then (.degraded, .queuePaused)
  else (.opened, .ok)

def inClosedHysteresis : Bool :=
  decide (limits.closedOutboxActive / 2 ≤ facts.outboxActive) ||
  decide (limits.closedOldestS / 2 ≤ facts.age) ||
  decide (limits.closedOutboxDead / 2 ≤ facts.outboxDead) ||
  decide (limits.closedCallbackDead / 2 ≤ facts.callbackDead) ||
  (facts.realtimePaused && facts.bulkPaused)

def inDegradedHysteresis : Bool :=
  decide (limits.degradedOutboxActive / 2 ≤ facts.sharedActive) ||
  decide (limits.degradedOldestS / 2 ≤ facts.age) ||
  decide (limits.degradedOutboxDead / 2 ≤ facts.outboxDead) ||
  decide (limits.degradedUncertain / 2 ≤ facts.uncertainOverdue) ||
  decide (max 1 (limits.degradedVendorFailures - 1) ≤ facts.vendorFailures) ||
  facts.realtimePaused || facts.bulkPaused

/-- The degraded or open band once the closed one is ruled out. -/
def belowClosed (raw : AdmissionState × Reason) : CapacityEvaluation :=
  if raw.1 = .degraded || facts.inDegradedHysteresis limits then
    ⟨.degraded, if raw.1 = .degraded then raw.2 else .capacityHysteresis, raw.1 != .degraded⟩
  else ⟨.opened, .ok, false⟩

/-- `evaluate_capacity`; `none` stands for a previous state that is missing or
unknown. -/
def evaluateCapacity (previous : Option AdmissionState) : CapacityEvaluation :=
  let raw := facts.rawCapacity limits
  match previous with
  | some .closed =>
    if raw.1 = .closed || facts.inClosedHysteresis limits then
      ⟨.closed, if raw.1 = .closed then raw.2 else .capacityHysteresis, raw.1 != .closed⟩
    else facts.belowClosed limits raw
  | some .degraded =>
    if raw.1 = .closed then ⟨.closed, raw.2, false⟩ else facts.belowClosed limits raw
  | _ => ⟨raw.1, raw.2, false⟩

end SendAdmissionFacts

/-! ## The recovery hold -/

/-- `RECOVERY_HOLD_SECONDS`. -/
def recoveryHold : ℕ := 60000000

structure Transition where
  state : AdmissionState
  reason : Reason
  holdUntil : Option ℕ
  deriving DecidableEq

/-- A hold that has not run out. -/
def activeHold (dbNow : ℕ) (holdUntil : Option ℕ) : Option ℕ :=
  holdUntil.filter (fun hold => decide (dbNow < hold))

/-- The hold that a recovery starts; a longer one that is running is kept. -/
def newHold (dbNow : ℕ) (active : Option ℕ) : ℕ :=
  match active with
  | some hold => if dbNow + recoveryHold < hold then hold else dbNow + recoveryHold
  | none => dbNow + recoveryHold

/-- `transition_admission_state`.  A previous state that is missing or unknown
counts as closed. -/
def transitionAdmissionState (previous : Option AdmissionState) (raw : AdmissionState)
    (rawReason : Reason) (dbNow : ℕ) (holdUntil : Option ℕ) : Transition :=
  let active := activeHold dbNow holdUntil
  if raw = .closed then ⟨.closed, rawReason, none⟩
  else if previous.getD .closed = .closed then
    ⟨.degraded, .recoveryHold, some (newHold dbNow active)⟩
  else match active with
    | some hold =>
      if raw = .opened then ⟨.degraded, .recoveryHold, some hold⟩
      else ⟨raw, rawReason, some hold⟩
    | none => ⟨raw, rawReason, none⟩

def budgetMode (state : AdmissionState) (holdActive hysteresisActive : Bool) : BudgetMode :=
  match state with
  | .closed => .closed
  | .opened => .normal
  | .degraded => if holdActive || hysteresisActive then .recovery else .degraded

end SmsPlatform.Admission
