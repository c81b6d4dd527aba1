import SmsPlatform.Admission.Capacity
import SmsPlatform.Support.Machine

/-!
# The persisted control state and its evaluations

All instances share one row of `send_admission_state`.  An evaluation reads the
row, computes a candidate from it and from its facts, and saves the candidate in
a second transaction.  The save is conditional on the epoch of the row, unless
the row has expired; an instance that loses may adopt the row it lost to.

The two transactions of an evaluation are separate steps, so other instances,
the clock and crashes come in between.
-/

namespace SmsPlatform.Admission

open Support

/-! ## The row -/

/-- The CHECK constraints of the table, which `save_control_state` tests before
it writes. -/
def Storable (state : AdmissionState) (reason : Reason) (holdUntil : Option ℕ) : Prop :=
  (state = .opened → holdUntil = none) ∧
  (reason = .recoveryHold → state = .degraded ∧ holdUntil.isSome) ∧
  (reason = .capacityHysteresis → state ≠ .opened)

instance (state : AdmissionState) (reason : Reason) (holdUntil : Option ℕ) :
    Decidable (Storable state reason holdUntil) :=
  inferInstanceAs (Decidable (_ ∧ _ ∧ _))

structure Row where
  state : AdmissionState
  reason : Reason
  stateEpoch : ℕ
  holdUntil : Option ℕ
  validUntil : ℕ
  epoch_pos : 1 ≤ stateEpoch
  storable : Storable state reason holdUntil

/-- `AdmissionControlState`. -/
structure ControlState where
  state : AdmissionState
  reason : Reason
  stateEpoch : ℕ
  budgetMode : BudgetMode
  holdUntil : Option ℕ
  deriving DecidableEq

/-- The interval for which a save is valid. -/
def validity : ℕ := 15000000

/-- The previous state an evaluation starts from.  Without a row it is the state
of the process's last snapshot, or closed; an expired row counts as closed
unless it carries a hold or a hysteresis. -/
def persistedPrevious (snapshot : Option AdmissionState) (persisted : Option Row)
    (dbNow : ℕ) : AdmissionState :=
  match persisted with
  | none => snapshot.getD .closed
  | some row =>
    if row.validUntil < dbNow then
      if row.state = .degraded ∧ (row.holdUntil.isSome ∨ row.reason = .recoveryHold ∨
          row.reason = .capacityHysteresis) then .degraded
      else .closed
    else row.state

/-- `_compute_from_persisted`.  `dbNow` is the time of the load, or the local
clock when there is no row. -/
def computeFromPersisted (limits : SendAdmissionLimits) (facts : SendAdmissionFacts)
    (snapshot : Option AdmissionState) (persisted : Option Row) (dbNow : ℕ) :
    ControlState :=
  let previous := persistedPrevious snapshot persisted dbNow
  let capacity := facts.evaluateCapacity limits (some previous)
  let next := transitionAdmissionState (some previous) capacity.state
    capacity.capacityReason dbNow (persisted.bind Row.holdUntil)
  { state := next.state
    reason := next.reason
    stateEpoch := (persisted.map Row.stateEpoch).getD 1
    budgetMode := budgetMode next.state (activeHold dbNow next.holdUntil).isSome
      capacity.hysteresisActive
    holdUntil := next.holdUntil }

/-- `_row_control`: the control state a row stands for at `dbNow`. -/
def rowControl (row : Row) (dbNow : ℕ) : ControlState :=
  { state := row.state
    reason := row.reason
    stateEpoch := row.stateEpoch
    budgetMode := budgetMode row.state (activeHold dbNow row.holdUntil).isSome
      (row.reason = .capacityHysteresis || row.reason = .recoveryHold)
    holdUntil := row.holdUntil }

/-- `_can_adopt`. -/
def canAdopt (candidate : ControlState) (winner : Row) (dbNow : ℕ) : Bool :=
  let adopted := rowControl winner dbNow
  decide (dbNow ≤ winner.validUntil) &&
  decide (candidate.state.rank ≤ adopted.state.rank) &&
  decide (candidate.stateEpoch ≤ adopted.stateEpoch) &&
  !(adopted.state = .degraded && candidate.state = .degraded &&
    candidate.budgetMode = .recovery && adopted.budgetMode != .recovery)

/-! ## The conditional save -/

/-- The row and the candidate agree in all that an epoch stands for. -/
def SameControl (row : Row) (candidate : ControlState) : Prop :=
  row.state = candidate.state ∧ row.reason = candidate.reason ∧ row.holdUntil = candidate.holdUntil

instance (row : Row) (candidate : ControlState) : Decidable (SameControl row candidate) :=
  inferInstanceAs (Decidable (_ ∧ _ ∧ _))

/-- The condition of the update: the row has expired, or its epoch is the
candidate's and the candidate does not rank below it. -/
def saveAllowed (row : Row) (candidate : ControlState) (now : ℕ) : Bool :=
  (decide (row.validUntil < now) || decide (row.stateEpoch = candidate.stateEpoch)) &&
  (decide (row.validUntil < now) || decide (SameControl row candidate) ||
    decide (row.state.rank ≤ candidate.state.rank))

/-- The epoch counts the changes of the row. -/
def nextEpoch (row : Row) (candidate : ControlState) : ℕ :=
  if SameControl row candidate then row.stateEpoch else row.stateEpoch + 1

theorem one_le_nextEpoch (row : Row) (candidate : ControlState) : 1 ≤ nextEpoch row candidate := by
  have hpos := row.epoch_pos
  unfold nextEpoch
  split
  · exact hpos
  · omega

inductive SaveResult
  | saved (row : Row)
  | conflict (winner : Row)
  | invalid

/-- `save_control_state` in one transaction. -/
def saveControlState (row : Option Row) (candidate : ControlState) (now : ℕ) :
    SaveResult :=
  if hstore : Storable candidate.state candidate.reason candidate.holdUntil then
    match row with
    | none =>
      if hepoch : 1 ≤ candidate.stateEpoch then
        .saved ⟨candidate.state, candidate.reason, candidate.stateEpoch,
          candidate.holdUntil, now + validity, hepoch, hstore⟩
      else .invalid
    | some row =>
      if saveAllowed row candidate now then
        .saved ⟨candidate.state, candidate.reason, nextEpoch row candidate,
          candidate.holdUntil, now + validity, one_le_nextEpoch row candidate, hstore⟩
      else .conflict row
  else .invalid

/-! ## Evaluations -/

/-- `_CONTROL_CAS_ATTEMPTS`. -/
def controlCasAttempts : ℕ := 4

/-- Where an instance stands in an evaluation.  A save remembers the row its
candidate was computed from and when it was read. -/
inductive Pc
  | idle
  | loading (facts : SendAdmissionFacts) (attempts : ℕ)
  | saving (facts : SendAdmissionFacts) (attempts : ℕ) (candidate : ControlState)
      (loaded : Option Row) (loadedAt : ℕ)

structure Instance where
  snapshot : Option AdmissionState
  pc : Pc

/-- What happened, as far as the recovery hold is concerned. -/
inductive Event
  | persisted (state : AdmissionState) (time : ℕ)
  | reported (reporter : ℕ) (state : AdmissionState) (time : ℕ)

/-- The database and its clock, and the events so far, latest first. -/
structure Board where
  now : ℕ
  row : Option Row
  history : List Event

structure World where
  board : Board
  instances : ℕ → Instance

inductive Action
  | advance (duration : ℕ)
  | start (i : ℕ) (facts : SendAdmissionFacts)
  | load (i : ℕ) (localNow : ℕ)
  | save (i : ℕ) (answered : Bool)
  | fail (i : ℕ)
  | restart (i : ℕ)

namespace Board

def advance (b : Board) (duration : ℕ) : Board :=
  { b with now := b.now + duration }

/-- The row is replaced in a committed transaction. -/
def persist (b : Board) (row : Row) : Board :=
  { b with row := some row, history := .persisted row.state b.now :: b.history }

def report (b : Board) (i : ℕ) (state : AdmissionState) : Board :=
  { b with history := .reported i state b.now :: b.history }

end Board

namespace World

variable (w : World) (i : ℕ)

def setInstance (x : Instance) : World :=
  { w with instances := Function.update w.instances i x }

/-- An evaluation that ends without a result forgets the snapshot. -/
def giveUp : World :=
  w.setInstance i ⟨none, .idle⟩

/-- An evaluation reports the state it ended with and keeps it as its
snapshot. -/
def report (state : AdmissionState) : World :=
  { w.setInstance i ⟨some state, .idle⟩ with board := w.board.report i state }

def persist (row : Row) : World :=
  { w with board := w.board.persist row }

def load (limits : SendAdmissionLimits) (w : World) (i : ℕ) (localNow : ℕ)
    (facts : SendAdmissionFacts) (attempts : ℕ) : World :=
  let dbNow := if w.board.row.isSome then w.board.now else localNow
  let candidate := computeFromPersisted limits facts (w.instances i).snapshot w.board.row dbNow
  w.setInstance i
    ⟨(w.instances i).snapshot, .saving facts attempts candidate w.board.row w.board.now⟩

/-- A save that was not granted: adopt the winner, or evaluate again while
attempts remain. -/
def afterConflict (facts : SendAdmissionFacts) (attempts : ℕ) (candidate : ControlState)
    (winner : Row) : World :=
  if canAdopt candidate winner w.board.now then
    w.report i (rowControl winner w.board.now).state
  else if attempts = 0 then w.giveUp i
  else w.setInstance i ⟨(w.instances i).snapshot, .loading facts attempts⟩

/-- The save of an evaluation.  Its answer may be lost although it took
effect. -/
def save (answered : Bool) (facts : SendAdmissionFacts) (attempts : ℕ) (candidate : ControlState) :
    World :=
  match saveControlState w.board.row candidate w.board.now with
  | .invalid => w.giveUp i
  | .saved row =>
    if answered then (w.persist row).report i (rowControl row w.board.now).state
    else (w.persist row).giveUp i
  | .conflict winner =>
    if answered then w.afterConflict i facts attempts candidate winner
    else w.giveUp i

def next (limits : SendAdmissionLimits) (w : World) : Action → Option World
  | .advance duration => some { w with board := w.board.advance duration }
  | .start i facts =>
    match (w.instances i).pc with
    | .idle => some (w.setInstance i
        ⟨(w.instances i).snapshot, .loading facts controlCasAttempts⟩)
    | _ => none
  | .load i localNow =>
    match (w.instances i).pc with
    | .loading facts (attempts + 1) => some (w.load limits i localNow facts attempts)
    | _ => none
  | .save i answered =>
    match (w.instances i).pc with
    | .saving facts attempts candidate _ _ =>
      some (w.save i answered facts attempts candidate)
    | _ => none
  | .fail i => some (w.giveUp i)
  | .restart i => some (w.giveUp i)

end World

/-- The events that a row found at the start stands for. -/
def initialHistory (row : Option Row) (now : ℕ) : List Event :=
  match row with
  | some r => if r.state = .closed then [.persisted .closed now] else []
  | none => []

/-- Any row may be there at the start, but none that is valid for longer than a
save makes it. -/
def admissionMachine (limits : SendAdmissionLimits) : Machine World Action where
  init w := (∀ i, w.instances i = ⟨none, .idle⟩) ∧
    (∀ r, w.board.row = some r → r.validUntil ≤ w.board.now + validity) ∧
    w.board.history = initialHistory w.board.row w.board.now
  next := World.next limits

end SmsPlatform.Admission
