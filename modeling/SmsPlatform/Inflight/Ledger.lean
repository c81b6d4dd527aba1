import Mathlib.Data.List.Infix
import SmsPlatform.Schema.Status
import SmsPlatform.Support.Table

/-!
# The ledger of chunks in flight

An application may have a bounded number of chunks in flight.  Capacity is
taken by reservations (`send_inflight_reservation`), and the sum over the
active reservations of an application is cached in its balance row
(`send_inflight_balance`).  This module contains the primitives of
`send_inflight.py` that change the two tables; every other operation is built
from `applyReserve` and `applyReservationDelta`.

A raised exception rolls the transaction back, so the primitives return either
an error or the new ledger.
-/

namespace SmsPlatform.Inflight

open Support

abbrev AppId := ℕ
abbrev BatchId := ℕ
abbrev ReservationId := ℕ
abbrev Time := ℕ

/-- `send_inflight_reservation.state`. -/
inductive ReservationState
  | reserved
  | batchBound
  | materialized
  | released
  deriving DecidableEq

/-- `send_inflight_active_states()`. -/
def ReservationState.isActive : ReservationState → Bool
  | .reserved | .batchBound | .materialized => true
  | .released => false

structure Balance where
  appId : AppId
  reservedChunks : ℕ
  conservationBlocked : Bool
  deriving DecidableEq

structure Reservation where
  id : ReservationId
  appId : AppId
  batchId : Option BatchId
  reservedChunks : ℕ
  materializedChunks : Option ℕ
  state : ReservationState
  generation : ℕ
  expiresAt : Option Time
  releaseReason : Option String
  deriving DecidableEq

structure Ledger where
  balances : Table Balance.appId
  reservations : Table Reservation.id

/-- `InFlightDeltaOperation`, with the label of the binding step. -/
inductive Operation
  | reserve
  | release
  | materialize
  | split
  | repair
  | reconcile
  | bind
  deriving DecidableEq

inductive LedgerError
  | invariantViolation (operation : Operation) (detail : String)
  | limitExceeded
  | boundsInvalid
  | bindFailed
  deriving DecidableEq

/-! ## Balance rows -/

def Ledger.addBalance (l : Ledger) (app : AppId) : Ledger :=
  if h : ∀ b ∈ l.balances.rows, b.appId ≠ app then
    { l with balances := l.balances.insertNew ⟨app, 0, false⟩ h }
  else l

/-- `_lock_balance`: the stored value, after creating the row where allowed. -/
def lockBalance (l : Ledger) (app : AppId) (operation : Operation)
    (allowCreate : Bool) : Except LedgerError (Ledger × ℕ) :=
  let l' := if allowCreate then l.addBalance app else l
  match l'.balances.find? app with
  | none => .error (.invariantViolation operation "balance missing")
  | some row =>
    if row.conservationBlocked ∧ operation = .reserve then
      .error (.invariantViolation operation "conservation blocked")
    else .ok (l', row.reservedChunks)

def setBalance (app : AppId) (stored next : ℕ) : Table.Update Balance.appId where
  applies b := decide (b.appId = app ∧ b.reservedChunks = stored)
  change b := { b with reservedChunks := next }
  key_change _ := rfl

/-- `_adjust_locked_balance`. -/
def adjustLockedBalance (l : Ledger) (app : AppId) (stored : ℕ) (delta : ℤ)
    (operation : Operation) (limit : Option ℕ) : Except LedgerError Ledger :=
  if delta = 0 then .ok l
  else
    let next : ℤ := stored + delta
    if next < 0 then
      .error (.invariantViolation operation "balance below release")
    else if limit.any (fun bound => decide ((bound : ℤ) < next)) then
      .error .limitExceeded
    else
      let u := setBalance app stored next.toNat
      if l.balances.rowcount u = 0 then
        .error (.invariantViolation operation "balance update missed")
      else .ok { l with balances := l.balances.apply u }

/-! ## Reservations -/

def newReservation (id : ReservationId) (app : AppId) (estimated : ℕ) (now : Time) :
    Reservation where
  id := id
  appId := app
  batchId := none
  reservedChunks := estimated
  materializedChunks := none
  state := .reserved
  generation := 1
  expiresAt := some (now + 900)
  releaseReason := none

/-- `_apply_reserve`; the new id comes from the table's sequence. -/
def applyReserve (l : Ledger) (app : AppId) (estimated : ℕ) (limit : Option ℕ)
    (id : ReservationId) (now : Time) : Except LedgerError Ledger :=
  if estimated < 1 ∨ limit = none ∨ limit = some 0 then .error .boundsInvalid
  else
    match lockBalance l app .reserve true with
    | .error e => .error e
    | .ok (l₁, stored) =>
      match adjustLockedBalance l₁ app stored estimated .reserve limit with
      | .error e => .error e
      | .ok l₂ =>
        if h : ∀ r ∈ l₂.reservations.rows, r.id ≠ id then
          .ok { l₂ with
            reservations := l₂.reservations.insertNew (newReservation id app estimated now) h }
        else .error (.invariantViolation .reserve "reservation insert missed")

/-- The arguments of `_apply_reservation_delta` beyond the reservation's
identity. -/
structure DeltaRequest where
  operation : Operation
  appId : AppId
  delta : ℤ
  reservationId : ReservationId
  generation : ℕ
  expectedStates : List ReservationState
  nextState : Option ReservationState := none
  nextReservedChunks : Option ℕ := none
  reason : Option String := none
  materializedChunks : Option ℕ := none
  limit : Option ℕ := none
  unboundOnly : Bool := false

/-- The row passes the checks made under the lock. -/
def DeltaRequest.accepts (q : DeltaRequest) (now : Time) (r : Reservation) : Bool :=
  decide (r.generation = q.generation) &&
  q.expectedStates.contains r.state &&
  (!q.unboundOnly || decide (r.state = .reserved ∧ r.batchId = none)) &&
  (decide (q.reason ≠ some "orphan-expired") || decide (r.state = .reserved ∧ r.batchId = none ∧
      r.expiresAt.any (fun t => decide (t < now)) = true)) &&
  (decide (q.operation ≠ .release) || decide (r.state ≠ .released))

/-- A release gives back what the locked row holds; every other operation
moves the balance by the requested amount. -/
def DeltaRequest.amount (q : DeltaRequest) (r : Reservation) : ℤ :=
  if q.operation = .release then -(r.reservedChunks : ℤ) else q.delta

/-- The final update of the reservation row. -/
def DeltaRequest.update (q : DeltaRequest) (occupancy : ℕ) :
    Table.Update Reservation.id where
  applies r := decide (r.id = q.reservationId ∧ r.generation = q.generation)
  change r := { r with
      state := q.nextState.getD r.state
      reservedChunks := occupancy
      materializedChunks := q.materializedChunks.orElse fun _ => r.materializedChunks
      releaseReason := match q.nextState with
        | some .released => q.reason
        | some _ => none
        | none => r.releaseReason
      generation := if q.nextState = some .released then r.generation + 1 else r.generation }
  key_change _ := rfl

/-- `_apply_reservation_delta`: the new ledger and whether the reservation was
changed. -/
def applyReservationDelta (l : Ledger) (q : DeltaRequest) (now : Time) :
    Except LedgerError (Ledger × Bool) :=
  match lockBalance l q.appId q.operation
      (decide (q.operation = .repair ∨ q.operation = .reconcile)) with
  | .error e => .error e
  | .ok (l₁, stored) =>
    match l₁.reservations.find? q.reservationId with
    | none => .ok (l₁, false)
    | some r =>
      if r.appId ≠ q.appId then
        .error (.invariantViolation q.operation "reservation app mismatch")
      else if !q.accepts now r then .ok (l₁, false)
      else
        let occupancy := q.nextReservedChunks.getD r.reservedChunks
        if occupancy < 1 then
          .error (.invariantViolation q.operation "reservation occupancy invalid")
        else
          match adjustLockedBalance l₁ q.appId stored (q.amount r) q.operation q.limit with
          | .error e => .error e
          | .ok l₂ =>
            .ok ({ l₂ with
              reservations := l₂.reservations.apply (q.update occupancy) }, true)

end SmsPlatform.Inflight
