import Mathlib.Data.List.Dedup
import SmsPlatform.Inflight.Ledger

/-!
# Operations on the in-flight ledger

The public operations of `send_inflight.py`.  Several of them read a
reservation without a lock, compute from it what to write, and only then take
the balance lock.  Such an operation is given here as two definitions: the
read, and the locked part, which receives the row as it was read.

The tables of other components enter through `Host`: the batches, and the
chunks whose states decide how much capacity a batch occupies.
-/

namespace SmsPlatform.Inflight

open Support Schema Table

variable (l : Ledger) (h : Host)

structure HostBatch where
  id : BatchId
  appId : Option AppId
  status : BatchStatus
  sendInflightReservationId : Option ReservationId
  deriving DecidableEq

structure HostChunk where
  id : ℕ
  batchId : BatchId
  status : ChunkStatus
  deriving DecidableEq

/-- What the ledger's transactions see of the rest of the database. -/
structure Host where
  batches : Table HostBatch.id
  chunks : Table HostChunk.id
  maxInFlightChunks : AppId → ℕ

/-- The number of chunks of a batch that occupy capacity. -/
def Host.occupying (h : Host) (batch : BatchId) : ℕ :=
  h.chunks.rows.countP (fun c => decide (c.batchId = batch) && c.status.isOccupying)

/-! ## Release -/

/-- `_require_reservation_app`. -/
def requireReservationApp (id : ReservationId) (app : Option AppId) : Option AppId :=
  app.orElse fun _ => (l.reservations.find? id).map Reservation.appId

/-- `release_unbound_acceptance_reservation`. -/
def releaseUnboundAcceptanceReservation (id : ReservationId) (generation : ℕ) (app : Option AppId)
    (now : Time) : Except LedgerError (Ledger × Bool) :=
  match requireReservationApp l id app with
  | none => .ok (l, false)
  | some appId =>
    applyReservationDelta l
      { operation := .release
        appId := appId
        delta := 0
        reservationId := id
        generation := generation
        expectedStates := [.reserved]
        nextState := some .released
        reason := some "acceptance-failed"
        unboundOnly := true } now

/-- `release_in_flight_reservation`. -/
def releaseInFlightReservation (id : ReservationId) (generation : ℕ) (reason : String)
    (app : Option AppId) (now : Time) : Except LedgerError (Ledger × Bool) :=
  if reason = "acceptance-failed" then
    releaseUnboundAcceptanceReservation l id generation app now
  else
    match requireReservationApp l id app with
    | none => .ok (l, false)
    | some appId =>
      applyReservationDelta l
        { operation := .release
          appId := appId
          delta := 0
          reservationId := id
          generation := generation
          expectedStates := [.reserved, .batchBound, .materialized]
          nextState := some .released
          reason := some reason } now

/-! ## Binding -/

def bindUpdate (id : ReservationId) (generation : ℕ) (batch : BatchId) (app : AppId)
    (now : Time) : Update Reservation.id where
  applies r := decide (r.id = id ∧ r.generation = generation ∧ r.appId = app ∧
    r.state = .reserved ∧ r.batchId = none ∧
    r.expiresAt.any (fun t => decide (now < t)) = true)
  change r := { r with batchId := some batch, state := .batchBound }
  key_change _ := rfl

def linkUpdate (id : ReservationId) (batch : BatchId) :
    Update HostBatch.id where
  applies b := decide (b.id = batch ∧ b.sendInflightReservationId = none)
  change b := { b with sendInflightReservationId := some id }
  key_change _ := rfl

/-- `bind_in_flight_reservation`. -/
def bindInFlightReservation (id : ReservationId) (generation : ℕ) (batch : BatchId) (app : AppId)
    (now : Time) : Except LedgerError (Ledger × Host) :=
  match lockBalance l app .bind false with
  | .error e => .error e
  | .ok (l₁, _) =>
    let u := bindUpdate id generation batch app now
    if l₁.reservations.rowcount u = 0 then .error .bindFailed
    else
      let l₂ := { l₁ with reservations := l₁.reservations.apply u }
      let link := linkUpdate id batch
      if h.batches.rowcount link ≠ 0 then
        .ok (l₂, { h with batches := h.batches.apply link })
      else if h.batches.rows.any
          (fun b => decide (b.id = batch ∧ b.sendInflightReservationId = some id)) then
        .ok (l₂, h)
      else .error .bindFailed

/-! ## Materialisation and split expansion -/

/-- The unlocked read of `materialize_in_flight_reservation` and
`expand_in_flight_for_split`. -/
def readBound (batch : BatchId) : Option Reservation :=
  l.reservations.rows.find? (fun r => decide (r.batchId = some batch ∧
    (r.state = .batchBound ∨ r.state = .materialized)))

def materializeRequest (current : Reservation) (actualChunks limit : ℕ) :
    DeltaRequest where
  operation := .materialize
  appId := current.appId
  delta := (max actualChunks 1 : ℤ) - current.reservedChunks
  reservationId := current.id
  generation := current.generation
  expectedStates := [.batchBound]
  nextState := some .materialized
  nextReservedChunks := some (max actualChunks 1)
  materializedChunks := some actualChunks
  limit := some limit

/-- `materialize_in_flight_reservation` after its read. -/
def materializeInFlightReservation (current : Option Reservation) (actualChunks limit : ℕ)
    (now : Time) : Except LedgerError Ledger :=
  match current with
  | none => .ok l
  | some r =>
    if r.state = .materialized then .ok l
    else
      match applyReservationDelta l (materializeRequest r actualChunks limit) now with
      | .error e => .error e
      | .ok (l', _) => .ok l'

def splitRequest (current : Reservation) (delta limit : ℕ) : DeltaRequest where
  operation := .split
  appId := current.appId
  delta := delta
  reservationId := current.id
  generation := current.generation
  expectedStates := [.batchBound, .materialized]
  nextReservedChunks := some (current.reservedChunks + delta)
  materializedChunks := some
    ((match current.materializedChunks with
      | some (n + 1) => n + 1
      | _ => current.reservedChunks) + delta)
  limit := some limit

/-- `expand_in_flight_for_split` after its read. -/
def expandInFlightForSplit (current : Option Reservation) (delta limit : ℕ) (now : Time) :
    Except LedgerError (Ledger × Bool) :=
  if delta < 1 then .error .boundsInvalid
  else
    match current with
    | none => .error (.invariantViolation .split "reservation missing")
    | some r => applyReservationDelta l (splitRequest r delta limit) now

/-! ## Repairs -/

/-- Run a statement for each row of a snapshot; the first error aborts. -/
def forRows {α : Type} (f : Ledger → α → Except LedgerError Ledger) :
    Ledger → List α → Except LedgerError Ledger
  | l, [] => .ok l
  | l, x :: xs =>
    match f l x with
    | .error e => .error e
    | .ok l' => forRows f l' xs

/-- Taking the balance locks of several applications creates missing rows and
cannot fail. -/
def lockBalances (apps : List AppId) : Ledger :=
  apps.foldl Ledger.addBalance l

def driftRequest (row : Reservation) (gap : ℕ) : DeltaRequest where
  operation := .repair
  appId := row.appId
  delta := gap
  reservationId := row.id
  generation := row.generation
  expectedStates := [.materialized]
  nextReservedChunks := some (row.reservedChunks + gap)
  materializedChunks := some (row.reservedChunks + gap)

/-- The body of the loop in `reconcile_split_occupancy_drift`. -/
def repairDrift (h : Host) (now : Time) (l : Ledger) (row : Reservation) :
    Except LedgerError Ledger :=
  match row.batchId with
  | none => .ok l
  | some batch =>
    if h.occupying batch ≤ row.reservedChunks then .ok l
    else
      match applyReservationDelta l
          (driftRequest row (h.occupying batch - row.reservedChunks)) now with
      | .error e => .error e
      | .ok (l', _) => .ok l'

/-- The order of the reads of the repairs. -/
def byId (r s : Reservation) : Prop := r.id ≤ s.id

instance : DecidableRel byId := fun r s => inferInstanceAs (Decidable (r.id ≤ s.id))

/-- The read of `reconcile_split_occupancy_drift`. -/
def readDriftRows (limit : ℕ) : Table Reservation.id :=
  l.reservations.select
    (fun r => decide (r.state = .materialized) && r.batchId.isSome) byId limit

/-- `reconcile_split_occupancy_drift` after its read. -/
def reconcileSplitOccupancyDrift (rows : List Reservation) (now : Time) :
    Except LedgerError Ledger :=
  forRows (repairDrift h now) (lockBalances l (rows.map Reservation.appId)) rows

def Host.isTerminal (h : Host) (batch : BatchId) : Bool :=
  (h.batches.find? batch).any (fun b => b.status.isTerminal)

/-- The read of `repair_misreleased_bound_reservations`. -/
def readMisreleased (limit : ℕ) : Table Reservation.id :=
  l.reservations.select
    (fun r => decide (r.state = .released ∧ r.releaseReason = some "acceptance-failed") &&
      r.batchId.any (fun batch =>
        (h.batches.find? batch).any (fun b => !b.status.isTerminal))) byId limit

def restoreRequest (row : Reservation) : DeltaRequest where
  operation := .repair
  appId := row.appId
  delta := row.reservedChunks
  reservationId := row.id
  generation := row.generation
  expectedStates := [.released]
  nextState := some .batchBound
  nextReservedChunks := some row.reservedChunks

/-- The body of the loop in `repair_misreleased_bound_reservations`. -/
def restoreMisreleased (h : Host) (now : Time) (l : Ledger) (row : Reservation) :
    Except LedgerError Ledger :=
  match row.batchId with
  | none => .ok l
  | some batch =>
    if h.isTerminal batch then .ok l
    else if l.reservations.rows.any
        (fun r => decide (r.batchId = some batch) && r.state.isActive) then .ok l
    else
      match applyReservationDelta l (restoreRequest row) now with
      | .error e => .error e
      | .ok (l', _) => .ok l'

/-- `repair_misreleased_bound_reservations` after its read. -/
def repairMisreleasedBoundReservations (rows : List Reservation) (now : Time) :
    Except LedgerError Ledger :=
  forRows (restoreMisreleased h now) (lockBalances l (rows.map Reservation.appId)) rows

/-! ## Periodic reconciliation -/

/-- The capacity an active reservation takes from an application. -/
def Reservation.weight (app : AppId) (r : Reservation) : ℤ :=
  if r.appId = app ∧ r.state.isActive = true then r.reservedChunks else 0

/-- The sum over the active reservations of an application. -/
def Ledger.activeSum (app : AppId) : ℤ :=
  l.reservations.total (Reservation.weight app)

/-- The cached sum; a missing row stands for zero. -/
def Ledger.balanceOf (app : AppId) : ℤ :=
  l.balances.total (fun b => if b.appId = app then (b.reservedChunks : ℤ) else 0)

def settleBalance (app : AppId) (computed : ℕ) : Update Balance.appId where
  applies b := decide (b.appId = app)
  change b := { b with reservedChunks := computed, conservationBlocked := false }
  key_change _ := rfl

def blockBalance (app : AppId) : Update Balance.appId where
  applies b := decide (b.appId = app)
  change b := { b with conservationBlocked := true }
  key_change _ := rfl

/-- Two active reservations of the application are bound to one batch. -/
def Ledger.hasDuplicates (app : AppId) : Bool :=
  !decide ((l.reservations.rows.filter (fun r => decide (r.appId = app) &&
    r.state.isActive)).filterMap Reservation.batchId).Nodup

/-- The database function `reconcile_send_inflight_app`. -/
def reconcileSendInflightApp (app : AppId) : Ledger :=
  if l.hasDuplicates app then { l with balances := l.balances.apply (blockBalance app) }
  else
    let computed := (l.activeSum app).toNat
    let l' := if computed = 0 then l else l.addBalance app
    { l' with balances := l'.balances.apply (settleBalance app computed) }

/-- The reads of `reconcile_in_flight_reservations`. -/
structure ReconcileSnapshot where
  orphans : Table Reservation.id
  terminals : List (Reservation × String)
  driftRows : Table Reservation.id
  conservationApps : List AppId

/-- The release reason of a terminal batch. -/
def terminalReason : BatchStatus → Option String
  | .completed => some "batch-completed"
  | .completedUnknown => some "batch-completed-unknown"
  | .cancelled => some "batch-cancelled"
  | .rejected => some "batch-rejected"
  | .expired => some "batch-expired"
  | _ => none

def readTerminals (limit : ℕ) : List (Reservation × String) :=
  ((l.reservations.rows.filter (fun r => decide (r.state ≠ .released) &&
      r.batchId.any h.isTerminal)).insertionSort byId).take limit |>.filterMap
    fun r => do
      let batch ← r.batchId
      let b ← h.batches.find? batch
      let reason ← terminalReason b.status
      pure (r, reason)

def readReconcile (limit : ℕ) (now : Time) : ReconcileSnapshot where
  orphans := l.reservations.select
    (fun r => decide (r.state = .reserved ∧ r.batchId = none) &&
      r.expiresAt.any (fun t => decide (t < now))) byId limit
  terminals := readTerminals l h limit
  driftRows := readDriftRows l limit
  conservationApps :=
    ((l.balances.rows.map Balance.appId ++
      (l.reservations.rows.filter (fun r => r.state.isActive)).map
        Reservation.appId).dedup.insertionSort (· ≤ ·)).take limit

/-- Release without looking at the answer. -/
def releaseQuietly (reason : String) (now : Time) (l : Ledger) (row : Reservation) :
    Except LedgerError Ledger :=
  match releaseInFlightReservation l row.id row.generation reason none now with
  | .error e => .error e
  | .ok (l', _) => .ok l'

/-- `reconcile_in_flight_reservations` after its reads. -/
def reconcileInFlightReservations (s : ReconcileSnapshot) (now : Time) :
    Except LedgerError Ledger :=
  let l₀ := lockBalances l (s.orphans.rows.map Reservation.appId ++
    s.terminals.map (fun t => t.1.appId) ++ s.driftRows.rows.map Reservation.appId ++
    s.conservationApps)
  match forRows (releaseQuietly "orphan-expired" now) l₀ s.orphans.rows with
  | .error e => .error e
  | .ok l₁ =>
    match forRows (fun l t => releaseQuietly t.2 now l t.1) l₁ s.terminals with
    | .error e => .error e
    | .ok l₂ =>
      match reconcileSplitOccupancyDrift l₂ h s.driftRows.rows now with
      | .error e => .error e
      | .ok l₃ => .ok (s.conservationApps.foldl reconcileSendInflightApp l₃)

end SmsPlatform.Inflight
