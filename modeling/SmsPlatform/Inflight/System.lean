import SmsPlatform.Inflight.Operations
import SmsPlatform.Support.Machine

/-!
# Concurrent transactions on the in-flight ledger

Transactions run at READ COMMITTED.  All writes to a balance and to the
reservations of its application happen under the lock of the balance row, so
the locked part of a transaction is one step.  The reads some transactions make
before they take that lock are steps of their own: between the read and the
locked part any other transaction may commit.

Preparing a batch and splitting a chunk hold the row lock of the batch from
before their read until they commit.  No other transaction that needs this
lock can start in between.

Writes of other components to batches and chunks are not restricted at all.
-/

namespace SmsPlatform.Inflight

open Support Schema

/-- A transaction that has read and has not yet taken its balance lock. -/
inductive TxBody
  | materialize (batch : BatchId) (newChunks : List ℕ) (limit : ℕ) (current : Option Reservation)
  | split (batch : BatchId) (parent : ℕ) (limit : Option ℕ) (current : Option Reservation)
  | drift (rows : Table Reservation.id)
  | repair (rows : Table Reservation.id)
  | reconcile (snapshot : ReconcileSnapshot)

structure Tx where
  id : ℕ
  body : TxBody

/-- The batch row a waiting transaction has locked. -/
def TxBody.lockedBatch : TxBody → Option BatchId
  | .materialize batch _ _ _ => some batch
  | .split batch _ _ _ => some batch
  | _ => none

structure World where
  ledger : Ledger
  host : Host
  txs : Table Tx.id

namespace World

/-- Register a transaction, waiting for the batch lock it needs. -/
def beginTx (w : World) (id : ℕ) (body : TxBody) : Option World :=
  if w.txs.rows.any (fun t => body.lockedBatch.isSome &&
      decide (t.body.lockedBatch = body.lockedBatch)) then none
  else if h : ∀ t ∈ w.txs.rows, t.id ≠ id then
    some { w with txs := w.txs.insertNew ⟨id, body⟩ h }
  else none

/-- Roll a transaction back. -/
def endTx (w : World) (id : ℕ) : World :=
  { w with txs := w.txs.keep (fun t => !decide (t.id = id)) }

/-- Commit a new ledger and end the transaction; an error rolls back. -/
def commitLedger (w : World) (id : ℕ) (result : Except LedgerError Ledger) : World :=
  match result with
  | .error _ => w.endTx id
  | .ok l => { w with ledger := l }.endTx id

end World

/-! ## Chunks of other components -/

def Host.addChunk (h : Host) (batch : BatchId) (id : ℕ) : Host :=
  if hfresh : ∀ c ∈ h.chunks.rows, c.id ≠ id then
    { h with chunks := h.chunks.insertNew ⟨id, batch, .pending⟩ hfresh }
  else h

def chunkStatusUpdate (id : ℕ) (status : ChunkStatus) : Table.Update HostChunk.id where
  applies c := decide (c.id = id)
  change c := { c with status := status }
  key_change _ := rfl

def Host.setChunk (h : Host) (id : ℕ) (status : ChunkStatus) : Host :=
  { h with chunks := h.chunks.apply (chunkStatusUpdate id status) }

/-- The chunk may be split: `submitting` or waiting for capacity. -/
def Host.splittable (h : Host) (id : ℕ) : Bool :=
  (h.chunks.find? id).any (fun c =>
    decide (c.status = .submitting ∨ c.status = .splitCapacityBlocked))

/-! ## Steps -/

variable (w : World)

inductive Action
  | reserve (app : AppId) (estimated limit : ℕ) (id : ReservationId) (now : Time)
  | bind (id : ReservationId) (generation : ℕ) (batch : BatchId) (app : AppId) (now : Time)
  | release (id : ReservationId) (generation : ℕ) (reason : String)
      (app : Option AppId) (now : Time)
  | releaseUnbound (id : ReservationId) (generation : ℕ) (app : Option AppId) (now : Time)
  | markBlocked (app : AppId)
  | hostWrites (write : Host → Host)
  | beginMaterialize (tx : ℕ) (batch : BatchId) (newChunks : List ℕ)
  | commitMaterialize (tx : ℕ) (now : Time)
  | beginSplit (tx parent : ℕ)
  | commitSplit (tx child₁ child₂ : ℕ) (now : Time)
  | beginDrift (tx limit : ℕ)
  | commitDrift (tx : ℕ) (now : Time)
  | beginRepair (tx limit : ℕ)
  | commitRepair (tx : ℕ) (now : Time)
  | beginReconcile (tx limit : ℕ) (now : Time)
  | commitReconcile (tx : ℕ) (now : Time)
  | rollback (tx : ℕ)

/-- A transaction without a read before its lock. -/
def World.atomically (result : Except LedgerError Ledger) : Option World :=
  match result with
  | .error _ => none
  | .ok l => some { w with ledger := l }

/-- The part of `prepare_chunks` up to the read of the reservation. -/
def World.beginMaterialize (tx : ℕ) (batch : BatchId) (newChunks : List ℕ) : Option World :=
  match w.host.batches.find? batch with
  | none => none
  | some b =>
    if b.status.isActive && newChunks ≠ [] &&
        w.host.chunks.rows.all (fun c => decide (c.batchId ≠ batch)) then
      w.beginTx tx (.materialize batch newChunks (match b.appId with
          | none => 200
          | some app => max 1 (w.host.maxInFlightChunks app))
        (readBound w.ledger batch))
    else none

/-- The locked part: the chunks are inserted and the reservation follows them. -/
def World.commitMaterialize (tx : ℕ) (now : Time) : Option World :=
  match (w.txs.find? tx).map Tx.body with
  | some (.materialize batch newChunks limit current) =>
    match materializeInFlightReservation w.ledger current newChunks.length limit now with
    | .error _ => some (w.endTx tx)
    | .ok l =>
      some ({ w with
        ledger := l
        host := newChunks.foldl (fun h id => h.addChunk batch id) w.host
        }.endTx tx)
  | _ => none

/-- `complete_vendor_split` up to the read of the reservation. -/
def World.beginSplit (tx parent : ℕ) : Option World :=
  match w.host.chunks.find? parent with
  | none => none
  | some c =>
    if w.host.splittable parent then
      w.beginTx tx (.split c.batchId parent
        (((w.host.batches.find? c.batchId).bind HostBatch.appId).map
          (fun app => max 1 (w.host.maxInFlightChunks app)))
        (readBound w.ledger c.batchId))
    else none

/-- The errors after which the split is put off until there is capacity. -/
def LedgerError.blocksSplit : LedgerError → Bool
  | .limitExceeded => true
  | .invariantViolation _ detail =>
    decide ("reservation missing".toList <:+: detail.toList)
  | _ => false

/-- The rest of `complete_vendor_split`. -/
def World.commitSplit (tx child₁ child₂ : ℕ) (now : Time) : Option World :=
  match (w.txs.find? tx).map Tx.body with
  | some (.split batch parent limit current) =>
    let blocked := { w with host := w.host.setChunk parent .splitCapacityBlocked }.endTx tx
    if !w.host.splittable parent then some (w.endTx tx)
    else
      match limit with
      | none => some blocked
      | some bound =>
        match expandInFlightForSplit w.ledger current 1 bound now with
        | .error e => some (if e.blocksSplit then blocked else w.endTx tx)
        | .ok (_, false) => some blocked
        | .ok (l, true) =>
          some ({ w with
            ledger := l
            host := ((w.host.setChunk parent .failed).addChunk batch child₁).addChunk
              batch child₂ }.endTx tx)
  | _ => none

def World.next (w : World) : Action → Option World
  | .reserve app estimated limit id now =>
    w.atomically (applyReserve w.ledger app estimated (some limit) id now)
  | .bind id generation batch app now =>
    match bindInFlightReservation w.ledger w.host id generation batch app now with
    | .error _ => none
    | .ok (l, h) => some { w with ledger := l, host := h }
  | .release id generation reason app now =>
    w.atomically ((releaseInFlightReservation w.ledger id generation reason app now).map Prod.fst)
  | .releaseUnbound id generation app now =>
    w.atomically ((releaseUnboundAcceptanceReservation w.ledger id generation app now).map Prod.fst)
  | .markBlocked app =>
    some { w with
      ledger := { w.ledger with balances := w.ledger.balances.apply (blockBalance app) } }
  | .hostWrites write => some { w with host := write w.host }
  | .beginMaterialize tx batch newChunks => w.beginMaterialize tx batch newChunks
  | .commitMaterialize tx now => w.commitMaterialize tx now
  | .beginSplit tx parent => w.beginSplit tx parent
  | .commitSplit tx child₁ child₂ now => w.commitSplit tx child₁ child₂ now
  | .beginDrift tx limit => w.beginTx tx (.drift (readDriftRows w.ledger limit))
  | .commitDrift tx now =>
    match (w.txs.find? tx).map Tx.body with
    | some (.drift rows) =>
      some (w.commitLedger tx (reconcileSplitOccupancyDrift w.ledger w.host rows.rows now))
    | _ => none
  | .beginRepair tx limit => w.beginTx tx (.repair (readMisreleased w.ledger w.host limit))
  | .commitRepair tx now =>
    match (w.txs.find? tx).map Tx.body with
    | some (.repair rows) =>
      some (w.commitLedger tx (repairMisreleasedBoundReservations w.ledger w.host rows.rows now))
    | _ => none
  | .beginReconcile tx limit now =>
    w.beginTx tx (.reconcile (readReconcile w.ledger w.host limit now))
  | .commitReconcile tx now =>
    match (w.txs.find? tx).map Tx.body with
    | some (.reconcile snapshot) =>
      some (w.commitLedger tx (reconcileInFlightReservations w.ledger w.host snapshot now))
    | _ => none
  | .rollback tx => some (w.endTx tx)

/-- The balance of an application minus the sum it stands for. -/
def Ledger.gap (l : Ledger) (app : AppId) : ℤ :=
  l.balanceOf app - l.activeSum app

def Ledger.Conserved (l : Ledger) : Prop :=
  ∀ app, l.balanceOf app = l.activeSum app

/-- The ledger system, started on any conserved ledger with no transaction
waiting. -/
def inflight : Machine World Action where
  init w := w.ledger.Conserved ∧ w.txs = Table.empty Tx.id
  next := World.next

end SmsPlatform.Inflight
