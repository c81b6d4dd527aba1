import SmsPlatform.Report.Writers
import SmsPlatform.Support.Machine

/-!
# Reports and the other writers, concurrently

A transaction that takes its locks before it reads is one step.  Two are not of
this kind and have a step for the part before they wait for a lock: a report is
matched without a lock, and a dispatch decision counts the messages of the batch
before it gets the batch row.  Between the two steps of such a transaction any
other transaction may commit that does not need the chunk a dispatch decision has
locked.

The planning of chunks, the routing of a chunk between vendors, the life cycle of a
batch and an older writer of the counts, which leaves them uninitialised, are steps
of the environment.
-/

namespace SmsPlatform.Report

open Support Schema Vendor Table

/-- What a transaction knows when it starts to wait. -/
inductive TxBody
  | report (found : Option Match) (key : EventKey)
  | dispatch (chunk : ChunkId) (plan : Option Dispatch)

structure Tx where
  id : ℕ
  body : TxBody

def TxBody.lockedChunk : TxBody → Option ChunkId
  | .report _ _ => none
  | .dispatch chunk _ => some chunk

structure World where
  db : Db
  txs : Table Tx.id

inductive Action
  | accept (batch : BatchId) (status : BatchStatus) (recipients : List (MessageId × String))
  | plan (chunk : ChunkId) (batch : BatchId) (customId : String) (messages : List MessageId)
  | route (chunk : ChunkId) (selected : Option VendorId) (irreversible : List VendorId)
  | moveChunk (chunk : ChunkId) (status : ChunkStatus)
  | batchStatus (batch : BatchId) (status : BatchStatus)
  | legacyWrite (batch : BatchId) (delivered failed unknown : ℤ)
  | markSubmitted (chunk : ChunkId) (now : Time)
  | resolveSubmitted (chunk : ChunkId) (now : Time)
  | failChunk (chunk : ChunkId)
  | terminalizeUnknown (chunk : ChunkId)
  | expireBatch (batch : BatchId) (now timeout limit : ℕ)
  | beginReport (tx : ℕ) (key : EventKey) (phoneHmacs : List String)
  | commitReport (tx : ℕ)
  | beginDispatch (tx : ℕ) (chunk : ChunkId) (hits : List MessageId)
  | commitDispatch (tx : ℕ)
  | rollback (tx : ℕ)

/-! ## The environment -/

def newMessage (batch : BatchId) (recipient : MessageId × String) : Message where
  id := recipient.1
  batchId := batch
  chunkId := none
  phoneHmac := recipient.2
  status := .pending
  reportStatus := none
  reportDesc := none
  reportTime := none
  reportEventKey := none

/-- A batch is accepted with its messages. -/
def Db.accept (db : Db) (batch : BatchId) (status : BatchStatus)
    (recipients : List (MessageId × String)) : Option Db :=
  if h : (∀ b ∈ db.batches.rows, b.id ≠ batch) ∧
      ((db.messages.rows ++ recipients.map (newMessage batch)).map Message.id).Nodup then
    some { db with
      batches := db.batches.insertNew ⟨batch, status, 0, 0, 0, none⟩ h.1
      messages := ⟨db.messages.rows ++ recipients.map (newMessage batch), h.2⟩ }
  else none

def assignUpdate (chunk : ChunkId) (batch : BatchId) (ids : List MessageId) :
    Update Message.id where
  applies m := decide (m.id ∈ ids ∧ m.batchId = batch)
  change m := { m with chunkId := some chunk }
  key_change _ := rfl

/-- A new chunk takes over messages of its batch that have not been sent. -/
def Db.plan (db : Db) (chunk : ChunkId) (batch : BatchId) (customId : String)
    (ids : List MessageId) : Option Db :=
  if h : ∀ c ∈ db.chunks.rows, c.id ≠ chunk then
    if db.messages.rows.all (fun m => !decide (m.id ∈ ids ∧ m.status = .sent)) then
      some { db with
        chunks := db.chunks.insertNew ⟨chunk, batch, customId, .pending, none, none, []⟩ h
        messages := db.messages.apply (assignUpdate chunk batch ids) }
    else none
  else none

def routeUpdate (chunk : ChunkId) (selected : Option VendorId)
    (irreversible : List VendorId) : Update Chunk.id where
  applies c := decide (c.id = chunk)
  change c := { c with selectedVendor := selected, irreversibleVendors := irreversible }
  key_change _ := rfl

/-- The states between which the send pipeline moves a chunk. -/
def isUnderway (s : ChunkStatus) : Bool :=
  isPreSend s || decide (s = .splitCapacityBlocked)

/-- A chunk under way moves on, becomes uncertain, or has handed all its messages to
the two halves it was split into. -/
def Db.moveChunk (db : Db) (chunk : ChunkId) (status : ChunkStatus) : Option Db :=
  if isUnderway status || decide (status = .uncertain) || (decide (status = .failed) &&
        db.messages.rows.all (fun m => decide (m.chunkId ≠ some chunk))) then
    db.casChunk chunk isUnderway status id
  else none

/-- The life cycle leaves finished batches alone, except that running out of balance
marks the batch in any state. -/
def batchStatusUpdate (batch : BatchId) (status : BatchStatus) : Update Batch.id where
  applies b := decide (b.id = batch) && (decide (status = .balanceBlocked) || !b.status.isTerminal)
  change b := { b with status := status }
  key_change _ := rfl

/-- `trg_batch_invalidate_legacy_active_count`: whoever writes the counts without a
new token makes them uninitialised. -/
def legacyUpdate (batch : BatchId) (delivered failed unknown : ℤ) :
    Update Batch.id where
  applies b := decide (b.id = batch)
  change b := { b with
      delivered := delivered
      failed := failed
      unknownCnt := unknown
      activeMessageCount := none }
  key_change _ := rfl

/-! ## Steps -/

namespace World

def body (w : World) (tx : ℕ) : Option TxBody := (w.txs.find? tx).map Tx.body

/-- The chunk is locked by a dispatch decision. -/
def isLocked (w : World) (chunk : ChunkId) : Bool :=
  w.txs.rows.any (fun t => decide (t.body.lockedChunk = some chunk))

def beginTx (w : World) (tx : ℕ) (body : TxBody) : Option World :=
  if h : ∀ t ∈ w.txs.rows, t.id ≠ tx then
    some { w with txs := w.txs.insertNew ⟨tx, body⟩ h }
  else none

/-- Commit, and end the transaction. -/
def commitTx (w : World) (tx : ℕ) (db : Db) : World where
  db := db
  txs := w.txs.keep (fun t => !decide (t.id = tx))

/-- A transaction of one step on a chunk. -/
def onChunk (w : World) (chunk : ChunkId) (result : Option Db) : Option World :=
  if w.isLocked chunk then none else result.map (fun db => { w with db := db })

variable (book : EventKey → Event)

def next (w : World) : Action → Option World
  | .accept batch status recipients =>
    (w.db.accept batch status recipients).map (fun db => { w with db := db })
  | .plan chunk batch customId ids =>
    if w.db.messages.rows.any (fun m => decide (m.id ∈ ids) &&
        m.chunkId.any w.isLocked) then none
    else (w.db.plan chunk batch customId ids).map (fun db => { w with db := db })
  | .route chunk selected irreversible =>
    w.onChunk chunk (some { w.db with
      chunks := w.db.chunks.apply (routeUpdate chunk selected irreversible) })
  | .moveChunk chunk status => w.onChunk chunk (w.db.moveChunk chunk status)
  | .batchStatus batch status =>
    if status = .completed ∨ status = .completedUnknown then none
    else some { w with db := { w.db with
      batches := w.db.batches.apply (batchStatusUpdate batch status) } }
  | .legacyWrite batch delivered failed unknown =>
    some { w with db := { w.db with
      batches := w.db.batches.apply (legacyUpdate batch delivered failed unknown) } }
  | .markSubmitted chunk now => w.onChunk chunk (w.db.markSubmitted chunk now)
  | .resolveSubmitted chunk now => w.onChunk chunk (w.db.resolveSubmitted chunk now)
  | .failChunk chunk => w.onChunk chunk (w.db.failChunk chunk)
  | .terminalizeUnknown chunk => w.onChunk chunk (w.db.terminalizeUnknown chunk)
  | .expireBatch batch now timeout limit =>
    some { w with db := w.db.expireBatch book batch now timeout limit }
  | .beginReport tx key phoneHmacs =>
    w.beginTx tx (.report (matchReport book w.db key phoneHmacs) key)
  | .commitReport tx =>
    match w.body tx with
    | some (.report found key) =>
      if found.any (fun f => w.isLocked f.chunkId) then none
      else some (w.commitTx tx (w.db.applyReport book found key))
    | _ => none
  | .beginDispatch tx chunk hits =>
    if w.isLocked chunk then none
    else w.beginTx tx (.dispatch chunk (w.db.decideDispatch chunk hits))
  | .commitDispatch tx =>
    match w.body tx with
    | some (.dispatch _ plan) => some (w.commitTx tx (plan.elim w.db w.db.settleDispatch))
    | _ => none
  | .rollback tx => some (w.commitTx tx w.db)

end World

/-- Nothing has been accepted yet. -/
def Db.empty : Db where
  batches := Table.empty Batch.id
  chunks := Table.empty Chunk.id
  messages := Table.empty Message.id
  projections := Table.empty Projection.eventKey
  exclusions := []

def World.start : World := ⟨Db.empty, Table.empty Tx.id⟩

/-- The writers of message statuses and batch counters, for a given book of events. -/
def reporting (book : EventKey → Event) : Machine World Action where
  init w := w = World.start
  next := World.next book

end SmsPlatform.Report
