import Mathlib.Data.Prod.Lex
import SmsPlatform.Support.Decimal
import SmsPlatform.Support.Table
import SmsPlatform.Vendor.Policy

/-!
# Tables of the send pipeline

The rows the send pipeline reads and writes, and the statements it is built
from.  A chunk row is divided into its identity, which no statement rewrites,
and a state.  An attempt is only ever updated while it is `invoking`.

The tables of the live-test budget, of usage reservations and of the outbox are
not part of the model.  What a transaction learns from them is an argument of
the transaction.
-/

namespace SmsPlatform.Send

open Support Schema Vendor Table

abbrev BatchId := ℕ
abbrev ChunkId := ℕ
abbrev AttemptId := ℕ
abbrev Time := ℕ

/-! ## Billing -/

/-- `calculate_segments`: 70 characters in one segment, 67 in each of several. -/
def calculateSegments (finalContent : List Char) : ℕ :=
  if finalContent.length ≤ 70 then 1 else (finalContent.length + 66) / 67

def calculateQuotaCost (finalContent : List Char) (recipientCount : ℕ) : ℕ :=
  calculateSegments finalContent * recipientCount

/-! ## Rows -/

/-- `uuid4().hex`, stored as `CHAR(32)`. -/
structure BatchNo where
  text : List Char
  length_eq : text.length = 32
  deriving DecidableEq

/-- The segments of a batch are computed from its content on acceptance. -/
structure Batch where
  id : BatchId
  batchNo : BatchNo
  status : BatchStatus
  category : Category
  signName : List Char
  content : List Char
  segments : ℕ
  routePolicyVersion : ℕ
  segments_eq : segments = calculateSegments (signName ++ content)
  deriving DecidableEq

/-- Which half of which chunk a chunk was created as. -/
structure SplitIdentity where
  parentChunkId : ChunkId
  splitGeneration : ℕ
  childOrdinal : ℕ
  deriving DecidableEq

structure ChunkState where
  status : ChunkStatus := .pending
  vendorTaskId : Option String := none
  vendorCode : Option ℤ := none
  vendorMsg : Option String := none
  retryCount : ℕ := 0
  vendorAttemptCount : ℕ := 0
  retryNotBefore : Option Time := none
  submittedAt : Option Time := none
  submittingSince : Option Time := none
  selectedVendor : VendorId := primaryVendorId
  routeGeneration : ℕ := 1
  nextVendor : Option VendorId := none
  routePolicyVersion : ℕ := 1
  failoverFromAttemptId : Option AttemptId := none
  deriving DecidableEq

structure Chunk where
  id : ChunkId
  batchId : BatchId
  chunkNo : ℕ
  customId : List Char
  phoneCount : ℕ
  split : Option SplitIdentity
  state : ChunkState
  deriving DecidableEq

structure Attempt where
  id : AttemptId
  chunkId : ChunkId
  vendorId : VendorId
  generation : ℕ
  invokeStartedAt : Option Time
  outcome : AttemptOutcome
  safeToFailover : Bool
  vendorCode : Option ℤ
  deriving DecidableEq

/-- The primary key `(id, created_at)`, in the order of `ORDER BY`. -/
abbrev MessageKey := ℕ ×ₗ Time

/-- `reported` says that some column of a delivery report is set. -/
structure Message where
  key : MessageKey
  batchId : BatchId
  chunkId : Option ChunkId
  phoneHmac : String
  status : MessageStatus
  reported : Bool
  deriving DecidableEq

/-- Exclusions carry one reason only, `BLACKLISTED_BEFORE_SEND`. -/
structure Exclusion where
  message : MessageKey
  batchId : BatchId
  decisionGeneration : ℕ
  deriving DecidableEq

structure Allocation where
  chunkId : ChunkId
  batchId : BatchId
  recipientCount : ℕ
  segmentCount : ℕ
  requestCount : ℕ
  deriving DecidableEq

/-- `blacklist` holds the digests of `blacklist_hmac_alias`. -/
structure Db where
  batches : Table Batch.id
  chunks : Table Chunk.id
  attempts : Table Attempt.id
  messages : Table Message.key
  exclusions : Table Exclusion.message
  allocations : Table Allocation.chunkId
  blacklist : List String
  blacklistGeneration : ℕ

/-- The empty installation. -/
def Db.start : Db where
  batches := Table.empty Batch.id
  chunks := Table.empty Chunk.id
  attempts := Table.empty Attempt.id
  messages := Table.empty Message.key
  exclusions := Table.empty Exclusion.message
  allocations := Table.empty Allocation.chunkId
  blacklist := []
  blacklistGeneration := 1

def Attempt.view (a : Attempt) : VendorAttempt :=
  ⟨a.vendorId, a.generation, a.outcome, a.safeToFailover, a.vendorCode⟩

/-! ## Reads -/

namespace Db

/-- The attempts of a chunk, `ORDER BY generation,id`. -/
def attemptsOf (db : Db) (chunkId : ChunkId) : List Attempt :=
  (db.attempts.rows.filter (fun a => decide (a.chunkId = chunkId))).insertionSort
    (fun a b => toLex (a.generation, a.id) ≤ toLex (b.generation, b.id))

/-- The keys of the messages meeting a condition, `ORDER BY id,created_at`. -/
def messageKeys (db : Db) (p : Message → Bool) : List MessageKey :=
  ((db.messages.rows.filter p).map Message.key).insertionSort (· ≤ ·)

/-- The messages of a chunk. -/
def messagesOf (db : Db) (chunkId : ChunkId) : List MessageKey :=
  db.messageKeys (fun m => decide (m.chunkId = some chunkId))

theorem mem_attemptsOf {db : Db} {chunkId : ChunkId} {a : Attempt} :
    a ∈ db.attemptsOf chunkId ↔ a ∈ db.attempts ∧ a.chunkId = chunkId := by
  simp [attemptsOf, mem_rows]

theorem mem_messageKeys {db : Db} {p : Message → Bool} {k : MessageKey} :
    k ∈ db.messageKeys p ↔ ∃ m ∈ db.messages, p m = true ∧ m.key = k := by
  simp [messageKeys, mem_rows, and_assoc]

end Db

/-- What `lock_send_context` reads under its locks. -/
structure LockedSendContext where
  chunk : Chunk
  batch : Batch
  attempts : List Attempt

def lockSendContext (db : Db) (chunkId : ChunkId) : Option LockedSendContext :=
  match db.chunks.find? chunkId with
  | none => none
  | some chunk =>
    match db.batches.find? chunk.batchId with
    | none => none
    | some batch => some ⟨chunk, batch, db.attemptsOf chunkId⟩

theorem lockSendContext_eq_some {db : Db} {chunkId : ChunkId} {ctx : LockedSendContext}
    (h : lockSendContext db chunkId = some ctx) :
    ctx.chunk ∈ db.chunks ∧ ctx.chunk.id = chunkId ∧ ctx.batch ∈ db.batches ∧
    ctx.batch.id = ctx.chunk.batchId ∧ ctx.attempts = db.attemptsOf chunkId := by
  unfold lockSendContext at h
  split at h
  · cases h
  rename_i chunk hchunk
  split at h
  · cases h
  rename_i batch hbatch
  cases h
  obtain ⟨hmem, hid⟩ := find?_eq_some_iff.mp hchunk
  obtain ⟨hbmem, hbid⟩ := find?_eq_some_iff.mp hbatch
  exact ⟨hmem, hid, hbmem, hbid, rfl⟩

/-! ## Writes -/

/-- An `UPDATE sms_chunk`. -/
def chunkUpdate (p : Chunk → Bool) (f : ChunkState → ChunkState) : Update Chunk.id where
  applies := p
  change c := { c with state := f c.state }
  key_change _ := rfl

/-- The columns an attempt is settled with. -/
structure Settlement where
  outcome : AttemptOutcome
  safeToFailover : Bool
  vendorCode : Option ℤ
  deriving DecidableEq

/-- An `UPDATE sms_vendor_attempt ... WHERE outcome='invoking'`. -/
def attemptUpdate (f : Attempt → Option Settlement) : Update Attempt.id where
  applies a := decide (a.outcome = .invoking) && (f a).isSome
  change a := match f a with
    | none => a
    | some s =>
      { a with
        outcome := s.outcome
        safeToFailover := s.safeToFailover
        vendorCode := s.vendorCode }
  key_change a := by split <;> rfl

def messageStatusUpdate (p : Message → Bool) (status : MessageStatus) :
    Update Message.key where
  applies := p
  change m := { m with status := status }
  key_change _ := rfl

def messageChunkUpdate (keys : List MessageKey) (chunkId : ChunkId) :
    Update Message.key where
  applies m := decide (m.key ∈ keys)
  change m := { m with chunkId := some chunkId }
  key_change _ := rfl

def batchStatusUpdate (id : BatchId) (f : BatchStatus → BatchStatus) :
    Update Batch.id where
  applies b := decide (b.id = id)
  change b := { b with status := f b.status }
  key_change _ := rfl

namespace Db

variable (db : Db)

/-- `UPDATE sms_chunk ... WHERE id=:id AND ... RETURNING id`; nothing is
returned when the guard fails. -/
def casChunk (id : ChunkId) (guard : ChunkState → Bool) (f : ChunkState → ChunkState) : Option Db :=
  match db.chunks.find? id with
  | none => none
  | some c =>
    if guard c.state then
      some { db with chunks := db.chunks.apply (chunkUpdate (fun c => decide (c.id = id)) f) }
    else none

def settleAttempts (f : Attempt → Option Settlement) : Db :=
  { db with attempts := db.attempts.apply (attemptUpdate f) }

def setMessages (p : Message → Bool) (status : MessageStatus) : Db :=
  { db with messages := db.messages.apply (messageStatusUpdate p status) }

/-- `UPDATE sms_message SET chunk_id` for each key of a group. -/
def assignMessages (keys : List MessageKey) (chunkId : ChunkId) : Db :=
  { db with messages := db.messages.apply (messageChunkUpdate keys chunkId) }

def setBatch (id : BatchId) (f : BatchStatus → BatchStatus) : Db :=
  { db with batches := db.batches.apply (batchStatusUpdate id f) }

/-- `INSERT INTO sms_vendor_attempt` under its unique constraints: the primary
key, `(chunk_id, generation)`, and one irreversible attempt per chunk. -/
def insertAttempt (a : Attempt) : Option Db :=
  if h : ∀ x ∈ db.attempts.rows, x.id ≠ a.id then
    if db.attempts.rows.all (fun x => decide (x.chunkId = a.chunkId →
        x.generation ≠ a.generation ∧
          ¬ (x.outcome.isIrreversible = true ∧ a.outcome.isIrreversible = true))) then
      some { db with attempts := db.attempts.insertNew a h }
    else none
  else none

/-- `INSERT INTO sms_chunk` under its constraints: the primary key, the width
and uniqueness of `custom_id`, `(batch_id, chunk_no)` and the split identity. -/
def insertChunk (c : Chunk) : Option Db :=
  if h : ∀ x ∈ db.chunks.rows, x.id ≠ c.id then
    if c.customId.length ≤ 32 ∧ db.chunks.rows.all (fun x => decide (
        x.customId ≠ c.customId ∧ ¬ (x.batchId = c.batchId ∧ x.chunkNo = c.chunkNo) ∧
          (c.split.isSome = true → x.split ≠ c.split))) = true then
      some { db with chunks := db.chunks.insertNew c h }
    else none
  else none

/-- `INSERT INTO usage_chunk_allocation ... ON CONFLICT (chunk_id) DO NOTHING`. -/
def insertAllocation (a : Allocation) : Db :=
  if h : ∀ x ∈ db.allocations.rows, x.chunkId ≠ a.chunkId then
    { db with allocations := db.allocations.insertNew a h }
  else db

/-- Messages that can still change the counts of their batch. -/
def activeMessages (batchId : BatchId) : ℕ :=
  db.messages.rows.countP (fun m => decide (m.batchId = batchId ∧
    (m.status = .pending ∨ m.status = .sent)))

/-- `_finalize_failed_messages`: without a message to fail the batch is left
alone. -/
def finalizeFailedMessages (chunkId : ChunkId) (batchId : BatchId) : Db :=
  let failing := fun m : Message => decide (m.chunkId = some chunkId ∧
    (m.status = .pending ∨ m.status = .sent) ∧ m.reported = false)
  if db.messages.rows.countP failing = 0 then db
  else
    let db := db.setMessages failing .failed
    db.setBatch batchId (fun status =>
      if status = .completedUnknown then status
      else if db.activeMessages batchId = 0 then .completed
      else status)

end Db

end SmsPlatform.Send
