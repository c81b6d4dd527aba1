import SmsPlatform.Send.Transitions

/-!
# Preparing and splitting chunks

`prepare_chunks` cuts the messages of a batch into chunks.  A chunk the vendor
refuses as too large is cut in two by `complete_vendor_split`, at once or later
when the in-flight ledger has room.  `stalled` is the recovery pass.

New chunk ids come from the sequence of the database and are arguments here.
So is the answer of the in-flight ledger.
-/

namespace SmsPlatform.Send

open Support

variable (db : Db) (now : Time)

/-! ## Preparation -/

/-- `f"{text[:24]}{number:08d}"`. -/
def customIdFor (text : List Char) (number : ℕ) : List Char :=
  text.take 24 ++ zeroPadded 8 number

/-- Insert one chunk with its allocation and point a group of messages to it. -/
def plantChunk (batch : Batch) (chunk : Chunk) (group : List MessageKey) (requests : ℕ) :
    Option Db :=
  match db.insertChunk chunk with
  | none => none
  | some db =>
    some ((db.insertAllocation ⟨chunk.id, batch.id, group.length,
      batch.segments * group.length, requests⟩).assignMessages group chunk.id)

/-- The chunk `prepare_chunks` inserts at an offset into the messages. -/
def preparedChunk (batch : Batch) (batchSize offset : ℕ) (id : ChunkId)
    (group : List MessageKey) : Chunk where
  id := id
  batchId := batch.id
  chunkNo := offset / batchSize + 1
  customId := customIdFor batch.batchNo.text (offset / batchSize + 1)
  phoneCount := group.length
  split := none
  state := {}

/-- `for offset in range(0, len(rows), batch_size)`, with the ids the inserts
return. -/
def prepareLoop (batch : Batch) (batchSize : ℕ) (rows : List MessageKey) :
    List ChunkId → ℕ → Db → Option Db
  | [], offset, db => if rows.length ≤ offset then some db else none
  | id :: ids, offset, db =>
    if rows.length ≤ offset then none
    else
      let group := (rows.drop offset).take batchSize
      match plantChunk db batch (preparedChunk batch batchSize offset id group) group
          (if offset / batchSize + 1 = 1 then 1 else 0) with
      | none => none
      | some db => prepareLoop batch batchSize rows ids (offset + batchSize) db

def ChunkState.isDue (s : ChunkState) (now : Time) : Bool :=
  decide (s.status = .pending) ||
    decide (s.status = .retrying ∨ s.status = .failoverPending) && s.retryDue now

/-- The chunks of a batch that may be sent now, `ORDER BY chunk_no`. -/
def dueChunks (batchId : BatchId) : List ChunkId :=
  ((db.chunks.rows.filter
    (fun c => decide (c.batchId = batchId) && c.state.isDue now)).insertionSort
    (fun c d => c.chunkNo ≤ d.chunkNo)).map Chunk.id

def queuedToSending (batchId : BatchId) : Db :=
  db.setBatch batchId (fun status => if status = .queued then .sending else status)

/-- `prepare_chunks`.  The flag is the answer of the in-flight ledger to the
number of chunks. -/
def prepareChunks (batchNo : BatchNo) (batchSize : ℕ) (newIds : List ChunkId)
    (materialized : Bool) : Except String (List ChunkId × Db) :=
  if batchSize < 1 then .error "vendor_batch_size must be positive"
  else
    match db.batches.rows.find? (fun b => decide (b.batchNo = batchNo)) with
    | none => .error "批次状态不允许发送"
    | some batch =>
      if batch.status.isTerminal then .ok ([], db)
      else if !batch.status.isActive then .error "批次状态不允许发送"
      else
        match dueChunks db now batch.id with
        | id :: ids => .ok (id :: ids, queuedToSending db batch.id)
        | [] =>
          if db.chunks.rows.any (fun c => decide (c.batchId = batch.id)) then
            .ok ([], queuedToSending db batch.id)
          else
            let rows := db.messageKeys (fun m =>
              decide (m.batchId = batch.id ∧ m.chunkId = none))
            match prepareLoop batch batchSize rows newIds 0 db with
            | none => .error "unique violation"
            | some db₁ =>
              if materialized then
                .ok (newIds, db₁.setBatch batch.id (fun _ => .sending))
              else .error "in-flight limit exceeded"

/-! ## Split -/

/-- `SPLIT_GENERATION`. -/
def splitGeneration : ℕ := 1

/-- The answer of `expand_in_flight_for_split`.  A batch without application
and a missing reservation count as a refusal. -/
inductive SplitCapacity
  | granted
  | refused
  | raised
  deriving DecidableEq

def isChildOf (parent : ChunkId) (c : Chunk) : Bool :=
  c.split.any (fun s => decide (s.parentChunkId = parent ∧ s.splitGeneration = splitGeneration))

/-- `_existing_split_children`, `ORDER BY child_ordinal`. -/
def existingSplitChildren (parent : ChunkId) : List ChunkId :=
  ((db.chunks.rows.filter (isChildOf parent)).insertionSort (fun c d =>
    (c.split.map SplitIdentity.childOrdinal).getD 0 ≤
      (d.split.map SplitIdentity.childOrdinal).getD 0)).map Chunk.id

/-- `_settle_split_vendor_attempt`. -/
def settleSplitVendorAttempt (chunkId : ChunkId) : Db :=
  db.settleAttempts (fun a =>
    if a.chunkId = chunkId then some ⟨.rejected, a.safeToFailover, some 1006⟩ else none)

def ChunkState.isSplittable (s : ChunkState) : Bool :=
  decide (s.status = .submitting ∨ s.status = .splitCapacityBlocked)

def ChunkState.blockSplit (s : ChunkState) : ChunkState :=
  { s with
    status := .splitCapacityBlocked
    vendorCode := some 1006
    vendorMsg := some "split capacity blocked"
    submittingSince := none
    retryNotBefore := none }

/-- `_mark_split_capacity_blocked`. -/
def markSplitCapacityBlocked (chunkId : ChunkId) : Db :=
  match db.casChunk chunkId ChunkState.isSplittable ChunkState.blockSplit with
  | none => db
  | some db => settleSplitVendorAttempt db chunkId

/-- What a split needs to know of its parent. -/
structure SplitParent where
  chunkId : ChunkId
  batchId : BatchId
  customId : List Char
  deriving DecidableEq

/-- The parent a payload of the chunk names. -/
def Chunk.asParent (c : Chunk) : SplitParent := ⟨c.id, c.batchId, c.customId⟩

def childChunk (parent : SplitParent) (id : ChunkId) (number ordinal : ℕ)
    (group : List MessageKey) : Chunk where
  id := id
  batchId := parent.batchId
  chunkNo := number
  customId := customIdFor parent.customId number
  phoneCount := group.length
  split := some ⟨parent.chunkId, splitGeneration, ordinal⟩
  state := {}

def allocationClear (chunkId : ChunkId) : Table.Update Allocation.chunkId where
  applies a := decide (a.chunkId = chunkId)
  change a := { a with recipientCount := 0, segmentCount := 0 }
  key_change _ := rfl

/-- `COALESCE(max(chunk_no),0) + 1`. -/
def nextChunkNo (batchId : BatchId) : ℕ :=
  ((db.chunks.rows.filter (fun c => decide (c.batchId = batchId))).map Chunk.chunkNo).foldl
    max 0 + 1

/-- `_create_split_children`. -/
def createSplitChildren (parent : SplitParent) (id₁ id₂ : ChunkId) :
    Except String (List ChunkId × Db) :=
  match db.casChunk parent.chunkId ChunkState.isSplittable
      (ChunkState.markFailed (some 1006) "split into smaller chunks") with
  | none => .error "parent cas missed"
  | some db =>
    let db := settleSplitVendorAttempt db parent.chunkId
    let messages := db.messagesOf parent.chunkId
    if messages.length < 2 then .error "parent message set too small"
    else
      match db.batches.find? parent.batchId with
      | none => .error "no row"
      | some batch =>
        let number := nextChunkNo db parent.batchId
        let middle := (messages.length + 1) / 2
        let first := messages.take middle
        let second := messages.drop middle
        match plantChunk db batch (childChunk parent id₁ number 1 first) first 0 with
        | none => .error "child identity conflict"
        | some db =>
          match plantChunk db batch (childChunk parent id₂ (number + 1) 2 second) second 0 with
          | none => .error "child identity conflict"
          | some db =>
            .ok ([id₁, id₂], { db with
                allocations := db.allocations.apply (allocationClear parent.chunkId) })

/-- `complete_vendor_split`. -/
def completeVendorSplit (parent : SplitParent) (capacity : SplitCapacity) (id₁ id₂ : ChunkId) :
    Except String (List ChunkId × Db) :=
  match existingSplitChildren db parent.chunkId with
  | [child₁, child₂] => .ok ([child₁, child₂], db)
  | _ :: _ => .error "incomplete children"
  | [] =>
    match db.chunks.find? parent.chunkId with
    | none => .ok ([], db)
    | some c =>
      if !c.state.isSplittable then .ok ([], db)
      else
        match capacity with
        | .raised => .error "in-flight invariant violation"
        | .refused => .ok ([], markSplitCapacityBlocked db parent.chunkId)
        | .granted => createSplitChildren db parent id₁ id₂

/-- The ledger's answer and the ids for one blocked chunk. -/
structure SplitAnswer where
  capacity : SplitCapacity
  id₁ : ChunkId
  id₂ : ChunkId
  deriving DecidableEq

/-- The loop of `retry_capacity_blocked_splits` over the selected rows, with the
number of splits that came through. -/
def retrySplits : List Chunk → List SplitAnswer → Db → Except String (ℕ × Db)
  | [], _, db => .ok (0, db)
  | c :: rows, answers, db =>
    if c.phoneCount < 2 then retrySplits rows answers db
    else
      match answers with
      | [] => .error "no answer"
      | answer :: answers =>
        match completeVendorSplit db c.asParent answer.capacity answer.id₁ answer.id₂ with
        | .error e => .error e
        | .ok (children, db) =>
          match retrySplits rows answers db with
          | .error e => .error e
          | .ok (retried, db) => .ok ((if children = [] then 0 else 1) + retried, db)

def retryCapacityBlockedSplits (answers : List SplitAnswer) : Except String (ℕ × Db) :=
  retrySplits ((db.chunks.select
    (fun c => decide (c.state.status = .splitCapacityBlocked)) (fun c d => c.id ≤ d.id) 100).rows)
    answers db

/-! ## Recovery -/

/-- `STALE_INVOKING_CUTOFF_S`. -/
def staleInvokingCutoff : ℕ := 15 * 60

/-- The age at which a claimed chunk counts as stalled. -/
def staleSubmittingCutoff : ℕ := 5 * 60

/-- The chunks a recovery pass looks at. -/
def stalledCandidates : List ChunkId :=
  ((db.chunks.select (fun c => c.state.isSubmitting ||
    db.attempts.rows.any (fun a => decide (a.chunkId = c.id ∧ a.outcome = .invoking)))
    (fun c d => c.id ≤ d.id) 500).rows).map Chunk.id

/-- `repaired`: the chunk is known to be submitted under this attempt. -/
def isRepairable (c : Chunk) (a : Attempt) : Bool :=
  decide (c.state.status = .submitted ∧ c.state.routeGeneration = a.generation ∧
    c.state.vendorTaskId.isSome = true ∧ c.state.submittedAt.isSome = true) &&
    db.messages.rows.any (fun m => decide (m.chunkId = some c.id ∧ m.status = .sent))

/-- `stale_invoking`: the call has had its time. -/
def isStaleInvoking (c : Chunk) (a : Attempt) : Bool :=
  decide (a.outcome = .invoking ∧ c.state.status = .submitting ∧
    c.state.routeGeneration = a.generation) &&
    a.invokeStartedAt.any (fun t => decide (t + staleInvokingCutoff < now))

/-- The three updates of the attempts.  Their conditions exclude each other. -/
def recoveredOutcome (candidates : List ChunkId) (a : Attempt) : Option Settlement :=
  match db.chunks.find? a.chunkId with
  | none => none
  | some c =>
    if c.id ∉ candidates then none
    else if isRepairable db c a then some ⟨.submitted, a.safeToFailover, a.vendorCode⟩
    else if isStaleInvoking now c a then some ⟨.uncertain, a.safeToFailover, a.vendorCode⟩
    else
      match c.state.status with
      | .submitted | .failed | .uncertain | .unknownTerminal =>
        some ⟨.inconsistent, a.safeToFailover, a.vendorCode⟩
      | _ => none

/-- `stale_chunks`, evaluated like every other part of the statement on the rows
as they were before it. -/
def isStaleChunk (candidates : List ChunkId) (c : Chunk) : Bool :=
  let attempts := db.attemptsOf c.id
  decide (c.id ∈ candidates) && (db.batches.find? c.batchId).any (fun b => b.status.isActive) &&
    c.state.isSubmitting &&
    (c.state.submittingSince.any (fun t => decide (t + staleSubmittingCutoff < now)) ||
      attempts.any (isStaleInvoking now c)) &&
    !(attempts.getLast?.any (fun a => decide (a.outcome = .rejected) && a.safeToFailover) &&
      !attempts.any (fun a => a.outcome.isBlocking))

/-- The common table expression of `stalled`. -/
def recoverStalled : Db :=
  let candidates := stalledCandidates db
  { db with
    attempts := db.attempts.apply (attemptUpdate (recoveredOutcome db now candidates))
    chunks := db.chunks.apply (chunkUpdate (isStaleChunk db now candidates)
      (fun s => { s with status := .uncertain, submittingSince := none })) }

end SmsPlatform.Send
