import SmsPlatform.Send.Attempts

/-!
# Transitions of a single chunk

The transactions of the chunk store that move one chunk and open or settle no
attempt, the dispatch-time blacklist check, and the writes of the components
that follow up on a submission: delivery reports, the uncertain scan and the
batch life cycle.
-/

namespace SmsPlatform.Send

open Support Schema Vendor

variable (db : Db) (now : Time) (chunkId : ChunkId)

/-- A chunk that has not been handed to a vendor in this round. -/
def ChunkState.isWaiting (s : ChunkState) : Bool :=
  decide (s.status = .pending ∨ s.status = .retrying ∨ s.status = .failoverPending)

/-! ## Before the vendor is called -/

/-- The transactions that only work for a sending batch. -/
def whenBatchActive (f : Chunk → Option Db) : Db :=
  match lockSendContext db chunkId with
  | none => db
  | some ctx => if ctx.batch.status.isActive then (f ctx.chunk).getD db else db

/-- `reject_disallowed_recipient`. -/
def rejectDisallowedRecipient (deniedCount : ℕ) : Db :=
  whenBatchActive db chunkId (fun c =>
    (db.casChunk chunkId ChunkState.isWaiting (ChunkState.markFailed none
      (String.ofList ("live-test recipient denied: count=".toList ++
        Nat.toDigits 10 deniedCount)))).map
      (fun db => db.finalizeFailedMessages chunkId c.batchId))

/-- `defer_daily_limit`. -/
def deferDailyLimit (resetAt : Time) : Db :=
  whenBatchActive db chunkId (fun _ =>
    db.casChunk chunkId ChunkState.isWaiting (fun s =>
      { s with
        status := if s.status = .failoverPending then .failoverPending else .retrying
        vendorCode := none
        retryNotBefore := some resetAt }))

/-- `release_unsent` and `release_control_claim`. -/
def releaseClaim (code : ChunkState → Option ℤ) (message : String) : Db :=
  (db.casChunk chunkId ChunkState.isSubmitting (fun s =>
    { s.holdBack (code s) now with vendorMsg := some message })).getD db

def releaseUnsent : Db :=
  releaseClaim db now chunkId ChunkState.vendorCode "submit aborted before vendor call"

def releaseControlClaim : Db :=
  releaseClaim db now chunkId (fun _ => none) "vendor control state unavailable"

/-! ## After the vendor answered, without an attempt row -/

def markSubmitted (taskId : String) : Db :=
  match db.casChunk chunkId ChunkState.isSubmitting
      (ChunkState.markSubmitted now (some taskId)) with
  | none => db
  | some db => db.setMessages (fun m => decide (m.chunkId = some chunkId ∧
      m.status = .pending ∧ m.reported = false)) .sent

def failSubmitting (code : Option ℤ) (message : String) : Db :=
  match db.chunks.find? chunkId with
  | none => db
  | some c =>
    match db.casChunk chunkId ChunkState.isSubmitting (ChunkState.markFailed code message) with
    | none => db
    | some db => db.finalizeFailedMessages chunkId c.batchId

def markFailed (code : ℤ) (message : String) : Db :=
  failSubmitting db chunkId (some code) message

def markUncertain : Db :=
  (db.casChunk chunkId ChunkState.isSubmitting ChunkState.markUncertain).getD db

/-- `schedule_retry`; the flag is its answer. -/
def scheduleRetry (code : ℤ) (expectedRetryCount delay : ℕ) : Bool × Db :=
  match db.casChunk chunkId
      (fun s => s.isSubmitting && decide (s.retryCount = expectedRetryCount) &&
        decide (s.retryCount < 5))
      (ChunkState.retryLater (some code) (now + delay)) with
  | none => (false, db)
  | some db' => (true, db')

/-- `delay`: the last retry turns into a failure. -/
def delayChunk (code : ℤ) (delay : ℕ) : Db :=
  match db.casChunk chunkId (fun s => s.isSubmitting && decide (s.retryCount < delayedRetryLimit))
      (ChunkState.retryLater (some code) (now + delay)) with
  | some db' => db'
  | none => failSubmitting db chunkId (some code) delayedRetryExhausted

/-- `balance_blocked`. -/
def balanceBlocked (batchId : BatchId) (chunkId : ChunkId) : Db :=
  match db.chunks.find? chunkId with
  | none => db
  | some c =>
    if c.batchId ≠ batchId then db
    else
      match db.casChunk chunkId ChunkState.isSubmitting (ChunkState.holdBack (some 999) now) with
      | none => db
      | some db => db.setBatch batchId (fun _ => .balanceBlocked)

/-- `pause_blocked`. -/
def pauseBlocked (code : ℤ) : Db :=
  (db.casChunk chunkId ChunkState.isSubmitting (ChunkState.holdBack (some code) now)).getD db

/-! ## Dispatch-time blacklist -/

inductive DispatchAction
  | send
  | empty
  | frozen
  | stale
  deriving DecidableEq

/-- The phones of a decision are named by their messages. -/
structure DispatchDecision where
  eligible : List MessageKey
  excludedCount : ℕ
  generation : Option ℕ
  action : DispatchAction
  deriving DecidableEq

/-- `blacklist_required`.  The flag is the one of the application; a batch
without application is checked. -/
def blacklistRequired (category : Category) (appFlag : Option Bool) : Bool :=
  match category with
  | .verify => false
  | .notice => appFlag.getD true
  | .market => true

/-- `_PRE_SEND`. -/
def ChunkState.isPreSend (s : ChunkState) : Bool := s.isWaiting || s.isSubmitting

/-- `_exclude_one`; the flag says whether the message was taken out. -/
def excludeOne (batchId : BatchId) (generation : ℕ) (key : MessageKey) : Bool × Db :=
  if h : ∀ x ∈ db.exclusions.rows, x.message ≠ key then
    let inserted : Db :=
      { db with exclusions := db.exclusions.insertNew ⟨key, batchId, generation⟩ h }
    let takenOut := fun m : Message => decide (m.key = key ∧ m.status = .pending)
    (decide (0 < db.messages.rows.countP takenOut), inserted.setMessages takenOut .other)
  else (false, db)

/-- The loop over the loaded messages that are on the blacklist. -/
def excludeAll (batchId : BatchId) (generation : ℕ) : List MessageKey → Db → ℕ × Db
  | [], db => (0, db)
  | key :: keys, db =>
    let step := excludeOne db batchId generation key
    let rest := excludeAll batchId generation keys step.2
    ((if step.1 then 1 else 0) + rest.1, rest.2)

/-- `GREATEST(... - :count, 0)` on both counts of an allocation. -/
def allocationCut (count segments : ℕ) : Table.Update Allocation.chunkId where
  applies a := decide (a.chunkId = chunkId)
  change a := { a with
      recipientCount := a.recipientCount - count
      segmentCount := a.segmentCount - segments }
  key_change _ := rfl

/-- `_settle_batch`. -/
def settleBatch (batchId : BatchId) : Db :=
  db.setBatch batchId (fun status =>
    if status = .completedUnknown then status
    else if db.messages.rows.countP (fun m => decide (m.batchId = batchId)) = 0 then status
    else if db.activeMessages batchId = 0 ∧ status.isActive = true then .completed
    else status)

/-- `_fail_unchunked`. -/
def failUnchunked (status : ChunkStatus) : Db :=
  if status = .submitting then db
  else
    (db.casChunk chunkId (fun s => decide (s.status = status)) (fun s =>
      s.markFailed s.vendorCode "BLACKLISTED_BEFORE_SEND")).getD db

/-- Whether a message of the chunk is to be excluded.  The blacklist is matched
by message id. -/
def isBlacklisted (key : MessageKey) : Bool :=
  db.messages.rows.any (fun m => decide (m.chunkId = some chunkId ∧ m.status = .pending ∧
    m.phoneHmac ∈ db.blacklist ∧ (ofLex m.key).1 = (ofLex key).1))

/-- Give back the allocation of the excluded messages. -/
def releaseExcluded (batch : Batch) (excluded : ℕ) : Db :=
  if excluded = 0 then db
  else
    settleBatch { db with
      allocations := db.allocations.apply (allocationCut chunkId excluded
        (calculateQuotaCost (batch.signName ++ batch.content) excluded)) } batch.id

/-- `_pending_messages`. -/
def pendingMessages : List MessageKey :=
  db.messageKeys (fun m => decide (m.chunkId = some chunkId ∧ m.status = .pending))

/-- Take the blacklisted messages of a chunk out, and count them. -/
def excludeBlacklisted (batch : Batch) : ℕ × Db :=
  let excluded := excludeAll batch.id db.blacklistGeneration
    ((pendingMessages db chunkId).filter (isBlacklisted db chunkId)) db
  (excluded.1, releaseExcluded excluded.2 chunkId batch excluded.1)

/-- `decide_dispatch`.  Content and sign name are those of the batch, from which
the payload of the chunk was loaded. -/
def decideDispatch (appFlag : Option Bool) : Except String (DispatchDecision × Db) :=
  match lockSendContext db chunkId with
  | none => .error "dispatch chunk unavailable"
  | some ctx =>
    let status := ctx.chunk.state.status
    if !ctx.chunk.state.isPreSend then .ok (⟨[], 0, none, .frozen⟩, db)
    else
      let pending := pendingMessages db chunkId
      if pending = [] then
        .ok (⟨[], 0, none, .empty⟩, settleBatch (failUnchunked db chunkId status) ctx.batch.id)
      else if !blacklistRequired ctx.batch.category appFlag then
        .ok (⟨pending, 0, none, .send⟩, db)
      else
        let generation := db.blacklistGeneration
        let excluded := excludeBlacklisted db chunkId ctx.batch
        let eligible := pending.filter (fun key => !isBlacklisted db chunkId key)
        if eligible = [] then
          .ok (⟨[], excluded.1, some generation, .empty⟩,
            settleBatch (failUnchunked excluded.2 chunkId status) ctx.batch.id)
        else .ok (⟨eligible, excluded.1, some generation, .send⟩, excluded.2)

/-! ## Other components -/

def messageReportUpdate (key : MessageKey) (status : MessageStatus) :
    Table.Update Message.key where
  applies m := decide (m.key = key)
  change m := { m with status := status, reported := true }
  key_change _ := rfl

/-- A delivery report reaches a message; the batch may end with it. -/
def applyReport (key : MessageKey) (status : MessageStatus) : Db :=
  match db.messages.find? key with
  | none => db
  | some m =>
    if status = .pending then db
    else
      let db₁ : Db := { db with messages := db.messages.apply (messageReportUpdate key status) }
      db₁.setBatch m.batchId (fun s =>
        if s = .completedUnknown then s
        else if db₁.activeMessages m.batchId = 0 then .completed
        else s)

/-- The uncertain scan found the vendor's task. -/
def confirmUncertain (taskId : String) : Db :=
  match db.casChunk chunkId (fun s => decide (s.status = .uncertain)) (fun s =>
      { s with
        status := .submitted
        vendorTaskId := some taskId
        submittedAt := some (s.submittedAt.getD now) }) with
  | none => db
  | some db => db.setMessages (fun m => decide (m.chunkId = some chunkId ∧
      m.status = .pending)) .sent

/-- The uncertain scan gives up on a chunk. -/
def expireUncertain : Db :=
  match db.casChunk chunkId (fun s => decide (s.status = .uncertain)) (fun s =>
      { s with status := .unknownTerminal, submittingSince := none }) with
  | none => db
  | some db => db.setMessages (fun m => decide (m.chunkId = some chunkId ∧
      (m.status = .pending ∨ m.status = .sent))) .unknown

/-- The batch life cycle outside of the send pipeline: approval, cancellation,
expiry, resumption. -/
def setBatchStatus (batchId : BatchId) (status : BatchStatus) : Db :=
  db.setBatch batchId (fun _ => status)

/-- A change of the blacklist bumps the policy generation. -/
def setBlacklist (digests : List String) : Db :=
  { db with blacklist := digests, blacklistGeneration := db.blacklistGeneration + 1 }

/-- The rows written by the acceptance of a request.  A request all of whose
phones were filtered out is refused. -/
def acceptBatch (batch : Batch) (phones : List (ℕ × String)) (now : Time) : Option Db :=
  let fresh := phones.map (fun p =>
    (⟨toLex (p.1, now), batch.id, none, p.2, .pending, false⟩ : Message))
  if h : (∀ x ∈ db.batches.rows, x.id ≠ batch.id) ∧
      ((db.messages.rows ++ fresh).map Message.key).Nodup then
    if phones ≠ [] ∧ ∀ x ∈ db.batches.rows, x.batchNo ≠ batch.batchNo then
      some { db with
        batches := db.batches.insertNew batch h.1
        messages := ⟨db.messages.rows ++ fresh, h.2⟩ }
    else none
  else none

end SmsPlatform.Send
