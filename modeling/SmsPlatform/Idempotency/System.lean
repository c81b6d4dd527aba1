import SmsPlatform.Idempotency.Schema
import SmsPlatform.Support.Machine

/-!
# Clients, work and housekeeping around the idempotency claims

Any number of clients reserve, renew and release claims and commit batches under them.  A step
is one transaction, and has the time at which its transaction began, which may lie behind the
clock.  A client that loses its lease keeps what it was given, and may go on with it at any
later time.  The state of the work of a batch changes in any way.

A transaction that does not find what it needs changes nothing and is left out.

The last fields of `World` are history.  They are read by no transition.
-/

namespace SmsPlatform.Idempotency

open Support Schema

/-- A batch that was committed under a claim. -/
structure Commit where
  client : ℕ
  key : Key
  generation : ℕ
  batchId : BatchId
  deriving DecidableEq

/-- A result that gave way to the next owner of its key. -/
structure Retirement where
  key : Key
  batchId : BatchId
  /-- Until when the result was to be kept. -/
  expiresAt : Time
  retiredAt : Time
  /-- The work of the batch was protected at that time. -/
  wasProtected : Bool
  deriving DecidableEq

structure World where
  clock : Time
  claims : Table Claim.key
  records : Table Record.key
  batches : Table Batch.id
  operations : List VendorTestOperation
  nextBatch : BatchId
  nextToken : Token
  held : ℕ → Option Holding
  commits : List Commit
  retirements : List Retirement
  /-- Until when the result of the batch was last to be kept. -/
  resultExpiry : BatchId → Time

def World.start : World where
  clock := 0
  claims := Table.empty Claim.key
  records := Table.empty Record.key
  batches := Table.empty Batch.id
  operations := []
  nextBatch := 0
  nextToken := 0
  held := fun _ => none
  commits := []
  retirements := []
  resultExpiry := fun _ => 0

/-- The part of `BatchCommand` that concerns the results. -/
structure BatchCommand where
  status : BatchStatus
  total : ℕ
  isWeb : Bool
  isTest : Bool
  appId : Option ℕ
  creatorAccountId : Option ℕ
  creatorIdentityId : Option ℕ
  requestHash : Option RequestHash
  scheduledAt : Option Time

def BatchCommand.batch (command : BatchCommand) (id : BatchId) (bizId : String) : Batch where
  id := id
  status := command.status
  total := command.total
  isWeb := command.isWeb
  isTest := command.isTest
  appId := command.appId
  creatorAccountId := command.creatorAccountId
  creatorIdentityId := command.creatorIdentityId
  bizId := some bizId
  chunks := []
  callbacks := []
  snapshots := []

/-- `COALESCE(scheduled_at + interval '7 days', now() + interval '24 hours')`. -/
def BatchCommand.expiresAt (command : BatchCommand) (now : Time) : Time :=
  match command.scheduledAt with
  | some scheduledAt => scheduledAt + 7 * 86400
  | none => now + 86400

namespace World

variable (w : World) (x : ℕ)

def setHeld (h : Holding) : World :=
  { w with held := Function.update w.held x (some h), nextToken := w.nextToken + 1 }

/-- The result of the batch under the key. -/
def resultOf (key : Key) (batchId : BatchId) : Option Record :=
  (w.records.find? key).filter fun r => decide (r.batchId = batchId)

/-- The work of the batch is protected. -/
def isProtected (key : Key) (batchId : BatchId) : Bool :=
  workProtected w.operations (w.resultOf key batchId) (w.batches.find? batchId)

/-- The record is in force, by its expiry or by the work of its batch. -/
def isLive (r : Record) (now : Time) : Bool :=
  r.isLive w.operations (w.batches.find? r.batchId) now

/-! ## Claims -/

/-- The claim as its new owner sees it. -/
def granted (key : Key) (fingerprint : String) (generation : ℕ) : Holding :=
  ⟨key, w.nextToken, fingerprint, generation⟩

/-- `reserve_idempotency_claim` for a key that was not seen completed. -/
def reserve (key : Key) (fingerprint : String) (ttl now : Time) : Option World :=
  if hnew : ∀ q ∈ w.claims.rows, q.key ≠ key then
    some ({ w with
      claims := w.claims.insertNew (newClaim key w.nextToken fingerprint (now + ttl)) hnew
      }.setHeld x (w.granted key fingerprint 1))
  else
    ((w.claims.find? key).filter fun q => q.isFree now).map fun q =>
      { w with
        claims := w.claims.apply (takeOverUpdate key w.nextToken fingerprint (now + ttl) now)
        }.setHeld x (w.granted key fingerprint (q.generation + 1))

/-- A result is retired and its key claimed anew. -/
abbrev retire (key : Key) (fingerprint : String) (expiresAt : Time) (batchId : BatchId) : World :=
  { w with
    claims := w.claims.apply (reclaimUpdate key batchId w.nextToken fingerprint expiresAt)
    records := w.records.keep fun r => !decide (r.key = key ∧ r.batchId = batchId)
    retirements := ⟨key, batchId, w.resultExpiry batchId, w.clock, w.isProtected key batchId⟩ ::
      w.retirements }

/-- `reclaim_completed_result`. -/
def reclaim (key : Key) (fingerprint : String) (ttl now : Time) (batchId : BatchId) :
    Option World :=
  if (w.batches.find? batchId).isNone then none
  else
    ((w.claims.find? key).filter fun q => decide (q.state = .completed batchId)).bind fun q =>
      let result := w.resultOf key batchId
      if !q.resultVerified result ||
          q.resultProtected w.operations result (w.batches.find? batchId) now ||
          result.any (fun r => w.isLive r now) then none
      else
        some ((w.retire key fingerprint (now + ttl) batchId).setHeld x
          (w.granted key fingerprint (q.generation + 1)))

/-- `renew_idempotency_claim`. -/
def renew (ttl margin now : Time) : Option World :=
  (w.held x).map fun h => { w with claims := w.claims.apply (renewUpdate h ttl margin now) }

/-- `release_idempotency_claim`. -/
def release (now : Time) : Option World :=
  (w.held x).map fun h => { w with claims := w.claims.apply (releaseUpdate h w.records now) }

/-! ## Batches -/

/-- The records that `_insert` leaves under a key. -/
def recordsFor (key : Key) (now : Time) : Table Record.key :=
  w.records.keep fun r => !decide (r.key = key) || w.isLive r now

/-- A batch is inserted under the key of a claim, which it completes. -/
abbrev complete (h : Holding) (command : BatchCommand) (now : Time)
    (hbatch : ∀ b ∈ w.batches.rows, b.id ≠ w.nextBatch)
    (hrecord : ∀ r ∈ (w.recordsFor h.key now).rows, r.key ≠ h.key) : World :=
  { w with
    claims := w.claims.apply (completeUpdate h w.nextBatch (command.expiresAt now) now)
    records := (w.recordsFor h.key now).insertNew
      ⟨h.key, command.requestHash, w.nextBatch, command.expiresAt now⟩ hrecord
    batches := w.batches.insertNew (command.batch w.nextBatch h.key.bizId) hbatch
    nextBatch := w.nextBatch + 1
    commits := ⟨x, h.key, h.generation, w.nextBatch⟩ :: w.commits
    resultExpiry := Function.update w.resultExpiry w.nextBatch (command.expiresAt now) }

/-- `_insert` for a command with a business id. -/
def commit (command : BatchCommand) (now : Time) : Option World :=
  (w.held x).bind fun h =>
    if hbatch : ∀ b ∈ w.batches.rows, b.id ≠ w.nextBatch then
      if hrecord : ∀ r ∈ (w.recordsFor h.key now).rows, r.key ≠ h.key then
        if 0 < w.claims.rowcount (completeUpdate h w.nextBatch (command.expiresAt now) now) then
          some (w.complete x h command now hbatch hrecord)
        else none
      else none
    else none

/-- The work of a batch has come to another state. -/
def work (b : Batch) : Option World :=
  if (w.batches.find? b.id).isSome then some { w with batches := w.batches.put b } else none

/-- The part of `reschedule` that concerns the result. -/
def reschedule (batchId : BatchId) (scheduledAt : Time) : Option World :=
  ((w.batches.find? batchId).filter fun b => decide (b.status = .scheduled)).map fun _ =>
    { w with
      records := w.records.apply {
        applies := fun r => decide (r.batchId = batchId)
        change := fun r => { r with expiresAt := max r.expiresAt (scheduledAt + 7 * 86400) }
        key_change := fun _ => rfl }
      resultExpiry := if w.records.rows.any (fun r => decide (r.batchId = batchId)) then
          Function.update w.resultExpiry batchId
            (max (w.resultExpiry batchId) (scheduledAt + 7 * 86400))
        else w.resultExpiry }

/-! ## Housekeeping -/

/-- The page of `_cleanup_idempotency_page` deletes this record. -/
def isCleaned (page : List Key) (cutoff now : Time) (r : Record) : Bool :=
  decide (r.key ∈ page ∧ r.expiresAt ≤ cutoff) && !w.isLive r now

/-- `_cleanup_idempotency_page`; which keys are on the page depends on the cursor, the limit and
the locks of others. -/
def cleanup (page : List Key) (cutoff now : Time) : World :=
  { w with
    claims := w.claims.apply (keepExpiryUpdate
      (w.records.rows.filter (w.isCleaned page cutoff now)))
    records := w.records.keep fun r => !w.isCleaned page cutoff now r }

end World

/-! ## Steps -/

inductive Action
  | tick (seconds : Time)
  /-- With the batch under which the client saw the key completed, if it did. -/
  | reserve (x : ℕ) (key : Key) (fingerprint : String) (ttl : Time) (seen : Option BatchId)
      (now : Time)
  | renew (x : ℕ) (ttl margin now : Time)
  | release (x : ℕ) (now : Time)
  | commit (x : ℕ) (command : BatchCommand) (now : Time)
  | work (b : Batch)
  | operate (operations : List VendorTestOperation)
  | reschedule (batchId : BatchId) (scheduledAt : Time)
  | cleanup (page : List Key) (cutoff now : Time)

/-- When the transaction of the step began. -/
def Action.began : Action → Time
  | .reserve _ _ _ _ _ now | .renew _ _ _ now | .release _ now | .commit _ _ now
  | .cleanup _ _ now => now
  | .tick _ | .work _ | .operate _ | .reschedule _ _ => 0

/-- The effect of a step, whenever its transaction began. -/
def World.effect (w : World) : Action → Option World
  | .tick seconds => some { w with clock := w.clock + seconds }
  | .reserve x key fingerprint ttl none now => w.reserve x key fingerprint ttl now
  | .reserve x key fingerprint ttl (some batchId) now =>
    w.reclaim x key fingerprint ttl now batchId
  | .renew x ttl margin now => w.renew x ttl margin now
  | .release x now => w.release x now
  | .commit x command now => w.commit x command now
  | .work b => w.work b
  | .operate operations => some { w with operations := operations }
  | .reschedule batchId scheduledAt => w.reschedule batchId scheduledAt
  | .cleanup page cutoff now => some (w.cleanup page cutoff now)

def World.next (w : World) (a : Action) : Option World :=
  if a.began ≤ w.clock then w.effect a else none

def idempotency : Machine World Action where
  init := fun w => w = World.start
  next := World.next

end SmsPlatform.Idempotency
