import SmsPlatform.Callback.Schema
import SmsPlatform.Schema.Status

/-!
# Idempotency claims and results

`idempotency_claim` has one row for a scope and business id, which says who may accept a
request under the key and counts the owners in `generation`.  `idempotency_record` is the
result that a batch left under the key.  A result stays in force until it has expired and the
work of its batch has come to an end; `workProtected` is that second condition.
-/

namespace SmsPlatform.Idempotency

open Support Schema Table

abbrev BatchId := ℕ
/-- Tokens of claims, in the order in which they were generated. -/
abbrev Token := ℕ
abbrev Time := ℕ

/-- `IdempotencyScope.kind`. -/
inductive ScopeKind
  | app
  | account
  | resend
  | resendExtra
  | webLegacy
  | uncertainResend
  deriving DecidableEq

/-- The scope and the business id of a request. -/
structure Key where
  scopeKind : ScopeKind
  scopeId : String
  bizId : String
  deriving DecidableEq

/-! ## Rows -/

/-- `state` and `batch_id`, which `ck_idempotency_claim_state_shape` ties together. -/
inductive ClaimState
  | active
  | completed (batchId : BatchId)
  | released
  | expired
  deriving DecidableEq

/-- A row of `idempotency_claim`. -/
structure Claim where
  key : Key
  token : Token
  fingerprint : String
  generation : ℕ
  expiresAt : Time
  state : ClaimState
  resultExpiresAt : Option Time
  deriving DecidableEq

/-- `request_hash` and `request_hash_key_version`: both are set or none. -/
structure RequestHash where
  digest : String
  keyVersion : ℕ
  deriving DecidableEq

/-- A row of `idempotency_record`. -/
structure Record where
  key : Key
  requestHash : Option RequestHash
  batchId : BatchId
  expiresAt : Time
  deriving DecidableEq

/-- The columns of `sms_batch` that decide on protection, and the states of the work that
belongs to the batch. -/
structure Batch where
  id : BatchId
  status : BatchStatus
  total : ℕ
  /-- `channel='web'`. -/
  isWeb : Bool
  isTest : Bool
  appId : Option ℕ
  creatorAccountId : Option ℕ
  creatorIdentityId : Option ℕ
  bizId : Option String
  chunks : List ChunkStatus
  /-- The callback tasks of the batch. -/
  callbacks : List Callback.TaskStatus
  /-- The callback tasks that hold a snapshot of the batch. -/
  snapshots : List Callback.TaskStatus
  deriving DecidableEq

/-- The columns of `vendor_test_operation` that are compared. -/
structure VendorTestOperation where
  /-- `operation_type='uat_send'`. -/
  isUatSend : Bool
  /-- `status IN ('requested','running')`. -/
  isOpen : Bool
  batchNo : Option String
  acceptanceAppId : Option ℕ
  actorAccountId : Option ℕ
  actorIdentityId : Option ℕ
  acceptanceBizId : Option String
  acceptanceRequestHash : Option String
  acceptanceKeyVersion : Option ℕ
  deriving DecidableEq

/-! ## Protection of a result -/

/-- `=` on nullable columns. -/
def sqlEq {α : Type*} [DecidableEq α] : Option α → Option α → Bool
  | some a, some b => decide (a = b)
  | _, _ => false

def isClosedCallback : Callback.TaskStatus → Bool
  | .done | .dead => true
  | .pending | .retrying => false

def isClosedChunk : ChunkStatus → Bool
  | .submitted | .failed => true
  | _ => false

def isClosedBatch : BatchStatus → Bool
  | .completed | .rejected | .expired | .cancelled => true
  | _ => false

/-- The operation may still refer to the batch. -/
def VendorTestOperation.mayConcern (op : VendorTestOperation) (b : Batch) (r : Option Record) :
    Bool :=
  op.isUatSend && op.isOpen && op.batchNo.isNone && sqlEq op.acceptanceAppId b.appId &&
    sqlEq op.actorAccountId b.creatorAccountId && sqlEq op.actorIdentityId b.creatorIdentityId &&
    sqlEq op.acceptanceBizId b.bizId && b.isWeb && b.isTest &&
    (op.acceptanceRequestHash.isNone ||
      (sqlEq op.acceptanceRequestHash ((r.bind Record.requestHash).map RequestHash.digest) &&
        sqlEq op.acceptanceKeyVersion ((r.bind Record.requestHash).map RequestHash.keyVersion)))

/-- `RESULT_WORK_PROTECTED_SQL`. -/
def workProtected (operations : List VendorTestOperation) (r : Option Record) :
    Option Batch → Bool
  | none => true
  | some b =>
    !isClosedBatch b.status || b.chunks.any (fun c => !isClosedChunk c) ||
      b.callbacks.any (fun t => !isClosedCallback t) ||
      b.snapshots.any (fun t => !isClosedCallback t) ||
      operations.any (fun op => op.mayConcern b r) ||
      (decide (b.status = .completed) && decide (0 < b.total) && b.chunks.isEmpty)

/-- `IDEMPOTENCY_LIVE_SQL`. -/
def Record.isLive (r : Record) (operations : List VendorTestOperation) (b : Option Batch)
    (now : Time) : Bool :=
  decide (now < r.expiresAt) || r.requestHash.isNone || workProtected operations (some r) b

/-- `COALESCE(i.expires_at,q.result_expires_at)`. -/
def Claim.resultExpiry (q : Claim) (r : Option Record) : Option Time :=
  (r.map Record.expiresAt).or q.resultExpiresAt

/-- `CLAIM_RESULT_LIVE_SQL`. -/
def Claim.resultProtected (q : Claim) (operations : List VendorTestOperation)
    (r : Option Record) (b : Option Batch) (now : Time) : Bool :=
  (q.resultExpiry r).all (fun t => decide (now < t)) || workProtected operations r b

/-- `result_verified`: the result is the one of the request that was claimed. -/
def Claim.resultVerified (q : Claim) : Option Record → Bool
  | some r => r.requestHash.any fun h => decide (h.digest = q.fingerprint)
  | none => q.resultExpiresAt.isSome

theorem resultProtected_eq_false_iff {q : Claim} {operations : List VendorTestOperation}
    {r : Option Record} {b : Option Batch} {now : Time} :
    q.resultProtected operations r b now = false ↔
      (∃ t, q.resultExpiry r = some t ∧ t ≤ now) ∧ workProtected operations r b = false := by
  rw [Claim.resultProtected, Bool.or_eq_false_iff]
  refine and_congr ?_ .rfl
  cases h : q.resultExpiry r with
  | _ => simp

/-! ## Statements -/

/-- A fresh row of `RESERVE_IDEMPOTENCY_CLAIM_SQL`. -/
def newClaim (key : Key) (token : Token) (fingerprint : String) (expiresAt : Time) : Claim where
  key := key
  token := token
  fingerprint := fingerprint
  generation := 1
  expiresAt := expiresAt
  state := .active
  resultExpiresAt := none

/-- The row under its next owner. -/
def Claim.takenOver (q : Claim) (token : Token) (fingerprint : String) (expiresAt : Time) :
    Claim :=
  { newClaim q.key token fingerprint expiresAt with generation := q.generation + 1 }

/-- The conflict clause of `RESERVE_IDEMPOTENCY_CLAIM_SQL`. -/
def Claim.isFree (q : Claim) (now : Time) : Bool :=
  match q.state with
  | .expired | .released => true
  | .active => decide (q.expiresAt < now)
  | .completed _ => false

/-- What a client was given with its claim. -/
structure Holding where
  key : Key
  token : Token
  fingerprint : String
  generation : ℕ
  deriving DecidableEq

/-- The claim is the one that was handed out, and still active. -/
def Claim.isOwned (q : Claim) (h : Holding) : Bool :=
  decide (q.key = h.key ∧ q.token = h.token ∧ q.generation = h.generation ∧ q.state = .active)

def takeOverUpdate (key : Key) (token : Token) (fingerprint : String) (expiresAt now : Time) :
    Update Claim.key where
  applies := fun q => decide (q.key = key) && q.isFree now
  change := fun q => q.takenOver token fingerprint expiresAt
  key_change := fun _ => rfl

/-- `RENEW_IDEMPOTENCY_CLAIM_SQL`. -/
def renewUpdate (h : Holding) (ttl margin now : Time) : Update Claim.key where
  applies := fun q =>
    q.isOwned h && decide (q.fingerprint = h.fingerprint ∧ now < q.expiresAt + margin)
  change := fun q => { q with expiresAt := now + ttl }
  key_change := fun _ => rfl

/-- `RELEASE_IDEMPOTENCY_CLAIM_SQL`. -/
def releaseUpdate (h : Holding) (records : Table Record.key) (now : Time) :
    Update Claim.key where
  applies := fun q =>
    q.isOwned h && !records.rows.any fun r => decide (r.key = q.key ∧ now < r.expiresAt)
  change := fun q => { q with state := .released }
  key_change := fun _ => rfl

/-- The end of `reclaim_completed_result`. -/
def reclaimUpdate (key : Key) (batchId : BatchId) (token : Token) (fingerprint : String)
    (expiresAt : Time) : Update Claim.key where
  applies := fun q => decide (q.key = key ∧ q.state = .completed batchId)
  change := fun q => q.takenOver token fingerprint expiresAt
  key_change := fun _ => rfl

/-- The end of `_insert`. -/
def completeUpdate (h : Holding) (batchId : BatchId) (resultExpiresAt now : Time) :
    Update Claim.key where
  applies := fun q => q.isOwned h && decide (now < q.expiresAt)
  change := fun q =>
    { q with state := .completed batchId, resultExpiresAt := some resultExpiresAt }
  key_change := fun _ => rfl

/-- The statement of `_cleanup_idempotency_page` that keeps the expiry of deleted results. -/
def keepExpiryUpdate (deleted : List Record) : Update Claim.key where
  applies := fun q => deleted.any fun r =>
    decide (q.state = .completed r.batchId ∧ q.key = r.key) &&
      r.requestHash.any fun h => decide (h.digest = q.fingerprint)
  change := fun q =>
    { q with
      resultExpiresAt := (deleted.find? fun r => decide (r.key = q.key)).map Record.expiresAt }
  key_change := fun _ => rfl

end SmsPlatform.Idempotency
