import Mathlib.Data.Nat.Notation

/-!
# Status columns

The status columns of the batch, chunk, message and vendor attempt tables, with
the groups of values that several components share.
-/

namespace SmsPlatform.Schema

/-- `sms_batch.status`. -/
inductive BatchStatus
  | pendingApproval
  | rejected
  | scheduled
  | queued
  | sending
  | completed
  | completedUnknown
  | cancelled
  | balanceBlocked
  | expired
  deriving DecidableEq

/-- `sms_chunk.status`. -/
inductive ChunkStatus
  | pending
  | submitting
  | submitted
  | failed
  | retrying
  | uncertain
  | unknownTerminal
  | splitCapacityBlocked
  | failoverPending
  deriving DecidableEq

/-- The stored text of a chunk status. -/
def ChunkStatus.text : ChunkStatus → String
  | .pending => "pending"
  | .submitting => "submitting"
  | .submitted => "submitted"
  | .failed => "failed"
  | .retrying => "retrying"
  | .uncertain => "uncertain"
  | .unknownTerminal => "unknown_terminal"
  | .splitCapacityBlocked => "split_capacity_blocked"
  | .failoverPending => "failover_pending"

/-- `sms_message.status`. -/
inductive MessageStatus
  | pending
  | sent
  | delivered
  | failed
  | unknown
  | other
  deriving DecidableEq

/-- `sms_vendor_attempt.outcome`. -/
inductive AttemptOutcome
  | notInvoked
  | rejected
  | submitted
  | uncertain
  | failed
  | retryScheduled
  | delayed
  | paused
  | stale
  | invoking
  | cancelledBeforeInvoke
  | inconsistent
  deriving DecidableEq

/-- Batches that still send. -/
def BatchStatus.isActive : BatchStatus → Bool
  | .queued | .sending => true
  | _ => false

/-- Batches whose in-flight capacity is given back. -/
def BatchStatus.isTerminal : BatchStatus → Bool
  | .completed | .completedUnknown | .cancelled | .rejected | .expired => true
  | _ => false

/-- `send_chunk_occupying_states()`. -/
def ChunkStatus.isOccupying : ChunkStatus → Bool
  | .pending | .submitting | .retrying | .submitted | .uncertain
  | .splitCapacityBlocked | .failoverPending => true
  | .failed | .unknownTerminal => false

/-- `ISOLATING_CHUNK_STATES`. -/
def ChunkStatus.isIsolating : ChunkStatus → Bool
  | .uncertain | .unknownTerminal | .failed | .submitted => true
  | _ => false

/-- `BLOCKING_ATTEMPT_OUTCOMES`: the vendor may have accepted the chunk. -/
def AttemptOutcome.isBlocking : AttemptOutcome → Bool
  | .submitted | .uncertain | .invoking | .inconsistent => true
  | _ => false

/-- `IRREVERSIBLE_OUTCOMES`. -/
def AttemptOutcome.isIrreversible : AttemptOutcome → Bool
  | .submitted | .uncertain | .invoking => true
  | _ => false

/-- `HOLD_OUTCOMES`. -/
def AttemptOutcome.isHold : AttemptOutcome → Bool
  | .retryScheduled | .delayed | .paused => true
  | _ => false

end SmsPlatform.Schema
