import SmsPlatform.Report.Repository

/-!
# The other writers of a message status

Confirmation and failure of a submission, the two ends of an uncertain chunk, and
the check against the blacklist before dispatch.  All but the last lock the batch
before they count its messages, or change no count.

The blacklist check only locks the chunk.  Its settlement of the batch is a single
statement that counts the messages in the snapshot the statement starts with, and
then waits for the batch row: the counts it writes may be older than the row.
-/

namespace SmsPlatform.Report

open Schema

variable (db : Db) (chunk : ChunkId)

/-! ## Submission -/

def isSubmitting (s : ChunkStatus) : Bool := decide (s = .submitting)

def isUncertain (s : ChunkStatus) : Bool := decide (s = .uncertain)

/-- `_PRE_SEND`: nothing of the chunk has been handed to a vendor for good. -/
def isPreSend (s : ChunkStatus) : Bool :=
  decide (s = .pending ∨ s = .retrying ∨ s = .submitting ∨ s = .failoverPending)

/-- `mark_submitted`, and the finalisation of an attempt as submitted. -/
def Db.markSubmitted (now : Time) : Option Db :=
  (db.casChunk chunk isSubmitting .submitted (fun _ => some now)).map (fun db =>
    db.setMessages (fun m => decide (m.chunkId = some chunk ∧ m.status = .pending) &&
      m.noReportEvidence) .sent)

/-- `resolve_submitted`. -/
def Db.resolveSubmitted (now : Time) : Option Db :=
  (db.casChunk chunk isUncertain .submitted (fun t => some (t.getD now))).map (fun db =>
    db.setMessages (fun m => decide (m.chunkId = some chunk ∧ m.status = .pending)) .sent)

/-! ## Failure -/

def finalizeRule (status : BatchStatus) (counts : Counts) : BatchStatus :=
  if status = .completedUnknown then .completedUnknown
  else if counts.active = 0 then .completed
  else status

/-- `_finalize_failed_messages`.  The aggregate of a batch without messages has no
row, which is an error. -/
def Db.finalizeFailedMessages (batch : BatchId) : Option Db :=
  let u := statusUpdate (fun m => decide (m.chunkId = some chunk) && isActive m.status &&
    m.noReportEvidence) .failed
  let failed : Db := { db with messages := db.messages.apply u }
  if db.messages.rowcount u = 0 then some db
  else if failed.count batch (fun _ => true) = 0 then none
  else some (failed.recount finalizeRule batch)

/-- The transactions that end a chunk as failed: `mark_failed`, the last round of
`delay`, `reject_disallowed_recipient`, the finalisation of an attempt and the repair
of an old rejection. -/
def Db.failChunk : Option Db :=
  match db.chunks.find? chunk with
  | none => none
  | some c =>
    (db.casChunk chunk isPreSend .failed id).bind
      (fun db => db.finalizeFailedMessages chunk c.batchId)

/-! ## Uncertain chunks -/

def terminalizeRule (status : BatchStatus) (counts : Counts) : BatchStatus :=
  if status = .completedUnknown then .completedUnknown
  else if counts.active = 0 ∧ 0 < counts.unknown then .completedUnknown
  else if counts.active = 0 then .completed
  else status

/-- `terminalize_unknown`. -/
def Db.terminalizeUnknown : Option Db :=
  match db.chunks.find? chunk with
  | none => none
  | some c =>
    (db.casChunk chunk isUncertain .unknownTerminal id).bind (fun db =>
      let ended := db.setMessages (fun m => decide (m.chunkId = some chunk) &&
        isActive m.status) .unknown
      if ended.count c.batchId (fun _ => true) = 0 then none
      else some (ended.recount terminalizeRule c.batchId))

/-! ## Blacklist -/

/-- The rule of `_settle_batch`. -/
def settleRule (status : BatchStatus) (counts : Counts) : BatchStatus :=
  if status = .completedUnknown then .completedUnknown
  else if counts.messages = 0 then status
  else if counts.active = 0 ∧ status.isActive = true then .completed
  else status

/-- `_exclude_one` for each of the messages. -/
def Db.exclude (ids : List MessageId) : Db :=
  { db.setMessages (fun m => decide (m.id ∈ ids ∧ m.status = .pending)) .other with
    exclusions := ids ++ db.exclusions }

/-- `_fail_unchunked`. -/
def Db.failUnchunked (status : ChunkStatus) : Db :=
  if status = .submitting then db
  else (db.casChunk chunk (fun s => decide (s = status)) .failed id).getD db

/-- `_pending_messages`. -/
def Db.pendingMessages : List MessageId :=
  (db.messages.rows.filter (fun m =>
    decide (m.chunkId = some chunk ∧ m.status = .pending))).map Message.id

/-- A dispatch decision up to its first settlement of the batch.  `emptied` says that
no message is left to send, and `counts` is what the settlement has counted. -/
structure Dispatch where
  chunkId : ChunkId
  batchId : BatchId
  status : ChunkStatus
  excluded : List MessageId
  emptied : Bool
  counts : Counts
  deriving DecidableEq

/-- `decide_dispatch` up to that point, with the blacklisted messages it has found.
There is none if the decision writes nothing. -/
def Db.decideDispatch (hits : List MessageId) : Option Dispatch :=
  match db.chunks.find? chunk with
  | none => none
  | some c =>
    let pending := db.pendingMessages chunk
    let excluded := pending.filter (fun id => decide (id ∈ hits ∧ id ∉ db.exclusions))
    let emptied := pending.all (fun id => decide (id ∈ hits))
    if !isPreSend c.status then none
    else if excluded = [] ∧ emptied = false then none
    else
      some ⟨chunk, c.batchId, c.status, excluded, emptied, (db.exclude excluded).counts c.batchId⟩

/-- The rest of the transaction.  A second settlement runs under the lock of the
first one, so it counts what is there. -/
def Db.settleDispatch (d : Dispatch) : Db :=
  if d.excluded = [] then
    (db.failUnchunked d.chunkId d.status).writeCounts settleRule d.batchId d.counts
  else
    let settled := (db.exclude d.excluded).writeCounts settleRule d.batchId d.counts
    if d.emptied then
      (settled.failUnchunked d.chunkId d.status).recount settleRule d.batchId
    else settled

end SmsPlatform.Report
