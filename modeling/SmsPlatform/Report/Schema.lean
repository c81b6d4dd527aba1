import Mathlib.Data.Prod.Lex
import SmsPlatform.Support.Table
import SmsPlatform.Vendor.Policy

/-!
# Messages, delivery reports and batch counters

The rows that delivery reports and the other writers of a message status share.
A message carries the columns of the report it shows; a projection records that
an event has been applied to a message; a batch caches how many of its messages
have which status.

An event is named by its key, a digest over everything the projection reads of
it.  The contents of the events are therefore given by a function of the key,
the `book`, which no step changes.
-/

namespace SmsPlatform.Report

open Support Schema Vendor Table

abbrev BatchId := ℕ
abbrev ChunkId := ℕ
abbrev MessageId := ℕ
abbrev EventKey := ℕ
abbrev Time := ℕ

/-! ## Rows -/

/-- `report_event`. -/
structure Event where
  customId : String
  vendorId : VendorId
  reportStatus : ℤ
  reportDesc : String
  reportTime : Time
  deriving DecidableEq

/-- `_message_status`. -/
def messageStatus (reportStatus : ℤ) : MessageStatus :=
  if reportStatus = 1 then .delivered
  else if reportStatus = 2 ∨ reportStatus = 99 then .failed
  else if reportStatus = 0 then .unknown
  else .other

def Event.messageStatus (e : Event) : MessageStatus := Report.messageStatus e.reportStatus

structure Message where
  id : MessageId
  batchId : BatchId
  chunkId : Option ChunkId
  phoneHmac : String
  status : MessageStatus
  reportStatus : Option ℤ
  reportDesc : Option String
  reportTime : Option Time
  reportEventKey : Option EventKey
  deriving DecidableEq

/-- `irreversibleVendors` are the vendors of the chunk's attempts with outcome
`submitted` or `uncertain`. -/
structure Chunk where
  id : ChunkId
  batchId : BatchId
  customId : String
  status : ChunkStatus
  submittedAt : Option Time
  selectedVendor : Option VendorId
  irreversibleVendors : List VendorId
  deriving DecidableEq

/-- The counts are initialised when `activeMessageCount` is set; the token that
changes with every count is set together with it. -/
structure Batch where
  id : BatchId
  status : BatchStatus
  delivered : ℤ
  failed : ℤ
  unknownCnt : ℤ
  activeMessageCount : Option ℤ
  deriving DecidableEq

/-- `report_event_projection`. -/
structure Projection where
  eventKey : EventKey
  batchId : BatchId
  messageId : MessageId
  projectionChanged : Bool
  deriving DecidableEq

/-- `exclusions` are the messages of `sms_dispatch_exclusion`. -/
structure Db where
  batches : Table Batch.id
  chunks : Table Chunk.id
  messages : Table Message.id
  projections : Table Projection.eventKey
  exclusions : List MessageId

/-! ## Reports -/

variable (db : Db)

/-- `NO_REPORT_EVIDENCE`. -/
def Message.noReportEvidence (m : Message) : Bool :=
  m.reportEventKey.isNone && m.reportStatus.isNone && m.reportTime.isNone && m.reportDesc.isNone

/-- `TRUSTED_REPORT_EVIDENCE`. -/
def Db.trustedReportEvidence (m : Message) : Bool :=
  m.reportEventKey.any (fun key => db.projections.rows.any (fun p =>
    decide (p.eventKey = key ∧ p.messageId = m.id ∧ p.batchId = m.batchId) && p.projectionChanged))

/-- The message as it shows an event. -/
def Message.project (key : EventKey) (e : Event) (m : Message) : Message :=
  { m with
    status := e.messageStatus
    reportStatus := some e.reportStatus
    reportDesc := some e.reportDesc
    reportTime := some e.reportTime
    reportEventKey := some key }

/-- The first criterion of the projection order. -/
def statusRank (reportStatus : ℤ) : ℕ :=
  if reportStatus = 1 then 4
  else if reportStatus = 2 ∨ reportStatus = 99 then 3
  else if reportStatus = 0 then 1
  else 2

/-- The third criterion, after the time of the report. -/
def codeRank (reportStatus : ℤ) : ℕ :=
  if reportStatus = 1 then 40
  else if reportStatus = 99 then 35
  else if reportStatus = 2 then 30
  else if reportStatus = 3 then 20
  else if reportStatus = 0 then 10
  else 15

/-- The condition under which an event replaces what a message shows. -/
def Message.supersededBy (m : Message) (key : EventKey) (e : Event) : Bool :=
  decide (m.reportStatus ≠ some 1 ∨ ¬ (e.reportStatus = 2 ∨ e.reportStatus = 99)) &&
  match m.reportTime with
  | none => true
  | some time =>
    let rank := m.reportStatus.elim 0 statusRank
    let code := m.reportStatus.elim 15 codeRank
    decide (rank < statusRank e.reportStatus) ||
    (decide (statusRank e.reportStatus = rank) && (decide (time < e.reportTime) ||
        (decide (e.reportTime = time) && (decide (code < codeRank e.reportStatus) ||
            (decide (codeRank e.reportStatus = code) &&
              m.reportEventKey.all (fun shown => decide (shown < key)))))))

/-- The events that have been applied to a message. -/
def Db.eventsOf (message : MessageId) : List EventKey :=
  (db.projections.rows.filter (fun p => decide (p.messageId = message))).map
    Projection.eventKey

/-! ## Counts -/

/-- `status IN ('pending','sent')`. -/
def isActive : MessageStatus → Bool
  | .pending | .sent => true
  | _ => false

def indicator (p : MessageStatus → Bool) (status : MessageStatus) : ℤ :=
  if p status then 1 else 0

/-- `count(*) FILTER (WHERE ...)` over the messages of a batch. -/
def Db.count (batch : BatchId) (p : MessageStatus → Bool) : ℤ :=
  db.messages.total (fun m => if m.batchId = batch then indicator p m.status else 0)

structure Counts where
  messages : ℤ
  delivered : ℤ
  failed : ℤ
  unknown : ℤ
  active : ℤ
  deriving DecidableEq

def isDelivered (s : MessageStatus) : Bool := decide (s = .delivered)
def isFailed (s : MessageStatus) : Bool := decide (s = .failed)
def isUnknown (s : MessageStatus) : Bool := decide (s = .unknown)

/-- The aggregate every recount reads. -/
def Db.counts (batch : BatchId) : Counts where
  messages := db.count batch (fun _ => true)
  delivered := db.count batch isDelivered
  failed := db.count batch isFailed
  unknown := db.count batch isUnknown
  active := db.count batch isActive

/-- A recount writes the aggregate; the new batch status follows the caller's
rule. -/
def recountUpdate (rule : BatchStatus → Counts → BatchStatus) (batch : BatchId)
    (counts : Counts) : Update Batch.id where
  applies b := decide (b.id = batch)
  change b := { b with
      delivered := counts.delivered
      failed := counts.failed
      unknownCnt := counts.unknown
      activeMessageCount := some counts.active
      status := rule b.status counts }
  key_change _ := rfl

def Db.writeCounts (rule : BatchStatus → Counts → BatchStatus) (batch : BatchId) (counts : Counts) :
    Db :=
  { db with batches := db.batches.apply (recountUpdate rule batch counts) }

def Db.recount (rule : BatchStatus → Counts → BatchStatus) (batch : BatchId) : Db :=
  db.writeCounts rule batch (db.counts batch)

/-- Set the status of the messages that meet a condition. -/
def statusUpdate (p : Message → Bool) (status : MessageStatus) : Update Message.id where
  applies := p
  change m := { m with status := status }
  key_change _ := rfl

def Db.setMessages (p : Message → Bool) (status : MessageStatus) : Db :=
  { db with messages := db.messages.apply (statusUpdate p status) }

/-- `UPDATE sms_chunk ... WHERE id=:id AND status ...`. -/
def chunkUpdate (chunk : ChunkId) (expected : ChunkStatus → Bool) (status : ChunkStatus)
    (submittedAt : Option Time → Option Time) : Update Chunk.id where
  applies c := decide (c.id = chunk) && expected c.status
  change c := { c with status := status, submittedAt := submittedAt c.submittedAt }
  key_change _ := rfl

/-- Compare and swap on the status of a chunk. -/
def Db.casChunk (chunk : ChunkId) (expected : ChunkStatus → Bool) (status : ChunkStatus)
    (submittedAt : Option Time → Option Time) : Option Db :=
  if db.chunks.rowcount (chunkUpdate chunk expected status submittedAt) = 0 then none
  else some { db with
    chunks := db.chunks.apply (chunkUpdate chunk expected status submittedAt) }

end SmsPlatform.Report
