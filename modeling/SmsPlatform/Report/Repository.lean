import SmsPlatform.Report.Schema

/-!
# Application of delivery reports

`apply_report`, the repair of a projection, the refresh of the batch and the sweep
over messages whose report has not come in time.  Each of them holds the lock of
the batch before it reads a message.

A report is matched before any lock is taken.  `matchReport` is that read, and
`applyReport` the rest of the transaction, which is given the match.
-/

namespace SmsPlatform.Report

open Support Schema Vendor Table

/-! ## The batch -/

/-- The rule of a full recount in `_refresh_batch`. -/
def refreshRule (status : BatchStatus) (counts : Counts) : BatchStatus :=
  if status = .completedUnknown then .completedUnknown
  else if counts.messages = 0 then status
  else if counts.active = 0 then .completed
  else status

structure Delta where
  delivered : ℤ
  failed : ℤ
  unknown : ℤ
  active : ℤ

/-- `status_delta`: one message has changed its status. -/
def statusDelta (previous current : MessageStatus) : Delta where
  delivered := indicator isDelivered current - indicator isDelivered previous
  failed := indicator isFailed current - indicator isFailed previous
  unknown := indicator isUnknown current - indicator isUnknown previous
  active := indicator isActive current - indicator isActive previous

/-- `unknown_delta`: that many messages have gone from `sent` to `unknown`. -/
def unknownDelta (changed : ℕ) : Delta where
  delivered := 0
  failed := 0
  unknown := changed
  active := -changed

/-- The incremental update, which needs initialised counts. -/
def deltaUpdate (batch : BatchId) (d : Delta) : Update Batch.id where
  applies b := decide (b.id = batch) && b.activeMessageCount.isSome
  change b := { b with
      delivered := b.delivered + d.delivered
      failed := b.failed + d.failed
      unknownCnt := b.unknownCnt + d.unknown
      activeMessageCount := b.activeMessageCount.map (fun n => n + d.active)
      status := if b.status = .completedUnknown then .completedUnknown
        else if b.activeMessageCount.any (fun n => decide (n + d.active = 0)) then .completed
        else b.status }
  key_change _ := rfl

/-- `_refresh_batch`. -/
def Db.refreshBatch (db : Db) (batch : BatchId) (delta : Option Delta) : Db :=
  match delta with
  | none => db.recount refreshRule batch
  | some d =>
    if db.batches.rowcount (deltaUpdate batch d) = 0 then db.recount refreshRule batch
    else { db with batches := db.batches.apply (deltaUpdate batch d) }

section

variable (book : EventKey → Event) (db : Db) (batch : BatchId)

/-! ## Repair -/

/-- The message as its own event would have it. -/
def Message.reproject (m : Message) : Message :=
  match m.reportEventKey with
  | none => m
  | some key => m.project key (book key)

theorem reproject_id (m : Message) : (m.reproject book).id = m.id := by
  unfold Message.reproject
  split <;> rfl

/-- `repair_message_projection_from_report`. -/
def repairUpdate (ids : List MessageId) : Update Message.id where
  applies m := decide (m.id ∈ ids ∧ m.batchId = batch) && db.trustedReportEvidence m &&
    decide (m.reproject book ≠ m)
  change := Message.reproject book
  key_change := reproject_id book

/-- `_repair_report_projection`. -/
def Db.repairReportProjection (ids : List MessageId) : Db :=
  let u := repairUpdate book db batch ids
  if db.messages.rowcount u = 0 then db
  else Db.refreshBatch { db with messages := db.messages.apply u } batch none

/-! ## Application -/

/-- `report_may_apply`. -/
def reportMayApply (reportVendor selectedVendor : VendorId)
    (irreversibleVendors : List VendorId) : Bool :=
  decide (reportVendor ∈ irreversibleVendors) ||
    (irreversibleVendors.isEmpty && decide (reportVendor = selectedVendor))

/-- What the unlocked read of `apply_report` has found. -/
structure Match where
  messageId : MessageId
  batchId : BatchId
  chunkId : ChunkId
  deriving DecidableEq

/-- The read of `apply_report`; an ambiguous match is none. -/
def matchReport (key : EventKey) (phoneHmacs : List String) : Option Match :=
  match db.messages.rows.filter (fun m => decide (m.phoneHmac ∈ phoneHmacs) &&
      m.chunkId.any (fun chunk => (db.chunks.find? chunk).any
        (fun c => decide (c.customId = (book key).customId)))) with
  | [m] => m.chunkId.map (fun chunk => ⟨m.id, m.batchId, chunk⟩)
  | _ => none

/-- The message an event may be applied to, once chunk, batch and message are
locked. -/
def Db.ownedMessage (found : Match) (key : EventKey) : Option Message :=
  match db.chunks.find? found.chunkId with
  | none => none
  | some c =>
    if reportMayApply (book key).vendorId (c.selectedVendor.getD primaryVendorId)
        c.irreversibleVendors then
      (db.messages.find? found.messageId).filter (fun m => decide (m.batchId = found.batchId))
    else none

def projectUpdate (message : MessageId) (key : EventKey) : Update Message.id where
  applies m := decide (m.id = message)
  change := Message.project key (book key)
  key_change _ := rfl

/-- `prior_report_state_drift`. -/
def Db.priorReportStateDrift (m : Message) : Bool :=
  db.trustedReportEvidence m &&
    m.reportEventKey.any (fun key => decide (m.status ≠ (book key).messageStatus))

/-- The event is recorded, and shown if it supersedes what the message shows. -/
def Db.projectReport (m : Message) (key : EventKey) : Db :=
  if h : ∀ p ∈ db.projections.rows, p.eventKey ≠ key then
    let changed := m.supersededBy key (book key)
    let recorded : Db := { db with
        projections := db.projections.insertNew ⟨key, m.batchId, m.id, changed⟩ h }
    if changed then
      let shown : Db :=
        { recorded with messages := recorded.messages.apply (projectUpdate book m.id key) }
      shown.refreshBatch m.batchId (if db.priorReportStateDrift book m then none
          else some (statusDelta m.status (book key).messageStatus))
    else recorded
  else db.repairReportProjection book m.batchId [m.id]

/-- `apply_report` after its match. -/
def Db.applyReport (found : Option Match) (key : EventKey) : Db :=
  match found with
  | none => db
  | some found =>
    match db.ownedMessage book found key with
    | none => db
    | some m => db.projectReport book m key

/-! ## Missing reports -/

/-- The chunk of the message was submitted longer ago than the time-out. -/
def Db.isOverdue (now timeout : Time) (m : Message) : Bool :=
  m.chunkId.any (fun chunk => (db.chunks.find? chunk).any (fun c =>
    c.submittedAt.any (fun t => decide (t + timeout < now))))

def byMessageId (m m' : Message) : Prop := m.id ≤ m'.id

instance : DecidableRel byMessageId :=
  fun m m' => inferInstanceAs (Decidable (m.id ≤ m'.id))

/-- The messages `_expire_one_due_batch` picks and locks. -/
def Db.overdueMessages (now timeout limit : ℕ) : List MessageId :=
  (db.messages.select (fun m => decide (m.batchId = batch ∧ m.status = .sent) &&
    (m.noReportEvidence || db.trustedReportEvidence m) && db.isOverdue now timeout m)
    byMessageId limit).rows.map Message.id

def expireUpdate (ids : List MessageId) (now timeout : Time) : Update Message.id :=
  statusUpdate (fun m => decide (m.id ∈ ids ∧ m.batchId = batch ∧ m.status = .sent) &&
    m.noReportEvidence && db.isOverdue now timeout m) .unknown

/-- `_expire_one_due_batch`, once it holds the lock of the batch. -/
def Db.expireBatch (now timeout limit : ℕ) : Db :=
  let ids := db.overdueMessages batch now timeout limit
  let repaired := db.repairReportProjection book batch ids
  let u := expireUpdate repaired batch ids now timeout
  let changed := repaired.messages.rowcount u
  if changed = 0 then repaired
  else
    Db.refreshBatch { repaired with messages := repaired.messages.apply u } batch
      (some (unknownDelta changed))

end

end SmsPlatform.Report
