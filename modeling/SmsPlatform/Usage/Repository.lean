import SmsPlatform.Support.Transaction
import SmsPlatform.Usage.Projection

/-!
# Reservations, their quota and their release

The transactions on reservations: start, quota, link to a batch and commit, uncertain marking,
release, and the partial release of an excluded recipient.  Every transaction holds the locks of
the rows it decides on until it commits, so that it is modelled as one step on the database; a
failed one leaves nothing behind.
-/

namespace SmsPlatform.Usage

open Support Table

variable (db : Db) (id : ℕ)

/-- The tables, the ids that are not in use yet, and, as history, how many recipients have become
one; nothing reads the latter. -/
structure Db where
  reservations : Table Reservation.id
  quotaEntries : Table QuotaEntry.primaryKey
  frequencyEntries : Table FrequencyEntry.primaryKey
  subjects : Table FrequencySubject.id
  aliases : Table FrequencyAlias.phoneHmac
  batches : Table Batch.id
  projections : Projections
  nextReservationId : ℕ
  nextSubjectId : ℕ
  nextBatchId : ℕ
  origins : ℕ → ℕ

namespace Db

/-- The state of a reservation is one in which its amounts count. -/
def isLive : Bool := (db.reservations.find? id).any (fun r => r.state.isLive)

/-- The state is one of `_ACTIVE_RESERVATION_STATES`. -/
def isActive : Bool :=
  (db.reservations.find? id).any (fun r => r.state.isActive)

/-- `EXISTS(SELECT 1 FROM sms_batch WHERE usage_reservation_id=...)`. -/
def isLinked : Bool :=
  db.batches.rows.any (fun b => decide (b.usageReservationId = some id))

end Db

/-! ## Starting a reservation -/

structure ReservationRequest where
  requestKey : String
  appId : ℕ
  subjectKind : SubjectKind
  dept : String
  category : Category

namespace ReservationRequest

def isValid (request : ReservationRequest) : Bool :=
  !request.dept.isEmpty &&
    !(decide (request.subjectKind = .systemEffect) && decide (request.appId < 1))

def newRow (request : ReservationRequest) (id usageDate : ℕ) : Reservation where
  id := id
  requestKey := request.requestKey
  appId := request.appId
  subjectKind := request.subjectKind
  dept := request.dept
  category := request.category
  usageDate := usageDate
  state := .reserved
  quotaCost := 0
  appLimit := 0
  deptLimit := 0
  releaseEvent := none

/-- The persisted contract is the expected one. -/
def matchesRow (request : ReservationRequest) (usageDate : ℕ) (r : Reservation) : Bool :=
  decide (r.appId = request.appId ∧ r.subjectKind = request.subjectKind ∧ r.dept = request.dept ∧
    r.category = request.category ∧ r.usageDate = usageDate)

end ReservationRequest

/-- The insertion of `start_reservation`, which finds the reservation that already has the
request key if there is one.  What the caller does about one that is uncertain, to release it
and to start again, are transactions of their own. -/
def startReservation (request : ReservationRequest) (now : ℕ) : Except UsageError (Db × ℕ) := do
  require (request.isValid = true) .invalidReservation
  match db.reservations.rows.find? (fun r =>
      decide (r.requestKey = request.requestKey) && r.state.isLive) with
  | some r =>
    require (request.matchesRow (shanghaiDay now) r = true) .contractChanged
    pure (db, r.id)
  | none =>
    let id := db.nextReservationId
    let reservations ← orFail .integrityError
      (db.reservations.insertAll? [request.newRow id (shanghaiDay now)])
    pure ({ db with reservations := reservations, nextReservationId := id + 1 }, id)

/-! ## Quota -/

structure QuotaRequest where
  appId : ℕ
  dept : String
  category : Category
  date : ℕ
  cost : ℕ
  appLimit : ℕ
  deptLimit : ℕ
  expiresAt : ℕ

namespace QuotaRequest

variable (q : QuotaRequest)

def appKey : QuotaKey := ⟨.app q.appId, q.date⟩

def deptKey : QuotaKey := ⟨.dept q.dept, q.date⟩

def volumeKey : QuotaKey := ⟨.volume q.appId q.category, q.date⟩

/-- The dimensions of `specs`. -/
def keys : List QuotaKey := [q.appKey, q.deptKey, q.volumeKey]

def entries (reservationId : ℕ) : List QuotaEntry :=
  q.keys.map fun key => ⟨reservationId, key, q.cost, q.expiresAt⟩

def changes : List ProjectionChange :=
  q.keys.map fun key =>
    { key := .quota key
      windowKey := q.date
      delta := q.cost
      expiresAt := q.expiresAt
      resetOnWindowChange := true }

/-- The reservation has been started for the same purpose. -/
def matchesRow (r : Reservation) : Bool :=
  decide (r.appId = q.appId ∧ r.dept = q.dept ∧ r.category = q.category ∧ r.usageDate = q.date)

/-- The quota has been reserved before with the same numbers. -/
def isReplayOf (r : Reservation) : Bool :=
  decide (r.quotaCost = q.cost ∧ r.appLimit = q.appLimit ∧ r.deptLimit = q.deptLimit)

end QuotaRequest

/-- The value of a row, or zero without one. -/
def Projections.valueAt (ps : Projections) (k : DimensionKey) : ℕ :=
  ((ps.counter k).map Prod.snd).getD 0

/-- A limit of zero is none. -/
def exceeds (limit value cost : ℕ) : Bool := decide (0 < limit ∧ limit < value + cost)

/-- `UPDATE usage_reservation SET quota_cost=...`. -/
def recordQuota (q : QuotaRequest) : Update Reservation.id where
  applies r := decide (r.id = id)
  change r := { r with quotaCost := q.cost, appLimit := q.appLimit, deptLimit := q.deptLimit }
  key_change _ := rfl

/-- The branch of `reserve_quota` for a reservation without quota entries. -/
def reserveNewQuota (q : QuotaRequest) : Except UsageError Db := do
  require (exceeds q.appLimit (db.projections.valueAt (.quota q.appKey)) q.cost = false ∧
    exceeds q.deptLimit (db.projections.valueAt (.quota q.deptKey)) q.cost = false) .quotaExceeded
  let quotaEntries ← orFail .integrityError (db.quotaEntries.insertAll? (q.entries id))
  let projections ← db.projections.change q.changes
  pure { db with
    reservations := db.reservations.apply (recordQuota id q)
    quotaEntries := quotaEntries
    projections := projections }

/-- `reserve_quota`. -/
def reserveQuota (q : QuotaRequest) : Except UsageError Db := do
  let r ← orFail .reservationNotWritable (db.reservations.find? id)
  require (r.state = .reserved) .reservationNotWritable
  require (q.matchesRow r = true) .contractChanged
  if (db.quotaEntries.rows.countP fun e => decide (e.reservationId = id)) = 0 then
    reserveNewQuota db id q
  else do
    require ((db.quotaEntries.rows.countP fun e => decide (e.reservationId = id)) = 3 ∧
      q.isReplayOf r = true) .contractChanged
    pure db

/-! ## Link and commit -/

/-- The update of `commit_usage_reservation`. -/
def commitReservation (id batchId : ℕ) : Update Reservation.id where
  applies r := decide (r.id = id ∧ r.state = .reserved) &&
    db.batches.rows.any (fun b => decide (b.id = batchId ∧ b.usageReservationId = some r.id))
  change r := { r with state := .committed }
  key_change _ := rfl

/-- `commit_usage_reservation`. -/
def commitUsageReservation (id batchId : ℕ) : Except UsageError Db :=
  if db.reservations.rowcount (commitReservation db id batchId) = 1 then
    .ok { db with reservations := db.reservations.apply (commitReservation db id batchId) }
  else do
    let r ← orFail .commitConflict (db.reservations.find? id)
    require (r.state = .committed ∧
      db.batches.rows.any (fun b =>
        decide (b.id = batchId ∧ b.usageReservationId = some id)) = true)
      .commitConflict
    pure db

/-- The transaction that inserts a batch and commits the reservation it is linked to. -/
def insertBatch (reservationId : Option ℕ) : Except UsageError Db := do
  let batchId := db.nextBatchId
  let batches ← orFail .integrityError (db.batches.insertAll? [⟨batchId, reservationId⟩])
  match reservationId with
  | none => pure { db with batches := batches, nextBatchId := batchId + 1 }
  | some id =>
    require ((db.reservations.find? id).isSome = true ∧ db.isLinked id = false) .integrityError
    commitUsageReservation { db with batches := batches, nextBatchId := batchId + 1 } id batchId

/-- `_mark_uncertain`. -/
def uncertainMark : Update Reservation.id where
  applies r := decide (r.id = id ∧ r.state = .reserved)
  change r := { r with state := .uncertain }
  key_change _ := rfl

def markUncertain : Db :=
  { db with reservations := db.reservations.apply (uncertainMark id) }

/-! ## Release -/

/-- An amount of a reservation, of either kind of entry. -/
structure Fact where
  reservationId : ℕ
  key : DimensionKey
  windowKey : ℕ
  amount : ℕ
  expiresAt : ℕ

namespace Fact

def account (f : Fact) : DimensionKey × ℕ := (f.key, f.windowKey)

def posting (f : Fact) : Posting ℕ (DimensionKey × ℕ) := ⟨f.reservationId, f.account, f.amount⟩

end Fact

/-- The window of a quota is its day. -/
def QuotaEntry.fact (e : QuotaEntry) : Fact where
  reservationId := e.reservationId
  key := .quota e.key
  windowKey := e.key.date
  amount := e.amount
  expiresAt := e.expiresAt

def FrequencyEntry.fact (e : FrequencyEntry) : Fact where
  reservationId := e.reservationId
  key := .frequency e.key
  windowKey := e.windowKey
  amount := e.amount
  expiresAt := e.expiresAt

namespace Db

/-- The union of quota and frequency entries. -/
def facts : List Fact :=
  db.quotaEntries.rows.map QuotaEntry.fact ++ db.frequencyEntries.rows.map FrequencyEntry.fact

def postings : List (Posting ℕ (DimensionKey × ℕ)) := db.facts.map Fact.posting

def factsOf : List Fact :=
  db.facts.filter (fun f => decide (f.reservationId = id))

/-- `sum(amount)` of a reservation for a key and a window. -/
def amountOf (account : DimensionKey × ℕ) : ℕ :=
  balance (fun i => decide (i = id)) account db.postings

/-- `max(expires_at)` of a reservation for a key and a window. -/
def expiryOf (account : DimensionKey × ℕ) : ℕ :=
  ((db.factsOf id).filter (fun f => decide (f.account = account))).foldl
    (fun m f => max m f.expiresAt) 0

/-- The change that takes the amount of a reservation out of a row. -/
def releaseChange (account : DimensionKey × ℕ) : ProjectionChange where
  key := account.1
  windowKey := account.2
  delta := -(db.amountOf id account : ℤ)
  expiresAt := db.expiryOf id account
  resetOnWindowChange := false

/-- `_collect_release_projection_changes`. -/
def collectReleaseProjectionChanges : List ProjectionChange :=
  (((db.factsOf id).map Fact.account).dedup.filter
    (fun account => decide (0 < db.amountOf id account))).map (db.releaseChange id)

end Db

/-- The change is one of a frequency that has expired. -/
def ProjectionChange.isExpiredFrequency (c : ProjectionChange) (observed : ℕ) : Bool :=
  match c.key with
  | .quota _ => false
  | .frequency _ => decide (c.expiresAt ≤ observed)

def Projections.has (ps : Projections) (k : DimensionKey) : Bool := (ps.rows.find? k).isSome

/-- `_apply_release_projection_changes`, with the changes that have been applied. -/
def applyReleaseProjectionChanges (id observed : ℕ) :
    Except UsageError (Projections × List ProjectionChange) := do
  -- `_release_change_should_apply`
  require (∀ c ∈ db.collectReleaseProjectionChanges id,
    db.projections.has c.key = true ∨ c.isExpiredFrequency observed = true) .projectionConflict
  let applicable :=
    (db.collectReleaseProjectionChanges id).filter (fun c => db.projections.has c.key)
  let projections ← db.projections.change applicable
  pure (projections, applicable)

/-- The update of `_request_release`. -/
def releaseRequest (event : ReleaseEvent) : Update Reservation.id where
  applies r := decide (r.id = id)
  change r := { r with state := .releaseRequested, releaseEvent := some event }
  key_change _ := rfl

abbrev Db.release (event : ReleaseEvent) (projections : Projections) : Db :=
  { db with
    reservations := db.reservations.apply (releaseRequest id event)
    projections := projections }

/-- `_request_release`, with the changes it has applied if it has changed the reservation. -/
def requestRelease (event : ReleaseEvent) (observed : ℕ) :
    Except UsageError (Db × Option (List ProjectionChange)) := do
  let r ← orFail .reservationUnavailable (db.reservations.find? id)
  if r.state.isLive then do
    require (r.releaseEvent = none ∨ r.releaseEvent = some event) .releaseEventChanged
    require (∀ s ∈ db.reservations.rows, s.id ≠ id → s.releaseEvent ≠ some event) .integrityError
    let (projections, applied) ← applyReleaseProjectionChanges db id observed
    pure (db.release id event projections, some applied)
  else if r.state = .releaseRequested then do
    require (r.releaseEvent = some event) .releaseEventChanged
    pure (db, none)
  else do
    require (r.releaseEvent = none ∨ r.releaseEvent = some event) .releaseEventChanged
    pure (db, none)

def LinkedReason.event (batchId reservationId : ℕ) : LinkedReason → ReleaseEvent
  | .cancelled => .cancelled batchId
  | .approvalRejected approvalId => .approvalRejected approvalId
  | .approvalExpired approvalId => .approvalExpired approvalId
  | .uncertainUnused => .uncertainUnused reservationId

/-- `request_usage_release_for_batch`. -/
def requestUsageReleaseForBatch (batchId : ℕ) (reason : LinkedReason) (observed : ℕ) :
    Except UsageError (Db × Option (List ProjectionChange)) :=
  match (db.batches.find? batchId).bind Batch.usageReservationId with
  | none => .ok (db, none)
  | some id => requestRelease db id (reason.event batchId id) observed

/-- `request_unlinked_release`. -/
def requestUnlinkedRelease (reason : UnlinkedReason) (observed : ℕ) :
    Except UsageError (Db × Option (List ProjectionChange)) := do
  require ((db.reservations.find? id).isSome = true) .reservationUnavailable
  if db.isLinked id then pure (db, none)
  else requestRelease db id (.unlinked id reason) observed

/-- The update of `apply_release`. -/
def releaseMark : Update Reservation.id where
  applies r := decide (r.id = id ∧ r.state = .releaseRequested)
  change r := { r with state := .released }
  key_change _ := rfl

/-- The last transaction of `apply_release`. -/
def finishRelease : Except UsageError Db :=
  if db.reservations.rowcount (releaseMark id) = 0 then do
    let r ← orFail .releaseStateConflict (db.reservations.find? id)
    require (r.state = .released) .releaseStateConflict
    pure db
  else .ok { db with reservations := db.reservations.apply (releaseMark id) }

/-! ## Exclusion of one recipient -/

/-- `_RELEASABLE`. -/
def ReservationState.isReleasable : ReservationState → Bool
  | .reserved | .committed => true
  | .releaseRequested | .released | .uncertain => false

def QuotaEntry.released (segments : ℕ) (e : QuotaEntry) : ℕ := min segments e.amount

/-- `UPDATE usage_quota_entry SET amount=amount-:applied`. -/
def quotaReduction (id segments : ℕ) : Update QuotaEntry.primaryKey where
  applies e := decide (e.reservationId = id)
  change e := { e with amount := e.amount - e.released segments }
  key_change _ := rfl

/-- The subject of a frequency entry is known by the alias. -/
def Db.hasAlias (subjectId phoneHmac : ℕ) : Bool :=
  db.aliases.rows.any (fun a => decide (a.subjectId = subjectId ∧ a.phoneHmac = phoneHmac))

/-- `UPDATE usage_frequency_entry SET counted=false`. -/
def frequencyExclusion (id phoneHmac : ℕ) : Update FrequencyEntry.primaryKey where
  applies e := decide (e.reservationId = id) && e.counted && db.hasAlias e.subjectId phoneHmac
  change e := { e with counted := false }
  key_change _ := rfl

/-- The changes of `_release_one` before those of one key are put together. -/
def exclusionChanges (id phoneHmac segments : ℕ) : List ProjectionChange :=
  (db.quotaEntries.rows.filter (fun e =>
      decide (e.reservationId = id) && decide (0 < e.released segments))).map (fun e =>
    { key := .quota e.key
      windowKey := e.key.date
      delta := -(e.released segments : ℤ)
      expiresAt := e.expiresAt
      resetOnWindowChange := false }) ++
  (db.frequencyEntries.rows.filter (frequencyExclusion db id phoneHmac).applies).map (fun e =>
    { key := .frequency e.key
      windowKey := e.windowKey
      delta := -1
      expiresAt := e.expiresAt
      resetOnWindowChange := false })

/-- One round of the loop of `_unique_changes`. -/
def addChange (merged : List ProjectionChange) (c : ProjectionChange) : List ProjectionChange :=
  if merged.any (fun m => decide (m.key = c.key)) then
    merged.map (fun m => if m.key = c.key then
      { m with delta := m.delta + c.delta, resetOnWindowChange := false } else m)
  else merged ++ [c]

/-- `_unique_changes`. -/
def uniqueChanges (cs : List ProjectionChange) : List ProjectionChange := cs.foldl addChange []

abbrev Db.exclude (id phoneHmac segments : ℕ) (projections : Projections) : Db :=
  { db with
    quotaEntries := db.quotaEntries.apply (quotaReduction id segments)
    frequencyEntries := db.frequencyEntries.apply (frequencyExclusion db id phoneHmac)
    projections := projections }

/-- `_release_one`, for the reservation that a batch is linked to.  The dispatcher calls it
only where a blacklist check is required, so never for a verification message. -/
def releaseOne (reservationId : Option ℕ) (phoneHmac segments : ℕ) : Except UsageError Db :=
  match reservationId with
  | none => .ok db
  | some id =>
    if segments < 1 then .ok db
    else if ((db.reservations.find? id).any fun r => r.state.isReleasable) = false then .ok db
    else do
      let projections ←
        db.projections.change (uniqueChanges (exclusionChanges db id phoneHmac segments))
      pure (db.exclude id phoneHmac segments projections)

end SmsPlatform.Usage
