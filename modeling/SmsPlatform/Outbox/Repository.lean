import SmsPlatform.Support.Table

/-!
# The transactional outbox repository

Events are rows of `outbox_event`.  Every statement of `SqlOutboxRepository`
is an update of that table guarded by the row's state and, for the lease
holders' statements, by the lease id.  The definitions below keep the
statements one by one; the calls built from them return `none` where the
source raises or reports that nothing was changed.

Clock readings and fresh lease ids are arguments: `now()` and
`gen_random_uuid()` are not determined by the table.
-/

namespace SmsPlatform.Outbox

open Support

abbrev EventId := ℕ
abbrev LeaseId := ℕ
/-- Seconds since an arbitrary origin. -/
abbrev Time := ℕ

/-- The `state` column of `outbox_event`. -/
inductive EventState
  | pending
  | leased
  | published
  | processing
  | completed
  | dead
  deriving DecidableEq

/-- The states in which an event is owned through its lease columns. -/
def EventState.holdsLease : EventState → Bool
  | .leased | .published | .processing => true
  | .pending | .completed | .dead => false

/-- An element of the `args` array: a string or an integer reference. -/
inductive Arg
  | str (value : String)
  | int (value : ℤ)
  deriving DecidableEq

/-- The contract under which an event is registered. -/
structure OutboxEventSpec where
  eventType : String
  aggregateType : String
  aggregateId : String
  taskName : String
  queue : String
  args : List Arg
  dedupKey : String
  maxAttempts : ℕ := 12
  deriving DecidableEq

/-- A row of `outbox_event`. -/
structure OutboxEvent where
  id : EventId
  spec : OutboxEventSpec
  state : EventState
  attempts : ℕ
  failureCount : ℕ
  nextAttemptAt : Time
  leaseId : Option LeaseId
  leaseExpiresAt : Option Time
  lastError : Option String
  createdAt : Time
  deriving DecidableEq

abbrev EventTable := Table OutboxEvent.id
abbrev EventUpdate := Table.Update OutboxEvent.id

variable (t : EventTable) (eventId : EventId) (leaseId : LeaseId) (now : Time)

/-! ## Registration -/

/-- The row that `enqueue_outbox` inserts. -/
def newEvent (id : EventId) (spec : OutboxEventSpec) (now delay : Time) :
    OutboxEvent where
  id := id
  spec := spec
  state := .pending
  attempts := 0
  failureCount := 0
  nextAttemptAt := now + delay
  leaseId := none
  leaseExpiresAt := none
  lastError := none
  createdAt := now

/-- `enqueue_outbox`: insert the event, or find the one registered under the
same deduplication key and require an unchanged contract.  The table's checks
on the primary key and on `max_attempts` abort the transaction. -/
def enqueueOutbox (id : EventId) (spec : OutboxEventSpec) (now delay : Time) :
    Option (EventTable × EventId) :=
  if 604800 < delay ∨ spec.maxAttempts < 1 ∨ 100 < spec.maxAttempts then none
  else
    match t.rows.find? (fun r => decide (r.spec.dedupKey = spec.dedupKey)) with
    | some r => if r.spec = spec then some (t, r.id) else none
    | none =>
      if h : ∀ x ∈ t.rows, x.id ≠ id then
        some (t.insertNew (newEvent id spec now delay) h, id)
      else none

/-- The second statement of a re-registration (`_enqueue_chunk_ready` and the
`batch.ready` branch of the recovery pass): a settled event becomes due again
with a fresh budget. -/
def reopenSettled (dedupKey eventType : String) (now : Time) : EventUpdate where
  applies r := decide (r.spec.dedupKey = dedupKey ∧ r.spec.eventType = eventType ∧
    (r.state = .completed ∨ r.state = .dead))
  change r := { r with
      state := .pending
      nextAttemptAt := now
      attempts := 0
      failureCount := 0
      leaseId := none
      leaseExpiresAt := none
      lastError := none }
  key_change _ := rfl

/-- The statement of `_reserve_adoption` that closes the pending automatic
binding of a sign which is being adopted. -/
def closePendingBind (aggregateId : String) : EventUpdate where
  applies r := decide (r.spec.aggregateType = "sms_sign" ∧
    r.spec.aggregateId = aggregateId ∧ r.spec.eventType = "sign.bind" ∧
    r.state = .pending)
  change r := { r with state := .completed }
  key_change _ := rfl

/-! ## Dispatch leases -/

/-- A lease has run out; a missing expiry does not satisfy the comparison. -/
def expired (r : OutboxEvent) : Bool :=
  r.leaseExpiresAt.any (fun expiry => decide (expiry ≤ now))

/-- The first statement of `lease_due`: bury events without budget. -/
def buryExhausted : EventUpdate where
  applies r := (decide (r.state = .pending) || r.state.holdsLease) &&
    decide (r.spec.maxAttempts ≤ r.attempts) &&
    (decide (r.state = .pending) || r.leaseExpiresAt.isNone || expired now r)
  change r := { r with
      state := .dead
      leaseId := none
      leaseExpiresAt := none
      failureCount := r.failureCount + if r.state = .pending then 0 else 1
      lastError := some (r.lastError.getD "AttemptsExhausted") }
  key_change _ := rfl

/-- The predicate of the `due` query of `lease_due`. -/
def isDue (r : OutboxEvent) : Bool :=
  decide (r.attempts < r.spec.maxAttempts) &&
  ((decide (r.state = .pending) && decide (r.nextAttemptAt ≤ now)) ||
    (r.state.holdsLease && expired now r))

/-- `ORDER BY next_attempt_at, created_at`. -/
def dueOrder (r s : OutboxEvent) : Prop :=
  r.nextAttemptAt < s.nextAttemptAt ∨
    (r.nextAttemptAt = s.nextAttemptAt ∧ r.createdAt ≤ s.createdAt)

instance (r s : OutboxEvent) : Decidable (dueOrder r s) :=
  inferInstanceAs (Decidable (_ ∨ _))

/-- The ids selected by `lease_due`; `locked` are the rows held by concurrent
transactions, which `SKIP LOCKED` passes over. -/
def dueIds (locked : List EventId) (limit : ℕ) (now : Time) : List EventId :=
  (((t.rows.filter (fun r => isDue now r && !locked.contains r.id)).insertionSort
    dueOrder).take limit).map OutboxEvent.id

/-- Seconds until the next infrastructure retry. -/
def retryBackoff (attempts : ℕ) : Time :=
  min 3600 (5 * 2 ^ min attempts 9)

/-- The second statement of `lease_due`.  The rows in `ids` receive distinct
lease ids counted from `fresh`. -/
def grantLeases (ids : List EventId) (fresh : LeaseId) (leaseSeconds now : Time) :
    EventUpdate where
  applies r := ids.contains r.id
  change r := { r with
      state := .leased
      attempts := r.attempts + 1
      failureCount := r.failureCount + if r.state = .pending then 0 else 1
      leaseId := some (fresh + ids.idxOf r.id)
      leaseExpiresAt := some (now + leaseSeconds)
      nextAttemptAt := now + retryBackoff r.attempts }
  key_change _ := rfl

/-- A dispatch lease as handed to the publisher. -/
structure OutboxLease where
  eventId : EventId
  leaseId : LeaseId
  eventType : String
  taskName : String
  queue : String
  args : List Arg
  attempts : ℕ
  deriving DecidableEq

/-- The lease described by a row, if it carries one. -/
def leaseOf (r : OutboxEvent) : Option OutboxLease :=
  r.leaseId.map fun leaseId =>
    { eventId := r.id
      leaseId := leaseId
      eventType := r.spec.eventType
      taskName := r.spec.taskName
      queue := r.spec.queue
      args := r.spec.args
      attempts := r.attempts }

/-- The second half of `lease_due`: select the due rows and lease them. -/
def leaseSelected (locked : List EventId) (limit : ℕ) (leaseSeconds : Time) (fresh : LeaseId)
    (now : Time) : EventTable × List OutboxLease :=
  let ids := dueIds t locked limit now
  let granted := t.apply (grantLeases ids fresh leaseSeconds now)
  (granted, (granted.rows.filter (fun r => ids.contains r.id)).filterMap leaseOf)

/-- `lease_due` runs `buryExhausted` and `leaseSelected` in one transaction;
other transactions may commit between its two statements. -/
def leaseDueAllowed (limit : ℕ) (leaseSeconds : Time) : Bool :=
  decide (1 ≤ limit ∧ limit ≤ 1000 ∧ 5 ≤ leaseSeconds)

/-! ## Publication -/

/-- The row is held in `state` under the lease `leaseId`. -/
def heldBy (state : EventState) (leaseId : LeaseId) (r : OutboxEvent) : Bool :=
  decide (r.id = eventId ∧ r.state = state ∧ r.leaseId = some leaseId)

/-- `lease_expires_at > now()`. -/
def unexpired (r : OutboxEvent) : Bool :=
  r.leaseExpiresAt.any (fun expiry => decide (now < expiry))

/-- The update of `mark_published`. -/
def publishUpdate : EventUpdate where
  applies r := heldBy eventId .leased leaseId r && unexpired now r
  change r := { r with state := .published }
  key_change _ := rfl

/-- Give the event back after a failure: `dead` without budget, else
`pending`. -/
def recordFailure (error : String) (r : OutboxEvent) : OutboxEvent :=
  { r with
    state := if r.spec.maxAttempts ≤ r.attempts then .dead else .pending
    leaseId := none
    leaseExpiresAt := none
    failureCount := r.failureCount + 1
    lastError := some error }

/-- A leading letter and at most 63 further letters, digits, `_` or `.`. -/
def isSafeError (value : String) : Bool :=
  match value.toList with
  | [] => false
  | c :: cs =>
    isAsciiLetter c && decide (cs.length ≤ 63) &&
      cs.all (fun d => isAsciiLetter d || d.isDigit || d == '_' || d == '.')
where
  isAsciiLetter (c : Char) : Bool :=
    (decide ('a' ≤ c) && decide (c ≤ 'z')) || (decide ('A' ≤ c) && decide (c ≤ 'Z'))

/-- `_safe_error`. -/
def safeError (value : String) : String :=
  if isSafeError value then value else "OutboxError"

/-- The update of `mark_publish_failed`. -/
def publishFailedUpdate (errorType : String) (now : Time) : EventUpdate where
  applies r := heldBy eventId .leased leaseId r && unexpired now r
  change := recordFailure (safeError errorType)
  key_change _ := rfl

/-- What a publisher's statement reports. -/
inductive PublishOutcome
  | changed (t : EventTable)
  /-- The consumer has already claimed or completed the event. -/
  | overtaken
  | leaseLost

/-- The common tail of `mark_published` and `mark_publish_failed`. -/
def publishCall (u : EventUpdate) (eventId : EventId) : PublishOutcome :=
  if t.rowcount u = 1 then .changed (t.apply u)
  else
    match t.find? eventId with
    | some r =>
      if r.state = .processing ∨ r.state = .completed then .overtaken
      else .leaseLost
    | none => .leaseLost

/-- `mark_published`. -/
def markPublished : PublishOutcome :=
  publishCall t (publishUpdate eventId leaseId now) eventId

/-- `mark_publish_failed`. -/
def markPublishFailed (errorType : String) (now : Time) : PublishOutcome :=
  publishCall t (publishFailedUpdate eventId leaseId errorType now) eventId

/-! ## Execution leases -/

/-- The update of `claim_execution`. -/
def claimUpdate (executionLease : LeaseId) (leaseSeconds now : Time) : EventUpdate where
  applies r := decide (r.id = eventId ∧ (r.state = .leased ∨ r.state = .published))
  change r := { r with
      state := .processing
      leaseId := some executionLease
      leaseExpiresAt := some (now + leaseSeconds) }
  key_change _ := rfl

/-- An execution lease as handed to the effect. -/
structure OutboxClaim where
  eventId : EventId
  leaseId : LeaseId
  eventType : String
  args : List Arg
  deriving DecidableEq

/-- `claim_execution`; `none` in the second component means that there was
nothing to claim. -/
def claimExecution (executionLease : LeaseId) (leaseSeconds now : Time) :
    Option (EventTable × Option OutboxClaim) :=
  if leaseSeconds < 15 then none
  else
    let u := claimUpdate eventId executionLease leaseSeconds now
    match t.rows.find? u.applies with
    | none => some (t, none)
    | some r =>
      some (t.apply u, some ⟨r.id, executionLease, r.spec.eventType, r.spec.args⟩)

/-- The update of `heartbeat`. -/
def heartbeatUpdate (leaseSeconds now : Time) : EventUpdate where
  applies r := heldBy eventId .processing leaseId r
  change r := { r with leaseExpiresAt := some (now + leaseSeconds) }
  key_change _ := rfl

/-- `heartbeat`: the table and whether the lease was renewed. -/
def heartbeat (leaseSeconds now : Time) : EventTable × Bool :=
  let u := heartbeatUpdate eventId leaseId leaseSeconds now
  (t.apply u, decide (t.rowcount u = 1))

/-- How an executor settles its claim. -/
inductive Settlement
  | complete
  | defer (nextAttemptAt : Time)
  | fail (errorType : String)
  deriving DecidableEq

/-- The updates of `complete`, `defer_execution` and `fail_execution`. -/
def settleUpdate : Settlement → EventUpdate
  | .complete =>
    { applies := heldBy eventId .processing leaseId
      change := fun r =>
        { r with
          state := .completed
          leaseId := none
          leaseExpiresAt := none
          lastError := none }
      key_change := fun _ => rfl }
  | .defer nextAttemptAt =>
    { applies := fun r => heldBy eventId .processing leaseId r &&
        unexpired now r && decide (r.spec.eventType = "chunk.ready")
      change := fun r =>
        { r with
          state := .pending
          attempts := r.attempts - 1
          nextAttemptAt := nextAttemptAt
          lastError := some "MarketWindowDeferred"
          leaseId := none
          leaseExpiresAt := none }
      key_change := fun _ => rfl }
  | .fail errorType =>
    { applies := heldBy eventId .processing leaseId
      change := recordFailure (safeError errorType)
      key_change := fun _ => rfl }

/-- `_lease_update` at the three settling statements; `none` is
`OutboxLeaseLost`. -/
def settle (how : Settlement) : Option EventTable :=
  let u := settleUpdate eventId leaseId now how
  if t.rowcount u = 1 then some (t.apply u) else none

/-! ## Manual retry -/

/-- The update of `retry_dead`. -/
def retryDeadUpdate : EventUpdate where
  applies r := decide (r.id = eventId ∧ r.state = .dead)
  change r := { r with
      state := .pending
      attempts := 0
      nextAttemptAt := now
      leaseId := none
      leaseExpiresAt := none
      lastError := none }
  key_change _ := rfl

/-- `retry_dead`: the table and whether a dead event was reopened. -/
def retryDead : EventTable × Bool :=
  let u := retryDeadUpdate eventId now
  (t.apply u, decide (t.rowcount u = 1))

end SmsPlatform.Outbox
