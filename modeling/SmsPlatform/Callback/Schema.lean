import SmsPlatform.Support.Table
import SmsPlatform.Support.Text

/-!
# The callback tables

`callback_task` holds the deliveries that an application is owed, `callback_report_event` the
report events that have been taken up, and `callback_authority_lease` the deliveries that are
under way.  Every statement on the tasks is an update that is guarded by the state of the row;
the statements of a worker name the lease they were given.

A task keeps the callback address and the secret that the application had when the task was
created.  `authorizes` is the condition, common to several statements, that the application
still has them.
-/

namespace SmsPlatform.Callback

open Support

abbrev AppId := ℕ
abbrev BatchId := ℕ
abbrev TaskId := ℕ
abbrev LeaseId := ℕ
abbrev EventKey := ℕ
/-- Seconds since the beginning of some minute. -/
abbrev Time := ℕ

/-! ## Rows -/

/-- The columns of `app` that concern callbacks. -/
structure App where
  id : AppId
  /-- `status=1`. -/
  isActive : Bool
  callbackUrl : Option Text
  callbackSecretEnc : Option Bytes
  callbackReportEnabled : Bool
  deriving DecidableEq

inductive CallbackEvent
  | batchFinished
  | messageReport
  deriving DecidableEq

inductive TaskStatus
  | pending
  | retrying
  | done
  | dead
  deriving DecidableEq

/-- A row of `callback_task`. -/
structure CallbackTask where
  id : TaskId
  appId : AppId
  event : CallbackEvent
  batchId : BatchId
  messageIds : List ℕ
  messageTimes : List Time
  eventKeys : List EventKey
  url : Text
  callbackSecretEnc : Bytes
  status : TaskStatus
  retryCount : ℕ
  nextRetryAt : Option Time
  leaseId : Option LeaseId
  leaseExpiresAt : Option Time
  takeoverCount : ℕ
  lastHttpCode : Option ℕ
  lastError : Option String
  createdAt : Time
  finishedAt : Option Time
  deriving DecidableEq

/-- A row of `callback_report_event`. -/
structure ReportEvent where
  key : EventKey
  batchId : BatchId
  messageId : ℕ
  messageCreatedAt : Time
  messageStatus : Text
  reportDesc : Text
  reportTime : Time
  deriving DecidableEq

/-- A row of `callback_authority_lease`; its primary key is the application. -/
structure AuthorityLease where
  appId : AppId
  taskId : TaskId
  leaseId : LeaseId
  expiresAt : Time
  deriving DecidableEq

abbrev TaskTable := Table CallbackTask.id
abbrev TaskUpdate := Table.Update CallbackTask.id

/-! ## Conditions -/

variable (t : CallbackTask)

/-- The application is active, still has the address and the secret of the task, and wants
callbacks of its kind. -/
def App.authorizes (a : App) (t : CallbackTask) : Bool :=
  a.isActive && decide (a.callbackUrl = some t.url ∧
    a.callbackSecretEnc = some t.callbackSecretEnc) &&
    (decide (t.event ≠ .messageReport) || a.callbackReportEnabled)

/-- A report callback can be created for the application. -/
def App.acceptsReports (a : App) : Bool :=
  a.isActive && a.callbackUrl.isSome && a.callbackSecretEnc.isSome && a.callbackReportEnabled

/-- `date_trunc('minute', now())`. -/
def startOfMinute (now : Time) : Time := now / 60 * 60

/-- The most references that a task takes. -/
def maxReferences : ℕ := 500

/-- The task takes a further report of the batch. -/
def CallbackTask.isOpen (batchId : BatchId) (now : Time) : Bool :=
  decide (t.event = .messageReport ∧ t.batchId = batchId ∧ t.status = .pending ∧
    t.retryCount = 0 ∧ startOfMinute now ≤ t.createdAt ∧ t.messageIds.length < maxReferences)

/-- The rows that `claim` finds. -/
def CallbackTask.isDue (now : Time) : Bool :=
  decide (t.status = .pending) || (decide (t.status = .retrying ∧ t.leaseId = none) &&
      t.nextRetryAt.any fun at_ => decide (at_ ≤ now)) ||
    (decide (t.status = .retrying) && t.leaseId.isSome &&
      t.leaseExpiresAt.any fun expiry => decide (expiry ≤ now))

/-- The task is held under this lease, which has not run out. -/
def CallbackTask.heldUnder (leaseId : LeaseId) (now : Time) : Bool :=
  decide (t.status = .retrying ∧ t.leaseId = some leaseId) &&
    t.leaseExpiresAt.any fun expiry => decide (now < expiry)

/-! ## Creation -/

/-- The columns that a new task gets by default. -/
def newTask (id : TaskId) (appId : AppId) (event : CallbackEvent) (batchId : BatchId)
    (url : Text) (secret : Bytes) (now : Time) : CallbackTask where
  id := id
  appId := appId
  event := event
  batchId := batchId
  messageIds := []
  messageTimes := []
  eventKeys := []
  url := url
  callbackSecretEnc := secret
  status := .pending
  retryCount := 0
  nextRetryAt := none
  leaseId := none
  leaseExpiresAt := none
  takeoverCount := 0
  lastHttpCode := none
  lastError := none
  createdAt := now
  finishedAt := none

/-- A task with one further reference. -/
def CallbackTask.append (e : ReportEvent) : CallbackTask :=
  { t with
    messageIds := t.messageIds ++ [e.messageId]
    messageTimes := t.messageTimes ++ [e.messageCreatedAt]
    eventKeys := t.eventKeys ++ [e.key] }

def appendUpdate (taskId : TaskId) (e : ReportEvent) : TaskUpdate where
  applies t := decide (t.id = taskId)
  change t := t.append e
  key_change _ := rfl

/-- The candidate of the newest id: `ORDER BY id DESC LIMIT 1`. -/
def newest : List CallbackTask → Option CallbackTask
  | [] => none
  | t :: ts =>
    match newest ts with
    | none => some t
    | some u => if u.id ≤ t.id then some t else some u

/-- The task to which `enqueue_message_report` appends. -/
def openTask (tasks : TaskTable) (apps : Table App.id) (batchId : BatchId) (now : Time) :
    Option CallbackTask :=
  newest (tasks.rows.filter fun t => t.isOpen batchId now &&
    (apps.find? t.appId).any fun a => a.authorizes t)

/-- The second half of `enqueue_message_report`, for an event that is new. -/
def placeReport (tasks : TaskTable) (apps : Table App.id) (appId : AppId) (id : TaskId)
    (e : ReportEvent) (now : Time) : Option TaskTable :=
  match openTask tasks apps e.batchId now with
  | some t => some (tasks.apply (appendUpdate t.id e))
  | none =>
    match apps.find? appId with
    | some ⟨_, true, some url, some secret, true⟩ =>
      if h : ∀ x ∈ tasks.rows, x.id ≠ id then
        some (tasks.insertNew
          ((newTask id appId .messageReport e.batchId url secret now).append e) h)
      else none
    | _ => some tasks

/-! ## Leases -/

variable (taskId : TaskId) (leaseId : LeaseId)

/-- The statement of `claim`. -/
def claimUpdate (leaseSeconds now : Time) : TaskUpdate where
  applies t := decide (t.id = taskId) && t.isDue now
  change t := { t with
      status := .retrying
      nextRetryAt := none
      leaseId := some leaseId
      leaseExpiresAt := some (now + leaseSeconds)
      takeoverCount := t.takeoverCount + if t.leaseId.isSome then 1 else 0 }
  key_change _ := rfl

/-- The first statement of `heartbeat`. -/
def heartbeatUpdate (leaseSeconds now : Time) : TaskUpdate where
  applies t := decide (t.id = taskId) && t.heldUnder leaseId now
  change t := { t with leaseExpiresAt := some (now + leaseSeconds) }
  key_change _ := rfl

/-! ## Settlement -/

/-- What a settlement writes. -/
structure Settlement where
  status : TaskStatus
  /-- `retry_count=retry_count+1`. -/
  retried : Bool
  nextRetryAt : Option Time
  lastHttpCode : Option ℕ
  lastError : Option String
  /-- `finished_at=now()`. -/
  finished : Bool

/-- The common form of the settling statements: `retryCount` is the count that the row must
have, if that is checked. -/
def settleUpdate (retryCount : Option ℕ) (now : Time) (o : Settlement) : TaskUpdate where
  applies t := decide (t.id = taskId) && t.heldUnder leaseId now &&
    retryCount.all fun n => decide (t.retryCount = n)
  change t := { t with
      status := o.status
      retryCount := t.retryCount + if o.retried then 1 else 0
      nextRetryAt := o.nextRetryAt
      leaseId := none
      leaseExpiresAt := none
      lastHttpCode := o.lastHttpCode
      lastError := o.lastError
      finishedAt := if o.finished then some now else t.finishedAt }
  key_change _ := rfl

/-- `SAFE_ERROR`. -/
def isSafeError (error : String) : Bool :=
  match error.toList with
  | [] => false
  | c :: rest => c.isAlpha && decide (rest.length ≤ 63) &&
      rest.all fun d => d.isAlphanum || decide (d = '_')

/-- `_safe_error`. -/
def safeError (error : Option String) : Option String :=
  error.map fun e => if isSafeError e then e else "CallbackError"

def authorityBusyError : String := "CallbackAuthorityBusy"

def configRevokedError : String := "CallbackConfigRevoked"

/-- `mark_done`. -/
def markDone (httpCode : ℕ) (now : Time) : TaskUpdate :=
  settleUpdate taskId leaseId none now ⟨.done, false, none, some httpCode, none, true⟩

/-- `mark_authority_busy`. -/
def markAuthorityBusy (retryCount : ℕ) (delay now : Time) : TaskUpdate :=
  settleUpdate taskId leaseId (some retryCount) now
    ⟨.retrying, false, some (now + delay), none, some authorityBusyError, false⟩

/-- `mark_retry`. -/
def markRetry (retryCount : ℕ) (delay : Time) (httpCode : Option ℕ) (error : Option String)
    (now : Time) : TaskUpdate :=
  settleUpdate taskId leaseId (some retryCount) now
    ⟨.retrying, true, some (now + delay), httpCode, safeError error, false⟩

/-- `mark_dead`. -/
def markDead (retryCount : ℕ) (httpCode : Option ℕ) (error : Option String) (now : Time) :
    TaskUpdate :=
  settleUpdate taskId leaseId (some retryCount) now
    ⟨.dead, false, none, httpCode, safeError error, true⟩

/-! ## Manual retry and revocation -/

/-- The statement of `manual_retry`; `legacy` says that the task has no trusted snapshot. -/
def manualRetryUpdate (a : App) (legacy : Bool) : TaskUpdate where
  applies t := decide (t.id = taskId ∧ t.status = .dead ∧ t.lastError ≠ some configRevokedError ∧
    a.id = t.appId) && a.authorizes t && !legacy
  change t := { t with
      status := .pending
      retryCount := 0
      nextRetryAt := none
      lastHttpCode := none
      lastError := none
      leaseId := none
      leaseExpiresAt := none
      finishedAt := none }
  key_change _ := rfl

/-- The changes of an application that revoke a task. -/
def App.revokes (old new : App) (event : CallbackEvent) : Bool :=
  decide (old.callbackUrl ≠ new.callbackUrl ∨ old.callbackSecretEnc ≠ new.callbackSecretEnc) ||
    (old.isActive && !new.isActive) ||
    (old.callbackReportEnabled && !new.callbackReportEnabled && decide (event = .messageReport))

/-- The trigger `revoke_callback_tasks_on_app_change`.  It does not see what a transaction that
is still running has made of the tasks `unseen`. -/
def revokeUpdate (old new : App) (unseen : List TaskId) (now : Time) : TaskUpdate where
  applies t := decide (t.appId = new.id ∧ (t.status = .pending ∨ t.status = .retrying)) &&
    old.revokes new t.event && !unseen.contains t.id
  change t := { t with
      status := .dead
      retryCount := 0
      nextRetryAt := none
      leaseId := none
      leaseExpiresAt := none
      lastHttpCode := none
      lastError := some configRevokedError
      finishedAt := some now }
  key_change _ := rfl

end SmsPlatform.Callback
