import SmsPlatform.Callback.Schema
import SmsPlatform.Support.Machine

/-!
# Workers, report processing and configuration changes around the callback tables

Any number of workers deliver callbacks.  A step is one transaction of the repository, one
answer of a remote call, or one half of a configuration change, which holds the lock of the
application while it runs.  A worker that stops for good is one that is never scheduled again.

Every transaction has the time at which it began, which may lie behind the clock.  A lock that
is taken makes a step wait, that is, the step is not possible.

The last fields of `World` are history.  They are read by no transition.
-/

namespace SmsPlatform.Callback

open Support

/-! ## Workers -/

/-- `callback_retry_schedule`, as the runtime policy admits it. -/
structure RetrySchedule where
  delays : List ℕ
  length_eq : delays.length = 5
  bounds : ∀ d ∈ delays, 1 ≤ d ∧ d ≤ 86400
  sorted : delays.Pairwise (· ≤ ·)

structure CallbackClaim where
  taskId : TaskId
  appId : AppId
  retryCount : ℕ
  leaseId : LeaseId
  deriving DecidableEq

structure DeliveryOutcome where
  success : Bool
  httpCode : Option ℕ
  error : Option String
  deriving DecidableEq

/-- The outcome of a delivery that raised an exception of this type. -/
def DeliveryOutcome.failed (error : String) : DeliveryOutcome := ⟨false, none, some error⟩

/-- The outcome of a delivery that was answered with this status. -/
def DeliveryOutcome.answered (status : ℕ) : DeliveryOutcome :=
  ⟨decide (200 ≤ status ∧ status < 300), some status, none⟩

/-- The address and the secret of an application. -/
structure CallbackConfig where
  url : Option Text
  secret : Option Bytes
  deriving DecidableEq

def App.config (a : App) : CallbackConfig := ⟨a.callbackUrl, a.callbackSecretEnc⟩

/-- Where a worker stands.  From `acquired` to `releasing` it has registered an authority, and
`confirmed` also keeps the configuration that was current at the confirmation.  A delivery that
is broken off leaves no outcome. -/
inductive WorkerPc
  | idle
  | claimed (c : CallbackClaim)
  | acquired (c : CallbackClaim)
  | loaded (c : CallbackClaim) (material : CallbackTask)
  | confirmed (c : CallbackClaim) (material : CallbackTask) (current : CallbackConfig)
  | releasing (c : CallbackClaim) (outcome : Option DeliveryOutcome)
  | settling (c : CallbackClaim) (outcome : DeliveryOutcome)
  | done
  deriving DecidableEq

def WorkerPc.claim? : WorkerPc → Option CallbackClaim
  | .idle | .done => none
  | .claimed c | .acquired c | .loaded c _ | .confirmed c _ _ | .releasing c _ | .settling c _ =>
    some c

/-- The worker no longer delivers. -/
def WorkerPc.isAway : WorkerPc → Bool
  | .releasing _ _ | .settling _ _ | .done => true
  | _ => false

/-- Where a worker goes when it has released its authority. -/
def WorkerPc.afterRelease (c : CallbackClaim) : Option DeliveryOutcome → WorkerPc
  | some outcome => .settling c outcome
  | none => .done

/-- The end of `_process_claim`: which statement settles the task. -/
def settlement (schedule : RetrySchedule) (c : CallbackClaim) (outcome : DeliveryOutcome)
    (now : Time) : TaskUpdate :=
  match outcome.success, outcome.httpCode with
  | true, some code => markDone c.taskId c.leaseId code now
  | _, _ =>
    if outcome.error = some authorityBusyError then
      markAuthorityBusy c.taskId c.leaseId c.retryCount 1 now
    else
      match schedule.delays[c.retryCount]? with
      | some delay =>
        markRetry c.taskId c.leaseId c.retryCount delay outcome.httpCode outcome.error now
      | none => markDead c.taskId c.leaseId c.retryCount outcome.httpCode outcome.error now

/-! ## The world -/

/-- A configuration change that has passed `ensure_callback_authority_idle`.  It has deleted a
lease that had run out, which comes back if the change is rolled back. -/
structure ConfigChange where
  appId : AppId
  now : Time
  expired : Option AuthorityLease
  deriving DecidableEq

/-- The leases after the change is rolled back. -/
def ConfigChange.rollback (change : ConfigChange) (leases : Table AuthorityLease.appId) :
    Table AuthorityLease.appId :=
  match change.expired with
  | some r => leases.put r
  | none => leases

/-- A request that was sent. -/
structure Post where
  taskId : TaskId
  leaseId : LeaseId
  url : Text
  secret : Bytes
  /-- The configuration of the application when the delivery was confirmed. -/
  current : CallbackConfig
  deriving DecidableEq

/-- An authority that was registered and not released. -/
structure Grant where
  taskId : TaskId
  appId : AppId
  /-- Until when it was last granted. -/
  expiresAt : Time
  confirmed : Bool
  deriving DecidableEq

structure World where
  clock : Time
  apps : Table App.id
  tasks : TaskTable
  events : Table ReportEvent.key
  authorities : Table AuthorityLease.appId
  changes : Table ConfigChange.appId
  /-- Lease ids below this one have been generated. -/
  nextLease : LeaseId
  worker : ℕ → WorkerPc
  posts : List Post
  /-- The application wanted report callbacks when the event was enqueued. -/
  accepted : EventKey → Bool
  /-- Who claimed the task last, and under which lease. -/
  lastClaim : TaskId → Option (ℕ × LeaseId)
  /-- The task has been retried manually. -/
  restored : TaskId → Bool
  /-- The authority that was registered under the lease. -/
  grants : LeaseId → Option Grant

/-- What the callbacks do not change: the application of a batch, and the tasks without a
trusted snapshot. -/
structure Setting where
  appOf : BatchId → AppId
  legacyUnavailable : TaskId → Bool

def World.start (apps : Table App.id) : World where
  clock := 0
  apps := apps
  tasks := Table.empty CallbackTask.id
  events := Table.empty ReportEvent.key
  authorities := Table.empty AuthorityLease.appId
  changes := Table.empty ConfigChange.appId
  nextLease := 0
  worker := fun _ => .idle
  posts := []
  accepted := fun _ => false
  lastClaim := fun _ => none
  restored := fun _ => false
  grants := fun _ => none

namespace World

variable (w : World) (x : ℕ)

def setWorker (pc : WorkerPc) : World :=
  { w with worker := Function.update w.worker x pc }

/-- `callback-authority:{app_id}` is held by a configuration change. -/
def isLocked (appId : AppId) : Bool := (w.changes.find? appId).isSome

/-- The lease was deleted by a configuration change that is not over. -/
def isPending (c : CallbackClaim) : Bool :=
  w.changes.rows.any fun change => change.expired.any fun r =>
    decide (r.taskId = c.taskId ∧ r.leaseId = c.leaseId)

/-- The task is held under the lease and its application still authorizes it. -/
def mayDeliver (t : CallbackTask) (leaseId : LeaseId) (now : Time) : Bool :=
  t.heldUnder leaseId now && (w.apps.find? t.appId).any fun a => a.authorizes t

/-! ## Creation of tasks -/

/-- The event is recorded, with the tasks that hold it. -/
abbrev record (setting : Setting) (w : World) (tasks : Table CallbackTask.id) (e : ReportEvent)
    (h : ∀ x ∈ w.events.rows, x.key ≠ e.key) : World :=
  { w with
    tasks := tasks
    events := w.events.insertNew e h
    accepted := Function.update w.accepted e.key
      ((w.apps.find? (setting.appOf e.batchId)).any App.acceptsReports) }

/-- `enqueue_message_report`. -/
def enqueueReport (setting : Setting) (w : World) (id : TaskId) (e : ReportEvent) (now : Time) :
    Option World :=
  if h : ∀ x ∈ w.events.rows, x.key ≠ e.key then
    (placeReport w.tasks w.apps (setting.appOf e.batchId) id e now).map fun tasks =>
      w.record setting tasks e h
  else some w

/-- `enqueue_batch_finished`. -/
def enqueueFinished (setting : Setting) (w : World) (id : TaskId) (batchId : BatchId)
    (now : Time) : Option World :=
  match w.apps.find? (setting.appOf batchId) with
  | some ⟨appId, true, some url, some secret, _⟩ =>
    if h : ∀ x ∈ w.tasks.rows, x.id ≠ id then
      some { w with
        tasks := w.tasks.insertNew (newTask id appId .batchFinished batchId url secret now) h }
    else none
  | _ => some w

/-- `manual_retry`. -/
def manualRetry (setting : Setting) (w : World) (taskId : TaskId) : Option World :=
  (w.tasks.find? taskId).bind fun t =>
    (w.apps.find? t.appId).bind fun a =>
      let update := manualRetryUpdate taskId a (setting.legacyUnavailable taskId)
      if update.applies t then
        some { w with
          tasks := w.tasks.apply update
          restored := Function.update w.restored taskId true }
      else none

/-! ## Leases on tasks -/

/-- `claim`. -/
def claim (taskId : TaskId) (leaseSeconds now : Time) : Option World :=
  match w.worker x with
  | .idle =>
    if leaseSeconds < 3 then none
    else
      match (w.tasks.find? taskId).filter fun t => t.isDue now with
      | none => some (w.setWorker x .done)
      | some t =>
        some ({ w with
          tasks := w.tasks.apply (claimUpdate taskId w.nextLease leaseSeconds now)
          nextLease := w.nextLease + 1
          lastClaim := Function.update w.lastClaim taskId (some (x, w.nextLease))
          }.setWorker x (.claimed ⟨taskId, t.appId, t.retryCount, w.nextLease⟩))
  | _ => none

/-- The second statement of `heartbeat`. -/
def extendAuthority (c : CallbackClaim) (until_ : Time) : Table.Update AuthorityLease.appId where
  applies r := decide (r.taskId = c.taskId ∧ r.leaseId = c.leaseId)
  change r := { r with expiresAt := until_ }
  key_change _ := rfl

/-- `heartbeat`, as far as the task is still held. -/
def beat (leaseSeconds now : Time) : Option World :=
  (w.worker x).claim?.bind fun c =>
    let renew := heartbeatUpdate c.taskId c.leaseId leaseSeconds now
    let extend := extendAuthority c (now + leaseSeconds)
    if w.isPending c then none
    else if 0 < w.tasks.rowcount renew then
      some { w with
        tasks := w.tasks.apply renew
        authorities := w.authorities.apply extend
        grants := if 0 < w.authorities.rowcount extend then
            Function.update w.grants c.leaseId
              ((w.grants c.leaseId).map fun g => { g with expiresAt := now + leaseSeconds })
          else w.grants }
    else some w

/-! ## Delivery -/

/-- How long an authority is granted. -/
def authoritySeconds : Time := 30

/-- `acquire_authority`.  If the answer is lost, the delivery fails without knowing of its
authority. -/
def acquire (answered : Bool) (now : Time) : Option World :=
  match w.worker x with
  | .claimed c =>
    match w.tasks.find? c.taskId with
    | none => some (w.setWorker x (.settling c (.failed "LookupError")))
    | some t =>
      if w.isLocked t.appId then none
      else
        let leases := w.authorities.keep fun r =>
          !decide (r.appId = t.appId ∧ r.expiresAt ≤ now)
        if hfree : ∀ r ∈ leases.rows, r.appId ≠ t.appId then
          if w.mayDeliver t c.leaseId now && leases.rows.all (fun r => decide (r.taskId ≠ t.id))
          then
            some ({ w with
              authorities := leases.insertNew
                ⟨t.appId, t.id, c.leaseId, now + authoritySeconds⟩ hfree
              grants := Function.update w.grants c.leaseId
                (some ⟨t.id, t.appId, now + authoritySeconds, false⟩)
              }.setWorker x
                (if answered then .acquired c else .settling c (.failed "OperationalError")))
          else
            some ({ w with authorities := leases }.setWorker x
              (.settling c (.failed "LookupError")))
        else some (w.setWorker x (.settling c (.failed authorityBusyError)))
  | _ => none

/-- `load_material`. -/
def load (now : Time) : Option World :=
  match w.worker x with
  | .acquired c =>
    match (w.tasks.find? c.taskId).filter fun t => w.mayDeliver t c.leaseId now with
    | some t => some (w.setWorker x (.loaded c t))
    | none => some (w.setWorker x (.releasing c (some (.failed "LookupError"))))
  | _ => none

/-- The statement of `confirm_authority`. -/
def confirmUpdate (appId : AppId) (c : CallbackClaim) (now : Time) :
    Table.Update AuthorityLease.appId where
  applies r := decide (r.appId = appId ∧ r.taskId = c.taskId ∧ r.leaseId = c.leaseId ∧
    now < r.expiresAt)
  change r := { r with expiresAt := now + authoritySeconds }
  key_change _ := rfl

/-- `confirm_authority`. -/
def confirm (now : Time) : Option World :=
  match w.worker x with
  | .loaded c material =>
    let refused := some (w.setWorker x (.releasing c (some (.failed "LookupError"))))
    match w.tasks.find? c.taskId with
    | none => refused
    | some t =>
      if w.isLocked t.appId then none
      else
        match w.apps.find? t.appId with
        | none => refused
        | some a =>
          let update := confirmUpdate t.appId c now
          if w.mayDeliver t c.leaseId now && decide (0 < w.authorities.rowcount update) then
            some ({ w with
              authorities := w.authorities.apply update
              grants := Function.update w.grants c.leaseId
                (some ⟨t.id, t.appId, now + authoritySeconds, true⟩)
              }.setWorker x (.confirmed c material a.config))
          else refused
  | _ => none

/-- The request is sent, and answered or not. -/
def post (answer : Except String ℕ) : Option World :=
  match w.worker x with
  | .confirmed c material current =>
    let outcome := match answer with
      | .ok status => DeliveryOutcome.answered status
      | .error kind => DeliveryOutcome.failed kind
    some ({ w with
      posts := ⟨c.taskId, c.leaseId, material.url, material.callbackSecretEnc, current⟩ :: w.posts
      }.setWorker x (.releasing c (some outcome)))
  | _ => none

/-- An exception before the request is sent. -/
def raise (kind : String) : Option World :=
  match w.worker x with
  | .claimed c => some (w.setWorker x (.settling c (.failed kind)))
  | .acquired c | .loaded c _ | .confirmed c _ _ =>
    some (w.setWorker x (.releasing c (some (.failed kind))))
  | _ => none

/-- The lease is found lost, and the delivery is broken off. -/
def lose : Option World :=
  match w.worker x with
  | .claimed _ | .settling _ _ => some (w.setWorker x .done)
  | .acquired c | .loaded c _ | .confirmed c _ _ | .releasing c _ =>
    some (w.setWorker x (.releasing c none))
  | .idle | .done => none

/-- `release_authority`; a call that fails deletes nothing. -/
def release (reached : Bool) : Option World :=
  match w.worker x with
  | .releasing c outcome =>
    if reached then
      if w.isPending c then none
      else
        some ({ w with
          authorities := w.authorities.keep fun r =>
            !decide (r.taskId = c.taskId ∧ r.leaseId = c.leaseId)
          grants := Function.update w.grants c.leaseId none
          }.setWorker x (.afterRelease c outcome))
    else some (w.setWorker x (.afterRelease c outcome))
  | _ => none

/-- The settling statement. -/
def settle (schedule : RetrySchedule) (now : Time) : Option World :=
  match w.worker x with
  | .settling c outcome =>
    some ({ w with tasks := w.tasks.apply (settlement schedule c outcome now) }.setWorker x .done)
  | _ => none

/-! ## Configuration changes -/

/-- `ensure_callback_authority_idle`. -/
def beginChange (appId : AppId) (now : Time) : Option World :=
  if hfree : ∀ change ∈ w.changes.rows, change.appId ≠ appId then
    let expired := (w.authorities.find? appId).filter fun r => decide (r.expiresAt ≤ now)
    let leases := w.authorities.keep fun r => !decide (r.appId = appId ∧ r.expiresAt ≤ now)
    if (leases.find? appId).isSome then none
    else some { w with
      authorities := leases
      changes := w.changes.insertNew ⟨appId, now, expired⟩ hfree }
  else none

/-- The new configuration is written, old tasks are revoked, and the transaction commits. -/
def commitChange (new : App) (unseen : List TaskId) : Option World :=
  (w.changes.find? new.id).bind fun change =>
    (w.apps.find? new.id).map fun old =>
      { w with
        apps := w.apps.put new
        tasks := w.tasks.apply (revokeUpdate old new unseen change.now)
        changes := w.changes.keep fun c => decide (c.appId ≠ new.id) }

def abortChange (appId : AppId) : Option World :=
  (w.changes.find? appId).map fun change =>
    { w with
      authorities := change.rollback w.authorities
      changes := w.changes.keep fun c => decide (c.appId ≠ appId) }

end World

/-! ## Steps -/

inductive Action
  | tick (seconds : Time)
  | createApp (a : App)
  | enqueueReport (id : TaskId) (e : ReportEvent) (now : Time)
  | enqueueFinished (id : TaskId) (batchId : BatchId) (now : Time)
  | manualRetry (taskId : TaskId)
  | claim (x : ℕ) (taskId : TaskId) (leaseSeconds now : Time)
  | beat (x : ℕ) (leaseSeconds now : Time)
  | acquire (x : ℕ) (answered : Bool) (now : Time)
  | load (x : ℕ) (now : Time)
  | confirm (x : ℕ) (now : Time)
  | post (x : ℕ) (answer : Except String ℕ)
  | raise (x : ℕ) (kind : String)
  | lose (x : ℕ)
  | release (x : ℕ) (reached : Bool)
  | settle (x : ℕ) (schedule : RetrySchedule) (now : Time)
  | beginChange (appId : AppId) (now : Time)
  | commitChange (new : App) (unseen : List TaskId)
  | abortChange (appId : AppId)

/-- When the transaction of the step began. -/
def Action.began : Action → Time
  | .enqueueReport _ _ now | .enqueueFinished _ _ now | .claim _ _ _ now | .beat _ _ now
  | .acquire _ _ now | .load _ now | .confirm _ now | .settle _ _ now | .beginChange _ now => now
  | _ => 0

def World.createApp (w : World) (a : App) : Option World :=
  if h : ∀ x ∈ w.apps.rows, x.id ≠ a.id then some { w with apps := w.apps.insertNew a h }
  else none

/-- The effect of a step, whenever its transaction began. -/
def World.effect (setting : Setting) (w : World) : Action → Option World
  | .tick seconds => some { w with clock := w.clock + seconds }
  | .createApp a => w.createApp a
  | .enqueueReport id e now => w.enqueueReport setting id e now
  | .enqueueFinished id batchId now => w.enqueueFinished setting id batchId now
  | .manualRetry taskId => w.manualRetry setting taskId
  | .claim x taskId leaseSeconds now => w.claim x taskId leaseSeconds now
  | .beat x leaseSeconds now => w.beat x leaseSeconds now
  | .acquire x answered now => w.acquire x answered now
  | .load x now => w.load x now
  | .confirm x now => w.confirm x now
  | .post x answer => w.post x answer
  | .raise x kind => w.raise x kind
  | .lose x => w.lose x
  | .release x reached => w.release x reached
  | .settle x schedule now => w.settle x schedule now
  | .beginChange appId now => w.beginChange appId now
  | .commitChange new unseen => w.commitChange new unseen
  | .abortChange appId => w.abortChange appId

def World.next (setting : Setting) (w : World) (a : Action) : Option World :=
  if a.began ≤ w.clock then w.effect setting a else none

def callbacks (setting : Setting) : Machine World Action where
  init := fun w => ∃ apps, w = World.start apps
  next := World.next setting

end SmsPlatform.Callback
