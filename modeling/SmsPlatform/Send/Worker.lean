import SmsPlatform.Send.AttemptSteps

/-!
# Send workers

`SendWorker.submit` as a program over the database: every transaction, every read and
every call of the vendor is a step of its own, so that the steps of any number of
workers, recovery passes and other parties can be interleaved and a worker can stop
between any two of them.

What a worker asks of the outside (pauses, vendor health, token bucket, recipient
guard, control state, sending window) is answered by the label of a step.  The two
preflight checks around the wait for a token are one step.
-/

namespace SmsPlatform.Send

open Support Schema Vendor

/-! ## Payloads -/

/-- What a worker knows of its chunk.  The phones are named by their messages. -/
structure ChunkPayload where
  chunkId : ChunkId
  batchId : BatchId
  customId : List Char
  phones : List MessageKey
  status : ChunkStatus
  retryCount : ℕ
  nextVendor : Option VendorId
  routeGeneration : ℕ
  routePolicyVersion : ℕ
  failoverFromAttemptId : Option AttemptId
  deriving DecidableEq

/-- `_payload`. -/
def Db.payload (db : Db) (chunkId : ChunkId) : Option ChunkPayload :=
  (db.chunks.find? chunkId).map (fun c =>
    { chunkId := c.id
      batchId := c.batchId
      customId := c.customId
      phones := pendingMessages db c.id
      status := c.state.status
      retryCount := c.state.retryCount
      nextVendor := c.state.nextVendor
      routeGeneration := c.state.routeGeneration
      routePolicyVersion := c.state.routePolicyVersion
      failoverFromAttemptId := c.state.failoverFromAttemptId })

/-- `load_chunk`. -/
def Db.loadChunk (db : Db) (now : Time) (chunkId : ChunkId) : Option ChunkPayload :=
  match lockSendContext db chunkId with
  | none => none
  | some ctx =>
    if ctx.batch.status.isActive && ctx.chunk.state.isDue now then db.payload chunkId else none

def ChunkPayload.asParent (p : ChunkPayload) : SplitParent := ⟨p.chunkId, p.batchId, p.customId⟩

/-- The report that stands for a persisted failover. -/
def ChunkPayload.failoverReport (p : ChunkPayload) : FinalizeReport where
  kind := .applied
  result := .rejected
  nextAction := some .failoverPending
  nextVendor := p.nextVendor
  routeGeneration := some p.routeGeneration
  previousAttemptId := p.failoverFromAttemptId
  routePolicyVersion := some p.routePolicyVersion
  chunkStatus := some .failoverPending

/-! ## The state of a worker -/

/-- The router's vendors and the gateways a worker was built with. -/
structure WorkerConfig where
  registry : Registry
  registered : List VendorId
  gateways : List VendorId

/-- `_gateway_for` does not raise. -/
def WorkerConfig.hasGateway (config : WorkerConfig) (vendorId : VendorId) : Bool :=
  decide (vendorId ∈ config.gateways) || decide (vendorId = primaryVendorId)

/-- What `submit` does with the report of a finalization. -/
inductive After
  | leave
  | raise
  /-- The rest of `_handle_terminal_api_error`. -/
  | followup (hold : Bool)
  deriving DecidableEq

/-- What the phones are checked for: the claim, or the call itself. -/
inductive Purpose
  | claim (vendorId : VendorId)
  | invoke (auth : InvokeAuthorization)
  deriving DecidableEq

/-- Where a worker stands in `submit`. -/
inductive Pc
  | idle
  | starting
  | routing (attempts : List VendorAttempt)
  | checking (vendorId : VendorId)
  | filtering (purpose : Purpose) (tries : ℕ)
  | comparing (purpose : Purpose) (decision : DispatchDecision) (tries : ℕ)
  | claiming (vendorId : VendorId)
  | deferring
  | beginning (vendorId : VendorId)
  | handingOver (report : FinalizeReport)
  | claimingNext (vendorId : VendorId) (previous : AttemptId) (report : FinalizeReport)
  | authorized (auth : InvokeAuthorization)
  | sending (auth : InvokeAuthorization)
  | inFlight (auth : InvokeAuthorization)
  | finalizing (auth : InvokeAuthorization) (req : FinalizeRequest) (after : After)
  | reloading (auth : InvokeAuthorization) (after : After)
  | splitting (auth : InvokeAuthorization)
  /-- The attempt was not found again.  Here `submit` falls back to separate writes, but
  no worker gets here. -/
  | unreported

/-- A worker with its current chunk and the halves it still has to submit. -/
structure Worker where
  payload : ChunkPayload
  allowSplit : Bool
  children : List ChunkPayload
  pc : Pc

namespace Worker

def goto (w : Worker) (pc : Pc) : Worker := { w with pc := pc }

/-- The end of a run, by an exception or without anything left to do. -/
def stop (w : Worker) : Worker := { w with children := [], pc := .idle }

/-- `submit` returns.  Inside a split the next half is submitted, which may not be
split again by this run. -/
def finish (w : Worker) : Worker :=
  match w.children with
  | [] => w.stop
  | child :: children => ⟨child, false, children, .starting⟩

end Worker

/-! ## Requests to the store -/

def finalizeRequest (p : ChunkPayload) (auth : InvokeAuthorization) (result : AttemptOutcome) :
    FinalizeRequest where
  attemptId := auth.attemptId
  chunkId := p.chunkId
  expectedGeneration := auth.generation
  result := result
  batchId := some p.batchId

/-- `_abort_before_http`. -/
def abortBeforeHttp (p : ChunkPayload) (auth : InvokeAuthorization) (rejected : Bool)
    (after : After) : Pc :=
  .finalizing auth (finalizeRequest p auth (if rejected then .rejected else .paused)) after

/-- `_handle_terminal_api_error` up to its first transaction. -/
def handleTerminalApiError (w : Worker) (auth : InvokeAuthorization) (code : ℤ) : Pc :=
  let policy := policyFor code
  let request := fun result => { finalizeRequest w.payload auth result with
    vendorCode := some code }
  match policy.retryDelays.drop w.payload.retryCount with
  | delay :: _ =>
    .finalizing auth { request .retryScheduled with
      retryDelay := some delay
      expectedRetryCount := some w.payload.retryCount } .leave
  | [] =>
    if policy.shrinkBatchOnce && w.allowSplit then .splitting auth
    else
      match policy.delay with
      | some delay => .finalizing auth { request .delayed with retryDelay := some delay } .leave
      | none =>
        let hold := decide (followupForPolicy policy = .hold)
        .finalizing auth { request (if hold then .paused else .rejected) with
          safeToFailover := policy.safeToFailover
          balanceBlocked := policy.balanceBlocked } (.followup hold)

def followupAllowed (report : FinalizeReport) : Bool :=
  decide (report.kind = .applied) || decide (report.kind = .alreadyFinalizedSameResult)

/-- What follows a report. -/
def Worker.afterReport (w : Worker) (after : After) (report : FinalizeReport) : Worker :=
  match after with
  | .leave => w.finish
  | .raise => w.stop
  | .followup hold =>
    if followupAllowed report && !hold &&
        decide (report.nextAction = some .failoverPending) then w.goto (.handingOver report)
    else w.finish

/-- Python's `a or b` on an optional number. -/
def nonzeroOr (a : Option ℕ) (b : ℕ) : ℕ :=
  match a with
  | none | some 0 => b
  | some n => n

def claimRequest (p : ChunkPayload) (vendorId : VendorId) (previous : AttemptId)
    (report : FinalizeReport) : ClaimRequest where
  chunkId := p.chunkId
  expectedRouteGeneration := nonzeroOr report.routeGeneration p.routeGeneration
  previousAttemptId := previous
  expectedNextVendor := vendorId
  expectedRoutePolicyVersion := nonzeroOr report.routePolicyVersion p.routePolicyVersion

/-- The end of `phones_for_invoke`. -/
def Worker.decided (w : Worker) (purpose : Purpose) (decision : DispatchDecision) : Worker :=
  let send := decide (decision.action = .send) && !decision.eligible.isEmpty
  match purpose with
  | .claim vendorId => if send then w.goto (.claiming vendorId) else w.finish
  | .invoke auth =>
    if decision.action = .frozen then w.finish
    else if send then w.goto (.sending auth)
    else w.goto (abortBeforeHttp w.payload auth (decide (decision.action = .empty)) .leave)

/-! ## Steps -/

/-- The answer of `_preflight_before_invoke`, a missing token included. -/
inductive Preflight
  | passed
  | paused
  | rejected (deniedCount : ℕ)
  | raised
  deriving DecidableEq

/-- How a finalization ends for the caller: with its report, or with an exception
before or after the commit. -/
inductive Fate
  | returned
  | raisedBefore
  | raisedAfter
  deriving DecidableEq

inductive WorkerStep
  | start (now : Time) (chunkId : ChunkId)
  | loadAttempts
  | route (paused : Bool) (health : List VendorHealth) (newId : AttemptId)
  | preflight (answer : Preflight)
  | dispatch (appFlag : Option Bool)
  | compare
  | claim (now : Time) (budget : SubmissionBudget)
  | defer (resetAt : Time)
  | begin (now : Time) (newId : AttemptId)
  | claimNext (now : Time) (newId : AttemptId) (budget : SubmissionBudget)
  | finalize (now : Time) (fate : Fate)
  | reload
  | split (answer : SplitAnswer)
  | crash

section

variable (config : WorkerConfig) (db : Db) (w : Worker)

/-- The loop head of `submit`. -/
def Worker.route (attempts : List VendorAttempt) (paused : Bool) (health : List VendorHealth)
    (newId : AttemptId) : Worker × Db :=
  if paused then (w.finish, db)
  else
    let decision := decideRoute ⟨config.registered, attempts, health⟩
    match decision.action, decision.vendorId with
    | .invoke, some vendorId =>
      if config.hasGateway vendorId then (w.goto (.checking vendorId), db)
      else
        match recordVendorAttempt db newId w.payload.chunkId vendorId decision.generation
            .cancelledBeforeInvoke with
        | .ok (_, db') => (w.finish, db')
        | .error _ => (w.stop, db)
    | _, _ => (w.finish, db)

/-- A check before the vendor is claimed.  A refused recipient is recorded. -/
def Worker.preflight (next : Pc) : Preflight → Worker × Db
  | .passed => (w.goto next, db)
  | .paused => (w.finish, db)
  | .rejected count => (w.finish, rejectDisallowedRecipient db w.payload.chunkId count)
  | .raised => (w.stop, db)

/-- The check of an authorized call, which is aborted instead. -/
def Worker.preflightAuthorized (auth : InvokeAuthorization) : Preflight → Worker
  | .passed =>
    if config.hasGateway auth.vendorId then w.goto (.filtering (.invoke auth) 3)
    else w.goto (.finalizing auth (finalizeRequest w.payload auth .failed) .leave)
  | .paused => w.goto (abortBeforeHttp w.payload auth false .leave)
  | .rejected _ => w.goto (abortBeforeHttp w.payload auth true .leave)
  | .raised => w.goto (abortBeforeHttp w.payload auth false .raise)

/-- One round of `phones_for_invoke`. -/
def Worker.dispatch (purpose : Purpose) (tries : ℕ) (appFlag : Option Bool) : Worker × Db :=
  match decideDispatch db w.payload.chunkId appFlag with
  | .error _ => (w.stop, db)
  | .ok (decision, db') =>
    if decision.action = .send ∧ decision.generation ≠ none then
      (w.goto (.comparing purpose decision tries), db')
    else (w.decided purpose decision, db')

/-- The decision stands only if the blacklist has not changed since. -/
def Worker.compare (purpose : Purpose) (decision : DispatchDecision) (tries : ℕ) : Worker :=
  if decision.generation = some db.blacklistGeneration then w.decided purpose decision
  else if tries ≤ 1 then w.decided purpose { decision with eligible := [], action := .stale }
  else w.goto (.filtering purpose (tries - 1))

def Worker.claim (vendorId : VendorId) (now : Time) (budget : SubmissionBudget) : Worker × Db :=
  match claimSubmission db now w.payload.chunkId w.payload.retryCount budget with
  | (.claimed, db') => (w.goto (.beginning vendorId), db')
  | (.dailyLimit, db') => (w.goto .deferring, db')
  | (.stale, db') => (w.finish, db')

def Worker.begin (vendorId : VendorId) (now : Time) (newId : AttemptId) : Worker × Db :=
  match beginVendorInvoke db now newId w.payload.chunkId vendorId with
  | .ok (attempt, db') => (w.goto (.authorized attempt.authorization), db')
  | .error _ => (w.finish, db)

/-- `_claim_persisted_failover` before its transaction. -/
def Worker.handOver (report : FinalizeReport) (answer : Preflight) : Worker × Db :=
  match report.nextVendor, report.previousAttemptId with
  | some vendorId, some previous =>
    w.preflight db (.claimingNext vendorId previous report) answer
  | _, _ => (w.finish, db)

def Worker.claimNext (vendorId : VendorId) (previous : AttemptId) (report : FinalizeReport)
    (now : Time) (newId : AttemptId) (budget : SubmissionBudget) : Worker × Db :=
  match claimNextVendorInvoke config.registry db now newId
      (claimRequest w.payload vendorId previous report) budget with
  | (claim, db') =>
    match claim.kind, claim.authorization with
    | .authorized, some auth => (w.goto (.authorized auth), db')
    | _, _ =>
      if claim.reason = "daily_limit" then (w.goto .deferring, db') else (w.finish, db')

def Worker.finalize (auth : InvokeAuthorization) (req : FinalizeRequest) (after : After)
    (now : Time) (fate : Fate) : Worker × Db :=
  match finalizeVendorAttempt config.registry db now req, fate with
  | .ok (report, db'), .returned => (w.afterReport after report, db')
  | .ok (_, db'), .raisedAfter => (w.goto (.reloading auth after), db')
  | _, _ => (w.goto (.reloading auth after), db)

def Worker.reload (auth : InvokeAuthorization) (after : After) : Worker :=
  match loadAuthoritativeNextAction db w.payload.chunkId auth.attemptId auth.generation with
  | some report => w.afterReport after report
  | none => w.goto .unreported

/-- `split_once` and the loop over the halves. -/
def Worker.split (answer : SplitAnswer) : Worker × Db :=
  if w.payload.phones.length < 2 then (w.finish, db)
  else
    match completeVendorSplit db w.payload.asParent answer.capacity answer.id₁ answer.id₂ with
    | .error _ => (w.stop, db)
    | .ok (ids, db') =>
      (Worker.finish { w with children := ids.filterMap db'.payload ++ w.children }, db')

/-- A step of a worker other than the call itself. -/
def Worker.step : WorkerStep → Option (Worker × Db)
  | .crash => some (w.stop, db)
  | .start now chunkId =>
    match w.pc with
    | .idle => (db.loadChunk now chunkId).map (fun p => (⟨p, true, [], .starting⟩, db))
    | _ => none
  | .loadAttempts =>
    match w.pc with
    | .starting =>
      if w.payload.status = .failoverPending then
        some (w.goto (.handingOver w.payload.failoverReport), db)
      else some (w.goto (.routing ((db.attemptsOf w.payload.chunkId).map Attempt.view)), db)
    | _ => none
  | .route paused health newId =>
    match w.pc with
    | .routing attempts => some (w.route config db attempts paused health newId)
    | _ => none
  | .preflight answer =>
    match w.pc with
    | .checking vendorId => some (w.preflight db (.filtering (.claim vendorId) 3) answer)
    | .handingOver report => some (w.handOver db report answer)
    | .authorized auth => some (w.preflightAuthorized config auth answer, db)
    | _ => none
  | .dispatch appFlag =>
    match w.pc with
    | .filtering purpose tries => some (w.dispatch db purpose tries appFlag)
    | _ => none
  | .compare =>
    match w.pc with
    | .comparing purpose decision tries => some (w.compare db purpose decision tries, db)
    | _ => none
  | .claim now budget =>
    match w.pc with
    | .claiming vendorId => some (w.claim db vendorId now budget)
    | _ => none
  | .defer resetAt =>
    match w.pc with
    | .deferring => some (w.finish, deferDailyLimit db w.payload.chunkId resetAt)
    | _ => none
  | .begin now newId =>
    match w.pc with
    | .beginning vendorId => some (w.begin db vendorId now newId)
    | _ => none
  | .claimNext now newId budget =>
    match w.pc with
    | .claimingNext vendorId previous report =>
      some (w.claimNext config db vendorId previous report now newId budget)
    | _ => none
  | .finalize now fate =>
    match w.pc with
    | .finalizing auth req after => some (w.finalize config db auth req after now fate)
    | _ => none
  | .reload =>
    match w.pc with
    | .reloading auth after => some (w.reload db auth after, db)
    | _ => none
  | .split answer =>
    match w.pc with
    | .splitting _ => some (w.split db answer)
    | _ => none

end

/-! ## The system -/

/-- What the vendor's gateway gave back. -/
inductive CallResult
  | taskId (id : String)
  | apiError (code : ℤ)
  | unknown
  deriving DecidableEq

/-- How a call ends for the worker.  Transport and protocol errors are caught, any
other exception is raised again. -/
inductive CallAnswer
  | taskId (id : String)
  | apiError (code : ℤ)
  | transport
  | other
  deriving DecidableEq

def CallAnswer.result : CallAnswer → CallResult
  | .taskId id => .taskId id
  | .apiError code => .apiError code
  | .transport | .other => .unknown

/-- One `gateway.send`, with its result once it has one. -/
structure Call where
  chunkId : ChunkId
  attemptId : AttemptId
  result : Option CallResult
  deriving DecidableEq

def Call.answered (auth : InvokeAuthorization) (answer : CallAnswer) (call : Call) : Call :=
  if call.attemptId = auth.attemptId ∧ call.result = none then
    { call with result := some answer.result }
  else call

/-- What a worker does with the answer. -/
def Worker.answered (w : Worker) (auth : InvokeAuthorization) : CallAnswer → Worker
  | .taskId id => w.goto (.finalizing auth
      { finalizeRequest w.payload auth .submitted with vendorTaskId := some id } .leave)
  | .apiError code => w.goto (handleTerminalApiError w auth code)
  | .transport => w.goto (.finalizing auth (finalizeRequest w.payload auth .uncertain) .leave)
  | .other => w.goto (.finalizing auth (finalizeRequest w.payload auth .uncertain) .raise)

structure World where
  db : Db
  workers : ℕ → Worker
  calls : List Call

/-- Transactions that are not steps of a worker.  Parties other than workers are also
given the writes that only workers use. -/
def Action.isForeign : Action → Bool
  | .accept .. | .prepare .. | .retrySplits .. | .recover .. | .write .. => true
  | _ => false

inductive Label
  | foreign (action : Action)
  | work (pid : ℕ) (step : WorkerStep)
  | call (pid : ℕ)
  | answer (pid : ℕ) (answer : CallAnswer)

namespace World

def setWorker (world : World) (pid : ℕ) (w : Worker) : World :=
  { world with workers := Function.update world.workers pid w }

def next (config : WorkerConfig) (world : World) : Label → Option World
  | .foreign action =>
    if action.isForeign then
      (world.db.next config.registry action).map (fun db => { world with db := db })
    else none
  | .work pid step =>
    ((world.workers pid).step config world.db step).map (fun result =>
      { (world.setWorker pid result.1) with db := result.2 })
  | .call pid =>
    match (world.workers pid).pc with
    | .sending auth =>
      some { (world.setWorker pid ((world.workers pid).goto (.inFlight auth))) with
        calls := world.calls ++ [⟨(world.workers pid).payload.chunkId, auth.attemptId, none⟩] }
    | _ => none
  | .answer pid answer =>
    match (world.workers pid).pc with
    | .inFlight auth =>
      some { (world.setWorker pid ((world.workers pid).answered auth answer)) with
        calls := world.calls.map (Call.answered auth answer) }
    | _ => none

end World

/-- A worker that has not run yet. -/
def Worker.fresh : Worker :=
  ⟨⟨0, 0, [], [], .pending, 0, none, 0, 0, none⟩, true, [], .idle⟩

def World.start : World := ⟨Db.start, fun _ => Worker.fresh, []⟩

/-- Any number of workers and everybody else on an empty installation. -/
def sendSystem (config : WorkerConfig) : Machine World Label where
  init world := world = World.start
  next := World.next config

def soleVendor : WorkerConfig := ⟨defaultVendorRegistry, [primaryVendorId], [primaryVendorId]⟩

/-- The steps of a worker up to its call, when nothing stands in its way. -/
def submitUntilCall (pid : ℕ) (now : Time) (chunkId : ChunkId) (newId : AttemptId) : List Label :=
  [ .work pid (.start now chunkId), .work pid .loadAttempts,
    .work pid (.route false [⟨primaryVendorId, true⟩] newId),
    .work pid (.preflight .passed),
    .work pid (.dispatch none),
    .work pid .compare,
    .work pid (.claim now .notEnforced),
    .work pid (.begin now newId),
    .work pid (.preflight .passed),
    .work pid (.dispatch none),
    .work pid .compare ]

end SmsPlatform.Send
