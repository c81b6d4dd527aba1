import SmsPlatform.Send.Schema

/-!
# Vendor attempts

The transactions that open, settle and hand over vendor attempts: the claim of
a chunk, `begin_vendor_invoke`, `finalize_vendor_attempt` and
`claim_next_vendor_invoke`, with the reports they give to the worker.

A transaction that raises leaves no trace, so it is an `Except.error` or a
result that carries the unchanged database.
-/

namespace SmsPlatform.Send

open Schema Vendor

variable (registry : Registry) (db : Db) (now : Time)

def ChunkState.retryDue (s : ChunkState) (now : Time) : Bool :=
  s.retryNotBefore.all (fun t => decide (t ≤ now))

/-! ## Claiming a chunk -/

inductive SubmissionClaimStatus
  | claimed
  | stale
  | dailyLimit
  deriving DecidableEq

/-- What the live-test budget answers, when it is enforced at all. -/
inductive SubmissionBudget
  | notEnforced
  | recipientDenied
  | exhausted
  | reserved
  deriving DecidableEq

/-- The condition under which a chunk may be claimed. -/
def ChunkState.claimable (s : ChunkState) (now : Time) (expectedRetryCount : ℕ) : Bool :=
  decide (s.status = .pending ∨ s.status = .retrying) &&
    decide (s.retryCount = expectedRetryCount) && s.retryDue now

def ChunkState.claimed (attempts : ℕ) (s : ChunkState) : ChunkState :=
  { s with
    status := .submitting
    submittingSince := some now
    retryNotBefore := none
    vendorAttemptCount := s.vendorAttemptCount + attempts }

def claimSubmission (chunkId : ChunkId) (expectedRetryCount : ℕ) (budget : SubmissionBudget) :
    SubmissionClaimStatus × Db :=
  match lockSendContext db chunkId with
  | none => (.stale, db)
  | some ctx =>
    if !ctx.batch.status.isActive then (.stale, db)
    else
      match budget with
      | .recipientDenied => (.stale, db)
      | .exhausted =>
        if ctx.chunk.state.claimable now expectedRetryCount then (.dailyLimit, db)
        else (.stale, db)
      | .notEnforced =>
        match db.casChunk chunkId (fun s => s.claimable now expectedRetryCount)
            (ChunkState.claimed now 0) with
        | none => (.stale, db)
        | some db' => (.claimed, db')
      | .reserved =>
        match db.casChunk chunkId (fun s => s.claimable now expectedRetryCount)
            (ChunkState.claimed now 1) with
        | none => (.stale, db)
        | some db' => (.claimed, db')

/-! ## Opening an attempt -/

/-- The row both `begin_vendor_invoke` and a failover claim insert. -/
def newInvoking (id : AttemptId) (chunkId : ChunkId) (vendorId : VendorId) (generation : ℕ)
    (now : Time) : Attempt where
  id := id
  chunkId := chunkId
  vendorId := vendorId
  generation := generation
  invokeStartedAt := some now
  outcome := .invoking
  safeToFailover := false
  vendorCode := none

/-- The chunk follows the attempt it was routed to. -/
def ChunkState.routed (vendorId : VendorId) (generation : ℕ) (s : ChunkState) : ChunkState :=
  { s with selectedVendor := vendorId, routeGeneration := generation }

def beginVendorInvoke (newId : AttemptId) (chunkId : ChunkId) (vendorId : VendorId) :
    Except String (Attempt × Db) :=
  match lockSendContext db chunkId with
  | none => .error "vendor attempt chunk missing"
  | some ctx =>
    if ctx.chunk.state.status.isIsolating then
      .error "vendor attempt blocked by terminal chunk"
    else if ctx.chunk.state.status ≠ .submitting then .error "vendor attempt not first-invoke"
    else if ctx.attempts.any (fun a => a.outcome.isBlocking) then
      .error "vendor attempt already irreversible"
    else
      let generation := (ctx.attempts.map Attempt.generation).foldl max 0 + 1
      let attempt := newInvoking newId chunkId vendorId generation now
      match db.insertAttempt attempt with
      | none => .error "unique violation"
      | some db₁ =>
        match db₁.casChunk chunkId (fun _ => true)
            (ChunkState.routed vendorId generation) with
        | none => .error "vendor attempt chunk missing"
        | some db₂ => .ok (attempt, db₂)

/-- `record_vendor_attempt`, which the worker uses for a vendor without a
gateway. -/
def recordVendorAttempt (newId : AttemptId) (chunkId : ChunkId) (vendorId : VendorId)
    (generation : ℕ) (outcome : AttemptOutcome) : Except String (Attempt × Db) :=
  let attempt : Attempt :=
    ⟨newId, chunkId, vendorId, generation, none, outcome, false, none⟩
  match db.insertAttempt attempt with
  | none => .error "unique violation"
  | some db₁ =>
    match db₁.casChunk chunkId (fun _ => true) (ChunkState.routed vendorId generation) with
    | none => .error "foreign key violation"
    | some db₂ => .ok (attempt, db₂)

/-- `complete_vendor_attempt`. -/
def completeVendorAttempt (attemptId : AttemptId) (settlement : Settlement) : Db :=
  db.settleAttempts (fun a => if a.id = attemptId then some settlement else none)

/-! ## Settling an attempt -/

inductive FinalizeKind
  | applied
  | alreadyFinalizedSameResult
  | finalizedDifferentResult
  | recoveryMarkedUncertain
  | stateCorruption
  | lostCas
  deriving DecidableEq

structure FinalizeReport where
  kind : FinalizeKind
  result : AttemptOutcome
  nextAction : Option NextAction := none
  nextVendor : Option VendorId := none
  routeGeneration : Option ℕ := none
  previousAttemptId : Option AttemptId := none
  routePolicyVersion : Option ℕ := none
  chunkStatus : Option ChunkStatus := none
  deriving DecidableEq

def classifyFinalizeConflict (attemptOutcome : AttemptOutcome) (chunkStatus : ChunkStatus)
    (requested : AttemptOutcome) : FinalizeKind :=
  if attemptOutcome = requested then
    match requested, chunkStatus with
    | .submitted, .submitted | .uncertain, .uncertain
    | .retryScheduled, .retrying | .delayed, .retrying | .paused, .retrying
    | .rejected, .failed | .failed, .failed | .rejected, .failoverPending =>
      .alreadyFinalizedSameResult
    | _, _ => .stateCorruption
  else if attemptOutcome = .uncertain ∨ chunkStatus = .uncertain then .recoveryMarkedUncertain
  else if requested = .submitted ∧ chunkStatus = .submitted then .stateCorruption
  else
    match attemptOutcome with
    | .submitted | .uncertain | .failed | .inconsistent => .finalizedDifferentResult
    | _ => .stateCorruption

def reportFromLockedState (attempt : Attempt) (chunk : ChunkState)
    (requested : AttemptOutcome) : FinalizeReport :=
  let exhausted := requested = .delayed ∧ attempt.outcome = .failed ∧
    chunk.status = .failed ∧ chunk.vendorMsg = some delayedRetryExhausted
  { kind := classifyFinalizeConflict attempt.outcome chunk.status
      (if exhausted then attempt.outcome else requested)
    result := attempt.outcome
    nextAction :=
      match chunk.status with
      | .failed => some .failed
      | .failoverPending => some .failoverPending
      | .retrying => some .retrying
      | _ => none
    nextVendor := if chunk.status = .failoverPending then chunk.nextVendor else none
    routeGeneration := some chunk.routeGeneration
    previousAttemptId := chunk.failoverFromAttemptId
    routePolicyVersion := some chunk.routePolicyVersion
    chunkStatus := some chunk.status }

structure FinalizeRequest where
  attemptId : AttemptId
  chunkId : ChunkId
  expectedGeneration : ℕ
  result : AttemptOutcome
  vendorTaskId : Option String := none
  vendorCode : Option ℤ := none
  safeToFailover : Bool := false
  retryDelay : Option ℕ := none
  expectedRetryCount : Option ℕ := none
  batchId : Option BatchId := none
  balanceBlocked : Bool := false
  deriving DecidableEq

/-- The results `finalize_vendor_attempt` accepts. -/
def finalizeResults : List AttemptOutcome :=
  [.submitted, .uncertain, .retryScheduled, .delayed, .paused, .rejected, .failed,
    .cancelledBeforeInvoke]

namespace ChunkState

def isSubmitting (s : ChunkState) : Bool := decide (s.status = .submitting)

def markSubmitted (taskId : Option String) (s : ChunkState) : ChunkState :=
  { s with
    status := .submitted
    vendorTaskId := taskId
    submittedAt := some now
    submittingSince := none
    retryNotBefore := none }

def markUncertain (s : ChunkState) : ChunkState :=
  { s with status := .uncertain, submittingSince := none, retryNotBefore := none }

/-- Back to `retrying` with one more retry spent. -/
def retryLater (code : Option ℤ) (due : Time) (s : ChunkState) : ChunkState :=
  { s with
    status := .retrying
    vendorCode := code
    retryCount := s.retryCount + 1
    submittingSince := none
    retryNotBefore := some due }

/-- Back to `retrying` without spending a retry. -/
def holdBack (code : Option ℤ) (now : Time) (s : ChunkState) : ChunkState :=
  { s with
    status := .retrying
    vendorCode := code
    submittingSince := none
    retryNotBefore := some now }

def markFailed (code : Option ℤ) (message : String) (s : ChunkState) : ChunkState :=
  { s with
    status := .failed
    vendorCode := code
    vendorMsg := some message
    submittingSince := none
    retryNotBefore := none }

/-- Failure that also forgets the next hop. -/
def markFailedForGood (code : Option ℤ) (message : String) (s : ChunkState) : ChunkState :=
  { s.markFailed code message with nextVendor := none, failoverFromAttemptId := none }

def awaitFailover (code : Option ℤ) (message : String) (now : Time) (vendor : VendorId)
    (generation policyVersion : ℕ) (attemptId : AttemptId) (s : ChunkState) : ChunkState :=
  { s with
    status := .failoverPending
    selectedVendor := vendor
    nextVendor := some vendor
    routeGeneration := generation
    routePolicyVersion := policyVersion
    failoverFromAttemptId := some attemptId
    vendorCode := code
    vendorMsg := some message
    submittingSince := none
    retryNotBefore := some now }

end ChunkState

/-- `int(... or ... or 1)` over the two policy versions, at least 1. -/
def effectivePolicyVersion (ctx : LockedSendContext) : ℕ :=
  max 1 (if ctx.batch.routePolicyVersion ≠ 0 then ctx.batch.routePolicyVersion
    else ctx.chunk.state.routePolicyVersion)

/-- The next action of a rejected or failed attempt.  `db` already holds the
settled attempt. -/
def persistedAction (req : FinalizeRequest) (ctx : LockedSendContext) (result : AttemptOutcome)
    (safe : Bool) : PersistedNextAction :=
  if result = .failed ∨ safe = false then
    ⟨.failed, none, req.expectedGeneration, req.attemptId, effectivePolicyVersion ctx⟩
  else
    nextActionAfterSafeReject registry ctx.batch.category
      ((db.attemptsOf req.chunkId).map Attempt.view) req.attemptId (effectivePolicyVersion ctx)

/-- `_apply_reject_or_fail`. -/
def applyRejectOrFail (req : FinalizeRequest) (ctx : LockedSendContext) (result : AttemptOutcome)
    (safe exhausted : Bool) : Option (FinalizeReport × Db) :=
  let persisted := persistedAction registry db req ctx result safe
  let report : FinalizeReport :=
    { kind := .applied
      result := result
      nextAction := some persisted.action
      nextVendor := persisted.nextVendor
      routeGeneration := some persisted.routeGeneration
      previousAttemptId := some persisted.previousAttemptId
      routePolicyVersion := some persisted.routePolicyVersion
      chunkStatus := some (if persisted.action = .failoverPending then .failoverPending
        else .failed) }
  match persisted.action, persisted.nextVendor with
  | .failoverPending, some vendor =>
    (db.casChunk req.chunkId ChunkState.isSubmitting
      (ChunkState.awaitFailover req.vendorCode "safe_rejected_failover_pending" now vendor
        req.expectedGeneration persisted.routePolicyVersion req.attemptId)).map
      (fun db => (report, db))
  | _, _ =>
    (db.casChunk req.chunkId ChunkState.isSubmitting
      (ChunkState.markFailedForGood req.vendorCode
        (if exhausted then delayedRetryExhausted
          else if result = .failed then "failed" else "rejected"))).map
      (fun db => (report, db.finalizeFailedMessages req.chunkId ctx.chunk.batchId))

abbrev appliedReport (result : AttemptOutcome) (db : Db) : FinalizeReport × Db :=
  ({ kind := .applied, result := result }, db)

/-- The chunk's part of a finalization.  No value means that the compare and set
on the chunk failed, which rolls the attempt back as well. -/
def applyFinalize (req : FinalizeRequest) (ctx : LockedSendContext) (result : AttemptOutcome)
    (safe exhausted : Bool) : Option (FinalizeReport × Db) :=
  let due := now + (match req.retryDelay with
    | none | some 0 => 1
    | some delay => delay)
  match result with
  | .submitted =>
    (db.casChunk req.chunkId ChunkState.isSubmitting
      (ChunkState.markSubmitted now req.vendorTaskId)).map
      (fun db => appliedReport result
        (db.setMessages (fun m => decide (m.chunkId = some req.chunkId ∧
          m.status = .pending ∧ m.reported = false)) .sent))
  | .uncertain =>
    (db.casChunk req.chunkId ChunkState.isSubmitting ChunkState.markUncertain).map
      (appliedReport result)
  | .retryScheduled =>
    (db.casChunk req.chunkId
      (fun s => s.isSubmitting && decide (some s.retryCount = req.expectedRetryCount) &&
        decide (s.retryCount < 5))
      (ChunkState.retryLater req.vendorCode due)).map (appliedReport result)
  | .delayed =>
    (db.casChunk req.chunkId
      (fun s => s.isSubmitting && decide (s.retryCount < delayedRetryLimit))
      (ChunkState.retryLater req.vendorCode due)).map (appliedReport result)
  | .paused =>
    if req.balanceBlocked then
      (db.casChunk req.chunkId ChunkState.isSubmitting
        (ChunkState.holdBack (some 999) now)).map
        (fun db => appliedReport result
          (db.setBatch (req.batchId.getD ctx.chunk.batchId) (fun _ => .balanceBlocked)))
    else
      (db.casChunk req.chunkId ChunkState.isSubmitting
        (ChunkState.holdBack req.vendorCode now)).map (appliedReport result)
  | .rejected | .failed => applyRejectOrFail registry db now req ctx result safe exhausted
  | _ => some (appliedReport result db)

/-- A delayed result turns into a failure when the delays are used up. -/
def FinalizeRequest.exhausted (req : FinalizeRequest) (s : ChunkState) : Bool :=
  decide (req.result = .delayed) && decide (delayedRetryLimit ≤ s.retryCount)

/-- What the attempt is settled with. -/
def FinalizeRequest.settlement (req : FinalizeRequest) (s : ChunkState) : Settlement where
  outcome := if req.exhausted s then .failed else req.result
  safeToFailover := req.safeToFailover && !req.exhausted s
  vendorCode := req.vendorCode

/-- `_finalize_vendor_attempt_once`. -/
def finalizeVendorAttempt (req : FinalizeRequest) : Except String (FinalizeReport × Db) :=
  let corrupted : FinalizeReport := { kind := .stateCorruption, result := req.result }
  if req.result ∉ finalizeResults then .error "unsupported vendor finalize result"
  else
    match lockSendContext db req.chunkId with
    | none => .ok (corrupted, db)
    | some ctx =>
      if req.batchId.any (fun id => decide (id ≠ ctx.chunk.batchId)) then .ok (corrupted, db)
      else
        match ctx.attempts.find? (fun a => decide (a.id = req.attemptId)) with
        | none => .ok (corrupted, db)
        | some attempt =>
          if attempt.generation ≠ req.expectedGeneration then .ok (corrupted, db)
          else if attempt.outcome ≠ .invoking then
            .ok (reportFromLockedState attempt ctx.chunk.state req.result, db)
          else if ctx.chunk.state.routeGeneration ≠ req.expectedGeneration then
            .ok (corrupted, db)
          else
            let settlement := req.settlement ctx.chunk.state
            match applyFinalize registry
                (completeVendorAttempt db req.attemptId settlement) now req ctx
                settlement.outcome settlement.safeToFailover
                (req.exhausted ctx.chunk.state) with
            | none => .ok ({ kind := .lostCas, result := settlement.outcome }, db)
            | some outcome => .ok outcome

/-- `load_authoritative_next_action`, read after an uncertain commit. -/
def loadAuthoritativeNextAction (chunkId : ChunkId) (attemptId : AttemptId)
    (expectedGeneration : ℕ) : Option FinalizeReport :=
  match db.attempts.find? attemptId, db.chunks.find? chunkId with
  | some attempt, some chunk =>
    if attempt.chunkId = chunkId ∧ attempt.generation = expectedGeneration then
      some (reportFromLockedState attempt chunk.state attempt.outcome)
    else none
  | _, _ => none

/-! ## Handing over to the next vendor -/

inductive InvokeClaimKind
  | authorized
  | alreadyHandled
  | denied
  deriving DecidableEq

structure InvokeAuthorization where
  attemptId : AttemptId
  generation : ℕ
  vendorId : VendorId
  deriving DecidableEq

structure InvokeClaim where
  kind : InvokeClaimKind
  authorization : Option InvokeAuthorization := none
  reason : String := ""
  deriving DecidableEq

def deniedClaim (reason : String) : InvokeClaim := { kind := .denied, reason := reason }

def Attempt.authorization (a : Attempt) : InvokeAuthorization :=
  ⟨a.id, a.generation, a.vendorId⟩

def claimFacts (ctx : LockedSendContext) (previousAttemptId : AttemptId) : ClaimFacts where
  chunkStatus := ctx.chunk.state.status
  batchStatus := ctx.batch.status
  category := ctx.batch.category
  routeGeneration := ctx.chunk.state.routeGeneration
  routePolicyVersion := ctx.chunk.state.routePolicyVersion
  nextVendor := ctx.chunk.state.nextVendor
  previous := (ctx.attempts.find? (fun a => decide (a.id = previousAttemptId))).map Attempt.view
  outcomes := ctx.attempts.map Attempt.outcome

/-- The state of a chunk whose next hop has been claimed. -/
def ChunkState.handedOver (vendorId : VendorId) (generation attempts : ℕ) (s : ChunkState) :
    ChunkState :=
  { s.claimed now attempts with selectedVendor := vendorId, routeGeneration := generation }

def claimNextVendorInvoke (newId : AttemptId) (req : ClaimRequest) (budget : SubmissionBudget) :
    InvokeClaim × Db :=
  match lockSendContext db req.chunkId with
  | none => (deniedClaim "chunk_missing", db)
  | some ctx =>
    if budget = .recipientDenied then (deniedClaim "recipient_denied", db)
    else
      let invoking := ctx.attempts.find? (fun a => decide (a.outcome = .invoking))
      if alreadyHandled req ctx.chunk.state.status (invoking.map Attempt.view) then
        ({ kind := .alreadyHandled
           authorization := invoking.map Attempt.authorization
           reason := "already_invoking" }, db)
      else
        match claimDeniedReason registry req (claimFacts ctx req.previousAttemptId) with
        | some reason => (deniedClaim reason, db)
        | none =>
          if !ctx.chunk.state.retryDue now then (deniedClaim "retry_not_due", db)
          else if budget = .exhausted then (deniedClaim "daily_limit", db)
          else
            let attempt := newInvoking newId req.chunkId req.expectedNextVendor
              (req.expectedRouteGeneration + 1) now
            match db.insertAttempt attempt with
            | none => (deniedClaim "unique_violation", db)
            | some db₁ =>
              match db₁.casChunk req.chunkId
                  (fun s => decide (s.status = .failoverPending) &&
                    decide (s.routeGeneration = req.expectedRouteGeneration) &&
                    decide (s.nextVendor = some req.expectedNextVendor))
                  (ChunkState.handedOver now req.expectedNextVendor
                    (req.expectedRouteGeneration + 1)
                    (if budget = .reserved then 1 else 0)) with
              | none => (deniedClaim "cas_lost", db)
              | some db₂ =>
                ({ kind := .authorized
                   authorization := some attempt.authorization
                   reason := "authorized" }, db₂)

/-! ## Repairing rejected attempts -/

/-- One candidate of `repair_legacy_safe_reject_submitting`. -/
def repairLegacySafeReject (chunkId : ChunkId) : Db :=
  match lockSendContext db chunkId with
  | none => db
  | some ctx =>
    let attempts := ctx.attempts.map Attempt.view
    match ctx.attempts.getLast? with
    | none => db
    | some last =>
      if !ctx.batch.status.isActive ||
          !historicalSafeRejectRepairable ctx.chunk.state.status attempts then db
      else
        let persisted := nextActionAfterSafeReject registry ctx.batch.category attempts
          last.id (if ctx.batch.routePolicyVersion ≠ 0 then ctx.batch.routePolicyVersion
            else 1)
        match persisted.action, persisted.nextVendor with
        | .failoverPending, some vendor =>
          (db.casChunk chunkId ChunkState.isSubmitting (fun s =>
            s.awaitFailover s.vendorCode "repaired_legacy_safe_reject" now vendor
              persisted.routeGeneration persisted.routePolicyVersion last.id)).getD db
        | _, _ =>
          match db.casChunk chunkId ChunkState.isSubmitting (fun s =>
              s.markFailedForGood s.vendorCode "repaired_legacy_safe_reject") with
          | none => db
          | some db₁ => db₁.finalizeFailedMessages chunkId ctx.chunk.batchId

/-- The chunks `repair_legacy_safe_reject_submitting` picks: the last attempt is
a safe reject and the chunk still waits for it. -/
def legacySafeRejects (limit : ℕ) : List ChunkId :=
  ((db.chunks.select (fun c => c.state.isSubmitting &&
      (db.attemptsOf c.id).getLast?.any (fun a =>
        decide (a.outcome = .rejected) && a.safeToFailover))
    (fun c d => c.id ≤ d.id) limit).rows).map Chunk.id

def repairLegacySafeRejectSubmitting : Db :=
  (legacySafeRejects db 100).foldl
    (fun db chunkId => repairLegacySafeReject registry db now chunkId) db

end SmsPlatform.Send
