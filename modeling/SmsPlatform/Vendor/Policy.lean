import Mathlib.Data.Int.Notation
import SmsPlatform.Schema.Status

/-!
# Vendors, error codes and routing

The pure decisions of the vendor layer: what an error code asks for, which
vendor is tried next, and whether a persisted next hop may be claimed.
-/

namespace SmsPlatform.Vendor

open Schema

/-! ## Identifiers -/

/-- The pattern `^[a-z][a-z0-9_]{0,31}$`. -/
def isVendorId (value : String) : Bool :=
  match value.toList with
  | [] => false
  | c :: rest =>
    c.isLower && decide (rest.length ≤ 31) && rest.all (fun d => d.isLower || d.isDigit || d == '_')

/-- A vendor id that has passed `validate_vendor_id`. -/
structure VendorId where
  text : String
  valid : isVendorId text = true
  deriving DecidableEq

/-- `PRIMARY_VENDOR_ID`. -/
def primaryVendorId : VendorId := ⟨"zhihui", by decide⟩

inductive Category
  | verify
  | notice
  | market
  deriving DecidableEq

/-- A registered vendor.  Buckets, pause keys and credential domains are not
read by any routing decision. -/
structure VendorRecord where
  vendorId : VendorId
  enabled : Bool
  categories : List Category
  adapter : String

/-- One recorded attempt as the router sees it. -/
structure VendorAttempt where
  vendorId : VendorId
  generation : ℕ
  outcome : AttemptOutcome
  safeToFailover : Bool
  vendorCode : Option ℤ
  deriving DecidableEq

structure VendorHealth where
  vendorId : VendorId
  available : Bool
  deriving DecidableEq

/-! ## Error codes -/

/-- What the platform does about a vendor error. -/
structure VendorErrorPolicy where
  retryDelays : List ℕ := []
  delay : Option ℕ := none
  pauseQueues : Bool := false
  balanceBlocked : Bool := false
  shrinkBatchOnce : Bool := false
  safeToFailover : Bool := false
  deriving DecidableEq

/-- `BACKOFF_DELAYS_S`. -/
def backoffDelays : List ℕ := [1, 2, 4, 8, 16]

/-- `DELAYED_RETRY_LIMIT`. -/
def delayedRetryLimit : ℕ := 8

/-- `DELAYED_RETRY_EXHAUSTED`. -/
def delayedRetryExhausted : String := "delayed_retry_exhausted"

/-- The entries of `ERROR_POLICIES` that ask for anything but failure. -/
def errorPolicies : List (ℤ × VendorErrorPolicy) :=
  [ (429, { retryDelays := backoffDelays }), (999, { balanceBlocked := true, pauseQueues := true }),
    (1000, { pauseQueues := true }),
    (1006, { shrinkBatchOnce := true }),
    (1009, { pauseQueues := true }),
    (1011, { delay := some 1800 }),
    (5000, { pauseQueues := true }),
    (5002, { retryDelays := backoffDelays }),
    (5003, { retryDelays := backoffDelays }),
    (10003, { pauseQueues := true }),
    (10004, { pauseQueues := true }),
    (10010, { delay := some 300 }) ]

/-- `SAFE_TO_FAILOVER_CODES`. -/
def safeToFailoverCodes : List ℤ :=
  [999, 1000, 1001, 1002, 1003, 1005, 1008, 1009, 1010, 1012, 5000, 10000, 10001,
    10002, 10003, 10004, 10005, 10007, 10008]

def policyFor (code : ℤ) : VendorErrorPolicy :=
  let policy := (errorPolicies.lookup code).getD {}
  if code ∈ safeToFailoverCodes then { policy with safeToFailover := true } else policy

inductive Followup
  | hold
  | failoverOrFail
  | fail
  deriving DecidableEq

/-- The pause table maps each of its codes to `hold`, which is also the answer
for a code outside of it. -/
def followupForPolicy (policy : VendorErrorPolicy) : Followup :=
  if policy.balanceBlocked || policy.pauseQueues then .hold
  else if policy.safeToFailover then .failoverOrFail
  else .fail

/-! ## Routing -/

inductive RouteAction
  | invoke
  | hold
  | terminalUncertain
  | terminalFailed
  | exhausted
  deriving DecidableEq

structure RouteDecision where
  action : RouteAction
  vendorId : Option VendorId
  reason : String
  generation : ℕ
  deriving DecidableEq

structure RouteRequest where
  registered : List VendorId
  attempts : List VendorAttempt
  health : List VendorHealth

/-- The registered vendors that are available and have neither rejected the
chunk nor been skipped. -/
def candidates (request : RouteRequest) : List VendorId :=
  let available := (request.health.filter VendorHealth.available).map VendorHealth.vendorId
  let ruledOut := (request.attempts.filter (fun item =>
    item.outcome = .rejected || item.outcome = .notInvoked)).map VendorAttempt.vendorId
  request.registered.filter (fun vendorId => vendorId ∈ available && vendorId ∉ ruledOut)

/-- The choice among the candidates, when no attempt stands in the way. -/
def chooseCandidate (request : RouteRequest) (previous : Option VendorAttempt) :
    RouteDecision :=
  let generation := (previous.map (fun item => item.generation + 1)).getD 1
  match candidates request, previous with
  | [], some item =>
    if item.outcome = .rejected then
      ⟨.terminalFailed, some item.vendorId, "failover_exhausted", item.generation⟩
    else ⟨.exhausted, none, "no_available_vendor", generation⟩
  | [], none => ⟨.exhausted, none, "no_available_vendor", generation⟩
  | chosen :: _, none =>
    ⟨.invoke, some chosen, if request.registered.head? = some chosen then "primary"
      else "pre_invoke_unavailable", generation⟩
  | chosen :: _, some item =>
    ⟨.invoke, some chosen, if item.outcome = .rejected && item.safeToFailover then "safe_failover"
      else "pre_invoke_unavailable", generation⟩

/-- `decide` of the router. -/
def decideRoute (request : RouteRequest) : RouteDecision :=
  if request.registered = [] then ⟨.exhausted, none, "empty_registry", 0⟩
  else
    match (request.attempts.filter (fun item => item.outcome.isIrreversible)).getLast? with
    | some last =>
      match last.outcome with
      | .uncertain =>
        ⟨.terminalUncertain, some last.vendorId, "uncertain_blocks_failover", last.generation⟩
      | .invoking =>
        ⟨.terminalUncertain, some last.vendorId, "invoking_blocks_failover", last.generation⟩
      | _ => ⟨.terminalFailed, some last.vendorId, "already_submitted", last.generation⟩
    | none =>
      match request.attempts.getLast? with
      | none => chooseCandidate request none
      | some previous =>
        if previous.outcome.isHold then
          ⟨.invoke, some previous.vendorId, "same_vendor_retry", previous.generation + 1⟩
        else if previous.outcome = .rejected && !previous.safeToFailover then
          ⟨.terminalFailed, some previous.vendorId, "failover_exhausted", previous.generation⟩
        else chooseCandidate request (some previous)

/-! ## Failover -/

inductive NextAction
  | failed
  | failoverPending
  | retrying
  | balanceBlocked
  deriving DecidableEq

structure PersistedNextAction where
  action : NextAction
  nextVendor : Option VendorId
  routeGeneration : ℕ
  previousAttemptId : ℕ
  routePolicyVersion : ℕ
  deriving DecidableEq

/-- The vendors a store knows and the adapters it has. -/
structure Registry where
  records : List VendorRecord
  adapterIds : List String

/-- `default_vendor_registry`, with the one adapter of the production worker. -/
def defaultVendorRegistry : Registry where
  records := [⟨primaryVendorId, true, [.verify, .notice, .market], "zhihui"⟩]
  adapterIds := ["zhihui"]

def vendorMatchesRoute (adapterIds : List String) (category : Category)
    (record : VendorRecord) : Bool :=
  record.enabled && decide (category ∈ record.categories) &&
    decide (record.adapter ≠ "") && decide (record.adapter ∈ adapterIds)

def eligibleVendorIds (registry : Registry) (category : Category) : List VendorId :=
  (registry.records.filter (vendorMatchesRoute registry.adapterIds category)).map
    VendorRecord.vendorId

def decideNextAfterReject (registry : Registry) (category : Category)
    (attempts : List VendorAttempt) : RouteDecision :=
  let registered := eligibleVendorIds registry category
  decideRoute ⟨registered, attempts, registered.map (fun vendorId => ⟨vendorId, true⟩)⟩

def nextActionAfterSafeReject (registry : Registry) (category : Category)
    (attempts : List VendorAttempt) (previousAttemptId policyVersion : ℕ) :
    PersistedNextAction :=
  let decision := decideNextAfterReject registry category attempts
  let last := attempts.getLast?
  let generation := (last.map VendorAttempt.generation).getD 0
  let failed : PersistedNextAction := ⟨.failed, none, generation, previousAttemptId, policyVersion⟩
  match decision.action, decision.vendorId with
  | .invoke, some vendorId =>
    if last.map VendorAttempt.vendorId = some vendorId then failed
    else ⟨.failoverPending, some vendorId, generation, previousAttemptId, policyVersion⟩
  | _, _ => failed

/-- What a claim of the next hop compares with the locked rows. -/
structure ClaimRequest where
  chunkId : ℕ
  expectedRouteGeneration : ℕ
  previousAttemptId : ℕ
  expectedNextVendor : VendorId
  expectedRoutePolicyVersion : ℕ
  deriving DecidableEq

/-- The locked rows a claim is checked against. -/
structure ClaimFacts where
  chunkStatus : ChunkStatus
  batchStatus : BatchStatus
  category : Category
  routeGeneration : ℕ
  routePolicyVersion : ℕ
  nextVendor : Option VendorId
  previous : Option VendorAttempt
  outcomes : List AttemptOutcome

/-- The reason to refuse a claim.  `previous` is looked up among the attempts
of the chunk itself, and the retry time is checked by a statement of its own. -/
def claimDeniedReason (registry : Registry) (request : ClaimRequest) (facts : ClaimFacts) :
    Option String :=
  if facts.chunkStatus.isIsolating then
    some ("chunk_" ++ facts.chunkStatus.text)
  else if facts.chunkStatus ≠ .failoverPending then some "chunk_not_claimable"
  else if !facts.batchStatus.isActive then some "batch_not_callable"
  else if facts.routeGeneration ≠ request.expectedRouteGeneration then
    some "generation_mismatch"
  else if facts.routePolicyVersion ≠ request.expectedRoutePolicyVersion then
    some "policy_version_mismatch"
  else
    match facts.previous with
    | none => some "previous_attempt_mismatch"
    | some previous =>
      if previous.generation ≠ request.expectedRouteGeneration then
        some "previous_generation_mismatch"
      else if previous.outcome ≠ .rejected then some "previous_not_rejected"
      else if !previous.safeToFailover then some "previous_not_safe_reject"
      else if facts.nextVendor ≠ some request.expectedNextVendor then
        some "next_vendor_mismatch"
      else if facts.outcomes.any AttemptOutcome.isBlocking then some "blocking_attempt"
      else
        match registry.records.reverse.find?
            (fun record => record.vendorId = request.expectedNextVendor) with
        | none => some "vendor_not_eligible"
        | some record =>
          if vendorMatchesRoute registry.adapterIds facts.category record then none
          else some "vendor_not_eligible"

/-- The next hop is already being invoked. -/
def alreadyHandled (request : ClaimRequest) (chunkStatus : ChunkStatus)
    (invoking : Option VendorAttempt) : Bool :=
  match invoking with
  | none => false
  | some item =>
    decide (chunkStatus = .submitting) && decide (item.vendorId = request.expectedNextVendor) &&
      decide (item.generation = request.expectedRouteGeneration + 1)

def historicalSafeRejectRepairable (chunkStatus : ChunkStatus)
    (attempts : List VendorAttempt) : Bool :=
  decide (chunkStatus = .submitting) && !attempts.any (fun item => item.outcome.isBlocking) &&
    attempts.getLast?.any (fun last => decide (last.outcome = .rejected) && last.safeToFailover)

end SmsPlatform.Vendor
