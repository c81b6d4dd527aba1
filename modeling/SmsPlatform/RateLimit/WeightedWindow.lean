import SmsPlatform.Support.Expiring
import SmsPlatform.Support.Machine
import SmsPlatform.Support.SlidingLog
import Mathlib.Data.Rat.Floor

/-!
# The weighted send cost window of an application

`services/app_ratelimit.py` counts the recipients and the segments that an
application has sent in two Redis hashes of sixty slots each.  One Lua script
reads both, inherits what the frozen counters of the previous format still hold
for the window, and adds the cost of an accepted request to both.  The effective
second of a request never lies before the last one stored; the hashes expire
seventy seconds after the last accepted request, on the clock of Redis.

The global marker of the change of format is read and never written here, so
each request carries the marker it finds.
-/

namespace SmsPlatform.RateLimit

open Support

def costWindowSeconds : ℕ := 60

def costBucketTtlSeconds : ℕ := 70

/-! ## Stored data -/

/-- A hash of sixty slots and the last effective second counted in it. -/
structure Ring where
  slots : SlotRing
  lastEpoch : Option ℕ

abbrev RingKey := Option (Expiring Ring)

def slotsOf (key : RingKey) : SlotRing :=
  (key.map (fun k => k.value.slots)).getD SlotRing.empty

/-- A counter of the previous format: a hash from seconds to texts.  A field
holds the number its text stands for, if it stands for one. -/
inductive LegacyKey
  | missing
  | wrongType
  | hash (fields : ℤ → Option (Option ℤ))

/-- The frozen counters of the previous format. -/
structure Legacy where
  recipients : LegacyKey
  segments : LegacyKey

/-- The fields of the marker that the script reads; numbers where the script
converts the text. -/
structure Marker where
  state : Option String
  schemaVersion : Option String
  generation : Option ℚ
  fieldCount : ℕ
  targetWriterVersion : Option String
  minimumWriterVersion : Option String
  windowSeconds : Option String
  safetyMarginSeconds : Option String
  admissionReason : Option String
  fenceTime : Option ℚ
  notBefore : Option ℚ

inductive MarkerKey
  | missing
  | wrongType
  | hash (marker : Marker)

/-- A request as `consume_send_cost` lets it through to the script. -/
structure CostRequest where
  recipientCount : ℕ
  segmentCount : ℕ
  recipientLimit : ℕ
  segmentLimit : ℕ
  recipientCount_pos : 1 ≤ recipientCount
  segmentCount_pos : 1 ≤ segmentCount
  recipientLimit_pos : 1 ≤ recipientLimit
  segmentLimit_pos : 1 ≤ segmentLimit

/-! ## The script -/

def validGeneration : Option ℚ → Bool
  | some g => decide (1 ≤ g) && decide (g = (⌊g⌋ : ℚ))
  | none => false

def validNotBefore (clockSecond : ℕ) : Option ℚ → Option ℚ → Bool
  | some fence, some notBefore =>
    decide (fence + 65 ≤ notBefore) && decide (notBefore ≤ (clockSecond : ℚ))
  | _, _ => false

def Marker.active (clockSecond : ℕ) (m : Marker) : Bool :=
  m.state == some "active_v2" && m.schemaVersion == some "1" &&
  validGeneration m.generation && m.fieldCount == 11 &&
  m.targetWriterVersion == some "2" && m.minimumWriterVersion == some "2" &&
  m.windowSeconds == some "60" && m.safetyMarginSeconds == some "5" &&
  m.admissionReason == some "writer_cutover" &&
  validNotBefore clockSecond m.fenceTime m.notBefore

/-- The reply that the marker forces, if any. -/
def markerReply (clockSecond : ℕ) : MarkerKey → Option ℤ
  | .missing => some (-3)
  | .wrongType => some (-2)
  | .hash m => if m.active clockSecond then none else some (-4)

/-- The second a request counts for: the clock's, unless a later one is
stored. -/
def effectiveSecond (nowMs : ℕ) (recipients : RingKey) : ℕ :=
  match recipients.bind (fun k => k.value.lastEpoch) with
  | some last => if nowMs / 1000 < last then last else nowMs / 1000
  | none => nowMs / 1000

def ringTotal (nowSec : ℕ) (key : RingKey) : ℕ :=
  (slotsOf key).total costWindowSeconds nowSec

/-- The sum of the fields that are present; a text that is no number, or a
negative one, spoils it. -/
def sumFields : List (Option (Option ℤ)) → Option ℕ
  | [] => some 0
  | none :: fields => sumFields fields
  | some none :: _ => none
  | some (some weight) :: fields =>
    if weight < 0 then none else (sumFields fields).map (fun total => weight.toNat + total)

/-- What a frozen counter holds for the window; a field from the future spoils
it. -/
def v1Active (nowSec : ℕ) : LegacyKey → Option ℕ
  | .missing => some 0
  | .wrongType => none
  | .hash fields =>
    match sumFields ((List.range 60).map (fun i => fields ((nowSec : ℤ) - 59 + i))) with
    | none => none
    | some total =>
      if (List.range 59).all (fun i => (fields ((nowSec : ℤ) + 1 + i)).isNone) then
        some total
      else none

/-- The amount a new cost is held against. -/
def inherit (v1 v2 : ℕ) : ℕ :=
  if v2 < v1 then v1 else v2

/-- The part of the frozen counter that is added along with a cost. -/
def foldedShare (v1 v2 : ℕ) : ℕ :=
  if v2 < v1 then v1 - v2 else 0

def ringAdd (nowMs nowSec weight : ℕ) (key : RingKey) : RingKey :=
  some ⟨⟨(slotsOf key).add costWindowSeconds nowSec weight, some nowSec⟩,
    nowMs + costBucketTtlSeconds * 1000⟩

/-- What the script decides once both rings and both frozen counters are
read. -/
def withinLimits (request : CostRequest) (v1Rec v2Rec v1Seg v2Seg : ℕ) : Bool :=
  decide (inherit v1Rec v2Rec + request.recipientCount ≤ request.recipientLimit) &&
    decide (inherit v1Seg v2Seg + request.segmentCount ≤ request.segmentLimit)

/-- `WEIGHTED_WINDOW_LUA`: 1 for an accepted request, 0 for one over a limit and
a negative number when the control data is unusable. -/
def weightedWindowScript (legacy : Legacy) (marker : MarkerKey) (request : CostRequest)
    (nowMs : ℕ) (recipients segments : RingKey) : ℤ × RingKey × RingKey :=
  let recipients := Expiring.alive nowMs recipients
  let segments := Expiring.alive nowMs segments
  let nowSec := effectiveSecond nowMs recipients
  match markerReply (nowMs / 1000) marker with
  | some reply => (reply, recipients, segments)
  | none =>
    let v2Rec := ringTotal nowSec recipients
    let v2Seg := ringTotal nowSec segments
    match v1Active nowSec legacy.recipients, v1Active nowSec legacy.segments with
    | some v1Rec, some v1Seg =>
      if withinLimits request v1Rec v2Rec v1Seg v2Seg then
        (1, ringAdd nowMs nowSec (request.recipientCount + foldedShare v1Rec v2Rec) recipients,
          ringAdd nowMs nowSec (request.segmentCount + foldedShare v1Seg v2Seg) segments)
      else (0, recipients, segments)
    | _, _ => (-2, recipients, segments)

/-- What `consume_send_cost` makes of the reply. -/
inductive CostOutcome
  | accepted
  | exceeded
  | unavailable
  deriving DecidableEq

def costOutcome (reply : ℤ) : CostOutcome :=
  if reply < 0 then .unavailable else if reply = 0 then .exceeded else .accepted

/-! ## Runs of requests -/

/-- An accepted request: its effective second, its cost and limits, what the
frozen counters held and how much of it was added. -/
structure Accepted where
  epoch : ℕ
  request : CostRequest
  legacyRecipients : ℕ
  legacySegments : ℕ
  foldedRecipients : ℕ
  foldedSegments : ℕ

/-- The two rings and the accepted requests, latest first. -/
structure WindowWorld where
  recipients : RingKey
  segments : RingKey
  log : List Accepted

/-- A request with the marker and the clock reading it meets. -/
structure CostCall where
  marker : MarkerKey
  request : CostRequest
  nowMs : ℕ

/-- The entry of the log for an accepted request. -/
def acceptedEntry (legacy : Legacy) (w : WindowWorld) (call : CostCall) : Accepted :=
  let recipients := Expiring.alive call.nowMs w.recipients
  let segments := Expiring.alive call.nowMs w.segments
  let nowSec := effectiveSecond call.nowMs recipients
  let v1Rec := (v1Active nowSec legacy.recipients).getD 0
  let v1Seg := (v1Active nowSec legacy.segments).getD 0
  { epoch := nowSec
    request := call.request
    legacyRecipients := v1Rec
    legacySegments := v1Seg
    foldedRecipients := foldedShare v1Rec (ringTotal nowSec recipients)
    foldedSegments := foldedShare v1Seg (ringTotal nowSec segments) }

def WindowWorld.step (legacy : Legacy) (w : WindowWorld) (call : CostCall) : WindowWorld :=
  let (reply, recipients, segments) :=
    weightedWindowScript legacy call.marker call.request call.nowMs w.recipients w.segments
  match costOutcome reply with
  | .accepted => ⟨recipients, segments, acceptedEntry legacy w call :: w.log⟩
  | _ => ⟨recipients, segments, w.log⟩

def WindowWorld.start : WindowWorld := ⟨none, none, []⟩

/-- The window of one application over frozen counters; it starts without the
two rings. -/
def windowMachine (legacy : Legacy) : Machine WindowWorld CostCall where
  init w := w = WindowWorld.start
  next w call := some (w.step legacy call)

end SmsPlatform.RateLimit
