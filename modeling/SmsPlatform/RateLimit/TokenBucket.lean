import SmsPlatform.Support.Expiring
import SmsPlatform.Support.Machine
import Mathlib.Data.Rat.Floor

/-!
# The vendor token bucket

`core/ratelimit.py` keeps one Redis hash per vendor with the fields `tokens` and
`last_ms` and changes it by two Lua scripts.  A script runs atomically and reads
the clock of Redis once; the key carries a deadline on the same clock.

Clock readings are milliseconds.  Lua's numbers are rationals here, since the
scripts test whether a stored number is whole.
-/

namespace SmsPlatform.RateLimit

open Support

/-- The lanes that share the bucket of a vendor. -/
inductive Lane
  | realtime
  | bulk
  deriving DecidableEq

/-- Capacity and reserve, as `TokenBucket.acquire` admits them. -/
structure BucketLimits where
  vendorQps : ℕ
  reservedRealtimeQps : ℕ
  reserved_lt : reservedRealtimeQps < vendorQps

/-- What the bucket key holds: the two hash fields as numbers, or a value of
another type. -/
inductive Stored
  | hash (tokens lastMs : Option ℚ)
  | other

/-- The state of a well formed bucket. -/
structure Bucket where
  tokens : ℕ
  lastMs : ℕ
  deriving DecidableEq

abbrev BucketKey := Option (Expiring Stored)

def Bucket.stored (b : Bucket) : Stored :=
  .hash (some b.tokens) (some b.lastMs)

def maxTokens : ℕ := 9007199254740991

def maxLastMs : ℕ := 9007199254740000

/-- The value of a number that is neither negative nor fractional. -/
def wholeNumber (x : ℚ) : Option ℕ :=
  if x < 0 ∨ x ≠ (⌊x⌋ : ℚ) then none else some ⌊x⌋.toNat

def readField (field : Option ℚ) (bound : ℕ) : Option ℕ :=
  (field.bind wholeNumber).filter (fun n => decide (n ≤ bound))

/-- Refill by whole seconds.  A clock that went back freezes the budget and
keeps the high-water mark. -/
def refill (capacity now : ℕ) (b : Bucket) : Bucket :=
  if now < b.lastMs then ⟨0, b.lastMs⟩
  else
    let elapsedSeconds := (now - b.lastMs) / 1000
    if 0 < elapsedSeconds then
      ⟨min capacity (b.tokens + elapsedSeconds * capacity), b.lastMs + elapsedSeconds * 1000⟩
    else b

/-- The bucket a script works on; `none` is the reply for a malformed key. -/
def loadBucket (capacity now : ℕ) : BucketKey → Option Bucket
  | none => some ⟨capacity, now⟩
  | some ⟨.other, _⟩ => none
  | some ⟨.hash tokens lastMs, _⟩ => do
      let tokens ← readField tokens maxTokens
      let lastMs ← readField lastMs maxLastMs
      some (refill capacity now ⟨tokens, lastMs⟩)

def admits (limits : BucketLimits) : Lane → ℕ → Bool
  | .realtime, tokens => decide (1 ≤ tokens)
  | .bulk, tokens => decide (limits.reservedRealtimeQps < tokens)

/-- Both scripts write the bucket with a deadline `ttl` after the reading. -/
def storeBucket (now ttl : ℕ) (b : Bucket) : BucketKey :=
  some ⟨b.stored, now + ttl⟩

/-- `TOKEN_BUCKET_LUA`: the epoch of the granted token, -1 for a refusal and -2
for a malformed key, with the key as the script leaves it. -/
def tokenBucketScript (limits : BucketLimits) (lane : Lane) (now : ℕ)
    (key : BucketKey) : ℤ × BucketKey :=
  match loadBucket limits.vendorQps now (Expiring.alive now key) with
  | none => (-2, Expiring.alive now key)
  | some b =>
    let tokens := min limits.vendorQps b.tokens
    let ttl := max 60000 (b.lastMs + 1000 - now)
    if admits limits lane tokens then
      (b.lastMs, storeBucket now ttl ⟨tokens - 1, b.lastMs⟩)
    else (-1, storeBucket now ttl ⟨tokens, b.lastMs⟩)

/-- `TOKEN_REFUND_LUA`: 1 if a token was returned and 0 if not; `none` is the
error that `HGET` raises on a key of another type. -/
def tokenRefundScript (capacity leaseEpoch now : ℕ) (key : BucketKey) :
    Option ℤ × BucketKey :=
  match Expiring.alive now key with
  | none => (some 0, none)
  | some ⟨.other, deadline⟩ => (none, some ⟨.other, deadline⟩)
  | some ⟨.hash (some tokens) (some lastMs), deadline⟩ =>
    let unchanged : BucketKey := some ⟨.hash (some tokens) (some lastMs), deadline⟩
    if lastMs ≠ (leaseEpoch : ℚ) then (some 0, unchanged)
    else if (now : ℚ) < lastMs ∨ lastMs + 1000 ≤ (now : ℚ) then (some 0, unchanged)
    else match wholeNumber tokens with
      | none => (some 0, unchanged)
      | some n => (some 1, storeBucket now 60000 ⟨min capacity (n + 1), leaseEpoch⟩)
  | some ⟨.hash tokens lastMs, deadline⟩ => (some 0, some ⟨.hash tokens lastMs, deadline⟩)

/-- What `TokenBucket.acquire` makes of the script's reply: a malformed key
raises, a refusal is `none`. -/
def leaseOfReply (reply : ℤ) : Except String (Option ℕ) :=
  if reply < -1 then .error "vendor token bucket state unavailable"
  else if reply < 0 then .ok none
  else .ok (some reply.toNat)

/-! ## Runs of the scripts -/

/-- A granted token: the epoch it carries and the reading it was granted at. -/
structure Grant where
  epoch : ℕ
  grantedAt : ℕ
  deriving DecidableEq

/-- The key, the grants that no refund has taken back, and the epochs the
bucket had after each script, latest first. -/
structure BucketWorld where
  key : BucketKey
  live : List Grant
  epochs : List ℕ

/-- A call of one of the scripts with the reading of the clock. -/
inductive BucketCall
  | acquire (lane : Lane) (now : ℕ)
  | refund (leaseEpoch now : ℕ)
  deriving DecidableEq

/-- The bucket that a key holds, if it is well formed. -/
def bucketOf : BucketKey → Option Bucket
  | some ⟨.hash (some tokens) (some lastMs), _⟩ => do
      some ⟨← wholeNumber tokens, ← wholeNumber lastMs⟩
  | _ => none

def epochOf (key : BucketKey) : Option ℕ :=
  (bucketOf key).map Bucket.lastMs

/-- A grant is recorded for every reply that is an epoch. -/
def recordGrant (now : ℕ) (reply : ℤ) (live : List Grant) : List Grant :=
  match leaseOfReply reply with
  | .ok (some epoch) => ⟨epoch, now⟩ :: live
  | _ => live

/-- A refund that returned a token takes back one grant of its epoch. -/
def recordRefund (leaseEpoch : ℕ) (reply : Option ℤ) (live : List Grant) : List Grant :=
  if reply = some 1 then live.eraseP (fun g => g.epoch == leaseEpoch) else live

def BucketWorld.step (limits : BucketLimits) (w : BucketWorld) :
    BucketCall → BucketWorld
  | .acquire lane now =>
    let (reply, key) := tokenBucketScript limits lane now w.key
    ⟨key, recordGrant now reply w.live, (epochOf key).toList ++ w.epochs⟩
  | .refund leaseEpoch now =>
    let (reply, key) := tokenRefundScript limits.vendorQps leaseEpoch now w.key
    ⟨key, recordRefund leaseEpoch reply w.live, (epochOf key).toList ++ w.epochs⟩

def BucketWorld.start : BucketWorld := ⟨none, [], []⟩

/-- The bucket of one vendor with fixed capacity and reserve; it starts without
a key. -/
def bucketMachine (limits : BucketLimits) : Machine BucketWorld BucketCall where
  init w := w = BucketWorld.start
  next w call := some (w.step limits call)

/-- The number of grants of an epoch that are not taken back. -/
def outstanding (live : List Grant) (epoch : ℕ) : ℕ :=
  (live.map Grant.epoch).count epoch

/-- Grants whose reading lies in the interval of `width` milliseconds from
`start` on. -/
def grantedWithin (live : List Grant) (start width : ℕ) : List Grant :=
  live.filter (fun g => decide (start ≤ g.grantedAt) && decide (g.grantedAt ≤ start + width))

end SmsPlatform.RateLimit
