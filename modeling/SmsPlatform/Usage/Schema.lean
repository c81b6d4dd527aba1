import SmsPlatform.Support.Postings
import SmsPlatform.Support.Table

/-!
# The usage ledger: tables

Reservations, their quota and frequency entries, the recipients that frequency entries are
about, the aliases by which a recipient is known, and the batches that reservations are linked
to.  The text of a projection key determines its dimension and, for a quota, the day, and the
other way round, so that a key is modelled by what it says.
-/

namespace SmsPlatform.Usage

/-! ## Days and windows -/

/-- `shanghai_day`: the number of the natural day, eight hours ahead of UTC.  The summer time
of 1986 to 1991 concerns past instants only and is left out. -/
def shanghaiDay (now : ℕ) : ℕ := (now + 28800) / 86400

/-- The boundary at which a natural day ends. -/
def nextDay (day : ℕ) : ℕ := (day + 1) * 86400 - 28800

inductive Category
  | verify
  | notice
  | market
  deriving DecidableEq

inductive WindowKind
  | minute
  | day
  deriving DecidableEq

/-- What a frequency is counted over besides the recipient: verification codes over all
applications, marketing for each of them. -/
inductive FrequencyScope
  | verifyMinute
  | verifyDay
  | market (appId : ℕ)
  deriving DecidableEq

namespace FrequencyScope

def windowKind : FrequencyScope → WindowKind
  | .verifyMinute => .minute
  | .verifyDay | .market _ => .day

/-- `frequency_windows`: the window of a time, UTC minutes or natural days. -/
def window (scope : FrequencyScope) (now : ℕ) : ℕ :=
  match scope.windowKind with
  | .minute => now / 60
  | .day => shanghaiDay now

/-- The natural day of a window. -/
def usageDate (scope : FrequencyScope) (windowKey : ℕ) : ℕ :=
  match scope.windowKind with
  | .minute => shanghaiDay (60 * windowKey)
  | .day => windowKey

/-- The boundary at which a window ends. -/
def expiresAt (scope : FrequencyScope) (windowKey : ℕ) : ℕ :=
  match scope.windowKind with
  | .minute => 60 * (windowKey + 1)
  | .day => nextDay windowKey

theorem expiresAt_mono (scope : FrequencyScope) {w v : ℕ} (h : w ≤ v) :
    scope.expiresAt w ≤ scope.expiresAt v := by
  unfold expiresAt
  cases scope.windowKind with
  | minute =>
    show 60 * (w + 1) ≤ 60 * (v + 1)
    omega
  | day =>
    show (w + 1) * 86400 - 28800 ≤ (v + 1) * 86400 - 28800
    omega

end FrequencyScope

/-! ## Keys of projections -/

inductive QuotaKind
  | app
  | dept
  | volume
  deriving DecidableEq

inductive QuotaDimension
  | app (appId : ℕ)
  | dept (dept : String)
  | volume (appId : ℕ) (category : Category)
  deriving DecidableEq

def QuotaDimension.kind : QuotaDimension → QuotaKind
  | .app _ => .app
  | .dept _ => .dept
  | .volume _ _ => .volume

/-- `quota:app:1:20260115` and the like. -/
structure QuotaKey where
  dimension : QuotaDimension
  date : ℕ
  deriving DecidableEq

/-- `freq:v:<hmac>:m` and the like; a digest is modelled by the number it writes. -/
structure FrequencyKey where
  scope : FrequencyScope
  hmac : ℕ
  deriving DecidableEq

inductive DimensionKey
  | quota (key : QuotaKey)
  | frequency (key : FrequencyKey)
  deriving DecidableEq

/-! ## Reservations -/

inductive ReservationState
  | reserved
  | committed
  | releaseRequested
  | released
  | uncertain
  deriving DecidableEq

namespace ReservationState

/-- The amounts of the reservation count. -/
def isLive : ReservationState → Bool
  | .reserved | .committed | .uncertain => true
  | .releaseRequested | .released => false

/-- `_ACTIVE_RESERVATION_STATES`. -/
def isActive : ReservationState → Bool
  | .reserved | .committed | .uncertain | .releaseRequested => true
  | .released => false

end ReservationState

inductive SubjectKind
  | apiApp
  | systemEffect
  deriving DecidableEq

/-- Why a reservation without a batch is released. -/
inductive UnlinkedReason
  | acceptanceFailed
  | allFiltered
  | idempotentReuse
  | orphanRecovery
  | uncertainRetry
  deriving DecidableEq

/-- Why the reservation of a batch is released. -/
inductive LinkedReason
  | cancelled
  | approvalRejected (approvalId : ℕ)
  | approvalExpired (approvalId : ℕ)
  | uncertainUnused
  deriving DecidableEq

/-- `RELEASE_EVENT_ID_PATTERN`. -/
inductive ReleaseEvent
  | cancelled (batchId : ℕ)
  | approvalRejected (approvalId : ℕ)
  | approvalExpired (approvalId : ℕ)
  | uncertainUnused (reservationId : ℕ)
  | unlinked (reservationId : ℕ) (reason : UnlinkedReason)
  deriving DecidableEq

/-- A row of `usage_reservation`. -/
structure Reservation where
  id : ℕ
  requestKey : String
  appId : ℕ
  subjectKind : SubjectKind
  dept : String
  category : Category
  usageDate : ℕ
  state : ReservationState
  quotaCost : ℕ
  appLimit : ℕ
  deptLimit : ℕ
  releaseEvent : Option ReleaseEvent
  deriving DecidableEq

/-! ## Entries -/

/-- A row of `usage_quota_entry`. -/
structure QuotaEntry where
  reservationId : ℕ
  key : QuotaKey
  amount : ℕ
  expiresAt : ℕ
  deriving DecidableEq

def QuotaEntry.primaryKey (e : QuotaEntry) : ℕ × QuotaKind :=
  (e.reservationId, e.key.dimension.kind)

/-- A row of `usage_frequency_entry`.  Category, application and window kind are those of the
scope; day and expiry are written together with the window and are determined by it. -/
structure FrequencyEntry where
  reservationId : ℕ
  subjectId : ℕ
  key : FrequencyKey
  windowKey : ℕ
  counted : Bool
  deriving DecidableEq

namespace FrequencyEntry

def primaryKey (e : FrequencyEntry) : ℕ × ℕ × WindowKind :=
  (e.reservationId, e.subjectId, e.key.scope.windowKind)

def expiresAt (e : FrequencyEntry) : ℕ := e.key.scope.expiresAt e.windowKey

def usageDate (e : FrequencyEntry) : ℕ := e.key.scope.usageDate e.windowKey

/-- `CASE WHEN counted THEN 1 ELSE 0 END`. -/
def amount (e : FrequencyEntry) : ℕ := if e.counted then 1 else 0

end FrequencyEntry

/-! ## Recipients and batches -/

/-- A row of `usage_frequency_subject`. -/
structure FrequencySubject where
  id : ℕ
  projectionHmac : ℕ
  deriving DecidableEq

/-- A row of `usage_frequency_alias`. -/
structure FrequencyAlias where
  subjectId : ℕ
  keyVersion : ℕ
  phoneHmac : ℕ
  deriving DecidableEq

/-- What the ledger reads of `sms_batch`. -/
structure Batch where
  id : ℕ
  usageReservationId : Option ℕ
  deriving DecidableEq

/-! ## Failures -/

/-- The failures that end a transaction. -/
inductive UsageError
  | invalidReservation
  | invalidQuota
  | reservationUnavailable
  | reservationNotWritable
  | contractChanged
  | quotaExceeded
  | commitConflict
  | releaseEventChanged
  | releaseStateConflict
  | duplicateDimensions
  | mixedDirections
  | projectionConflict
  | subjectUnavailable
  | aliasConflict
  | partialDecision
  | clockSkew
  | newestWindowMissing
  | integrityError
  deriving DecidableEq

end SmsPlatform.Usage
