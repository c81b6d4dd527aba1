import SmsPlatform.Usage.Subjects

/-!
# Frequency decisions

`_allow_frequency_chunk`: the recipients of a chunk are resolved, decisions that have been made
for the reservation are repeated, and the others are made by counting the entries of live
reservations.
-/

namespace SmsPlatform.Usage

open Support

structure FrequencyLimits where
  verifyPerMinute : ℕ
  verifyPerDay : ℕ
  marketPerDay : ℕ

/-- `_frequency_projection_keys`: the scopes that a category is limited in.  Notices are not
limited, and none of these functions is called for them. -/
def Category.scopes (appId : ℕ) : Category → List FrequencyScope
  | .verify => [.verifyMinute, .verifyDay]
  | .notice | .market => [.market appId]

def FrequencyLimits.limit (limits : FrequencyLimits) : FrequencyScope → ℕ
  | .verifyMinute => limits.verifyPerMinute
  | .verifyDay => limits.verifyPerDay
  | .market _ => limits.marketPerDay

/-- The counted entries of live reservations for a recipient, a scope and a window. -/
def Db.countedFor (db : Db) (subjectId : ℕ) (scope : FrequencyScope) (windowKey : ℕ) : ℕ :=
  db.frequencyEntries.rows.countP (fun e =>
    decide (e.subjectId = subjectId ∧ e.key.scope = scope ∧ e.windowKey = windowKey) && e.counted &&
      db.isLive e.reservationId)

/-- What is decided on: the reservation, the scopes, the limits and the time of the request. -/
structure FrequencyRequest where
  reservationId : ℕ
  appId : ℕ
  category : Category
  limits : FrequencyLimits
  now : ℕ

namespace FrequencyRequest

variable (q : FrequencyRequest)

def scopes : List FrequencyScope := q.category.scopes q.appId

/-- The recipient is below the limit of every scope. -/
def allows (db : Db) (subjectId : ℕ) : Bool :=
  q.scopes.all (fun scope =>
    decide (db.countedFor subjectId scope (scope.window q.now) + 1 ≤ q.limits.limit scope))

def entries (s : ResolvedSubject) (allowed : Bool) : List FrequencyEntry :=
  q.scopes.map fun scope =>
    ⟨q.reservationId, s.subjectId, ⟨scope, s.projectionHmac⟩, scope.window q.now, allowed⟩

def changes (s : ResolvedSubject) : List ProjectionChange :=
  q.scopes.map fun scope =>
    { key := .frequency ⟨scope, s.projectionHmac⟩
      windowKey := scope.window q.now
      delta := 1
      expiresAt := scope.expiresAt (scope.window q.now)
      resetOnWindowChange := true }

end FrequencyRequest

/-- One round of the loop that puts the changes of one key together. -/
def addRaise (merged : List ProjectionChange) (c : ProjectionChange) : List ProjectionChange :=
  if merged.any (fun m => decide (m.key = c.key)) then
    merged.map (fun m => if m.key = c.key then
      { c with delta := m.delta + c.delta, expiresAt := max m.expiresAt c.expiresAt } else m)
  else merged ++ [c]

/-- The recipients of the new decisions, each once. -/
def uniqueSubjects (subjects : List ResolvedSubject) : List ResolvedSubject :=
  subjects.foldl (fun unique s =>
    if unique.any (fun t => decide (t.subjectId = s.subjectId)) then unique else unique ++ [s]) []

/-- `_insert_frequency_decisions`; the decisions of the recipients, which the items then read. -/
def insertFrequencyDecisions (db : Db) (q : FrequencyRequest) (subjects : List ResolvedSubject) :
    Except UsageError Db := do
  let unique := uniqueSubjects subjects
  require (∀ s ∈ unique, (db.subjects.find? s.subjectId).isSome = true) .integrityError
  let frequencyEntries ← orFail .integrityError (db.frequencyEntries.insertAll?
    (unique.flatMap fun s => q.entries s (q.allows db s.subjectId)))
  let projections ← db.projections.change
    (((unique.filter fun s => q.allows db s.subjectId).flatMap q.changes).foldl addRaise [])
  pure { db with frequencyEntries := frequencyEntries, projections := projections }

/-- The entries of the reservation for a recipient. -/
def Db.decided (db : Db) (reservationId subjectId : ℕ) : List FrequencyEntry :=
  db.frequencyEntries.rows.filter (fun e =>
    decide (e.reservationId = reservationId ∧ e.subjectId = subjectId))

/-- The decision has been made before: there is an entry for every window kind that is
expected, and no other. -/
def FrequencyRequest.isReplay (q : FrequencyRequest) (db : Db) (subjectId : ℕ) : Bool :=
  (q.scopes.all fun scope => (db.decided q.reservationId subjectId).any fun e =>
    decide (e.key.scope.windowKind = scope.windowKind)) &&
  ((db.decided q.reservationId subjectId).all fun e => q.scopes.any fun scope =>
    decide (e.key.scope.windowKind = scope.windowKind))

/-- `_decide_frequency_many_on_connection`. -/
def decideFrequencyMany (db : Db) (q : FrequencyRequest) (subjects : List ResolvedSubject) :
    Except UsageError (Db × List Bool) := do
  require (∀ s ∈ subjects, q.isReplay db s.subjectId = true ∨
    (db.decided q.reservationId s.subjectId).isEmpty = true) .partialDecision
  let new := subjects.filter (fun s => !q.isReplay db s.subjectId)
  let db' ← insertFrequencyDecisions db q new
  pure (db', subjects.map fun s =>
    if q.isReplay db s.subjectId then
      (db.decided q.reservationId s.subjectId).all FrequencyEntry.counted
    else q.allows db s.subjectId)

/-- `_allow_frequency_chunk`. -/
def allowFrequencyChunk (db : Db) (q : FrequencyRequest) (items : List FrequencyItem)
    (observed : ℕ) : Except UsageError (Db × List Bool) := do
  let r ← orFail .reservationNotWritable (db.reservations.find? q.reservationId)
  require (r.state = .reserved) .reservationNotWritable
  require (r.appId = q.appId ∧ r.category = q.category ∧ r.usageDate = shanghaiDay q.now)
    .contractChanged
  let (db, subjects) ← ensureFrequencySubjectsMany db items observed
  decideFrequencyMany db q subjects

/-- `allow_frequency_many` for one chunk: notices are allowed without a transaction. -/
def allowFrequency (db : Db) (q : FrequencyRequest) (items : List FrequencyItem) (observed : ℕ) :
    Except UsageError (Db × List Bool) :=
  if q.category = .notice then .ok (db, items.map fun _ => true)
  else allowFrequencyChunk db q items observed

end SmsPlatform.Usage
