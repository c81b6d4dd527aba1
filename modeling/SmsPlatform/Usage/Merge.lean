import SmsPlatform.Support.Text
import SmsPlatform.Usage.Repository

/-!
# Merging the projections of recipients

When several recipients turn out to be one, the projections of all of them are written to the
keys of one digest, the entries are moved to these keys and the other rows are deleted.

A row is used by its window only: the day and the expiry of a frequency window are determined by
it and do not go back when it goes on, so that the order of `_frequency_window_sort_key` is the
order of the windows.
-/

namespace SmsPlatform.Usage

open Support

/-- `_canonical_frequency_projection_key`. -/
def FrequencyKey.onto (canonical : ℕ) (k : FrequencyKey) : FrequencyKey :=
  { k with hmac := canonical }

/-- What the merge reads of a frequency row. -/
structure FrequencyRow where
  key : FrequencyKey
  windowKey : ℕ
  value : ℕ
  expiresAt : ℕ
  deriving DecidableEq

def Projection.frequencyRow? (p : Projection) : Option FrequencyRow :=
  match p.key with
  | .quota _ => none
  | .frequency key => some ⟨key, p.windowKey, p.value, p.expiresAt⟩

/-- `_list_frequency_projection_rows`. -/
def Db.frequencyRows (db : Db) (hmacs : List ℕ) : List FrequencyRow :=
  (db.projections.rows.rows.filterMap Projection.frequencyRow?).filter
    (fun row => decide (row.key.hmac ∈ hmacs))

/-! ## The window that remains -/

/-- A window with its value, as it is written. -/
structure MergedWindow where
  windowKey : ℕ
  value : ℕ
  expiresAt : ℕ
  deriving DecidableEq

def maxExpiry (expiries : List ℕ) : ℕ := expiries.foldl max 0

/-- The rows of a window. -/
def matching (rows : List FrequencyRow) (windowKey : ℕ) : List FrequencyRow :=
  rows.filter (fun row => decide (row.windowKey = windowKey))

/-- `_choose_frequency_merge_window` and the sum over the rows of that window. -/
def chooseMergeWindow (rows : List FrequencyRow) : Option MergedWindow :=
  (rows.map FrequencyRow.windowKey).max?.map fun windowKey =>
    { windowKey := windowKey
      value := ((matching rows windowKey).map FrequencyRow.value).sum
      expiresAt := maxExpiry ((matching rows windowKey).map FrequencyRow.expiresAt) }

/-- `FREQUENCY_MERGE_FUTURE_MINUTE_SKEW`. -/
def futureMinuteSkew : ℕ := 2

/-- `FREQUENCY_MERGE_FUTURE_DAY_SKEW`. -/
def futureDaySkew : ℕ := 1

/-- `_frequency_window_is_future_skewed`. -/
def isFutureSkewed (scope : FrequencyScope) (windowKey observed : ℕ) : Bool :=
  match scope.windowKind with
  | .minute => decide (observed / 60 + futureMinuteSkew < windowKey)
  | .day => decide (shanghaiDay observed + futureDaySkew < windowKey)

/-- The order of `(usage_date, str(window_key))`. -/
def FrequencyEntry.refLt (e f : FrequencyEntry) : Bool :=
  decide (e.usageDate < f.usageDate) ||
    (decide (e.usageDate = f.usageDate) && decide (natText e.windowKey < natText f.windowKey))

/-- The first greatest entry. -/
def pickRef : List FrequencyEntry → Option FrequencyEntry
  | [] => none
  | e :: es => some (es.foldl (fun best f => if best.refLt f then f else best) e)

/-- The window that the entries give where no row is left. -/
def refsWindow (refs : List FrequencyEntry) : Option MergedWindow :=
  (pickRef refs).map fun picked =>
    let same := refs.filter (fun e =>
      decide (e.usageDate = picked.usageDate ∧ e.windowKey = picked.windowKey))
    { windowKey := picked.windowKey
      value := same.length
      expiresAt := maxExpiry (same.map FrequencyEntry.expiresAt) }

/-- The window that `_write_expired_canonical_tombstone` writes. -/
def tombstoneWindow (sourceRows : List FrequencyRow) (refs : List FrequencyEntry) :
    Option MergedWindow :=
  match chooseMergeWindow sourceRows with
  | some m => some m
  | none => refsWindow refs

/-! ## The rows of one target -/

/-- What becomes of a target: the window that it has in the end, whether a live row has given
it, and whether it has to be written. -/
structure TargetOutcome where
  target : FrequencyKey
  window : MergedWindow
  isLive : Bool
  isWritten : Bool
  deriving DecidableEq

section

variable (db : Db) (canonical : ℕ) (subjects : List FrequencySubject) (observed : ℕ)

/-- The rows of the subjects. -/
def mergeRows : List FrequencyRow :=
  db.frequencyRows (subjects.map FrequencySubject.projectionHmac)

def mergeTargets : List FrequencyKey :=
  ((mergeRows db subjects).map (fun row => row.key.onto canonical)).dedup

def mergeGroup (target : FrequencyKey) : List FrequencyRow :=
  (mergeRows db subjects).filter (fun row => decide (row.key.onto canonical = target))

def mergeEntries : List FrequencyEntry :=
  db.frequencyEntries.rows.filter (fun e =>
    decide (e.subjectId ∈ subjects.map FrequencySubject.id))

/-- The keys of `remaps`: those of the rows, and those of entries that have to be moved. -/
def mergeSources : List FrequencyKey :=
  ((mergeRows db subjects).map FrequencyRow.key ++
    ((mergeEntries db subjects).map FrequencyEntry.key).filter
      (fun k => decide (k.onto canonical ≠ k))).dedup

/-- `_list_active_frequency_entry_refs`. -/
def activeRefs : List FrequencyEntry :=
  (mergeEntries db subjects).filter (fun e => e.counted && db.isActive e.reservationId)

def isReferenced (k : FrequencyKey) : Bool :=
  (activeRefs db subjects).any (fun e => decide (e.key = k))

/-- `needed_targets`. -/
def neededTargets : List FrequencyKey :=
  (activeRefs db subjects).map (fun e =>
    if e.key ∈ mergeSources db canonical subjects then e.key.onto canonical else e.key)

/-- The entries that refer to a target or to one of the keys that are moved to it. -/
def relatedRefs (target : FrequencyKey) : List FrequencyEntry :=
  (activeRefs db subjects).filter (fun e =>
    decide (e.key = target ∨
      (e.key ∈ mergeSources db canonical subjects ∧ e.key.onto canonical = target)))

/-- One round of the loop over the groups. -/
def targetOutcome (target : FrequencyKey) : Except UsageError (Option TargetOutcome) :=
  let group := mergeGroup db canonical subjects target
  let live := group.filter (fun row => decide (observed < row.expiresAt))
  match chooseMergeWindow live with
  | some m =>
    if isFutureSkewed target.scope m.windowKey observed then .error .clockSkew
    else .ok (some
      { target := target
        window := m
        isLive := true
        isWritten := group.any (fun row => decide (row.key ≠ target)) ||
          decide ((matching live m.windowKey).length ≠ 1) })
  | none =>
    if target ∈ neededTargets db canonical subjects then
      .ok ((tombstoneWindow group (relatedRefs db canonical subjects target)).map fun m =>
        { target := target
          window := m
          isLive := false
          isWritten := true })
    else .ok none

/-- The loop over `remaps`, for targets that no group has ensured. -/
def sourceTombstones : List FrequencyKey → List FrequencyKey → List TargetOutcome
  | [], _ => []
  | source :: sources, ensured =>
    let target := source.onto canonical
    if source = target ∨ target ∈ ensured ∨ target ∉ neededTargets db canonical subjects then
      sourceTombstones sources ensured
    else
      match tombstoneWindow [] ((activeRefs db subjects).filter
          (fun e => decide (e.key = source ∨ e.key = target))) with
      | some m =>
        { target := target
          window := m
          isLive := false
          isWritten := true } :: sourceTombstones sources (target :: ensured)
      | none => sourceTombstones sources ensured

/-- All targets that are ensured. -/
def mergeOutcomes : Except UsageError (List TargetOutcome) := do
  let groups ← (mergeTargets db canonical subjects).mapM
    (targetOutcome db canonical subjects observed)
  let ensured := groups.filterMap id
  pure (ensured ++ sourceTombstones db canonical subjects (mergeSources db canonical subjects)
    (ensured.map TargetOutcome.target))

/-- The keys that are moved: all sources but `protected_sources`. -/
def movedKeys (outcomes : List TargetOutcome) : List FrequencyKey :=
  (mergeSources db canonical subjects).filter (fun k =>
    decide (k.onto canonical ≠ k) &&
      !(isReferenced db subjects k &&
        decide (k.onto canonical ∉ outcomes.map TargetOutcome.target)))

end

/-! ## The merge -/

/-- `_write_absolute_frequency_projection`. -/
def Projections.writeWindow (ps : Projections) (o : TargetOutcome) : Projections :=
  ps.write
    { key := .frequency o.target
      windowKey := o.window.windowKey
      value := o.window.value
      version := 0
      expiresAt := o.window.expiresAt }

/-- `UPDATE usage_frequency_entry SET projection_key=:target_key`, for all keys that are
moved. -/
def keyRewrite (canonical : ℕ) (moved : List FrequencyKey) :
    Table.Update FrequencyEntry.primaryKey where
  applies e := decide (e.key ∈ moved)
  change e := { e with key := e.key.onto canonical }
  key_change _ := rfl

def Projections.delete (ps : Projections) (keys : List FrequencyKey) : Projections :=
  { ps with rows := ps.rows.keep (fun p => decide (p.key ∉ keys.map DimensionKey.frequency)) }

/-- `_merge_frequency_projections`. -/
def mergeFrequencyProjections (db : Db) (canonical : ℕ) (subjects : List FrequencySubject)
    (observed : ℕ) : Except UsageError Db := do
  let outcomes ← mergeOutcomes db canonical subjects observed
  let moved := movedKeys db canonical subjects outcomes
  let written :=
    (outcomes.filter TargetOutcome.isWritten).foldl Projections.writeWindow db.projections
  -- `_assert_canonical_holds_newest_window`
  require (∀ o ∈ outcomes, o.isLive = true →
    written.counter (.frequency o.target) = some (o.window.windowKey, o.window.value))
    .newestWindowMissing
  pure { db with
    frequencyEntries := db.frequencyEntries.apply (keyRewrite canonical moved)
    projections := written.delete moved }

end SmsPlatform.Usage
