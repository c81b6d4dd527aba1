import SmsPlatform.Usage.Merge

/-!
# Recipients and their aliases

A recipient of frequency decisions is known by digests of its number, one for each version of
the key.  `_ensure_frequency_subjects_many` finds the recipient of every item of a chunk, creates
the ones that are missing, and merges recipients that an item shows to be one.
-/

namespace SmsPlatform.Usage

open Support

/-- `FrequencyDecisionItem`, validated; the digests stand in the order of the key versions. -/
structure FrequencyItem where
  phoneHmac : ℕ
  aliases : List (ℕ × ℕ)
  sorted : (aliases.map Prod.fst).Pairwise (· < ·)
  version_pos : ∀ a ∈ aliases, 1 ≤ a.1
  phoneHmac_mem : phoneHmac ∈ aliases.map Prod.snd

namespace FrequencyItem

def digests (item : FrequencyItem) : List ℕ := item.aliases.map Prod.snd

theorem aliases_ne_nil (item : FrequencyItem) : item.aliases ≠ [] := by
  intro hnil
  have hmem := item.phoneHmac_mem
  rw [hnil] at hmem
  exact List.not_mem_nil hmem

/-- `hmac_aliases[min(hmac_aliases)]`. -/
def preferredDigest (item : FrequencyItem) : ℕ := (item.aliases.head item.aliases_ne_nil).2

end FrequencyItem

variable (db : Db) (item : FrequencyItem)

/-- `ResolvedFrequencySubject`, for the item with this digest. -/
structure ResolvedSubject where
  phoneHmac : ℕ
  subjectId : ℕ
  projectionHmac : ℕ
  deriving DecidableEq

/-- The recipient that a digest is bound to. -/
def Db.subjectOf (phoneHmac : ℕ) : Option ℕ :=
  (db.aliases.find? phoneHmac).map FrequencyAlias.subjectId

/-- `_item_subject_ids`. -/
def itemSubjectIds (aliasMap : ℕ → Option ℕ) : List ℕ :=
  (item.digests.filterMap aliasMap).dedup

/-! ## Creating and binding -/

/-- `INSERT INTO usage_frequency_subject` with an id that is not in use. -/
def createSubject (projectionHmac : ℕ) : Except UsageError Db := do
  require (∀ s ∈ db.subjects.rows, s.projectionHmac ≠ projectionHmac) .integrityError
  let subjects ← orFail .integrityError
    (db.subjects.insertAll? [⟨db.nextSubjectId, projectionHmac⟩])
  pure { db with
    subjects := subjects
    nextSubjectId := db.nextSubjectId + 1
    origins := Function.update db.origins db.nextSubjectId 1 }

/-- `INSERT INTO usage_frequency_alias ... ON CONFLICT(phone_hmac) DO NOTHING`, for one row. -/
def bindAlias (a : FrequencyAlias) : Except UsageError Db :=
  if (db.aliases.find? a.phoneHmac).isSome then .ok db
  else do
    require ((db.subjects.find? a.subjectId).isSome = true ∧
      ∀ b ∈ db.aliases.rows, ¬ (b.subjectId = a.subjectId ∧ b.keyVersion = a.keyVersion))
      .integrityError
    let aliases ← orFail .integrityError (db.aliases.insertAll? [a])
    pure { db with aliases := aliases }

def itemAliases (subjectId : ℕ) : List FrequencyAlias :=
  item.aliases.map fun a => ⟨subjectId, a.1, a.2⟩

/-- `_bind_frequency_aliases`. -/
def bindFrequencyAliases (subjectId : ℕ) : Except UsageError Db := do
  let db ← (itemAliases item subjectId).foldlM bindAlias db
  require ((itemSubjectIds item db.subjectOf).length = 1) .aliasConflict
  pure db

/-! ## Merging recipients -/

def aliasMove (source target : ℕ) : Table.Update FrequencyAlias.phoneHmac where
  applies a := decide (a.subjectId = source)
  change a := { a with subjectId := target }
  key_change _ := rfl

def entryMove (source target : ℕ) (e : FrequencyEntry) : FrequencyEntry :=
  if e.subjectId = source then { e with subjectId := target } else e

/-- Aliases and entries of one recipient become those of another one. -/
def moveSubject (target : ℕ) (db : Db) (source : ℕ) : Except UsageError Db := do
  let aliases := db.aliases.apply (aliasMove source target)
  require ((aliases.rows.map fun a => (a.subjectId, a.keyVersion)).Nodup) .integrityError
  let frequencyEntries ← orFail .integrityError (db.frequencyEntries.map? (entryMove source target))
  pure { db with
    aliases := aliases
    frequencyEntries := frequencyEntries
    subjects := db.subjects.keep (fun s => decide (s.id ≠ source))
    origins := Function.update db.origins target (db.origins target + db.origins source) }

/-- The branch of `_ensure_frequency_subject` for several recipients. -/
def mergeSubjects (canonical : FrequencySubject) (subjects : List FrequencySubject) (observed : ℕ) :
    Except UsageError Db := do
  let db ← mergeFrequencyProjections db canonical.projectionHmac subjects observed
  ((subjects.map FrequencySubject.id).filter (fun id => decide (id ≠ canonical.id))).foldlM
    (moveSubject canonical.id) db

/-- `_list_frequency_subjects`. -/
def Db.subjectRows (ids : List ℕ) : List FrequencySubject :=
  (db.subjects.rows.filter (fun s => decide (s.id ∈ ids))).insertionSort
    (fun s t => s.projectionHmac ≤ t.projectionHmac)

/-- The recipient that remains: the one of the preferred digest, or else the first. -/
def canonicalSubject (subjects : List FrequencySubject) : Option FrequencySubject :=
  match subjects.find? (fun s => decide (db.subjectOf item.preferredDigest = some s.id)) with
  | some s => some s
  | none => subjects.head?

/-- Only several recipients have to be merged. -/
def mergeIfSeveral (canonical : FrequencySubject) (subjects : List FrequencySubject)
    (observed : ℕ) : Except UsageError Db :=
  if subjects.length > 1 then mergeSubjects db canonical subjects observed else .ok db

/-- `_ensure_frequency_subject`. -/
def ensureFrequencySubject (observed : ℕ) : Except UsageError (Db × ResolvedSubject) :=
  let ids := itemSubjectIds item db.subjectOf
  let subjects := db.subjectRows ids
  if ids.isEmpty then do
    let id := db.nextSubjectId
    let db ← createSubject db item.preferredDigest
    let db ← bindFrequencyAliases db item id
    pure (db, ⟨item.phoneHmac, id, item.preferredDigest⟩)
  else do
    require (subjects.length = ids.length) .subjectUnavailable
    let canonical ← orFail .subjectUnavailable (canonicalSubject db item subjects)
    let db ← mergeIfSeveral db canonical subjects observed
    let db ← bindFrequencyAliases db item canonical.id
    pure (db, ⟨item.phoneHmac, canonical.id, canonical.projectionHmac⟩)

/-! ## A chunk of items -/

/-- What the loop of `_ensure_frequency_subjects_many` has collected. -/
structure Resolution where
  db : Db
  resolved : List ResolvedSubject
  /-- `create_rows`: items without a recipient. -/
  toCreate : List FrequencyItem
  /-- `bind_rows`: items with one recipient. -/
  toBind : List (FrequencyItem × FrequencySubject)

/-- One round of the loop; `before` is the database when the aliases were loaded. -/
def resolveItem (before : Db) (observed : ℕ) (acc : Resolution) (item : FrequencyItem) :
    Except UsageError Resolution :=
  match itemSubjectIds item before.subjectOf with
  | [] => .ok { acc with toCreate := acc.toCreate ++ [item] }
  | [id] => do
      let s ← orFail .subjectUnavailable (before.subjects.find? id)
      pure { acc with toBind := acc.toBind ++ [(item, s)] }
  | _ => do
      let (db, r) ← ensureFrequencySubject acc.db item observed
      pure { acc with db := db, resolved := acc.resolved ++ [r] }

/-- Create the recipient of an item and note that it has to be bound. -/
def createRow (acc : Resolution) (item : FrequencyItem) : Except UsageError Resolution := do
  let s : FrequencySubject := ⟨acc.db.nextSubjectId, item.preferredDigest⟩
  let db ← createSubject acc.db item.preferredDigest
  pure { acc with db := db, toBind := acc.toBind ++ [(item, s)] }

/-- The first of the items with each digest. -/
def uniqueItems (items : List FrequencyItem) : List FrequencyItem :=
  items.foldl (fun unique item =>
    if unique.any (fun i => decide (i.phoneHmac = item.phoneHmac)) then unique
    else unique ++ [item]) []

/-- `_ensure_frequency_subjects_many`, with the recipient of each of the items. -/
def ensureFrequencySubjectsMany (items : List FrequencyItem) (observed : ℕ) :
    Except UsageError (Db × List ResolvedSubject) := do
  let acc ← (uniqueItems items).foldlM (resolveItem db observed) ⟨db, [], [], []⟩
  let acc ← acc.toCreate.foldlM createRow acc
  let db ← (acc.toBind.flatMap fun b => itemAliases b.1 b.2.id).foldlM bindAlias acc.db
  require (∀ b ∈ acc.toBind, itemSubjectIds b.1 db.subjectOf = [b.2.id]) .aliasConflict
  let resolved := acc.resolved ++
    acc.toBind.map (fun b => ⟨b.1.phoneHmac, b.2.id, b.2.projectionHmac⟩)
  let found ← items.mapM fun item =>
    orFail .subjectUnavailable (resolved.find? (fun r => decide (r.phoneHmac = item.phoneHmac)))
  pure (db, found)

end SmsPlatform.Usage
