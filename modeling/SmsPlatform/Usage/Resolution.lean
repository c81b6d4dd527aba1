import Mathlib.Data.List.Dedup
import Mathlib.Data.List.Induction
import SmsPlatform.Usage.Moves

/-!
# Resolving the recipients of a chunk

While the items of a chunk are resolved one after the other, recipients are created and merged.
What was found for an earlier item may therefore be outdated: it still holds of a recipient that
exists in the end, and the others are refused by the foreign key of the entries.
-/

namespace SmsPlatform.Usage

open Support Table List Option
open Relation (ReflTransGen)

/-! ## What resolving keeps -/

/-- The ids of recipients are in use. -/
def Db.Fresh (db : Db) : Prop := ∀ s ∈ db.subjects, s.id < db.nextSubjectId

/-- Recipients that are left had the same digest before, or are new; a digest stays bound to a
recipient that is left. -/
structure Keeps (db db' : Db) : Prop where
  reservations : db'.reservations = db.reservations
  quotaEntries : db'.quotaEntries = db.quotaEntries
  batches : db'.batches = db.batches
  next_le : db.nextSubjectId ≤ db'.nextSubjectId
  fresh : db.Fresh → db'.Fresh
  subject : ∀ t ∈ db'.subjects, t ∈ db.subjects ∨ db.nextSubjectId ≤ t.id
  bound : ∀ d s, s < db.nextSubjectId → db.subjectOf d = some s →
    (∃ t ∈ db'.subjects, t.id = s) → db'.subjectOf d = some s

/-- A recipient with this id has this digest. -/
def Known (db : Db) (id projectionHmac : ℕ) : Prop :=
  id < db.nextSubjectId ∧ ∀ t ∈ db.subjects, t.id = id → t.projectionHmac = projectionHmac

/-- If the recipient exists, the digests are bound to it. -/
def Bound (db : Db) (digests : List ℕ) (id : ℕ) : Prop :=
  (∃ t ∈ db.subjects, t.id = id) → ∀ d ∈ digests, db.subjectOf d = some id

namespace Keeps

variable {db db' db'' : Db}

theorem refl (db : Db) : Keeps db db where
  reservations := rfl
  quotaEntries := rfl
  batches := rfl
  next_le := le_refl _
  fresh := fun h => h
  subject := fun _ ht => .inl ht
  bound := fun _ _ _ hd _ => hd

/-- A recipient that is left and is not new was there all the time. -/
theorem exists_of_exists (h : Keeps db db') {s : ℕ} (hs : s < db.nextSubjectId)
    (hex : ∃ t ∈ db'.subjects, t.id = s) : ∃ t ∈ db.subjects, t.id = s := by
  obtain ⟨t, ht, rfl⟩ := hex
  rcases h.subject t ht with hmem | hnew
  · exact ⟨t, hmem, rfl⟩
  · exact absurd hs (not_lt.mpr hnew)

theorem trans (h : Keeps db db') (h' : Keeps db' db'') : Keeps db db'' where
  reservations := h'.reservations.trans h.reservations
  quotaEntries := h'.quotaEntries.trans h.quotaEntries
  batches := h'.batches.trans h.batches
  next_le := h.next_le.trans h'.next_le
  fresh := fun hfresh => h'.fresh (h.fresh hfresh)
  subject := by
    intro t ht
    rcases h'.subject t ht with hmem | hnew
    · exact h.subject t hmem
    · exact .inr (h.next_le.trans hnew)
  bound := by
    intro d s hs hd hex
    have hs' : s < db'.nextSubjectId := hs.trans_le h.next_le
    exact h'.bound d s hs' (h.bound d s hs hd (h'.exists_of_exists hs' hex)) hex

theorem known (h : Keeps db db') {id projectionHmac : ℕ} (hknown : Known db id projectionHmac) :
    Known db' id projectionHmac := by
  refine ⟨hknown.1.trans_le h.next_le, fun t ht hid => ?_⟩
  rcases h.subject t ht with hmem | hnew
  · exact hknown.2 t hmem hid
  · exact absurd (hid ▸ hknown.1) (not_lt.mpr hnew)

theorem digests (h : Keeps db db') {digests : List ℕ} {id : ℕ} (hid : id < db.nextSubjectId)
    (hbound : Bound db digests id) : Bound db' digests id := by
  intro hex d hd
  exact h.bound d id hid (hbound (h.exists_of_exists hid hex) d hd) hex

end Keeps

/-! ## Creating and binding -/

section

variable {db db' : Db} {a : FrequencyAlias} {item : FrequencyItem} {id projectionHmac : ℕ}

section

variable (h : createSubject db projectionHmac = .ok db')
include h

theorem createSubject_eq_ok : (∀ s ∈ db.subjects, s.projectionHmac ≠ projectionHmac) ∧
    ∃ subjects : Table FrequencySubject.id,
      subjects.rows = db.subjects.rows ++ [⟨db.nextSubjectId, projectionHmac⟩] ∧ db' = { db with
        subjects := subjects
        nextSubjectId := db.nextSubjectId + 1
        origins := Function.update db.origins db.nextSubjectId 1 } := by
  obtain ⟨hhmac, h⟩ := require_bind_eq_ok.mp h
  obtain ⟨subjects, hinsert, ⟨⟩⟩ := orFail_bind_eq_ok.mp h
  exact ⟨hhmac, subjects, rows_of_insertAll? hinsert, rfl⟩

theorem keeps_createSubject : Keeps db db' := by
  obtain ⟨-, subjects, hrows, rfl⟩ := createSubject_eq_ok h
  have hmem : ∀ t : FrequencySubject,
      t ∈ subjects → t ∈ db.subjects ∨ t = ⟨db.nextSubjectId, projectionHmac⟩ := by
    intro t ht
    rw [← mem_rows, hrows, mem_append, mem_singleton] at ht
    exact ht
  refine ⟨rfl, rfl, rfl, Nat.le_succ _, fun hfresh t ht => ?_, fun t ht => ?_,
    fun d s _ hd _ => hd⟩
  · rcases hmem t ht with ht | rfl
    · exact (hfresh t ht).trans (Nat.lt_succ_self _)
    · exact Nat.lt_succ_self _
  · rcases hmem t ht with ht | rfl
    · exact .inl ht
    · exact .inr (le_refl _)

theorem known_createSubject : Known db' db.nextSubjectId projectionHmac := by
  obtain ⟨-, subjects, hrows, rfl⟩ := createSubject_eq_ok h
  refine ⟨Nat.lt_succ_self _, fun t ht hid => ?_⟩
  have hnew : (⟨db.nextSubjectId, projectionHmac⟩) ∈ subjects := by
    rw [← mem_rows, hrows]
    exact mem_append_right _ mem_cons_self
  rw [eq_of_key_eq ht hnew hid]

end

theorem subjectOf_eq_some_iff {d s : ℕ} :
    db.subjectOf d = some s ↔ ∃ a ∈ db.aliases, a.phoneHmac = d ∧ a.subjectId = s := by
  unfold Db.subjectOf
  rw [map_eq_some_iff]
  constructor
  · rintro ⟨a, ha, hs⟩
    obtain ⟨hmem, hd⟩ := find?_eq_some_iff.mp ha
    exact ⟨a, hmem, hd, hs⟩
  · rintro ⟨a, hmem, hd, hs⟩
    exact ⟨a, find?_eq_some_iff.mpr ⟨hmem, hd⟩, hs⟩

theorem bindAlias_eq_ok (h : bindAlias db a = .ok db') :
    ((db.subjectOf a.phoneHmac).isSome = true ∧ db' = db) ∨
    (db.subjectOf a.phoneHmac = none ∧ (db.subjects.find? a.subjectId).isSome = true ∧
      ∃ aliases : Table FrequencyAlias.phoneHmac,
        aliases.rows = db.aliases.rows ++ [a] ∧ db' = { db with aliases := aliases }) := by
  unfold bindAlias at h
  split at h
  · rename_i hsome
    cases h
    refine .inl ⟨?_, rfl⟩
    rw [Db.subjectOf, isSome_map]
    exact hsome
  · rename_i hnone
    obtain ⟨⟨hsubject, -⟩, h⟩ := require_bind_eq_ok.mp h
    obtain ⟨aliases, hinsert, ⟨⟩⟩ := orFail_bind_eq_ok.mp h
    refine .inr ⟨?_, hsubject, aliases, rows_of_insertAll? hinsert, rfl⟩
    rw [Db.subjectOf, map_eq_none_iff]
    simpa using hnone

/-- What binding aliases one after the other does. -/
structure Binds (db db' : Db) (as : List FrequencyAlias) : Prop where
  moves : Moves db db'
  keeps : Keeps db db'
  subjects : db'.subjects = db.subjects
  next : db'.nextSubjectId = db.nextSubjectId
  kept : ∀ d s, db.subjectOf d = some s → db'.subjectOf d = some s
  origin : ∀ d s, db'.subjectOf d = some s → db.subjectOf d = some s ∨ ∃ a ∈ as, a.subjectId = s
  bound : ∀ a ∈ as, (db'.subjectOf a.phoneHmac).isSome = true

theorem binds_nil (db : Db) : Binds db db [] where
  moves := .refl
  keeps := .refl db
  subjects := rfl
  next := rfl
  kept := fun _ _ h => h
  origin := fun _ _ h => .inl h
  bound := by simp

theorem binds_bindAlias (h : bindAlias db a = .ok db') : Binds db db' [a] := by
  rcases bindAlias_eq_ok h with ⟨hsome, rfl⟩ | ⟨hnone, -, aliases, hrows, rfl⟩
  · exact { binds_nil db' with
      origin := fun d s hd => .inl hd
      bound := by simpa using hsome }
  have hmem : ∀ b : FrequencyAlias, b ∈ aliases ↔ b ∈ db.aliases ∨ b = a := by
    intro b
    rw [← mem_rows, hrows, mem_append, mem_singleton, mem_rows]
  have hkept : ∀ d s, db.subjectOf d = some s →
      Db.subjectOf { db with aliases := aliases } d = some s := by
    intro d s hd
    obtain ⟨b, hb, hbd⟩ := subjectOf_eq_some_iff.mp hd
    exact subjectOf_eq_some_iff.mpr ⟨b, (hmem b).mpr (.inl hb), hbd⟩
  have hkeeps : Keeps db { db with aliases := aliases } :=
    ⟨rfl, rfl, rfl, le_refl _, id, fun t ht => .inl ht, fun d s _ hd _ => hkept d s hd⟩
  refine ⟨.single (.bind h), hkeeps, rfl, rfl, hkept, fun d s hd => ?_, fun b hb => ?_⟩
  · obtain ⟨b, hb, hbd⟩ := subjectOf_eq_some_iff.mp hd
    rcases (hmem b).mp hb with hb | rfl
    · exact .inl (subjectOf_eq_some_iff.mpr ⟨b, hb, hbd⟩)
    · exact .inr ⟨b, mem_cons_self, hbd.2⟩
  · obtain rfl := mem_singleton.mp hb
    have hbound : Db.subjectOf { db with aliases := aliases } b.phoneHmac = some b.subjectId :=
      subjectOf_eq_some_iff.mpr ⟨b, (hmem b).mpr (.inr rfl), rfl, rfl⟩
    rw [hbound]
    rfl

theorem binds_foldlM {as : List FrequencyAlias} (h : as.foldlM bindAlias db = .ok db') :
    Binds db db' as := by
  induction as generalizing db with
  | nil =>
    cases h
    exact binds_nil _
  | cons a as ih =>
    obtain ⟨db₁, hfirst, hrest⟩ := bind_eq_ok.mp h
    have h₁ := binds_bindAlias hfirst
    have h₂ := ih hrest
    refine ⟨h₁.moves.trans h₂.moves, h₁.keeps.trans h₂.keeps, h₂.subjects.trans h₁.subjects,
      h₂.next.trans h₁.next, fun d s hd => h₂.kept d s (h₁.kept d s hd), fun d s hd => ?_,
      fun b hb => ?_⟩
    · rcases h₂.origin d s hd with hd | ⟨b, hb, hs⟩
      · rcases h₁.origin d s hd with hd | ⟨b, hb, hs⟩
        · exact .inl hd
        · obtain rfl := mem_singleton.mp hb
          exact .inr ⟨b, mem_cons_self, hs⟩
      · exact .inr ⟨b, mem_cons_of_mem a hb, hs⟩
    · rcases mem_cons.mp hb with rfl | hb
      · obtain ⟨s, hs⟩ := isSome_iff_exists.mp (h₁.bound b mem_cons_self)
        rw [h₂.kept _ s hs]
        rfl
      · exact h₂.bound b hb

theorem mem_itemSubjectIds {aliasMap : ℕ → Option ℕ} {s : ℕ} :
    s ∈ itemSubjectIds item aliasMap ↔ ∃ d ∈ item.digests, aliasMap d = some s := by
  unfold itemSubjectIds
  rw [mem_dedup, mem_filterMap]

/-- Once its aliases are bound, all digests of an item are bound to the only recipient. -/
theorem bound_of_itemSubjectIds (hbound : ∀ d ∈ item.digests, (db.subjectOf d).isSome = true)
    (hids : itemSubjectIds item db.subjectOf = [id]) : Bound db item.digests id := by
  intro _ d hd
  obtain ⟨s, hs⟩ := isSome_iff_exists.mp (hbound d hd)
  have hmem : s ∈ itemSubjectIds item db.subjectOf := mem_itemSubjectIds.mpr ⟨d, hd, hs⟩
  rw [hids] at hmem
  rw [hs, mem_singleton.mp hmem]

theorem phoneHmac_itemAliases (id : ℕ) {d : ℕ} (hd : d ∈ item.digests) :
    ∃ a ∈ itemAliases item id, a.phoneHmac = d ∧ a.subjectId = id := by
  obtain ⟨a, ha, rfl⟩ := mem_map.mp hd
  exact ⟨⟨id, a.1, a.2⟩, mem_map.mpr ⟨a, ha, rfl⟩, rfl, rfl⟩

theorem subjectId_of_mem_itemAliases (ha : a ∈ itemAliases item id) : a.subjectId = id := by
  obtain ⟨b, -, rfl⟩ := mem_map.mp ha
  rfl

/-- `_bind_frequency_aliases` for a recipient that one of the digests is bound to already, or
for an item without any. -/
theorem bindFrequencyAliases_eq_ok (h : bindFrequencyAliases db item id = .ok db')
    (hfound : (∃ t ∈ db.subjects, t.id = id) → (∃ d ∈ item.digests, db.subjectOf d = some id) ∨
      ∀ d ∈ item.digests, db.subjectOf d = none) :
    Binds db db' (itemAliases item id) ∧ Bound db' item.digests id := by
  obtain ⟨db₁, hbind, h⟩ := bind_eq_ok.mp h
  obtain ⟨hone, ⟨⟩⟩ := require_bind_eq_ok.mp h
  have hbinds := binds_foldlM hbind
  refine ⟨hbinds, fun hex => ?_⟩
  have hall : ∀ d ∈ item.digests, (db'.subjectOf d).isSome = true := by
    intro d hd
    obtain ⟨a, ha, rfl, -⟩ := phoneHmac_itemAliases id hd
    exact hbinds.bound a ha
  have hmem : id ∈ itemSubjectIds item db'.subjectOf := by
    rw [hbinds.subjects] at hex
    rcases hfound hex with ⟨d, hd, hs⟩ | hnone
    · exact mem_itemSubjectIds.mpr ⟨d, hd, hbinds.kept d id hs⟩
    have hd : item.phoneHmac ∈ item.digests := item.phoneHmac_mem
    obtain ⟨s, hs⟩ := isSome_iff_exists.mp (hall _ hd)
    refine mem_itemSubjectIds.mpr ⟨_, hd, ?_⟩
    rcases hbinds.origin _ s hs with hold | ⟨a, ha, rfl⟩
    · rw [hnone _ hd] at hold
      cases hold
    · rw [hs, subjectId_of_mem_itemAliases ha]
  obtain ⟨s, hids⟩ := length_eq_one_iff.mp hone
  rw [hids, mem_singleton] at hmem
  exact bound_of_itemSubjectIds hall (hmem ▸ hids) (hbinds.subjects ▸ hex)

end

/-! ## Merging -/

section

variable {db db' : Db} {canonical : FrequencySubject} {subjects : List FrequencySubject}
  {observed : ℕ}

theorem mergeFrequencyProjections_eq_ok {hmac : ℕ}
    (h : mergeFrequencyProjections db hmac subjects observed = .ok db') :
    ∃ outcomes, mergeOutcomes db hmac subjects observed = .ok outcomes ∧
      (∀ o ∈ outcomes, o.isLive = true →
        ((outcomes.filter TargetOutcome.isWritten).foldl Projections.writeWindow
          db.projections).counter (.frequency o.target) =
            some (o.window.windowKey, o.window.value)) ∧
      db' = { db with
        frequencyEntries := db.frequencyEntries.apply
          (keyRewrite hmac (movedKeys db hmac subjects outcomes))
        projections := ((outcomes.filter TargetOutcome.isWritten).foldl Projections.writeWindow
          db.projections).delete (movedKeys db hmac subjects outcomes) } := by
  obtain ⟨outcomes, houtcomes, h⟩ := bind_eq_ok.mp h
  obtain ⟨hassert, ⟨⟩⟩ := require_bind_eq_ok.mp h
  exact ⟨outcomes, houtcomes, hassert, rfl⟩

theorem moveSubject_eq_ok {target source : ℕ} (h : moveSubject target db source = .ok db') :
    ∃ frequencyEntries : Table FrequencyEntry.primaryKey,
      frequencyEntries.rows = db.frequencyEntries.rows.map (entryMove source target) ∧
      db' = { db with
        aliases := db.aliases.apply (aliasMove source target)
        frequencyEntries := frequencyEntries
        subjects := db.subjects.keep (fun s => decide (s.id ≠ source))
        origins := Function.update db.origins target (db.origins target + db.origins source) } := by
  obtain ⟨-, h⟩ := require_bind_eq_ok.mp h
  obtain ⟨frequencyEntries, hmap, ⟨⟩⟩ := orFail_bind_eq_ok.mp h
  exact ⟨frequencyEntries, rows_of_map? hmap, rfl⟩

theorem keeps_moveSubject {target source : ℕ} (h : moveSubject target db source = .ok db') :
    Keeps db db' := by
  obtain ⟨frequencyEntries, -, rfl⟩ := moveSubject_eq_ok h
  refine ⟨rfl, rfl, rfl, le_refl _, fun hfresh t ht => hfresh t (mem_keep_iff.mp ht).1,
    fun t ht => .inl (mem_keep_iff.mp ht).1, ?_⟩
  rintro d s - hd ⟨t, ht, rfl⟩
  have hne : t.id ≠ source := of_decide_eq_true (mem_keep_iff.mp ht).2
  obtain ⟨a, ha, had, hs⟩ := subjectOf_eq_some_iff.mp hd
  have hrow : (aliasMove source target).row a = a := by
    refine Update.row_of_not_applies ?_
    simp [aliasMove, hs, hne]
  refine subjectOf_eq_some_iff.mpr ⟨a, ?_, had, hs⟩
  have hmem := row_mem_apply (u := aliasMove source target) ha
  rw [hrow] at hmem
  exact hmem

theorem keeps_mergeSubjects (h : mergeSubjects db canonical subjects observed = .ok db') :
    Keeps db db' := by
  obtain ⟨db₁, hmerge, h⟩ := bind_eq_ok.mp h
  obtain ⟨outcomes, -, -, rfl⟩ := mergeFrequencyProjections_eq_ok hmerge
  refine foldlM_induction (fun _ _ _ _ hs hmove => hs.trans (keeps_moveSubject hmove)) ?_ h
  exact ⟨rfl, rfl, rfl, le_refl _, id, fun t ht => .inl ht, fun d s _ hd _ => hd⟩

end

/-! ## One item -/

/-- The recipient of an item, as long as it exists. -/
structure ResolvesItem (db : Db) (item : FrequencyItem) (r : ResolvedSubject) : Prop where
  phoneHmac : r.phoneHmac = item.phoneHmac
  known : Known db r.subjectId r.projectionHmac
  bound : Bound db item.digests r.subjectId

theorem ResolvesItem.keeps {db db' : Db} {item : FrequencyItem} {r : ResolvedSubject}
    (h : ResolvesItem db item r) (hkeeps : Keeps db db') : ResolvesItem db' item r :=
  ⟨h.phoneHmac, hkeeps.known h.known, hkeeps.digests h.known.1 h.bound⟩

section

variable {db db' : Db} {item : FrequencyItem} {observed : ℕ} {r : ResolvedSubject}
  {s : FrequencySubject}

theorem mem_subjectRows {ids : List ℕ} :
    s ∈ db.subjectRows ids ↔ s ∈ db.subjects ∧ s.id ∈ ids := by
  unfold Db.subjectRows
  rw [mem_insertionSort, mem_filter, decide_eq_true_eq, mem_rows]

theorem nodup_subjectRows (ids : List ℕ) :
    ((db.subjectRows ids).map FrequencySubject.id).Nodup := by
  have hperm := (perm_insertionSort (fun s t =>
    s.projectionHmac ≤ t.projectionHmac)
      (db.subjects.rows.filter (fun s => decide (s.id ∈ ids)))).map FrequencySubject.id
  exact hperm.nodup_iff.mpr (db.subjects.nodup.sublist (filter_sublist.map _))

theorem mem_of_canonicalSubject {subjects : List FrequencySubject}
    (h : canonicalSubject db item subjects = some s) : s ∈ subjects := by
  unfold canonicalSubject at h
  split at h
  · rename_i t ht
    cases h
    exact mem_of_find?_eq_some ht
  · exact mem_of_mem_head? h

theorem ensureFrequencySubject_eq_ok (hfresh : db.Fresh)
    (h : ensureFrequencySubject db item observed = .ok (db', r)) :
    Moves db db' ∧ Keeps db db' ∧ ResolvesItem db' item r := by
  unfold ensureFrequencySubject at h
  dsimp only at h
  split at h
  · rename_i hempty
    obtain ⟨db₁, hcreate, h⟩ := bind_eq_ok.mp h
    obtain ⟨db₂, hbind, ⟨⟩⟩ := bind_eq_ok.mp h
    have hnone : ∀ d ∈ item.digests, db₁.subjectOf d = none := by
      obtain ⟨-, subjects, -, rfl⟩ := createSubject_eq_ok hcreate
      intro d hd
      refine eq_none_iff_forall_ne_some.mpr (fun s hs => ?_)
      have hmem : s ∈ itemSubjectIds item db.subjectOf := mem_itemSubjectIds.mpr ⟨d, hd, hs⟩
      rw [isEmpty_iff.mp hempty] at hmem
      exact not_mem_nil hmem
    obtain ⟨hbinds, hbound⟩ := bindFrequencyAliases_eq_ok hbind (fun _ => .inr hnone)
    exact ⟨(ReflTransGen.single (.subject hcreate)).trans hbinds.moves,
      (keeps_createSubject hcreate).trans hbinds.keeps, rfl,
      hbinds.keeps.known (known_createSubject hcreate), hbound⟩
  · obtain ⟨-, h⟩ := require_bind_eq_ok.mp h
    obtain ⟨canonical, hcanonical, h⟩ := orFail_bind_eq_ok.mp h
    obtain ⟨db₁, hmerge, h⟩ := bind_eq_ok.mp h
    obtain ⟨db₂, hbind, ⟨⟩⟩ := bind_eq_ok.mp h
    have hmem := mem_of_canonicalSubject hcanonical
    obtain ⟨hsubject, hid⟩ := mem_subjectRows.mp hmem
    have hlt : canonical.id < db.nextSubjectId := hfresh canonical hsubject
    have hknown : Known db canonical.id canonical.projectionHmac := by
      refine ⟨hlt, fun t ht hteq => ?_⟩
      rw [eq_of_key_eq ht hsubject hteq]
    have hmerged : Moves db db₁ ∧ Keeps db db₁ := by
      unfold mergeIfSeveral at hmerge
      split at hmerge
      · exact ⟨.single (.merge hmem (fun s hs => (mem_subjectRows.mp hs).1)
          (nodup_subjectRows _) hmerge), keeps_mergeSubjects hmerge⟩
      · cases hmerge
        exact ⟨.refl, .refl _⟩
    obtain ⟨d, hd, hds⟩ := mem_itemSubjectIds.mp hid
    obtain ⟨hbinds, hbound⟩ := bindFrequencyAliases_eq_ok hbind
      (fun hex => .inl ⟨d, hd, hmerged.2.bound d _ hlt hds hex⟩)
    exact ⟨hmerged.1.trans hbinds.moves, hmerged.2.trans hbinds.keeps, rfl,
      (hmerged.2.trans hbinds.keeps).known hknown, hbound⟩

end

/-! ## A chunk -/

/-- What the loops have collected is right in the database as it is then. -/
structure Resolves (before : Db) (items : List FrequencyItem) (acc : Resolution) : Prop where
  moves : Moves before acc.db
  keeps : Keeps before acc.db
  resolved : ∀ r ∈ acc.resolved, ∃ item ∈ items, ResolvesItem acc.db item r
  toCreate : ∀ item ∈ acc.toCreate, item ∈ items
  toBind : ∀ b ∈ acc.toBind, b.1 ∈ items ∧ Known acc.db b.2.id b.2.projectionHmac

section

variable {before : Db} {items : List FrequencyItem} {acc acc' : Resolution} {observed : ℕ}
variable {item : FrequencyItem}

theorem resolves_resolveItem (hfresh : before.Fresh) (hacc : Resolves before items acc)
    (hitem : item ∈ items) (h : resolveItem before observed acc item = .ok acc') :
    Resolves before items acc' := by
  unfold resolveItem at h
  split at h
  · cases h
    refine { hacc with toCreate := fun i hi => ?_ }
    rcases mem_append.mp hi with hi | hi
    · exact hacc.toCreate i hi
    · obtain rfl := mem_singleton.mp hi
      exact hitem
  · obtain ⟨s, hs, h⟩ := orFail_bind_eq_ok.mp h
    cases h
    obtain ⟨hmem, -⟩ := find?_eq_some_iff.mp hs
    have hknown : Known before s.id s.projectionHmac := by
      refine ⟨hfresh s hmem, fun t ht hteq => ?_⟩
      rw [eq_of_key_eq ht hmem hteq]
    refine { hacc with toBind := fun b hb => ?_ }
    rcases mem_append.mp hb with hb | hb
    · exact hacc.toBind b hb
    · obtain rfl := mem_singleton.mp hb
      exact ⟨hitem, hacc.keeps.known hknown⟩
  · obtain ⟨⟨db', r⟩, hensure, h⟩ := bind_eq_ok.mp h
    cases h
    obtain ⟨hmoves, hkeeps, hresolves⟩ :=
      ensureFrequencySubject_eq_ok (hacc.keeps.fresh hfresh) hensure
    refine ⟨hacc.moves.trans hmoves, hacc.keeps.trans hkeeps, fun r' hr' => ?_, hacc.toCreate,
      fun b hb => ⟨(hacc.toBind b hb).1, hkeeps.known (hacc.toBind b hb).2⟩⟩
    rcases mem_append.mp hr' with hr' | hr'
    · obtain ⟨i, hi, hir⟩ := hacc.resolved r' hr'
      exact ⟨i, hi, hir.keeps hkeeps⟩
    · obtain rfl := mem_singleton.mp hr'
      exact ⟨item, hitem, hresolves⟩

theorem resolves_createRow (hacc : Resolves before items acc) (hitem : item ∈ items)
    (h : createRow acc item = .ok acc') : Resolves before items acc' := by
  obtain ⟨db', hcreate, ⟨⟩⟩ := bind_eq_ok.mp h
  have hkeeps := keeps_createSubject hcreate
  refine ⟨hacc.moves.trans (.single (.subject hcreate)), hacc.keeps.trans hkeeps,
    fun r hr => ?_, hacc.toCreate, fun b hb => ?_⟩
  · obtain ⟨i, hi, hir⟩ := hacc.resolved r hr
    exact ⟨i, hi, hir.keeps hkeeps⟩
  · rcases mem_append.mp hb with hb | hb
    · exact ⟨(hacc.toBind b hb).1, hkeeps.known (hacc.toBind b hb).2⟩
    · obtain rfl := mem_singleton.mp hb
      exact ⟨hitem, known_createSubject hcreate⟩

/-- Every digest of a chunk is that of an item which is resolved. -/
theorem exists_mem_uniqueItems (h : item ∈ items) :
    ∃ i ∈ uniqueItems items, i.phoneHmac = item.phoneHmac := by
  induction items using List.reverseRecOn with
  | nil => cases h
  | append_singleton items last ih =>
    unfold uniqueItems
    rw [foldl_append, foldl_cons, foldl_nil]
    split
    · rename_i hany
      rcases mem_append.mp h with h | h
      · exact ih h
      · obtain rfl := mem_singleton.mp h
        obtain ⟨i, hi, heq⟩ := any_eq_true.mp hany
        exact ⟨i, hi, of_decide_eq_true heq⟩
    · rcases mem_append.mp h with h | h
      · obtain ⟨i, hi, heq⟩ := ih h
        exact ⟨i, mem_append_left _ hi, heq⟩
      · obtain rfl := mem_singleton.mp h
        exact ⟨item, mem_append_right _ mem_cons_self, rfl⟩

theorem find?_of_mem_uniqueItems (h : item ∈ uniqueItems items) :
    items.find? (fun i => decide (i.phoneHmac = item.phoneHmac)) = some item := by
  induction items using List.reverseRecOn with
  | nil => cases h
  | append_singleton items last ih =>
    unfold uniqueItems at h
    rw [foldl_append, foldl_cons, foldl_nil] at h
    rw [find?_append]
    split at h
    · rw [ih h]
      rfl
    rename_i hany
    rcases mem_append.mp h with h | h
    · rw [ih h]
      rfl
    obtain rfl := mem_singleton.mp h
    have hnone : items.find? (fun i => decide (i.phoneHmac = item.phoneHmac)) = none := by
      refine find?_eq_none.mpr (fun i hi heq => hany ?_)
      obtain ⟨j, hj, hji⟩ := exists_mem_uniqueItems hi
      exact any_eq_true.mpr ⟨j, hj, decide_eq_true (hji.trans (of_decide_eq_true heq))⟩
    rw [hnone]
    simp

/-- An item that is resolved stands for all items with its digest. -/
theorem representative_of_mem_uniqueItems (h : item ∈ uniqueItems items) {other : FrequencyItem}
    (hphone : other.phoneHmac = item.phoneHmac) : representative items other = item := by
  unfold representative
  rw [hphone, find?_of_mem_uniqueItems h]
  rfl

/-- What a chunk resolves to. -/
structure ResolvesChunk (before db' : Db) (items : List FrequencyItem)
    (subjects : List ResolvedSubject) : Prop where
  moves : Moves before db'
  keeps : Keeps before db'
  subjects :
    List.Forall₂ (fun item r => ResolvesItem db' (representative items item) r) items subjects

variable {subjects : List ResolvedSubject}

theorem ensureFrequencySubjectsMany_eq_ok {db' : Db}
    (hfresh : before.Fresh)
    (h : ensureFrequencySubjectsMany before items observed = .ok (db', subjects)) :
    ResolvesChunk before db' items subjects := by
  obtain ⟨acc, hresolve, h⟩ := bind_eq_ok.mp h
  obtain ⟨acc', hcreate, h⟩ := bind_eq_ok.mp h
  obtain ⟨db₁, hbind, h⟩ := bind_eq_ok.mp h
  obtain ⟨hverify, h⟩ := require_bind_eq_ok.mp h
  obtain ⟨found, hfound, ⟨⟩⟩ := bind_eq_ok.mp h
  have hacc : Resolves before (uniqueItems items) acc := by
    refine foldlM_induction (fun s x t hx hs => resolves_resolveItem hfresh hs hx) ?_ hresolve
    exact ⟨.refl, .refl before, by simp, by simp, by simp⟩
  have hacc' : Resolves before (uniqueItems items) acc' :=
    foldlM_induction (fun s x t hx hs => resolves_createRow hs (hacc.toCreate x hx)) hacc hcreate
  have hbinds := binds_foldlM hbind
  -- every recipient in the list is the recipient of an item that was resolved
  have hresolved : ∀ r ∈ acc'.resolved ++
      acc'.toBind.map (fun b => (⟨b.1.phoneHmac, b.2.id, b.2.projectionHmac⟩)),
      ∃ item ∈ uniqueItems items, ResolvesItem db' item r := by
    intro r hr
    rcases mem_append.mp hr with hr | hr
    · obtain ⟨item, hitem, hres⟩ := hacc'.resolved r hr
      exact ⟨item, hitem, hres.keeps hbinds.keeps⟩
    obtain ⟨b, hb, rfl⟩ := mem_map.mp hr
    obtain ⟨hitem, hknown⟩ := hacc'.toBind b hb
    refine ⟨b.1, hitem, rfl, hbinds.keeps.known hknown, ?_⟩
    refine bound_of_itemSubjectIds (fun d hd => ?_) (hverify b hb)
    obtain ⟨a, ha, rfl, -⟩ := phoneHmac_itemAliases b.2.id hd
    exact hbinds.bound a (mem_flatMap.mpr ⟨b, hb, ha⟩)
  refine ⟨hacc'.moves.trans hbinds.moves, hacc'.keeps.trans hbinds.keeps, ?_⟩
  refine (forall₂_of_mapM hfound).imp (fun item r hr => ?_)
  have hfind := orFail_eq_ok.mp hr
  have hphone : r.phoneHmac = item.phoneHmac := by simpa using find?_some hfind
  obtain ⟨i, hi, hres⟩ := hresolved r (mem_of_find?_eq_some hfind)
  rw [representative_of_mem_uniqueItems hi (hphone.symm.trans hres.phoneHmac)]
  exact hres

variable {result : Db × List Bool} {q : FrequencyRequest}

/-- A chunk is resolved, and then decided on. -/
theorem allowFrequencyChunk_eq_ok {db : Db}
    (hfresh : db.Fresh) (h : allowFrequencyChunk db q items observed = .ok result) :
    ∃ r db₁ subjects, db.reservations.find? q.reservationId = some r ∧ r.state = .reserved ∧
    r.category = q.category ∧ r.appId = q.appId ∧ ResolvesChunk db db₁ items subjects ∧
    ensureFrequencySubjectsMany db items observed = .ok (db₁, subjects) ∧
    decideFrequencyMany db₁ q subjects = .ok result := by
  obtain ⟨r, hr, h⟩ := orFail_bind_eq_ok.mp h
  obtain ⟨hstate, h⟩ := require_bind_eq_ok.mp h
  obtain ⟨hcontract, h⟩ := require_bind_eq_ok.mp h
  obtain ⟨⟨db₁, subjects⟩, hensure, h⟩ := bind_eq_ok.mp h
  exact ⟨r, db₁, subjects, hr, hstate, hcontract.2.1, hcontract.1,
    ensureFrequencySubjectsMany_eq_ok hfresh hensure, hensure, h⟩

theorem ResolvesChunk.hmac {db' : Db}
    (h : ResolvesChunk before db' items subjects) :
    ∀ s ∈ subjects, ∀ t ∈ db'.subjects, t.id = s.subjectId →
      t.projectionHmac = s.projectionHmac := by
  intro s hs
  obtain ⟨i, hi, rfl⟩ := getElem_of_mem hs
  obtain ⟨hlength, hget⟩ := forall₂_iff_get.mp h.subjects
  exact (hget i (hlength ▸ hi) hi).known.2

/-- The new decisions of a chunk. -/
def newSubjects (db : Db) (q : FrequencyRequest) (subjects : List ResolvedSubject) :
    List ResolvedSubject :=
  subjects.filter (fun s => !q.isReplay db s.subjectId)

/-- A chunk is resolved, and the new decisions are inserted. -/
theorem decides_of_allowFrequencyChunk {db : Db}
    (hfresh : db.Fresh) (h : allowFrequencyChunk db q items observed = .ok result) :
    ∃ db₁ subjects, ensureFrequencySubjectsMany db items observed = .ok (db₁, subjects) ∧
    ResolvesChunk db db₁ items subjects ∧
    Decides db₁ q (newSubjects db₁ q subjects) result.1 := by
  obtain ⟨r, db₁, subjects, hr, hstate, -, -, hchunk, hensure, hdecide⟩ :=
    allowFrequencyChunk_eq_ok hfresh h
  obtain ⟨-, hdecide⟩ := require_bind_eq_ok.mp hdecide
  obtain ⟨db₂, hinsert, ⟨⟩⟩ := bind_eq_ok.mp hdecide
  rw [← hchunk.keeps.reservations] at hr
  exact ⟨db₁, subjects, hensure, hchunk, ⟨r, hr, hstate⟩,
    fun s hs => hchunk.hmac s (mem_of_mem_filter hs), hinsert⟩

end

end SmsPlatform.Usage
