import SmsPlatform.Usage.Invariants

/-!
# What the merge of projections plans

In a well-formed database every key that an entry refers to has a row.  The loop over the groups
of rows therefore ensures every target that is needed, the loop over the remaining sources finds
nothing to do, and no source is protected.
-/

namespace SmsPlatform.Usage

open Support Table List Option

/-- What a merge starts from: recipients of a well-formed database, each once, among them the one
with the digest that remains. -/
structure MergeReady (db : Db) (canonical : ℕ) (subjects : List FrequencySubject) : Prop where
  wf : WellFormed db
  mem : ∀ s ∈ subjects, s ∈ db.subjects
  nodup : (subjects.map FrequencySubject.id).Nodup
  canonical_mem : canonical ∈ subjects.map FrequencySubject.projectionHmac

variable {k : FrequencyKey} {t : FrequencyKey}

theorem FrequencyKey.onto_eq_iff {canonical : ℕ} :
    k.onto canonical = t ↔ k.scope = t.scope ∧ t.hmac = canonical := by
  cases k
  cases t
  simp only [FrequencyKey.onto, FrequencyKey.mk.injEq]
  exact and_congr .rfl eq_comm

/-! ## Rows -/

section

variable {db : Db} {subjects : List FrequencySubject} {row : FrequencyRow}

theorem frequencyRow?_eq_some_iff {p : Projection} : p.frequencyRow? = some row ↔
      p.key = .frequency row.key ∧ p.windowKey = row.windowKey ∧ p.value = row.value ∧
        p.expiresAt = row.expiresAt := by
  unfold Projection.frequencyRow?
  cases hk : p.key with
  | quota key =>
    constructor
    · intro h
      cases h
    · rintro ⟨h, -⟩
      cases h
  | frequency key =>
    constructor
    · intro h
      cases h
      exact ⟨rfl, rfl, rfl, rfl⟩
    · rintro ⟨h, hw, hv, he⟩
      cases h
      rw [hw, hv, he]

theorem mem_mergeRows : row ∈ mergeRows db subjects ↔
      (∃ p ∈ db.projections.rows, p.frequencyRow? = some row) ∧
        row.key.hmac ∈ subjects.map FrequencySubject.projectionHmac := by
  unfold mergeRows Db.frequencyRows
  simp [mem_rows]

/-- The rows of the subjects are what the counters of their keys say. -/
theorem counter_eq_some_iff {w v : ℕ} (hk : k.hmac ∈ subjects.map FrequencySubject.projectionHmac) :
    db.projections.counter (.frequency k) = some (w, v) ↔
      ∃ row ∈ mergeRows db subjects, row.key = k ∧ row.windowKey = w ∧ row.value = v := by
  unfold Projections.counter
  rw [map_eq_some_iff]
  constructor
  · rintro ⟨p, hp, hpair⟩
    obtain ⟨hmem, hkey⟩ := find?_eq_some_iff.mp hp
    obtain ⟨hw, hv⟩ := Prod.mk.inj hpair
    refine ⟨⟨k, p.windowKey, p.value, p.expiresAt⟩, mem_mergeRows.mpr ⟨⟨p, hmem, ?_⟩, hk⟩,
      rfl, hw, hv⟩
    exact frequencyRow?_eq_some_iff.mpr ⟨hkey, rfl, rfl, rfl⟩
  · rintro ⟨row, hrow, rfl, rfl, rfl⟩
    obtain ⟨⟨p, hp, heq⟩, -⟩ := mem_mergeRows.mp hrow
    obtain ⟨hkey, hw, hv, -⟩ := frequencyRow?_eq_some_iff.mp heq
    exact ⟨p, find?_eq_some_iff.mpr ⟨hp, hkey⟩, Prod.ext hw hv⟩

theorem expiresAt_of_mem_mergeRows (hwf : WellFormed db) (h : row ∈ mergeRows db subjects) :
    row.expiresAt = row.key.scope.expiresAt row.windowKey := by
  obtain ⟨⟨p, hp, heq⟩, -⟩ := mem_mergeRows.mp h
  obtain ⟨hkey, hw, -, he⟩ := frequencyRow?_eq_some_iff.mp heq
  have hshape := hwf.shaped p hp
  rw [Projection.Shaped, hkey] at hshape
  rw [← he, ← hw]
  exact hshape

theorem nodup_mergeRows : ((mergeRows db subjects).map FrequencyRow.key).Nodup := by
  have hall : ∀ ps : List Projection, (ps.map Projection.key).Nodup →
      ((ps.filterMap Projection.frequencyRow?).map FrequencyRow.key).Nodup := by
    intro ps
    induction ps with
    | nil => simp
    | cons p ps ih =>
      intro hnodup
      rw [map_cons, nodup_cons] at hnodup
      have hrest := ih hnodup.2
      rw [filterMap_cons]
      cases hp : p.frequencyRow? with
      | none => exact hrest
      | some row =>
        rw [map_cons, nodup_cons]
        refine ⟨fun hmem => hnodup.1 ?_, hrest⟩
        obtain ⟨row', hrow', hkey⟩ := mem_map.mp hmem
        obtain ⟨p', hp', hrow''⟩ := mem_filterMap.mp hrow'
        have hkey' := (frequencyRow?_eq_some_iff.mp hrow'').1
        rw [(frequencyRow?_eq_some_iff.mp hp).1, ← hkey, ← hkey']
        exact mem_map_of_mem hp'
  exact (hall _ db.projections.rows.nodup).sublist (filter_sublist.map _)

end

/-! ## Entries and sources -/

namespace MergeReady

variable {db : Db} {canonical : ℕ} {subjects : List FrequencySubject}

theorem nodup_hmacs (h : MergeReady db canonical subjects) :
    (subjects.map FrequencySubject.projectionHmac).Nodup := by
  have hsubjects : subjects.Nodup := h.nodup.of_map
  refine hsubjects.map_on (fun s hs t ht heq => ?_)
  exact h.wf.hmac_inj s (h.mem s hs) t (h.mem t ht) heq

/-- The entries of the subjects are those with one of their digests. -/
theorem mem_mergeEntries_iff (h : MergeReady db canonical subjects) {e : FrequencyEntry}
    (he : e ∈ db.frequencyEntries) :
    e ∈ mergeEntries db subjects ↔ e.key.hmac ∈ subjects.map FrequencySubject.projectionHmac := by
  obtain ⟨s, hs, hid, hhmac⟩ := h.wf.entry_subject e he
  unfold mergeEntries
  rw [mem_filter, decide_eq_true_eq, and_iff_right (mem_rows.mpr he)]
  constructor
  · intro hmem
    obtain ⟨t, ht, hteq⟩ := mem_map.mp hmem
    have hst : t = s := eq_of_key_eq (h.mem t ht) hs (hteq.trans hid.symm)
    exact mem_map.mpr ⟨t, ht, by rw [hst, hhmac]⟩
  · intro hmem
    obtain ⟨t, ht, hteq⟩ := mem_map.mp hmem
    have hst := h.wf.hmac_inj t (h.mem t ht) s hs (hteq.trans hhmac.symm)
    exact mem_map.mpr ⟨t, ht, by rw [hst, hid]⟩

theorem mem_mergeSources_of_row {row : FrequencyRow} (hrow : row ∈ mergeRows db subjects) :
    row.key ∈ mergeSources db canonical subjects := by
  exact mem_dedup.mpr (mem_append_left _ (mem_map_of_mem hrow))

section

variable (h : MergeReady db canonical subjects)
include h

theorem hmac_of_mem_mergeSources (hk : k ∈ mergeSources db canonical subjects) :
    k.hmac ∈ subjects.map FrequencySubject.projectionHmac := by
  rcases mem_append.mp (mem_dedup.mp hk) with hk | hk
  · obtain ⟨row, hrow, rfl⟩ := mem_map.mp hk
    exact (mem_mergeRows.mp hrow).2
  · obtain ⟨e, he, rfl⟩ := mem_map.mp (mem_filter.mp hk).1
    exact (h.mem_mergeEntries_iff (mem_rows.mp (mem_filter.mp he).1)).mp he

/-- What an active reservation has counted for one of the subjects has a row among theirs. -/
theorem exists_row_of_activeRef {e : FrequencyEntry}
    (he : e ∈ activeRefs db subjects) : ∃ row ∈ mergeRows db subjects, row.key = e.key := by
  obtain ⟨hentry, hactive⟩ := mem_filter.mp he
  rw [Bool.and_eq_true] at hactive
  have hmem : e ∈ db.frequencyEntries := mem_rows.mp (mem_filter.mp hentry).1
  have hposting : e.fact.posting ∈ db.postings := Db.mem_postings.mpr (.inr ⟨e, hmem, rfl⟩)
  have hpos : 0 < e.fact.posting.amount := by
    show 0 < e.amount
    rw [FrequencyEntry.amount, if_pos hactive.1]
    exact Nat.one_pos
  have hsome : (db.projections.counter (.frequency e.key)).isSome = true :=
    h.wf.rowed _ hposting hactive.2 hpos
  obtain ⟨⟨w, v⟩, hcounter⟩ := isSome_iff_exists.mp hsome
  obtain ⟨row, hrow, hkey, -, -⟩ :=
    (counter_eq_some_iff ((h.mem_mergeEntries_iff hmem).mp hentry)).mp hcounter
  exact ⟨row, hrow, hkey⟩

/-- The targets that are needed are those of the active entries. -/
theorem mem_neededTargets : t ∈ neededTargets db canonical subjects ↔
      ∃ e ∈ activeRefs db subjects, e.key.onto canonical = t := by
  have hsource : ∀ e ∈ activeRefs db subjects, e.key ∈ mergeSources db canonical subjects := by
    intro e he
    obtain ⟨row, hrow, hkey⟩ := h.exists_row_of_activeRef he
    exact hkey ▸ mem_mergeSources_of_row hrow
  unfold neededTargets
  rw [List.mem_map]
  constructor
  · rintro ⟨e, he, heq⟩
    rw [if_pos (hsource e he)] at heq
    exact ⟨e, he, heq⟩
  · rintro ⟨e, he, heq⟩
    exact ⟨e, he, by rw [if_pos (hsource e he), heq]⟩

end

end MergeReady

/-! ## Outcomes -/

section

variable {db : Db} {canonical : ℕ} {subjects : List FrequencySubject} {observed : ℕ}
variable {t : FrequencyKey}

theorem mem_mergeGroup {row : FrequencyRow} : row ∈ mergeGroup db canonical subjects t ↔
      row ∈ mergeRows db subjects ∧ row.key.onto canonical = t := by
  unfold mergeGroup
  rw [mem_filter, decide_eq_true_eq]

theorem mem_mergeTargets : t ∈ mergeTargets db canonical subjects ↔
      ∃ row ∈ mergeRows db subjects, row.key.onto canonical = t := by
  unfold mergeTargets
  rw [mem_dedup, List.mem_map]

theorem chooseMergeWindow_eq_none_iff {rows : List FrequencyRow} :
    chooseMergeWindow rows = none ↔ rows = [] := by
  unfold chooseMergeWindow
  rw [map_eq_none_iff, max?_eq_none_iff, map_eq_nil_iff]

/-- The rows of a target that have not expired. -/
def liveGroup (db : Db) (canonical : ℕ) (subjects : List FrequencySubject) (observed : ℕ)
    (t : FrequencyKey) : List FrequencyRow :=
  (mergeGroup db canonical subjects t).filter (fun row => decide (observed < row.expiresAt))

/-- The rows that give the window of a target. -/
def chosenRows (db : Db) (canonical : ℕ) (subjects : List FrequencySubject) (observed : ℕ)
    (t : FrequencyKey) : List FrequencyRow :=
  if liveGroup db canonical subjects observed t = [] then mergeGroup db canonical subjects t
  else liveGroup db canonical subjects observed t

theorem targetOutcome_some {o : TargetOutcome} (ht : t ∈ mergeTargets db canonical subjects)
    (h : targetOutcome db canonical subjects observed t = .ok (some o)) :
    o.target = t ∧ (o.isLive = true ∨ o.isWritten = true) ∧
    chooseMergeWindow (chosenRows db canonical subjects observed t) = some o.window := by
  have hgroup : chooseMergeWindow (mergeGroup db canonical subjects t) ≠ none := by
    obtain ⟨row, hrow, heq⟩ := mem_mergeTargets.mp ht
    rw [Ne, chooseMergeWindow_eq_none_iff]
    exact ne_nil_of_mem (mem_mergeGroup.mpr ⟨hrow, heq⟩)
  unfold targetOutcome at h
  dsimp only at h
  split at h
  · rename_i m hm
    split at h
    · cases h
    cases h
    refine ⟨rfl, .inl rfl, ?_⟩
    have hlive : liveGroup db canonical subjects observed t ≠ [] := by
      intro hnil
      have hm' : chooseMergeWindow (liveGroup db canonical subjects observed t) = some m := hm
      rw [hnil] at hm'
      cases hm'
    rw [chosenRows, if_neg hlive]
    exact hm
  · rename_i hnone
    have hlive : liveGroup db canonical subjects observed t = [] :=
      chooseMergeWindow_eq_none_iff.mp hnone
    split at h
    · obtain ⟨m, hm⟩ := ne_none_iff_exists'.mp hgroup
      rw [tombstoneWindow, hm] at h
      cases h
      refine ⟨rfl, .inr rfl, ?_⟩
      rw [chosenRows, if_pos hlive]
      exact hm
    · cases h

theorem targetOutcome_none (ht : t ∈ mergeTargets db canonical subjects)
    (h : targetOutcome db canonical subjects observed t = .ok none) :
    t ∉ neededTargets db canonical subjects := by
  unfold targetOutcome at h
  dsimp only at h
  split at h
  · split at h <;> cases h
  split at h
  · obtain ⟨row, hrow, heq⟩ := mem_mergeTargets.mp ht
    have hgroup : chooseMergeWindow (mergeGroup db canonical subjects t) ≠ none := by
      rw [Ne, chooseMergeWindow_eq_none_iff]
      exact ne_nil_of_mem (mem_mergeGroup.mpr ⟨hrow, heq⟩)
    obtain ⟨m, hm⟩ := ne_none_iff_exists'.mp hgroup
    rw [tombstoneWindow, hm] at h
    cases h
  · assumption

/-- If every target that is needed is ensured, the loop over the sources writes nothing. -/
theorem sourceTombstones_eq_nil {sources ensured : List FrequencyKey}
    (h : ∀ t ∈ neededTargets db canonical subjects, t ∈ ensured) :
    sourceTombstones db canonical subjects sources ensured = [] := by
  induction sources with
  | nil => rfl
  | cons source sources ih =>
    unfold sourceTombstones
    rw [if_pos]
    · exact ih
    · by_cases hneeded : source.onto canonical ∈ neededTargets db canonical subjects
      · exact .inr (.inl (h _ hneeded))
      · exact .inr (.inr hneeded)

/-- What the merge does with the targets. -/
structure Plan (db : Db) (canonical : ℕ) (subjects : List FrequencySubject) (observed : ℕ)
    (outcomes : List TargetOutcome) : Prop where
  nodup : (outcomes.map TargetOutcome.target).Nodup
  outcome : ∀ o ∈ outcomes, o.target ∈ mergeTargets db canonical subjects ∧
    (o.isLive = true ∨ o.isWritten = true) ∧
    chooseMergeWindow (chosenRows db canonical subjects observed o.target) = some o.window
  needed : ∀ t ∈ neededTargets db canonical subjects, ∃ o ∈ outcomes, o.target = t

theorem MergeReady.plan (h : MergeReady db canonical subjects) {outcomes : List TargetOutcome}
    (houtcomes : mergeOutcomes db canonical subjects observed = .ok outcomes) :
    Plan db canonical subjects observed outcomes := by
  obtain ⟨groups, hgroups, houtcomes⟩ := bind_eq_ok.mp houtcomes
  have hforall := forall₂_of_mapM hgroups
  have htargets : ∀ t ∈ mergeTargets db canonical subjects,
      ∃ o ∈ groups, targetOutcome db canonical subjects observed t = .ok o := by
    intro t ht
    obtain ⟨i, hi, rfl⟩ := getElem_of_mem ht
    obtain ⟨hlength, hget⟩ := forall₂_iff_get.mp hforall
    exact ⟨groups[i], getElem_mem _, hget i hi (hlength ▸ hi)⟩
  have hneeded : ∀ t ∈ neededTargets db canonical subjects,
      ∃ o ∈ groups.filterMap id, o.target = t := by
    intro t ht
    obtain ⟨e, he, hte⟩ := h.mem_neededTargets.mp ht
    obtain ⟨row, hrow, hkey⟩ := h.exists_row_of_activeRef he
    have hmem : t ∈ mergeTargets db canonical subjects :=
      mem_mergeTargets.mpr ⟨row, hrow, by rw [hkey, hte]⟩
    obtain ⟨o, ho, htarget⟩ := htargets t hmem
    cases o with
    | none => exact absurd ht (targetOutcome_none hmem htarget)
    | some o => exact ⟨o, mem_filterMap.mpr ⟨_, ho, rfl⟩, (targetOutcome_some hmem htarget).1⟩
  have hnil : sourceTombstones db canonical subjects (mergeSources db canonical subjects)
      ((groups.filterMap id).map TargetOutcome.target) = [] := by
    refine sourceTombstones_eq_nil (fun t ht => ?_)
    obtain ⟨o, ho, rfl⟩ := hneeded t ht
    exact mem_map_of_mem ho
  dsimp only at houtcomes
  rw [hnil, append_nil] at houtcomes
  cases houtcomes
  refine ⟨?_, fun o ho => ?_, hneeded⟩
  · -- the targets of the outcomes are a part of the targets, in the same order
    have hsublist : ∀ {ts : List FrequencyKey} {gs : List (Option TargetOutcome)},
        (∀ t ∈ ts, t ∈ mergeTargets db canonical subjects) →
        List.Forall₂ (fun t o => targetOutcome db canonical subjects observed t = .ok o) ts gs →
        ((gs.filterMap id).map TargetOutcome.target).Sublist ts := by
      intro ts gs hts hfor
      induction hfor with
      | nil => exact .slnil
      | @cons t o ts gs hto _ ih =>
        have hrest := ih (fun u hu => hts u (mem_cons_of_mem t hu))
        cases o with
        | none => exact hrest.cons t
        | some o =>
          have htarget := (targetOutcome_some (hts t mem_cons_self) hto).1
          subst htarget
          exact hrest.cons_cons o.target
    exact (nodup_dedup _).sublist (hsublist (fun t ht => ht) hforall)
  · obtain ⟨o', ho', heq⟩ := mem_filterMap.mp ho
    cases heq
    obtain ⟨i, hi, hget'⟩ := getElem_of_mem ho'
    obtain ⟨hlength, hget⟩ := forall₂_iff_get.mp hforall
    have hi' : i < (mergeTargets db canonical subjects).length := hlength.symm ▸ hi
    have hmem : (mergeTargets db canonical subjects)[i] ∈ mergeTargets db canonical subjects :=
      getElem_mem _
    have hto := hget i hi' hi
    rw [get_eq_getElem, get_eq_getElem, hget'] at hto
    obtain ⟨htarget, hrest⟩ := targetOutcome_some hmem hto
    rw [htarget]
    exact ⟨hmem, hrest⟩

end

end SmsPlatform.Usage
