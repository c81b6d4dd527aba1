import SmsPlatform.Usage.Effects

/-!
# Merging recipients keeps the database well formed and the rows exact

After the projections have been merged, aliases and entries of the recipients that disappear are
moved to the one that remains.  Rows that were exact before are exact afterwards, and the stored
window of a row does not go back.
-/

namespace SmsPlatform.Usage

open Support Table List FrequencyKey Db

/-! ## Recipients that are moved -/

/-- The recipients in the list have been moved to the target. -/
structure MovedTo (target : ℕ) (sources : List ℕ) (db db' : Db) : Prop where
  reservations : db'.reservations = db.reservations
  quotaEntries : db'.quotaEntries = db.quotaEntries
  projections : db'.projections = db.projections
  subjects : ∀ t, t ∈ db'.subjects ↔ t ∈ db.subjects ∧ t.id ∉ sources
  frequencyEntries : db'.frequencyEntries.rows = db.frequencyEntries.rows.map (fun e =>
    if e.subjectId ∈ sources then { e with subjectId := target } else e)

section

variable {db db' : Db} {target : ℕ} {sources : List ℕ}

theorem movedTo_of_foldlM (htarget : target ∉ sources)
    (h : sources.foldlM (moveSubject target) db = .ok db') : MovedTo target sources db db' := by
  induction sources generalizing db with
  | nil =>
    cases h
    exact ⟨rfl, rfl, rfl, by simp, by simp⟩
  | cons source sources ih =>
    obtain ⟨db₁, hmove, h⟩ := bind_eq_ok.mp h
    have hrest : target ∉ sources := fun hmem => htarget (mem_cons_of_mem source hmem)
    have hmoved := ih hrest h
    obtain ⟨entries, hrows, rfl⟩ := moveSubject_eq_ok hmove
    refine ⟨hmoved.reservations, hmoved.quotaEntries, hmoved.projections, fun t => ?_, ?_⟩
    · rw [hmoved.subjects, mem_keep_iff, decide_eq_true_eq, mem_cons, not_or, and_assoc]
    · rw [hmoved.frequencyEntries]
      rw [hrows, map_map]
      refine map_congr_left (fun e _ => ?_)
      simp only [Function.comp_apply, entryMove, mem_cons]
      by_cases he : e.subjectId = source <;> simp [he]

theorem MovedTo.postings (h : MovedTo target sources db db') : db'.postings = db.postings := by
  rw [postings_eq, postings_eq, h.quotaEntries, h.frequencyEntries, map_map]
  congr 1
  refine map_congr_left (fun e _ => ?_)
  rw [Function.comp_apply]
  split <;> rfl

end

/-! ## Merging recipients -/

section

variable {db db' : Db} {canonical : FrequencySubject} {subjects : List FrequencySubject}
  {observed : ℕ}

theorem mergeReady (hwf : WellFormed db) (hcanonical : canonical ∈ subjects)
    (hsubjects : ∀ s ∈ subjects, s ∈ db.subjects)
    (hnodup : (subjects.map FrequencySubject.id).Nodup) :
    MergeReady db canonical.projectionHmac subjects :=
  ⟨hwf, hsubjects, hnodup, mem_map_of_mem hcanonical⟩

/-- The ids of the recipients that disappear. -/
def mergedIds (canonical : FrequencySubject) (subjects : List FrequencySubject) : List ℕ :=
  (subjects.map FrequencySubject.id).filter (fun id => decide (id ≠ canonical.id))

theorem mem_mergedIds {id : ℕ} : id ∈ mergedIds canonical subjects ↔
      id ∈ subjects.map FrequencySubject.id ∧ id ≠ canonical.id := by
  unfold mergedIds
  rw [mem_filter, decide_eq_true_eq]

theorem mergeSubjects_eq_ok (h : mergeSubjects db canonical subjects observed = .ok db') :
    ∃ db₁, mergeFrequencyProjections db canonical.projectionHmac subjects observed = .ok db₁ ∧
    MovedTo canonical.id (mergedIds canonical subjects) db₁ db' := by
  obtain ⟨db₁, hmerge, h⟩ := bind_eq_ok.mp h
  have htarget : canonical.id ∉ mergedIds canonical subjects :=
    fun hmem => (mem_mergedIds.mp hmem).2 rfl
  exact ⟨db₁, hmerge, movedTo_of_foldlM htarget h⟩

/-- What a merge of recipients does to postings and counters. -/
theorem mergeEffect_of_mergeSubjects (hready : MergeReady db canonical.projectionHmac subjects)
    (h : mergeSubjects db canonical subjects observed = .ok db') :
    MergeEffect db db' canonical.projectionHmac subjects observed := by
  obtain ⟨db₁, hmerge, hmoved⟩ := mergeSubjects_eq_ok h
  have heffect := mergeEffect hready hmerge
  refine ⟨hmoved.reservations.trans heffect.reservations, hmoved.postings.trans heffect.postings,
    ?_, ?_, ?_, ?_⟩
  all_goals rw [hmoved.projections]
  · exact heffect.shaped
  · exact heffect.other
  · exact heffect.source
  · exact heffect.target

theorem entry_subject_merge (hready : MergeReady db canonical.projectionHmac subjects)
    (hcanonical : canonical ∈ subjects)
    (h : mergeSubjects db canonical subjects observed = .ok db') :
    ∀ e ∈ db'.frequencyEntries, ∃ s ∈ db'.subjects,
      s.id = e.subjectId ∧ s.projectionHmac = e.key.hmac := by
  obtain ⟨db₁, hmerge, hmoved⟩ := mergeSubjects_eq_ok h
  obtain ⟨outcomes, houtcomes, -, rfl⟩ := mergeFrequencyProjections_eq_ok hmerge
  have hplan := hready.plan houtcomes
  intro e' he'
  rw [← mem_rows, hmoved.frequencyEntries] at he'
  obtain ⟨e₁, he₁, rfl⟩ := mem_map.mp he'
  obtain ⟨e, he, rfl⟩ := mem_apply_iff.mp (mem_rows.mp he₁)
  obtain ⟨s, hs, hid, hhmac⟩ := hready.wf.entry_subject e he
  rw [hready.key_row hplan he]
  by_cases hmem : e.key.hmac ∈ subjects.map FrequencySubject.projectionHmac
  · -- the recipient is one of those that are merged
    have hsub : s ∈ subjects := by
      obtain ⟨t, ht, hteq⟩ := mem_map.mp hmem
      rw [← hready.wf.hmac_inj t (hready.mem t ht) s hs (hteq.trans hhmac.symm)]
      exact ht
    refine ⟨canonical, (hmoved.subjects canonical).mpr ⟨hready.mem _ hcanonical, ?_⟩, ?_⟩
    · exact fun hin => (mem_mergedIds.mp hin).2 rfl
    · rw [if_pos hmem]
      split
      · exact ⟨rfl, rfl⟩
      rename_i hnot
      refine ⟨?_, rfl⟩
      by_contra hne
      refine hnot (mem_mergedIds.mpr ⟨hid ▸ mem_map_of_mem hsub, fun heq => hne heq.symm⟩)
  · have hnot : e.subjectId ∉ mergedIds canonical subjects := by
      intro hin
      obtain ⟨t, ht, hteq⟩ := mem_map.mp (mem_mergedIds.mp hin).1
      have hts : t = s := eq_of_key_eq (hready.mem t ht) hs (hteq.trans hid.symm)
      exact hmem (hhmac ▸ hts ▸ mem_map_of_mem ht)
    rw [if_neg hmem, if_neg hnot]
    exact ⟨s, (hmoved.subjects s).mpr ⟨hs, hid ▸ hnot⟩, hid, hhmac⟩

theorem counted_of_amount_pos {e : FrequencyEntry} (h : 0 < e.amount) : e.counted = true := by
  by_contra hnot
  rw [FrequencyEntry.amount, if_neg hnot] at h
  exact lt_irrefl 0 h

theorem MergeEffect.rowed {hmac : ℕ} (h : MergeReady db hmac subjects)
    (heffect : MergeEffect db db' hmac subjects observed) : db'.Rowed := by
  intro p' hp' hactive hpos
  rw [heffect.postings] at hp'
  obtain ⟨p, hp, rfl⟩ := mem_map.mp hp'
  have hactive : db.isActive p.owner = true := by
    unfold Db.isActive at hactive ⊢
    rw [heffect.reservations] at hactive
    exact hactive
  have hsome := h.wf.rowed p hp hactive hpos
  rcases mem_postings.mp hp with ⟨e, -, rfl⟩ | ⟨e, he, rfl⟩
  · rw [heffect.other]
    · exact hsome
    · intro j hj
      cases hj
  · change (db.projections.counter (.frequency e.key)).isSome = true at hsome
    change (db'.projections.counter (.frequency (if e.key.hmac ∈
      subjects.map FrequencySubject.projectionHmac then e.key.onto hmac else e.key))).isSome = true
    by_cases hmem : e.key.hmac ∈ subjects.map FrequencySubject.projectionHmac
    · rw [if_pos hmem]
      rcases heffect.target (e.key.onto hmac) rfl with ⟨m, -, hcounter⟩ | ⟨hnot, -⟩
      · rw [hcounter]
        rfl
      -- an active entry needs its target
      refine absurd (h.mem_neededTargets.mpr ⟨e, ?_, rfl⟩) hnot
      refine mem_filter.mpr ⟨(h.mem_mergeEntries_iff he).mpr hmem, ?_⟩
      rw [Bool.and_eq_true]
      exact ⟨counted_of_amount_pos hpos, hactive⟩
    · rw [if_neg hmem, heffect.other]
      · exact hsome
      · intro j hj
        cases hj
        exact hmem

theorem wellFormed_merge (hwf : WellFormed db) (hcanonical : canonical ∈ subjects)
    (hsubjects : ∀ s ∈ subjects, s ∈ db.subjects)
    (hnodup : (subjects.map FrequencySubject.id).Nodup)
    (h : mergeSubjects db canonical subjects observed = .ok db') : WellFormed db' := by
  have hready := mergeReady hwf hcanonical hsubjects hnodup
  have heffect := mergeEffect_of_mergeSubjects hready h
  obtain ⟨db₁, hmerge, hmoved⟩ := mergeSubjects_eq_ok h
  have hsubset : ∀ t ∈ db'.subjects, t ∈ db.subjects := by
    intro t ht
    obtain ⟨outcomes, -, -, rfl⟩ := mergeFrequencyProjections_eq_ok hmerge
    exact ((hmoved.subjects t).mp ht).1
  refine ⟨?_, (keeps_mergeSubjects h).fresh hwf.fresh, ?_, entry_subject_merge hready hcanonical h,
    heffect.shaped, heffect.rowed hready⟩
  · intro p' hp'
    rw [heffect.postings] at hp'
    obtain ⟨p, hp, rfl⟩ := mem_map.mp hp'
    rw [heffect.reservations]
    exact hwf.owned p hp
  · exact fun s hs t ht => hwf.hmac_inj s (hsubset s hs) t (hsubset t ht)

end

/-! ## Amounts after a merge -/

namespace MergeEffect

variable {db db' : Db} {canonical : ℕ} {subjects : List FrequencySubject} {observed : ℕ}

section

variable (heffect : MergeEffect db db' canonical subjects observed)
include heffect

theorem isLive : db'.isLive = db.isLive := by
  unfold Db.isLive
  rw [heffect.reservations]

/-- The amounts of a key are those of the keys that have become it. -/
theorem liveAmount_eq {k : DimensionKey} {keys : List DimensionKey} (hnodup : keys.Nodup)
    (hkeys : ∀ p ∈ db.postings,
      mergedKey canonical (subjects.map FrequencySubject.projectionHmac) p.account.1 = k ↔
        p.account.1 ∈ keys) (w : ℕ) :
    db'.liveAmount k w = (keys.map fun j => db.liveAmount j w).sum := by
  have haccounts : (keys.map fun j => (j, w)).Nodup :=
    hnodup.map (fun a b hab => congrArg Prod.fst hab)
  have hrename := @balance_rename ℕ (DimensionKey × ℕ) _ db.isLive (k, w) db.postings
    (fun a => (mergedKey canonical (subjects.map FrequencySubject.projectionHmac) a.1, a.2)) _
    haccounts (fun p hp => by
      rw [Prod.mk.injEq, hkeys p hp, mem_map]
      constructor
      · rintro ⟨hmem, rfl⟩
        exact ⟨p.account.1, hmem, rfl⟩
      · rintro ⟨j, hj, heq⟩
        rw [← heq]
        exact ⟨hj, rfl⟩)
  unfold Db.liveAmount
  rw [heffect.isLive, heffect.postings, hrename, map_map]
  rfl

theorem liveAmount_target
    (h : MergeReady db canonical subjects) {t : FrequencyKey} (ht : t.hmac = canonical) (w : ℕ) :
    db'.liveAmount (.frequency t) w = ((subjects.map FrequencySubject.projectionHmac).map
      fun hmac => db.liveAmount (.frequency ⟨t.scope, hmac⟩) w).sum := by
  have hnodup : ((subjects.map FrequencySubject.projectionHmac).map
      fun hmac => DimensionKey.frequency ⟨t.scope, hmac⟩).Nodup :=
    h.nodup_hmacs.map (fun a b hab => congrArg FrequencyKey.hmac (DimensionKey.frequency.inj hab))
  rw [heffect.liveAmount_eq hnodup, map_map]
  · rfl
  · intro p _
    cases hp : p.account.1 with
    | quota key => simp [mergedKey]
    | frequency j =>
      simp only [mergedKey, DimensionKey.frequency.injEq]
      by_cases hj : j.hmac ∈ subjects.map FrequencySubject.projectionHmac
      · rw [if_pos hj, onto_eq_iff, mem_map]
        constructor
        · rintro ⟨hscope, -⟩
          exact ⟨j.hmac, hj, by rw [← hscope]⟩
        · rintro ⟨hmac, -, heq⟩
          exact ⟨(congrArg FrequencyKey.scope (DimensionKey.frequency.inj heq)).symm, ht⟩
      · rw [if_neg hj, mem_map]
        constructor
        · rintro rfl
          exact absurd (ht ▸ h.canonical_mem) hj
        · rintro ⟨hmac, hmem, heq⟩
          have hhmac : hmac = j.hmac := congrArg FrequencyKey.hmac (DimensionKey.frequency.inj heq)
          exact absurd (hhmac ▸ hmem) hj

theorem liveAmount_source
    {k : FrequencyKey} (hk : k.hmac ∈ subjects.map FrequencySubject.projectionHmac)
    (hne : k.hmac ≠ canonical) (w : ℕ) : db'.liveAmount (.frequency k) w = 0 := by
  have hnodup : ([] : List DimensionKey).Nodup := nodup_nil
  rw [heffect.liveAmount_eq hnodup]
  · rfl
  · intro p _
    simp only [not_mem_nil, iff_false]
    cases hp : p.account.1 with
    | quota key => simp [mergedKey]
    | frequency j =>
      simp only [mergedKey, DimensionKey.frequency.injEq]
      split
      · exact fun heq => hne (onto_eq_iff.mp heq).2
      · rename_i hj
        exact fun heq => hj (heq ▸ hk)

theorem liveAmount_other (h : MergeReady db canonical subjects) {k : DimensionKey}
    (hk : ∀ j, k = .frequency j → j.hmac ∉ subjects.map FrequencySubject.projectionHmac) (w : ℕ) :
    db'.liveAmount k w = db.liveAmount k w := by
  have hnodup : [k].Nodup := nodup_singleton k
  rw [heffect.liveAmount_eq hnodup]
  · simp
  · intro p _
    rw [mem_singleton]
    cases hp : p.account.1 with
    | quota key => rfl
    | frequency j =>
      simp only [mergedKey]
      split
      · rename_i hj
        constructor
        · intro heq
          exact absurd h.canonical_mem (hk _ heq.symm)
        · intro heq
          exact absurd hj (hk j heq.symm)
      · exact .rfl

end

/-- The value of the row that remains is the sum of the amounts in its window. -/
theorem value_eq_sum (h : MergeReady db canonical subjects)
    (hexact : ∀ k : FrequencyKey, db.Exact (.frequency k)) {t : FrequencyKey}
    (ht : t.hmac = canonical) {m : MergedWindow}
    (hm : chooseMergeWindow (chosenRows db canonical subjects observed t) = some m) :
    m.value = ((subjects.map FrequencySubject.projectionHmac).map
      fun hmac => db.liveAmount (.frequency ⟨t.scope, hmac⟩) m.windowKey).sum := by
  obtain ⟨hnewest, hvalue, -⟩ := newest_of_chooseMergeWindow h.wf hm
  have hmatching : ∀ row, row ∈ matching (mergeGroup db canonical subjects t) m.windowKey ↔
      row ∈ mergeRows db subjects ∧ row.key.scope = t.scope ∧ row.windowKey = m.windowKey := by
    intro row
    unfold matching
    rw [mem_filter, decide_eq_true_eq, mem_mergeGroup, onto_eq_iff, and_assoc, and_iff_left ht]
  have hrowValue : ∀ row ∈ matching (mergeGroup db canonical subjects t) m.windowKey,
      row.value = db.liveAmount (.frequency ⟨t.scope, row.key.hmac⟩) m.windowKey := by
    intro row hrow
    obtain ⟨hmem, hscope, hw⟩ := (hmatching row).mp hrow
    have hkey : row.key = ⟨t.scope, row.key.hmac⟩ := by rw [← hscope]
    have hcounter := (counter_eq_some_iff (mem_mergeRows.mp hmem).2).mpr ⟨row, hmem, rfl, hw, rfl⟩
    rw [← hkey]
    exact (hexact row.key).value _ _ hcounter
  have hnodup : ((matching (mergeGroup db canonical subjects t) m.windowKey).map
      fun row => row.key.hmac).Nodup := by
    have hrows : (matching (mergeGroup db canonical subjects t) m.windowKey).Nodup :=
      (nodup_mergeRows.of_map.filter _).filter _
    refine hrows.map_on (fun a ha b hb hab => ?_)
    obtain ⟨hamem, hascope, -⟩ := (hmatching a).mp ha
    obtain ⟨hbmem, hbscope, -⟩ := (hmatching b).mp hb
    refine inj_on_of_nodup_map nodup_mergeRows hamem hbmem ?_
    rw [FrequencyKey.mk.injEq]
    exact ⟨hascope.trans hbscope.symm, hab⟩
  -- a digest without a row of this window has no amount in it
  have hzero : ∀ hmac ∈ subjects.map FrequencySubject.projectionHmac,
      hmac ∉ (matching (mergeGroup db canonical subjects t) m.windowKey).map
        (fun row => row.key.hmac) →
      db.liveAmount (.frequency ⟨t.scope, hmac⟩) m.windowKey = 0 := by
    intro hmac hmem hnot
    refine Nat.eq_zero_of_not_pos (fun hpos => hnot ?_)
    obtain ⟨w, v, hcounter, hle⟩ := (hexact ⟨t.scope, hmac⟩).window _ hpos
    obtain ⟨row, hrow, hkey, rfl, rfl⟩ := (counter_eq_some_iff hmem).mp hcounter
    have hgroup : row ∈ mergeGroup db canonical subjects t := by
      refine mem_mergeGroup.mpr ⟨hrow, onto_eq_iff.mpr ⟨?_, ht⟩⟩
      rw [hkey]
    refine mem_map.mpr ⟨row, (hmatching row).mpr ⟨hrow, ?_, ?_⟩, ?_⟩
    · rw [hkey]
    · exact le_antisymm (hnewest row hgroup) hle
    · rw [hkey]
  rw [hvalue, map_congr_left hrowValue]
  rw [← sum_toFinset _ h.nodup_hmacs]
  have hmap : (matching (mergeGroup db canonical subjects t) m.windowKey).map
      (fun row => db.liveAmount (.frequency ⟨t.scope, row.key.hmac⟩) m.windowKey) =
      ((matching (mergeGroup db canonical subjects t) m.windowKey).map fun row => row.key.hmac).map
          (fun hmac => db.liveAmount (.frequency ⟨t.scope, hmac⟩) m.windowKey) := by
    rw [map_map]
    rfl
  rw [hmap, ← sum_toFinset _ hnodup]
  refine Finset.sum_subset ?_ ?_
  · intro hmac hmem
    rw [mem_toFinset] at hmem ⊢
    obtain ⟨row, hrow, rfl⟩ := mem_map.mp hmem
    exact (mem_mergeRows.mp ((hmatching row).mp hrow).1).2
  · intro hmac hmem hnot
    rw [mem_toFinset] at hmem hnot
    exact hzero hmac hmem hnot

/-- Frequency rows stay exact through a merge. -/
theorem exact_frequency (heffect : MergeEffect db db' canonical subjects observed)
    (h : MergeReady db canonical subjects)
    (hexact : ∀ k : FrequencyKey, db.Exact (.frequency k)) (k : FrequencyKey) :
    db'.Exact (.frequency k) := by
  by_cases hk : k.hmac ∈ subjects.map FrequencySubject.projectionHmac
  · by_cases hcanonical : k.hmac = canonical
    · have hamounts := heffect.liveAmount_target h hcanonical
      -- a window in which one of the keys has an amount is at most the one of its row
      have hwindow : ∀ w, 0 < db'.liveAmount (.frequency k) w →
          ∃ row ∈ mergeGroup db canonical subjects k, w ≤ row.windowKey := by
        intro w hpos
        rw [hamounts w] at hpos
        obtain ⟨x, hx, hxpos⟩ := exists_mem_ne_zero_of_sum_ne_zero hpos.ne'
        obtain ⟨hmac, hmem, rfl⟩ := mem_map.mp hx
        obtain ⟨w', v, hcounter, hle⟩ :=
          (hexact ⟨k.scope, hmac⟩).window w (Nat.pos_of_ne_zero hxpos)
        obtain ⟨row, hrow, hkey, rfl, -⟩ := (counter_eq_some_iff hmem).mp hcounter
        refine ⟨row, mem_mergeGroup.mpr ⟨hrow, onto_eq_iff.mpr ⟨?_, hcanonical⟩⟩, hle⟩
        rw [hkey]
      unfold Db.Exact
      rcases heffect.target k hcanonical with ⟨m, hm, hcounter⟩ | ⟨hnot, hcounter⟩
      · have hvalue : m.value = db'.liveAmount (.frequency k) m.windowKey := by
          rw [hamounts]
          exact value_eq_sum h hexact hcanonical hm
        rw [hcounter, hvalue]
        refine .store (fun w hpos => ?_)
        obtain ⟨row, hrow, hle⟩ := hwindow w hpos
        exact hle.trans ((newest_of_chooseMergeWindow h.wf hm).1 row hrow)
      · -- nothing is counted on any of the keys
        have hzero : ∀ hmac ∈ subjects.map FrequencySubject.projectionHmac, ∀ w,
            db.liveAmount (.frequency ⟨k.scope, hmac⟩) w = 0 := by
          intro hmac hmem w
          refine Nat.eq_zero_of_not_pos (fun hpos => hnot ?_)
          obtain ⟨p, hp, hlive, haccount, hamount⟩ := balance_pos_iff.mp hpos
          rcases mem_postings.mp hp with ⟨e, -, rfl⟩ | ⟨e, he, rfl⟩
          · cases haccount
          have hkey : e.key = ⟨k.scope, hmac⟩ :=
            DimensionKey.frequency.inj (congrArg Prod.fst haccount)
          refine h.mem_neededTargets.mpr ⟨e, ?_, ?_⟩
          · unfold activeRefs
            refine mem_filter.mpr ⟨(h.mem_mergeEntries_iff he).mpr (by rw [hkey]; exact hmem),
              ?_⟩
            rw [Bool.and_eq_true]
            exact ⟨counted_of_amount_pos hamount, isActive_of_isLive hlive⟩
          · exact onto_eq_iff.mpr ⟨by rw [hkey], hcanonical⟩
        have hown : db.liveAmount (.frequency k) = fun _ => 0 :=
          funext (fun w => hzero k.hmac hk w)
        refine (hexact k).congr (fun w => ?_) hcounter
        rw [hamounts, hown]
        refine sum_eq_zero (fun x hx => ?_)
        obtain ⟨hmac, hmem, rfl⟩ := mem_map.mp hx
        exact hzero hmac hmem w
    · unfold Db.Exact
      rw [heffect.source k hk hcanonical]
      exact .of_zero (heffect.liveAmount_source hk hcanonical)
  · have hother : ∀ j, DimensionKey.frequency k = .frequency j →
        j.hmac ∉ subjects.map FrequencySubject.projectionHmac := by
      intro j hj
      cases hj
      exact hk
    exact (hexact k).congr (heffect.liveAmount_other h hother) (heffect.other _ hother)

theorem exact_quota (heffect : MergeEffect db db' canonical subjects observed)
    (h : MergeReady db canonical subjects) {k : QuotaKey} (hexact : db.Exact (.quota k)) :
    db'.Exact (.quota k) := by
  have hother : ∀ j, DimensionKey.quota k = .frequency j →
      j.hmac ∉ subjects.map FrequencySubject.projectionHmac := by
    intro j hj
    cases hj
  exact hexact.congr (heffect.liveAmount_other h hother) (heffect.other _ hother)

end MergeEffect

end SmsPlatform.Usage
