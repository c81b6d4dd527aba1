import Mathlib.Algebra.BigOperators.Group.Finset.Basic
import SmsPlatform.Usage.MergePlan

/-!
# What a merge does to amounts and projections

The amounts of the keys that are merged add up on the key that remains, and so do the values of
the rows of the newest window; rows of older windows carry nothing of it.
-/

namespace SmsPlatform.Usage

open Support Table List FrequencyKey Projections Bool

/-! ## The window that remains -/

section

variable {db : Db} {canonical : ℕ} {subjects : List FrequencySubject} {observed : ℕ}
  {t : FrequencyKey} {m : MergedWindow}

variable {row : FrequencyRow}

theorem maxExpiry_eq {expiries : List ℕ} {x : ℕ} (hne : expiries ≠ [])
    (h : ∀ y ∈ expiries, y = x) : maxExpiry expiries = x := by
  have hle : ∀ ys b, (∀ y ∈ ys, y = x) → b ≤ x →
      ys.foldl max b = if ys = [] then b else x := by
    intro ys
    induction ys with
    | nil => simp
    | cons y ys ih =>
      intro b hys hb
      have hy := hys y mem_cons_self
      rw [foldl_cons, ih _ (fun z hz => hys z (mem_cons_of_mem y hz))
        (by rw [hy]; exact max_le hb (le_refl x)), if_neg (cons_ne_nil y ys), hy,
        max_eq_right hb, ite_self]
  unfold maxExpiry
  rw [hle expiries 0 h (Nat.zero_le _), if_neg hne]

theorem scope_of_mem_mergeGroup (hrow : row ∈ mergeGroup db canonical subjects t) :
    row.key.scope = t.scope :=
  (onto_eq_iff.mp (mem_mergeGroup.mp hrow).2).1

/-- Rows that have expired have older windows than rows that have not. -/
theorem mem_chosenRows_iff (hwf : WellFormed db) {w : ℕ}
    (hmax : ∃ row ∈ chosenRows db canonical subjects observed t, row.windowKey = w)
    (hrow : row ∈ mergeGroup db canonical subjects t) (hw : w ≤ row.windowKey) :
    row ∈ chosenRows db canonical subjects observed t := by
  unfold chosenRows at hmax ⊢
  split
  · exact hrow
  rename_i hlive
  rw [if_neg hlive] at hmax
  obtain ⟨row', hrow', rfl⟩ := hmax
  obtain ⟨hgroup', hobserved⟩ := mem_filter.mp hrow'
  rw [decide_eq_true_eq, expiresAt_of_mem_mergeRows hwf (mem_mergeGroup.mp hgroup').1,
    scope_of_mem_mergeGroup hgroup'] at hobserved
  refine mem_filter.mpr ⟨hrow, decide_eq_true ?_⟩
  rw [expiresAt_of_mem_mergeRows hwf (mem_mergeGroup.mp hrow).1, scope_of_mem_mergeGroup hrow]
  exact hobserved.trans_le (t.scope.expiresAt_mono hw)

theorem mem_mergeGroup_of_mem_chosenRows
    (hrow : row ∈ chosenRows db canonical subjects observed t) :
    row ∈ mergeGroup db canonical subjects t := by
  unfold chosenRows at hrow
  split at hrow
  · exact hrow
  · exact (mem_filter.mp hrow).1

theorem chooseMergeWindow_eq_some {rows : List FrequencyRow} (h : chooseMergeWindow rows = some m) :
    (∃ row ∈ rows, row.windowKey = m.windowKey) ∧ (∀ row ∈ rows, row.windowKey ≤ m.windowKey) ∧
      m.value = ((matching rows m.windowKey).map FrequencyRow.value).sum ∧
      m.expiresAt = maxExpiry ((matching rows m.windowKey).map FrequencyRow.expiresAt) := by
  obtain ⟨w, hw, rfl⟩ := Option.map_eq_some_iff.mp h
  obtain ⟨hmem, hle⟩ := max?_eq_some_iff.mp hw
  obtain ⟨row, hrow, heq⟩ := mem_map.mp hmem
  exact ⟨⟨row, hrow, heq⟩, fun row hrow => hle _ (mem_map_of_mem hrow), rfl, rfl⟩

/-- The window is the newest of all rows of the target, and its value is the sum over them. -/
theorem newest_of_chooseMergeWindow (hwf : WellFormed db)
    (h : chooseMergeWindow (chosenRows db canonical subjects observed t) = some m) :
    (∀ row ∈ mergeGroup db canonical subjects t, row.windowKey ≤ m.windowKey) ∧
      m.value = ((matching (mergeGroup db canonical subjects t) m.windowKey).map
        FrequencyRow.value).sum ∧
      m.expiresAt = t.scope.expiresAt m.windowKey := by
  obtain ⟨hmax, hle, hvalue, hexpiry⟩ := chooseMergeWindow_eq_some h
  have hmatching : matching (chosenRows db canonical subjects observed t) m.windowKey =
      matching (mergeGroup db canonical subjects t) m.windowKey := by
    have hall := fun row (hrow : row ∈ mergeGroup db canonical subjects t)
        hw => mem_chosenRows_iff hwf hmax hrow hw
    unfold chosenRows at hall ⊢
    split
    · rfl
    rename_i hlive
    rw [if_neg hlive] at hall
    unfold matching liveGroup
    rw [filter_filter]
    refine filter_congr (fun row hrow => ?_)
    by_cases hw : row.windowKey = m.windowKey
    · have hmem := (mem_filter.mp (hall row hrow hw.ge)).2
      simp [of_decide_eq_true hmem]
    · simp [hw]
  refine ⟨fun row hrow => ?_, ?_, ?_⟩
  · by_contra hlt
    exact hlt (hle row (mem_chosenRows_iff hwf hmax hrow (Nat.le_of_not_le hlt)))
  · rw [hvalue, hmatching]
  · rw [hexpiry]
    refine maxExpiry_eq ?_ (fun x hx => ?_)
    · obtain ⟨row, hrow, hw⟩ := hmax
      refine ne_nil_of_mem (mem_map_of_mem (a := row) ?_)
      exact mem_filter.mpr ⟨hrow, decide_eq_true hw⟩
    · obtain ⟨row, hrow, rfl⟩ := mem_map.mp hx
      obtain ⟨hchosen, hw⟩ := mem_filter.mp hrow
      have hgroup := mem_mergeGroup_of_mem_chosenRows hchosen
      rw [expiresAt_of_mem_mergeRows hwf (mem_mergeGroup.mp hgroup).1,
        scope_of_mem_mergeGroup hgroup, of_decide_eq_true hw]

end

/-! ## Rows after the merge -/

section

variable {ps : Projections} {os : List TargetOutcome} {k : DimensionKey}

theorem counter_writeWindow_self (o : TargetOutcome) :
    (ps.writeWindow o).counter (.frequency o.target) =
      some (o.window.windowKey, o.window.value) := by
  unfold Projections.counter Projections.writeWindow
  rw [find?_write_self]
  rfl

theorem counter_writeWindow_of_ne {o : TargetOutcome} (h : k ≠ .frequency o.target) :
    (ps.writeWindow o).counter k = ps.counter k :=
  counter_congr (find?_write_of_ne h)

theorem counter_foldl_of_not_mem (h : ∀ o ∈ os, k ≠ .frequency o.target) :
    (os.foldl Projections.writeWindow ps).counter k = ps.counter k := by
  induction os generalizing ps with
  | nil => rfl
  | cons o os ih =>
    rw [foldl_cons, ih (fun o' ho' => h o' (mem_cons_of_mem o ho'))]
    exact counter_writeWindow_of_ne (h o mem_cons_self)

theorem counter_foldl_of_mem (hnodup : (os.map TargetOutcome.target).Nodup) {o : TargetOutcome}
    (ho : o ∈ os) : (os.foldl Projections.writeWindow ps).counter (.frequency o.target) =
      some (o.window.windowKey, o.window.value) := by
  induction os generalizing ps with
  | nil => cases ho
  | cons o' os ih =>
    rw [map_cons, nodup_cons] at hnodup
    rw [foldl_cons]
    rcases mem_cons.mp ho with rfl | ho
    · rw [counter_foldl_of_not_mem, counter_writeWindow_self]
      intro o' ho' heq
      have htarget : o.target = o'.target := DimensionKey.frequency.inj heq
      exact hnodup.1 (htarget ▸ mem_map_of_mem ho')
    · exact ih hnodup.2 ho

variable {keys : List FrequencyKey}

theorem counter_delete_of_not_mem
    (h : k ∉ keys.map DimensionKey.frequency) : (ps.delete keys).counter k = ps.counter k := by
  refine counter_congr (find?_keep_of_true (fun p hp => ?_))
  rw [hp]
  exact decide_eq_true h

theorem counter_delete_of_mem (h : k ∈ keys.map DimensionKey.frequency) :
    (ps.delete keys).counter k = none := by
  unfold Projections.counter Projections.delete
  rw [find?_keep_of_false (fun p hp => ?_)]
  · rfl
  · rw [hp]
    exact decide_eq_false (not_not.mpr h)

end

/-! ## The merge as a whole -/

/-- The key of a row or an entry after the merge. -/
def mergedKey (canonical : ℕ) (hmacs : List ℕ) : DimensionKey → DimensionKey
  | .quota k => .quota k
  | .frequency k => .frequency (if k.hmac ∈ hmacs then k.onto canonical else k)

/-- What a merge does to postings and counters. -/
structure MergeEffect (db db' : Db) (canonical : ℕ) (subjects : List FrequencySubject)
    (observed : ℕ) : Prop where
  reservations : db'.reservations = db.reservations
  postings : db'.postings = db.postings.map (fun p =>
    { p with account := (mergedKey canonical (subjects.map FrequencySubject.projectionHmac)
      p.account.1, p.account.2) })
  shaped : ∀ p ∈ db'.projections.rows, p.Shaped
  other : ∀ k, (∀ j, k = .frequency j → j.hmac ∉ subjects.map FrequencySubject.projectionHmac) →
    db'.projections.counter k = db.projections.counter k
  source : ∀ k : FrequencyKey, k.hmac ∈ subjects.map FrequencySubject.projectionHmac →
    k.hmac ≠ canonical → db'.projections.counter (.frequency k) = none
  target : ∀ t : FrequencyKey, t.hmac = canonical →
    (∃ m, chooseMergeWindow (chosenRows db canonical subjects observed t) = some m ∧
      db'.projections.counter (.frequency t) = some (m.windowKey, m.value)) ∨
    (t ∉ neededTargets db canonical subjects ∧
      db'.projections.counter (.frequency t) = db.projections.counter (.frequency t))

section

variable {db db' : Db} {canonical : ℕ} {subjects : List FrequencySubject} {observed : ℕ}
  {outcomes : List TargetOutcome}

section

variable (h : MergeReady db canonical subjects)
include h

/-- No source is protected: the keys that are moved are all sources but the one that remains. -/
theorem MergeReady.mem_movedKeys
    (hplan : Plan db canonical subjects observed outcomes) {k : FrequencyKey} :
    k ∈ movedKeys db canonical subjects outcomes ↔
      k ∈ mergeSources db canonical subjects ∧ k.hmac ≠ canonical := by
  have hne : k.onto canonical ≠ k ↔ k.hmac ≠ canonical := by
    rw [Ne, onto_eq_iff]
    simp
  have hprotected : (isReferenced db subjects k &&
      decide (k.onto canonical ∉ outcomes.map TargetOutcome.target)) = false := by
    rw [and_eq_false_iff]
    cases href : isReferenced db subjects k with
    | false => exact .inl rfl
    | true =>
      right
      obtain ⟨e, he, hkey⟩ := any_eq_true.mp href
      have hneeded : k.onto canonical ∈ neededTargets db canonical subjects :=
        h.mem_neededTargets.mpr ⟨e, he, by rw [of_decide_eq_true hkey]⟩
      obtain ⟨o, ho, htarget⟩ := hplan.needed _ hneeded
      exact decide_eq_false (not_not.mpr (htarget ▸ mem_map_of_mem ho))
  unfold movedKeys
  rw [mem_filter, hprotected, Bool.not_false, Bool.and_true, decide_eq_true_eq, hne]

theorem MergeReady.entry_moved_iff
    (hplan : Plan db canonical subjects observed outcomes) {e : FrequencyEntry}
    (he : e ∈ db.frequencyEntries) : e.key ∈ movedKeys db canonical subjects outcomes ↔
      e.key.hmac ∈ subjects.map FrequencySubject.projectionHmac ∧ e.key.hmac ≠ canonical := by
  rw [h.mem_movedKeys hplan]
  constructor
  · exact fun hk => ⟨h.hmac_of_mem_mergeSources hk.1, hk.2⟩
  · rintro ⟨hhmac, hne⟩
    refine ⟨?_, hne⟩
    refine mem_dedup.mpr (mem_append_right _ (mem_filter.mpr ⟨?_, ?_⟩))
    · exact mem_map_of_mem ((h.mem_mergeEntries_iff he).mpr hhmac)
    · refine decide_eq_true (fun heq => hne ?_)
      exact (onto_eq_iff.mp heq).2

theorem MergeReady.key_row
    (hplan : Plan db canonical subjects observed outcomes) {e : FrequencyEntry}
    (he : e ∈ db.frequencyEntries) :
    (keyRewrite canonical (movedKeys db canonical subjects outcomes)).row e =
      { e with key := if e.key.hmac ∈ subjects.map FrequencySubject.projectionHmac
        then e.key.onto canonical else e.key } := by
  by_cases hmoved : e.key ∈ movedKeys db canonical subjects outcomes
  · rw [Update.row_of_applies (decide_eq_true hmoved),
      if_pos ((h.entry_moved_iff hplan he).mp hmoved).1]
    rfl
  rw [Update.row_of_not_applies (decide_eq_false hmoved)]
  by_cases hhmac : e.key.hmac ∈ subjects.map FrequencySubject.projectionHmac
  · have hcanonical : e.key.hmac = canonical := by
      by_contra hne
      exact hmoved ((h.entry_moved_iff hplan he).mpr ⟨hhmac, hne⟩)
    rw [if_pos hhmac, onto_eq_iff.mpr ⟨rfl, hcanonical⟩]
  · rw [if_neg hhmac]

theorem mergeEffect (hmerge : mergeFrequencyProjections db canonical subjects observed = .ok db') :
    MergeEffect db db' canonical subjects observed := by
  obtain ⟨outcomes, houtcomes, hassert, rfl⟩ := mergeFrequencyProjections_eq_ok hmerge
  have hplan := h.plan houtcomes
  have hnotMoved : ∀ k : DimensionKey,
      (∀ j, k = .frequency j → j.hmac ∉ subjects.map FrequencySubject.projectionHmac ∨
        j.hmac = canonical) →
      k ∉ (movedKeys db canonical subjects outcomes).map .frequency := by
    intro k hk hmem
    obtain ⟨j, hj, rfl⟩ := mem_map.mp hmem
    obtain ⟨hsource, hne⟩ := (h.mem_movedKeys hplan).mp hj
    rcases hk j rfl with hnot | heq
    · exact hnot (h.hmac_of_mem_mergeSources hsource)
    · exact hne heq
  have htargetHmac : ∀ o ∈ outcomes, o.target.hmac = canonical := by
    intro o ho
    obtain ⟨row, -, heq⟩ := mem_mergeTargets.mp (hplan.outcome o ho).1
    exact (onto_eq_iff.mp heq).2
  -- a key that is no target is not written
  have hnotWritten : ∀ k : DimensionKey, (∀ o ∈ outcomes, k ≠ .frequency o.target) →
      ((outcomes.filter TargetOutcome.isWritten).foldl .writeWindow
        db.projections).counter k = db.projections.counter k :=
    fun k hk => counter_foldl_of_not_mem (fun o ho => hk o (mem_of_mem_filter ho))
  refine ⟨rfl, ?_, ?_, ?_, ?_, ?_⟩
  · unfold Db.postings Db.facts
    rw [map_append, map_append, map_append, map_map, map_map, map_map,
      map_map, rows_apply, map_map, map_map]
    congr 1
    refine map_congr_left (fun e he => ?_)
    simp only [Function.comp_apply]
    rw [h.key_row hplan he]
    rfl
  · intro p hp
    have hkept := (mem_keep_iff.mp hp).1
    have hall : ∀ (os : List TargetOutcome) (ps : Projections), (∀ o ∈ os, o ∈ outcomes) →
        (∀ p ∈ ps.rows, p.Shaped) → ∀ p ∈ (os.foldl .writeWindow ps).rows, p.Shaped := by
      intro os
      induction os with
      | nil => exact fun ps _ hps => hps
      | cons o os ih =>
        intro ps hos hps
        refine ih _ (fun o' ho' => hos o' (mem_cons_of_mem o ho')) (shaped_write hps ?_)
        exact (newest_of_chooseMergeWindow h.wf (hplan.outcome o (hos o mem_cons_self)).2.2).2.2
    exact hall _ db.projections (fun o ho => mem_of_mem_filter ho) h.wf.shaped p hkept
  · intro k hk
    rw [counter_delete_of_not_mem (hnotMoved k (fun j hj => .inl (hk j hj))), hnotWritten]
    intro o ho heq
    exact hk o.target heq (htargetHmac o ho ▸ h.canonical_mem)
  · intro k hhmac hne
    by_cases hmoved : k ∈ movedKeys db canonical subjects outcomes
    · exact counter_delete_of_mem (mem_map_of_mem hmoved)
    have hmem : .frequency k ∉
        (movedKeys db canonical subjects outcomes).map DimensionKey.frequency := by
      intro hmem
      obtain ⟨j, hj, ⟨⟩⟩ := mem_map.mp hmem
      exact hmoved hj
    rw [counter_delete_of_not_mem hmem, hnotWritten]
    · cases hcounter : db.projections.counter (.frequency k) with
      | none => rfl
      | some s =>
        obtain ⟨row, hrow, hkey, -, -⟩ := (counter_eq_some_iff hhmac).mp hcounter
        refine absurd ((h.mem_movedKeys hplan).mpr ⟨?_, hne⟩) hmoved
        exact hkey ▸ MergeReady.mem_mergeSources_of_row hrow
    · intro o ho heq
      cases heq
      exact hne (htargetHmac o ho)
  · intro t ht
    rw [counter_delete_of_not_mem (hnotMoved _ (fun j hj => by cases hj; exact .inr ht))]
    by_cases htarget : ∃ o ∈ outcomes, o.target = t
    · left
      obtain ⟨o, ho, rfl⟩ := htarget
      obtain ⟨-, hwritten, hwindow⟩ := hplan.outcome o ho
      refine ⟨o.window, hwindow, ?_⟩
      rcases hwritten with hlive | hwritten
      · exact hassert o ho hlive
      · exact counter_foldl_of_mem (hplan.nodup.sublist (filter_sublist.map _))
          (mem_filter.mpr ⟨ho, hwritten⟩)
    · right
      refine ⟨fun hneeded => htarget (hplan.needed t hneeded), hnotWritten _ ?_⟩
      intro o ho heq
      cases heq
      exact htarget ⟨o, ho, rfl⟩

end

end

end SmsPlatform.Usage
