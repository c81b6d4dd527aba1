import SmsPlatform.Stats.Daily

/-!
# Dirty dates are not lost

An insertion that finds the mark of a day does not hold it.  If an aggregation then takes the
mark away and counts the messages before the change is committed, the day ends up neither dirty
nor counted.  This is the only way in which a change gets lost: it does not happen if an
aggregation that has deleted a mark counts only while no open transaction has found the mark.
-/

namespace SmsPlatform.Stats

open Support Schema Table List Option Bool Function

variable {batches : ℕ → BatchFacts}

/-! ## Messages of other days -/

section

variable {messages : Table Message.id} {writes : List (ℕ × MessageStatus)} {date : ℕ}

theorem date_writtenStatus (m : Message) : ((writtenStatus writes).row m).date = m.date :=
  Update.row_cases (P := fun n : Message => n.date = m.date) rfl (fun _ => rfl)

/-- A day keeps its statistics if none of its messages is written. -/
theorem aggregated_apply
    (h : ∀ m ∈ messages, (writtenStatus writes).applies m = true → m.date ≠ date) :
    aggregated batches (messages.apply (writtenStatus writes)) date =
      aggregated batches messages date := by
  unfold aggregated onDate
  rw [rows_apply, List.filter_map]
  have hfilter : messages.rows.filter
      ((fun m => decide (m.date = date)) ∘ (writtenStatus writes).row) =
      messages.rows.filter (fun m => decide (m.date = date)) := by
    refine filter_congr (fun m _ => ?_)
    rw [comp_apply, date_writtenStatus]
  have hsame : ∀ m ∈ messages.rows.filter (fun m => decide (m.date = date)),
      (writtenStatus writes).row m = m := by
    intro m hm
    obtain ⟨hmem, hdate⟩ := mem_filter.mp hm
    refine Update.row_of_not_applies (eq_false_of_not_eq_true (fun happ => ?_))
    exact h m hmem happ (of_decide_eq_true hdate)
  rw [hfilter, map_congr_left hsame, List.map_id']

end

/-! ## The invariant -/

namespace World

/-- What open transactions rely on. -/
structure Sound (batches : ℕ → BatchFacts) (w : World) : Prop where
  covered : ∀ date, w.IsCovered batches date
  /-- A mark that has been inserted and not committed is the only one of its day. -/
  inserted : ∀ t ∈ w.writers, ∀ date ∈ t.inserted, w.dirty date = false
  inserted_once : ∀ t ∈ w.writers, ∀ u ∈ w.writers, ∀ date ∈ t.inserted, date ∈ u.inserted → t = u
  /-- A mark that has been found is still there, and an aggregation that takes it away has not
  counted yet. -/
  found : ∀ t ∈ w.writers, ∀ date ∈ t.found, w.dirty date = true ∧
    ∀ a ∈ w.aggregations, a.date = date → a.deleted = some true → a.rows = none
  alone : ∀ a ∈ w.aggregations, ∀ b ∈ w.aggregations, a.date = b.date → a = b
  ordered : ∀ a ∈ w.aggregations, a.deleted = none → a.rows = none
  deleted : ∀ a ∈ w.aggregations, a.deleted = some true → w.dirty a.date = true
  /-- What has been counted is right, or there is a mark that stays. -/
  counted : ∀ a ∈ w.aggregations, ∀ rows, a.rows = some rows →
    rows = aggregated batches w.messages a.date ∨ (w.dirty a.date = true ∧ a.deleted ≠ some true)

end World

/-- An aggregation that has deleted a mark counts only while no open transaction has found it. -/
def World.countsAlone (w : World) : Action → Bool
  | .aggregate tx => (w.aggregations.find? tx).all fun a =>
    decide (a.deleted ≠ some true) || w.writers.rows.all fun t => !t.found.contains a.date
  | _ => true

variable {tx : ℕ} {a : Aggregation}

theorem not_mem_found_of_countsAlone {w : World} (h : w.countsAlone (.aggregate tx) = true)
    (ha : w.aggregations.find? tx = some a) (hdeleted : a.deleted = some true) :
    ∀ t ∈ w.writers, a.date ∉ t.found := by
  intro t ht hmem
  rw [World.countsAlone, ha, all_some, or_eq_true] at h
  rcases h with h | h
  · exact of_decide_eq_true h hdeleted
  · have hfalse := all_eq_true.mp h t ht
    rw [contains_iff_mem.mpr hmem] at hfalse
    cases hfalse

namespace World.Sound

variable {w : World}

theorem of_init (hquiet : w.IsQuiet) (hcovered : ∀ date, w.IsCovered batches date) :
    w.Sound batches := by
  have hwriters : ∀ t, ¬ t ∈ w.writers := by
    intro t ht
    rw [← mem_rows, hquiet.1] at ht
    exact not_mem_nil ht
  have haggregations : ∀ a, ¬ a ∈ w.aggregations := by
    intro a ha
    rw [← mem_rows, hquiet.2] at ha
    exact not_mem_nil ha
  exact
    { covered := hcovered
      inserted := fun t ht => absurd ht (hwriters t)
      inserted_once := fun t ht => absurd ht (hwriters t)
      found := fun t ht => absurd ht (hwriters t)
      alone := fun a ha => absurd ha (haggregations a)
      ordered := fun a ha => absurd ha (haggregations a)
      deleted := fun a ha => absurd ha (haggregations a)
      counted := fun a ha => absurd ha (haggregations a) }

section

variable (h : w.Sound batches)
include h

/-- Fewer open transactions have less to rely on. -/
theorem keep (p : Writer → Bool) (q : Aggregation → Bool) : World.Sound batches
      { w with writers := w.writers.keep p, aggregations := w.aggregations.keep q } := by
  have hwriter : ∀ t, t ∈ w.writers.keep p → t ∈ w.writers := fun t ht => (mem_keep_iff.mp ht).1
  have haggregation : ∀ a, a ∈ w.aggregations.keep q → a ∈ w.aggregations :=
    fun a ha => (mem_keep_iff.mp ha).1
  exact
    { covered := h.covered
      inserted := fun t ht => h.inserted t (hwriter t ht)
      inserted_once := fun t ht u hu => h.inserted_once t (hwriter t ht) u (hwriter u hu)
      found := fun t ht date hdate =>
        ⟨(h.found t (hwriter t ht) date hdate).1,
          fun a ha => (h.found t (hwriter t ht) date hdate).2 a (haggregation a ha)⟩
      alone := fun a ha b hb => h.alone a (haggregation a ha) b (haggregation b hb)
      ordered := fun a ha => h.ordered a (haggregation a ha)
      deleted := fun a ha => h.deleted a (haggregation a ha)
      counted := fun a ha => h.counted a (haggregation a ha) }

/-! ## Writers -/

/-- A writer may go on as long as what it has inserted and found is sound. -/
theorem putWriter {t : Writer} (hinserted : ∀ date ∈ t.inserted, w.dirty date = false ∧
      ∀ u ∈ w.writers, u.id ≠ t.id → date ∉ u.inserted)
    (hfound : ∀ date ∈ t.found, w.dirty date = true ∧
      ∀ a ∈ w.aggregations, a.date = date → a.deleted = some true → a.rows = none) :
    World.Sound batches { w with writers := w.writers.put t } := by
  refine { h with inserted := ?_, inserted_once := ?_, found := ?_ }
  · exact forall_mem_put h.inserted (fun date hdate => (hinserted date hdate).1)
  · intro u hu v hv date hdate hdate'
    refine eq_of_mem_put (R := fun u v => date ∈ u.inserted ∧ date ∈ v.inserted)
      (fun _ _ => .symm) (fun u hu v hv hboth => ?_) (fun u hu hne hboth => ?_) u hu v hv
      ⟨hdate, hdate'⟩
    · exact h.inserted_once u hu v hv date hboth.1 hboth.2
    · exact (hinserted date hboth.2).2 u hu hne hboth.1
  · exact forall_mem_put h.found hfound

/-- What a writer of the table has inserted no other writer has inserted. -/
theorem inserted_put {t : Writer} (ht : t ∈ w.writers) {date : ℕ} (hdate : date ∈ t.inserted) :
    w.dirty date = false ∧ ∀ u ∈ w.writers, u.id ≠ t.id → date ∉ u.inserted := by
  refine ⟨h.inserted t ht date hdate, fun u hu hne hmem => hne ?_⟩
  rw [h.inserted_once t ht u hu date hdate hmem]

variable {w' : World}

theorem change {message : ℕ} {status : MessageStatus}
    (hstep : w.change tx message status = some w') : w'.Sound batches := by
  obtain ⟨t, ht, hstep⟩ := bind_eq_some_iff.mp hstep
  obtain ⟨hmem, -⟩ := find?_eq_some_iff.mp ht
  split at hstep
  · cases hstep
    exact h.putWriter (fun date hdate => h.inserted_put hmem hdate) (h.found t hmem)
  · cases hstep

theorem mark {date : ℕ} (hstep : w.mark tx date = some w') : w'.Sound batches := by
  obtain ⟨t, ht, hstep⟩ := bind_eq_some_iff.mp hstep
  obtain ⟨hmem, hid⟩ := find?_eq_some_iff.mp ht
  split at hstep
  · cases hstep
    exact h
  split at hstep
  · cases hstep
  rename_i hfree
  rw [not_eq_true, isContended, or_eq_false_iff] at hfree
  -- neither another insertion nor a deletion of the mark is open
  have hnone : ∀ a ∈ w.aggregations, a.date = date → a.deleted ≠ some true := by
    intro a ha hdate hdeleted
    have hfalse := any_eq_false.mp hfree.2 a ha
    exact hfalse (decide_eq_true ⟨hdate, hdeleted⟩)
  have hothers : ∀ u ∈ w.writers, u.id ≠ t.id → date ∉ u.inserted := by
    intro u hu hne hdate
    have hfalse := any_eq_false.mp hfree.1 u hu
    refine hfalse ?_
    rw [and_eq_true, decide_eq_true_eq, contains_iff_mem]
    exact ⟨hid ▸ hne, hdate⟩
  split at hstep
  · rename_i hdirty
    cases hstep
    refine h.putWriter (fun d hd => h.inserted_put hmem hd) (fun d hd => ?_)
    rcases mem_cons.mp hd with rfl | hd
    · exact ⟨hdirty, fun a ha hdate hdeleted => absurd hdeleted (hnone a ha hdate)⟩
    · exact h.found t hmem d hd
  · rename_i hclean
    cases hstep
    refine h.putWriter (fun d hd => ?_) (h.found t hmem)
    rcases mem_cons.mp hd with rfl | hd
    · exact ⟨eq_false_of_not_eq_true hclean, hothers⟩
    · exact h.inserted_put hmem hd

/-- A committed change leaves the day of each message dirty, and no aggregation takes away a mark
after having counted without the change. -/
theorem commitWriter (hstep : w.commitWriter tx = some w') : w'.Sound batches := by
  obtain ⟨t, ht, hstep⟩ := bind_eq_some_iff.mp hstep
  obtain ⟨hmem, hid⟩ := find?_eq_some_iff.mp ht
  obtain ⟨hall, ⟨⟩⟩ := ite_none_right_eq_some.mp hstep
  -- a day is unchanged, or its mark was inserted, or found
  have hdates : ∀ date, aggregated batches (w.messages.apply (writtenStatus t.writes)) date =
      aggregated batches w.messages date ∨ date ∈ t.inserted ∨ date ∈ t.found := by
    intro date
    by_cases hchanged : date ∈ w.changedDates t
    · have hmarked := all_eq_true.mp hall date hchanged
      rw [or_eq_true, contains_iff_mem, contains_iff_mem] at hmarked
      exact .inr hmarked
    · refine .inl (aggregated_apply (fun m hm happ hdate => hchanged ?_))
      exact mem_map.mpr ⟨m, mem_filter.mpr ⟨hm, happ⟩, hdate⟩
  have hkeep := h.keep (fun u => decide (u.id ≠ tx)) (fun _ => true)
  have hdirty : ∀ date, w.dirty date = true → (w.dirty date || t.inserted.contains date) = true :=
    fun date hd => by rw [hd, Bool.true_or]
  refine ⟨fun date => ?_, fun u hu date hdate => ?_, hkeep.inserted_once, fun u hu date hdate => ?_,
    h.alone, h.ordered, fun a ha hdeleted => hdirty _ (h.deleted a ha hdeleted),
      fun a ha rows hrows => ?_⟩
  · rcases hdates date with hsame | hinserted | hfound
    · rcases h.covered date with hdaily | hd
      · exact .inl (hdaily.trans hsame.symm)
      · exact .inr (hdirty date hd)
    · exact .inr (by simp [hinserted])
    · exact .inr (hdirty date (h.found t hmem date hfound).1)
  · obtain ⟨hu, hne⟩ := mem_keep_iff.mp hu
    have hnot : date ∉ t.inserted := by
      intro hdate'
      have heq := h.inserted_once u hu t hmem date hdate hdate'
      exact of_decide_eq_true hne (heq ▸ hid)
    simp [h.inserted u hu date hdate, hnot]
  · have hold := h.found u (mem_keep_iff.mp hu).1 date hdate
    exact ⟨hdirty date hold.1, hold.2⟩
  · rcases h.counted a ha rows hrows with heq | ⟨hd, hkept⟩
    · rcases hdates a.date with hsame | hinserted | hfound
      · exact .inl (heq.trans hsame.symm)
      · refine .inr ⟨by simp [hinserted], fun hdeleted => ?_⟩
        have hfalse := h.inserted t hmem a.date hinserted
        rw [h.deleted a ha hdeleted] at hfalse
        cases hfalse
      · obtain ⟨hd, hpending⟩ := h.found t hmem a.date hfound
        refine .inr ⟨hdirty _ hd, fun hdeleted => ?_⟩
        rw [hpending a ha rfl hdeleted] at hrows
        cases hrows
    · exact .inr ⟨hdirty _ hd, hkept⟩

/-! ## Aggregations -/

/-- An aggregation may go on as long as what it has deleted and counted is sound. -/
theorem putAggregation (halone : ∀ b ∈ w.aggregations, b.id ≠ a.id → b.date ≠ a.date)
    (hfound : a.deleted = some true → a.rows ≠ none → ∀ t ∈ w.writers, a.date ∉ t.found)
    (hordered : a.deleted = none → a.rows = none)
    (hdeleted : a.deleted = some true → w.dirty a.date = true)
    (hcounted : ∀ rows, a.rows = some rows → rows = aggregated batches w.messages a.date ∨
      (w.dirty a.date = true ∧ a.deleted ≠ some true)) :
    World.Sound batches { w with aggregations := w.aggregations.put a } := by
  refine { h with found := ?_, alone := ?_, ordered := ?_, deleted := ?_, counted := ?_ }
  · intro t ht date hdate
    refine ⟨(h.found t ht date hdate).1, fun b hb hbdate hbdeleted => ?_⟩
    rcases mem_put_iff.mp hb with ⟨hb, -⟩ | rfl
    · exact (h.found t ht date hdate).2 b hb hbdate hbdeleted
    · by_contra hrows
      exact hfound hbdeleted hrows t ht (hbdate ▸ hdate)
  · exact eq_of_mem_put (fun _ _ => .symm) h.alone halone
  · exact forall_mem_put h.ordered hordered
  · exact forall_mem_put h.deleted hdeleted
  · exact forall_mem_put h.counted hcounted

theorem date_ne (ha : a ∈ w.aggregations) (b : Aggregation)
    (hb : b ∈ w.aggregations) (hne : b.id ≠ a.id) : b.date ≠ a.date := by
  intro hdate
  exact hne (congrArg Aggregation.id (h.alone b hb a ha hdate))

theorem beginAggregation {date : ℕ}
    (hstep : w.beginAggregation tx date = some w') : w'.Sound batches := by
  unfold World.beginAggregation at hstep
  split at hstep
  · cases hstep
  split at hstep
  · cases hstep
  rename_i hfree
  cases hstep
  refine h.putAggregation (fun b hb _ hdate => hfree ?_) (fun hfalse => ?_) (fun _ => rfl)
    (fun hfalse => ?_) (fun rows hrows => ?_)
  · exact any_eq_true.mpr ⟨b, hb, decide_eq_true hdate⟩
  · cases hfalse
  · cases hfalse
  · cases hrows

theorem deleteMark (hstep : w.deleteMark tx = some w') : w'.Sound batches := by
  obtain ⟨a, ha, hstep⟩ := bind_eq_some_iff.mp hstep
  obtain ⟨hmem, -⟩ := find?_eq_some_iff.mp ha
  split at hstep
  · cases hstep
  rename_i hnone
  cases hstep
  have hrows : a.rows = none := h.ordered a hmem hnone
  refine h.putAggregation (fun b => h.date_ne hmem b) (fun _ hcounted => absurd hrows hcounted)
    (fun _ => hrows) Option.some.inj (fun rows hsome => ?_)
  rw [hrows] at hsome
  cases hsome

theorem aggregate
    (hok : w.countsAlone (.aggregate tx) = true) (hstep : w.aggregate batches tx = some w') :
    w'.Sound batches := by
  obtain ⟨a, ha, hstep⟩ := bind_eq_some_iff.mp hstep
  obtain ⟨hmem, -⟩ := find?_eq_some_iff.mp ha
  split at hstep
  · rename_i hready
    cases hstep
    rw [and_eq_true, isSome_iff_ne_none] at hready
    have hfree : a.deleted = some true → ∀ t ∈ w.writers, a.date ∉ t.found :=
      not_mem_found_of_countsAlone hok ha
    refine h.putAggregation (fun b => h.date_ne hmem b) (fun hdeleted _ => hfree hdeleted)
      (fun hnone => absurd hnone hready.1) (h.deleted a hmem) (fun rows hrows => .inl ?_)
    exact (Option.some.inj hrows).symm
  · cases hstep

/-- The statistics are replaced by right ones, or a mark stays. -/
theorem commitAggregation (hstep : w.commitAggregation tx = some w') : w'.Sound batches := by
  obtain ⟨a, ha, hstep⟩ := bind_eq_some_iff.mp hstep
  obtain ⟨hmem, hid⟩ := find?_eq_some_iff.mp ha
  obtain ⟨rows, hrows, rfl⟩ := map_eq_some_iff.mp hstep
  -- the mark of another day stays, and so does that of this day if it was not deleted
  have hstays : ∀ date, w.dirty date = true → (date = a.date → a.deleted ≠ some true) →
      (w.dirty date && !decide (date = a.date ∧ a.deleted = some true)) = true := by
    intro date hd hkept
    have hnot : ¬ (date = a.date ∧ a.deleted = some true) := fun hboth => hkept hboth.1 hboth.2
    simp [hd, hnot]
  have hother : ∀ b ∈ w.aggregations.keep (fun b => decide (b.id ≠ tx)), b.date ≠ a.date := by
    intro b hb
    obtain ⟨hb, hne⟩ := mem_keep_iff.mp hb
    exact h.date_ne hmem b hb (hid ▸ of_decide_eq_true hne)
  have hkeep := h.keep (fun _ => true) (fun b => decide (b.id ≠ tx))
  refine ⟨fun date => ?_, fun t ht date hdate => ?_, h.inserted_once, fun t ht date hdate => ?_,
    hkeep.alone, hkeep.ordered, fun b hb hdeleted => ?_, fun b hb rows' hrows' => ?_⟩
  · by_cases hdate : date = a.date
    · subst hdate
      rcases h.counted a hmem rows hrows with heq | ⟨hd, hkept⟩
      · exact .inl ((update_self ..).trans heq)
      · exact .inr (hstays _ hd (fun _ => hkept))
    · rcases h.covered date with hdaily | hd
      · exact .inl ((update_of_ne hdate ..).trans hdaily)
      · exact .inr (hstays date hd (fun heq => absurd heq hdate))
  · simp [h.inserted t ht date hdate]
  · obtain ⟨hd, hpending⟩ := h.found t ht date hdate
    refine ⟨hstays date hd (fun heq hdeleted => ?_), fun b hb => ?_⟩
    · rw [hpending a hmem heq.symm hdeleted] at hrows
      cases hrows
    · exact hpending b (mem_keep_iff.mp hb).1
  · exact hstays _ (hkeep.deleted b hb hdeleted) (fun heq => absurd heq (hother b hb))
  · rcases hkeep.counted b hb rows' hrows' with heq | ⟨hd, hkept⟩
    · exact .inl heq
    · exact .inr ⟨hstays _ hd (fun heq => absurd heq (hother b hb)), hkept⟩

/-! ## Steps and runs -/

theorem next {a : Action} (hok : w.countsAlone a = true)
    (hstep : w.next batches a = some w') : w'.Sound batches := by
  cases a with
  | beginWriter tx =>
    replace hstep : w.beginWriter tx = some w' := hstep
    unfold World.beginWriter at hstep
    split at hstep
    · cases hstep
    cases hstep
    exact h.putWriter (fun _ hdate => absurd hdate not_mem_nil)
      (fun _ hdate => absurd hdate not_mem_nil)
  | change tx message status => exact h.change hstep
  | mark tx date => exact h.mark hstep
  | commitWriter tx => exact h.commitWriter hstep
  | rollbackWriter tx =>
    cases hstep
    have hkeep := h.keep (fun u => decide (u.id ≠ tx)) (fun _ => true)
    exact { h with
      inserted := hkeep.inserted
      inserted_once := hkeep.inserted_once
      found := fun t ht => h.found t (mem_keep_iff.mp ht).1 }
  | beginAggregation tx date => exact h.beginAggregation hstep
  | deleteMark tx => exact h.deleteMark hstep
  | aggregate tx => exact h.aggregate hok hstep
  | commitAggregation tx => exact h.commitAggregation hstep
  | rollbackAggregation tx =>
    cases hstep
    have hkeep := h.keep (fun _ => true) (fun b => decide (b.id ≠ tx))
    exact { h with
      found := fun t ht date hdate => ⟨(h.found t ht date hdate).1,
        fun b hb => (h.found t ht date hdate).2 b (mem_keep_iff.mp hb).1⟩
      alone := hkeep.alone
      ordered := hkeep.ordered
      deleted := hkeep.deleted
      counted := hkeep.counted }

end

theorem of_reachable
    (h : (statistics batches).ReachableWhere (fun w a => w.countsAlone a = true) w) :
    w.Sound batches := by
  refine h.invariant ?_ ?_
  · rintro w ⟨hquiet, hcovered⟩
    exact .of_init hquiet hcovered
  · intro w a w' hw hok hnext
    exact hw.next hok hnext

end World.Sound

/-! ## Two runs -/

/-- One message that has been sent, on a day that is dirty. -/
def dirtyWorld : World where
  messages := ⟨[⟨1, 1, 0, .sent⟩], List.nodup_singleton 1⟩
  dirty := fun date => decide (date = 0)
  daily := fun _ => []
  writers := .empty _
  aggregations := .empty _

def sampleBatch (_ : ℕ) : BatchFacts := ⟨some 1, "sales", .notice, 1, false⟩

theorem dirtyWorld_init : (statistics sampleBatch).init dirtyWorld := by
  refine ⟨⟨rfl, rfl⟩, fun date => ?_⟩
  by_cases hdate : date = 0
  · exact .inr (decide_eq_true hdate)
  refine .inl ?_
  have hnone : onDate dirtyWorld.messages date = [] := by
    simp [onDate, dirtyWorld, Ne.symm hdate]
  rw [aggregated, hnone]
  rfl

/-- If an aggregation that has deleted a mark counts only while no open transaction has found the
mark, then every day is dirty or has the statistics of its committed messages; this holds while
transactions are open, and so once all of them have ended. -/
theorem dirty_date_not_lost {w : World}
    (h : (statistics batches).ReachableWhere (fun w a => w.countsAlone a = true) w) (date : ℕ) :
    w.daily date = aggregated batches w.messages date ∨ w.dirty date = true :=
  (World.Sound.of_reachable h).covered date

/-- The report is committed before the aggregation counts. -/
def orderlyRun : List Action :=
  [.beginWriter 1, .change 1 1 .delivered, .mark 1 0, .beginAggregation 2 0, .deleteMark 2,
    .commitWriter 1, .aggregate 2, .commitAggregation 2]

theorem dirty_date_not_lost_orderlyRun : ∃ w,
    (statistics sampleBatch).runWhere (fun w a => w.countsAlone a = true) dirtyWorld orderlyRun =
      some w ∧ w.dirty 0 = false ∧
    (w.daily 0 = aggregated sampleBatch w.messages 0 ∨ w.dirty 0 = true) := by
  have hrun : ∃ w, (statistics sampleBatch).runWhere (fun w a => w.countsAlone a = true) dirtyWorld
      orderlyRun = some w ∧ w.dirty 0 = false := ⟨_, rfl, rfl⟩
  obtain ⟨w, hw, hclean⟩ := hrun
  have hreach : (statistics sampleBatch).ReachableWhere (fun w a => w.countsAlone a = true) w :=
    (Machine.ReachableWhere.init dirtyWorld_init).runWhere hw
  exact ⟨w, hw, hclean, dirty_date_not_lost hreach 0⟩

/-- The report finds the mark, and the aggregation ends before the report is committed. -/
def lostRun : List Action :=
  [.beginWriter 1, .change 1 1 .delivered, .mark 1 0, .beginAggregation 2 0, .deleteMark 2,
    .aggregate 2, .commitAggregation 2, .commitWriter 1]

theorem lostRun_loses_change : ∃ w, (statistics sampleBatch).init dirtyWorld ∧
    (statistics sampleBatch).run dirtyWorld lostRun = some w ∧ w.IsQuiet ∧ w.dirty 0 = false ∧
      w.daily 0 ≠ aggregated sampleBatch w.messages 0 := by
  refine ⟨_, dirtyWorld_init, rfl, ⟨rfl, rfl⟩, ?_⟩
  decide +kernel

end SmsPlatform.Stats
