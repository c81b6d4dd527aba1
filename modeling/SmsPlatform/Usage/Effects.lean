import SmsPlatform.Usage.MergeEffect

/-!
# What transactions do to the amounts

The amounts of live reservations rise and fall by exactly what the changes move the rows by.
-/

namespace SmsPlatform.Usage

open Support Table List Update Option Db

/-! ## Reservations that are changed -/

section

variable {t : Table Reservation.id} {u : Update Reservation.id}

/-- An update that keeps a property of the state keeps it for every reservation. -/
theorem any_find?_apply {p : Reservation → Bool}
    (h : ∀ r, u.applies r = true → p (u.change r) = p r) (id : ℕ) :
    ((t.apply u).find? id).any p = (t.find? id).any p := by
  rw [find?_apply]
  cases t.find? id with
  | none => rfl
  | some r => exact row_cases (P := fun r' => p r' = p r) rfl (h r)

theorem isSome_find?_apply (id : ℕ) : ((t.apply u).find? id).isSome = (t.find? id).isSome := by
  rw [find?_apply, isSome_map]

end

/-! ## Changes of distinct keys -/

section

variable {cs : List ProjectionChange}

/-- Changes of distinct keys are not put together. -/
theorem foldl_add_eq {add : List ProjectionChange → ProjectionChange → List ProjectionChange}
    (hadd : ∀ merged c, (∀ m ∈ merged, m.key ≠ c.key) → add merged c = merged ++ [c])
    (merged : List ProjectionChange) (h : ((merged ++ cs).map ProjectionChange.key).Nodup) :
    cs.foldl add merged = merged ++ cs := by
  induction cs generalizing merged with
  | nil => simp
  | cons c cs ih =>
    have hne : ∀ m ∈ merged, m.key ≠ c.key := by
      rw [map_append, nodup_append] at h
      exact fun m hm => h.2.2 _ (mem_map_of_mem hm) _ mem_cons_self
    rw [foldl_cons, hadd merged c hne, ih (merged ++ [c]) (by simpa using h)]
    simp

theorem not_any_key {merged : List ProjectionChange} {c : ProjectionChange}
    (h : ∀ m ∈ merged, m.key ≠ c.key) : (merged.any fun m => decide (m.key = c.key)) = false := by
  rw [List.any_eq_false]
  exact fun m hm => by simpa using h m hm

theorem uniqueChanges_eq (h : (cs.map ProjectionChange.key).Nodup) : uniqueChanges cs = cs := by
  refine foldl_add_eq (fun merged c hne => ?_) [] h
  rw [addChange, not_any_key hne, if_neg Bool.false_ne_true]

theorem foldl_addRaise_eq (h : (cs.map ProjectionChange.key).Nodup) :
    cs.foldl addRaise [] = cs := by
  refine foldl_add_eq (fun merged c hne => ?_) [] h
  rw [addRaise, not_any_key hne, if_neg Bool.false_ne_true]

end

/-! ## Quota -/

section

variable {db : Db} {id : ℕ} {q : QuotaRequest} {quotaEntries : Table QuotaEntry.primaryKey}

theorem date_of_mem_keys {key : QuotaKey} (h : key ∈ q.keys) : key.date = q.date := by
  simp only [QuotaRequest.keys, mem_cons, not_mem_nil, or_false] at h
  rcases h with rfl | rfl | rfl <;> rfl

/-- The entries of a quota raise the amounts as the changes raise the rows. -/
theorem balance_entries {counts : ℕ → Bool} (hlive : counts id = true)
    (account : DimensionKey × ℕ) :
    balance counts account ((q.entries id).map fun e => e.fact.posting) =
      moved q.changes account := by
  unfold moved QuotaRequest.entries QuotaRequest.changes
  rw [List.map_map, List.map_map]
  refine balance_map_congr (fun key _ => hlive) (fun key hkey => ?_) (fun key _ => ?_)
  · exact Prod.ext rfl (date_of_mem_keys hkey)
  · exact (Int.natAbs_natCast q.cost).symm

theorem perm_postings_quota
    (hentries : db.quotaEntries.insertAll? (q.entries id) = some quotaEntries)
    {db' : Db} (hquota : db'.quotaEntries = quotaEntries)
    (hfrequency : db'.frequencyEntries = db.frequencyEntries) :
    db'.postings.Perm (db.postings ++ (q.entries id).map fun e => e.fact.posting) := by
  unfold Db.postings Db.facts
  rw [hquota, hfrequency, rows_of_insertAll? hentries]
  simp only [map_append, List.map_map, append_assoc]
  refine .append_left _ ?_
  exact perm_append_comm

end

/-! ## Release -/

section

variable {db : Db} {id : ℕ} {applied : List ProjectionChange}

theorem releaseChange_posting (account : DimensionKey × ℕ) :
    (db.releaseChange id account).posting = ⟨(), account, db.amountOf id account⟩ := by
  unfold ProjectionChange.posting Db.releaseChange
  rw [Int.natAbs_neg, Int.natAbs_natCast]

theorem amountOf_eq_zero {account : DimensionKey × ℕ}
    (h : account ∉ (db.factsOf id).map Fact.account) : db.amountOf id account = 0 := by
  refine balance_eq_zero (fun p hp howner haccount => absurd ?_ h)
  obtain ⟨f, hf, rfl⟩ := mem_map.mp hp
  exact mem_map.mpr ⟨f, mem_filter.mpr ⟨hf, howner⟩, haccount⟩

/-- The changes of a release take out what the reservation has put in. -/
theorem moved_collect (account : DimensionKey × ℕ) :
    moved (db.collectReleaseProjectionChanges id) account = db.amountOf id account := by
  have hnodup : (((db.factsOf id).map Fact.account).dedup.filter
      (fun a => decide (0 < db.amountOf id a))).Nodup := (nodup_dedup _).filter _
  unfold moved Db.collectReleaseProjectionChanges
  rw [List.map_map]
  have hsum : ∀ accounts : List (DimensionKey × ℕ), balance (fun _ => true) account
        (accounts.map (ProjectionChange.posting ∘ db.releaseChange id)) =
      (accounts.map fun a => if account = a then db.amountOf id account else 0).sum := by
    intro accounts
    unfold balance
    rw [List.map_map]
    refine congrArg List.sum (map_congr_left (fun a _ => ?_))
    simp only [Function.comp_apply, releaseChange_posting, true_and]
    by_cases ha : a = account
    · rw [if_pos ha, if_pos ha.symm, ha]
    · rw [if_neg ha, if_neg (Ne.symm ha)]
  rw [hsum, sum_map_single hnodup]
  split
  · rfl
  rename_i hnot
  by_cases hmem : account ∈ (db.factsOf id).map Fact.account
  · by_contra hne
    refine hnot (mem_filter.mpr ⟨mem_dedup.mpr hmem, decide_eq_true ?_⟩)
    exact Nat.pos_of_ne_zero (.symm hne)
  · exact (amountOf_eq_zero hmem).symm

theorem amountOf_pos_of_mem_collect {c : ProjectionChange}
    (h : c ∈ db.collectReleaseProjectionChanges id) : 0 < db.amountOf id (c.key, c.windowKey) ∧
    (c.key, c.windowKey) ∈ (db.factsOf id).map Fact.account := by
  obtain ⟨account, hmem, rfl⟩ := mem_map.mp h
  obtain ⟨hdedup, hpos⟩ := mem_filter.mp hmem
  exact ⟨of_decide_eq_true hpos, mem_dedup.mp hdedup⟩

/-- What an active reservation has put on a key has a row, so that a release skips nothing. -/
theorem has_of_mem_collect (hrowed : db.Rowed) (hactive : db.isActive id = true)
    {c : ProjectionChange} (h : c ∈ db.collectReleaseProjectionChanges id) :
    db.projections.has c.key = true := by
  obtain ⟨hpos, -⟩ := amountOf_pos_of_mem_collect h
  obtain ⟨p, hp, howner, haccount, hamount⟩ := balance_pos_iff.mp hpos
  have howner : p.owner = id := of_decide_eq_true howner
  have hsome := hrowed p hp (howner ▸ hactive) hamount
  rw [haccount, Projections.counter, isSome_map] at hsome
  exact hsome

variable {projections : Projections} {observed : ℕ}

theorem applyReleaseProjectionChanges_eq_ok
    (h : applyReleaseProjectionChanges db id observed = .ok (projections, applied)) :
    applied = (db.collectReleaseProjectionChanges id).filter (fun c => db.projections.has c.key) ∧
    db.projections.change applied = .ok projections := by
  obtain ⟨-, h⟩ := require_bind_eq_ok.mp h
  obtain ⟨qs, hchange, ⟨⟩⟩ := bind_eq_ok.mp h
  exact ⟨rfl, hchange⟩

theorem applied_eq_collect (hrowed : db.Rowed) (hactive : db.isActive id = true)
    (h : applyReleaseProjectionChanges db id observed = .ok (projections, applied)) :
    applied = db.collectReleaseProjectionChanges id := by
  rw [(applyReleaseProjectionChanges_eq_ok h).1, filter_eq_self]
  exact fun c hc => has_of_mem_collect hrowed hactive hc

variable {event : ReleaseEvent} {r : Reservation}

/-- A request for a release changes its reservation, and the others are as before. -/
theorem any_find?_releaseRequest {p : Reservation → Bool}
    (hr : db.reservations.find? id = some r) (i : ℕ) :
    ((db.reservations.apply (releaseRequest id event)).find? i).any p =
      if i = id then p ((releaseRequest id event).change r)
      else (db.reservations.find? i).any p := by
  rw [find?_apply]
  split
  · subst i
    have happ : (releaseRequest id event).applies r = true :=
      decide_eq_true (find?_eq_some_iff.mp hr).2
    rw [hr, map_some, row_of_applies happ]
    rfl
  · rename_i hi
    cases hfind : db.reservations.find? i with
    | none => rfl
    | some s =>
      have happ : (releaseRequest id event).applies s = false :=
        decide_eq_false (fun heq => hi ((find?_eq_some_iff.mp hfind).2.symm.trans heq))
      rw [map_some, row_of_not_applies happ]

/-- A release takes the amounts of its reservation out. -/
theorem liveAmount_release (hr : db.reservations.find? id = some r) (hlive : r.state.isLive = true)
    (happlied : applied = db.collectReleaseProjectionChanges id) {db' : Db}
    (hreservations : db'.reservations = db.reservations.apply (releaseRequest id event))
    (hpostings : db'.postings = db.postings) (k : DimensionKey) (w : ℕ) :
    db'.liveAmount k w + moved applied (k, w) = db.liveAmount k w := by
  have hcounts : db.isLive id = true := isLive_iff.mpr ⟨r, hr, hlive⟩
  unfold Db.liveAmount
  rw [happlied, moved_collect, Db.amountOf, hpostings, balance_without hcounts]
  congr 1
  refine balance_congr (fun p _ _ => ?_)
  rw [isLive, isLive, hreservations, any_find?_releaseRequest hr]
  by_cases hi : p.owner = id <;> simp [hi, releaseRequest, ReservationState.isLive]

end

/-! ## Exclusion -/

section

variable {db : Db} {id phoneHmac segments : ℕ}

theorem subject_of_hasAlias {s t : ℕ} (hs : db.hasAlias s phoneHmac = true)
    (ht : db.hasAlias t phoneHmac = true) : s = t := by
  obtain ⟨a, ha, has⟩ := any_eq_true.mp hs
  obtain ⟨b, hb, hbt⟩ := any_eq_true.mp ht
  obtain ⟨rfl, hap⟩ := of_decide_eq_true has
  obtain ⟨rfl, hbp⟩ := of_decide_eq_true hbt
  rw [eq_of_key_eq ha hb (hap.trans hbp.symm)]

/-- The three dimensions of a reservation have distinct keys, and so have the windows of one
recipient. -/
theorem nodup_exclusionChanges :
    ((exclusionChanges db id phoneHmac segments).map ProjectionChange.key).Nodup := by
  unfold exclusionChanges
  rw [map_append, List.map_map, List.map_map, nodup_append]
  refine ⟨?_, ?_, ?_⟩
  · refine (db.quotaEntries.nodup.of_map.filter _).map_on (fun e he f hf heq => ?_)
    obtain ⟨hemem, he⟩ := mem_filter.mp he
    obtain ⟨hfmem, hf⟩ := mem_filter.mp hf
    rw [Bool.and_eq_true, decide_eq_true_eq] at he hf
    have hkey : e.key = f.key := DimensionKey.quota.inj heq
    refine eq_of_key_eq hemem hfmem ?_
    rw [QuotaEntry.primaryKey, QuotaEntry.primaryKey, he.1, hf.1, hkey]
  · refine (db.frequencyEntries.nodup.of_map.filter _).map_on (fun e he f hf heq => ?_)
    obtain ⟨hemem, he⟩ := mem_filter.mp he
    obtain ⟨hfmem, hf⟩ := mem_filter.mp hf
    simp only [frequencyExclusion, Bool.and_eq_true, decide_eq_true_eq] at he hf
    have hkey : e.key = f.key := DimensionKey.frequency.inj heq
    refine eq_of_key_eq hemem hfmem ?_
    rw [FrequencyEntry.primaryKey, FrequencyEntry.primaryKey, he.1.1, hf.1.1,
      subject_of_hasAlias he.2 hf.2, hkey]
  · intro k hk k' hk' heq
    obtain ⟨e, -, rfl⟩ := mem_map.mp hk
    obtain ⟨f, -, rfl⟩ := mem_map.mp hk'
    cases heq

theorem shrinks_quotaReduction (e : QuotaEntry) :
    e.fact.posting.Shrinks ((quotaReduction id segments).row e).fact.posting :=
  row_cases (P := fun f : QuotaEntry => e.fact.posting.Shrinks f.fact.posting)
    ⟨rfl, rfl, le_rfl⟩ (fun _ => ⟨rfl, rfl, Nat.sub_le _ _⟩)

theorem shrinks_frequencyExclusion (e : FrequencyEntry) :
    e.fact.posting.Shrinks ((frequencyExclusion db id phoneHmac).row e).fact.posting :=
  row_cases (P := fun f : FrequencyEntry => e.fact.posting.Shrinks f.fact.posting)
    ⟨rfl, rfl, le_rfl⟩ (fun _ => ⟨rfl, rfl, Nat.zero_le _⟩)

theorem postings_eq (db : Db) : db.postings = (db.quotaEntries.rows.map fun e => e.fact.posting) ++
      (db.frequencyEntries.rows.map fun e => e.fact.posting) := by
  unfold Db.postings Db.facts
  rw [map_append, List.map_map, List.map_map]
  rfl

/-- An exclusion takes off the amounts what the changes take off the rows. -/
theorem balance_exclude (counts : ℕ → Bool) (hcounts : counts id = true) {db' : Db}
    (hquota : db'.quotaEntries = db.quotaEntries.apply (quotaReduction id segments))
    (hfrequency : db'.frequencyEntries =
      db.frequencyEntries.apply (frequencyExclusion db id phoneHmac)) (account : DimensionKey × ℕ) :
    balance counts account db'.postings +
        moved (exclusionChanges db id phoneHmac segments) account =
      balance counts account db.postings := by
  unfold moved exclusionChanges
  rw [postings_eq, postings_eq, hquota, hfrequency, rows_apply, rows_apply, map_append,
    List.map_map, List.map_map, List.map_map, List.map_map, balance_append, balance_append,
    balance_append, Nat.add_add_add_comm]
  refine congrArg₂ (· + ·) (balance_lower shrinks_quotaReduction (fun e _ hnot => ?_)
    (fun e _ happ => ?_)) (balance_lower shrinks_frequencyExclusion (fun e _ hnot => ?_)
    (fun e _ happ => ?_))
  · refine row_cases (P := fun f : QuotaEntry => f.amount = e.amount) rfl (fun hid => ?_)
    have hzero : e.released segments = 0 := by simpa [of_decide_eq_true hid] using hnot
    exact congrArg (e.amount - ·) hzero
  · rw [Bool.and_eq_true, decide_eq_true_eq] at happ
    have hle : e.released segments ≤ e.amount := min_le_right _ _
    refine ⟨(congrArg counts happ.1).trans hcounts, rfl, ?_⟩
    rw [Function.comp_apply, row_of_applies (decide_eq_true happ.1)]
    simp [ProjectionChange.posting, Fact.posting, QuotaEntry.fact, quotaReduction, hle]
  · rw [Function.comp_apply, row_of_not_applies hnot]
  · have hrow := row_of_applies happ
    simp only [frequencyExclusion, Bool.and_eq_true, decide_eq_true_eq] at happ
    refine ⟨(congrArg counts happ.1.1).trans hcounts, rfl, ?_⟩
    rw [Function.comp_apply, hrow]
    simp [ProjectionChange.posting, Fact.posting, FrequencyEntry.fact, FrequencyEntry.amount,
      frequencyExclusion, happ.1.2]

theorem isLive_of_isReleasable {r : Reservation} (hr : db.reservations.find? id = some r)
    (hstate : r.state.isReleasable = true) : db.isLive id = true := by
  refine isLive_iff.mpr ⟨r, hr, ?_⟩
  cases hs : r.state <;>
    simp [hs, ReservationState.isReleasable, ReservationState.isLive] at hstate ⊢

theorem liveAmount_exclude {r : Reservation} (hr : db.reservations.find? id = some r)
    (hstate : r.state.isReleasable = true) {db' : Db}
    (hreservations : db'.reservations = db.reservations)
    (hquota : db'.quotaEntries = db.quotaEntries.apply (quotaReduction id segments))
    (hfrequency : db'.frequencyEntries =
      db.frequencyEntries.apply (frequencyExclusion db id phoneHmac)) (k : DimensionKey) (w : ℕ) :
    db'.liveAmount k w + moved (exclusionChanges db id phoneHmac segments) (k, w) =
      db.liveAmount k w := by
  have hsame : db'.isLive = db.isLive := by
    unfold Db.isLive
    rw [hreservations]
  unfold Db.liveAmount
  rw [hsame]
  exact balance_exclude _ (isLive_of_isReleasable hr hstate) hquota hfrequency (k, w)

end

/-! ## Frequency decisions -/

section

variable {db db' : Db} {q : FrequencyRequest} {subjects : List ResolvedSubject}

theorem mem_of_mem_uniqueSubjects {s : ResolvedSubject} (h : s ∈ uniqueSubjects subjects) :
    s ∈ subjects := by
  induction subjects using List.reverseRecOn with
  | nil => exact h
  | append_singleton subjects last ih =>
    unfold uniqueSubjects at h
    rw [foldl_append, foldl_cons, foldl_nil] at h
    split at h
    · exact mem_append_left _ (ih h)
    rcases mem_append.mp h with h | h
    · exact mem_append_left _ (ih h)
    · exact mem_append_right _ h

theorem nodup_uniqueSubjects (subjects : List ResolvedSubject) :
    ((uniqueSubjects subjects).map ResolvedSubject.subjectId).Nodup := by
  induction subjects using List.reverseRecOn with
  | nil => exact nodup_nil
  | append_singleton subjects last ih =>
    unfold uniqueSubjects
    rw [foldl_append, foldl_cons, foldl_nil]
    split
    · exact ih
    rename_i hnew
    rw [map_append, nodup_append]
    refine ⟨ih, nodup_singleton _, fun id hid id' hid' heq => hnew ?_⟩
    obtain ⟨s, hs, rfl⟩ := mem_map.mp hid
    rw [map_singleton, mem_singleton] at hid'
    exact any_eq_true.mpr ⟨s, hs, decide_eq_true (heq.trans hid')⟩

/-- The entries of the decisions. -/
def decisionEntries (db : Db) (q : FrequencyRequest) (subjects : List ResolvedSubject) :
    List FrequencyEntry :=
  (uniqueSubjects subjects).flatMap fun s => q.entries s (q.allows db s.subjectId)

/-- The changes of the decisions that allow. -/
def decisionChanges (db : Db) (q : FrequencyRequest) (subjects : List ResolvedSubject) :
    List ProjectionChange :=
  ((uniqueSubjects subjects).filter fun s => q.allows db s.subjectId).flatMap q.changes

theorem nodup_scopes (q : FrequencyRequest) : q.scopes.Nodup := by
  unfold FrequencyRequest.scopes Category.scopes
  cases q.category <;> simp

/-- Recipients that exist have distinct digests, so that the changes have distinct keys. -/
theorem nodup_decisionChanges (hwf : WellFormed db)
    (hhmac : ∀ s ∈ subjects, ∀ t ∈ db.subjects, t.id = s.subjectId →
      t.projectionHmac = s.projectionHmac)
    (hexists : ∀ s ∈ uniqueSubjects subjects, (db.subjects.find? s.subjectId).isSome = true) :
    ((decisionChanges db q subjects).map ProjectionChange.key).Nodup := by
  unfold decisionChanges
  rw [map_flatMap, nodup_flatMap]
  constructor
  · intro s _
    unfold FrequencyRequest.changes
    rw [List.map_map]
    refine (nodup_scopes q).map (fun a b hab => ?_)
    exact congrArg FrequencyKey.scope (DimensionKey.frequency.inj hab)
  · have hnodup := (nodup_uniqueSubjects subjects).of_map.filter fun s => q.allows db s.subjectId
    refine hnodup.imp_of_mem (fun {s t} hs ht hne => ?_)
    intro k hks hkt
    obtain ⟨c, hc, rfl⟩ := mem_map.mp hks
    obtain ⟨d, hd, hkey⟩ := mem_map.mp hkt
    obtain ⟨a, -, rfl⟩ := mem_map.mp hc
    obtain ⟨b, -, rfl⟩ := mem_map.mp hd
    have hhmacs : t.projectionHmac = s.projectionHmac :=
      congrArg FrequencyKey.hmac (DimensionKey.frequency.inj hkey)
    have hs := mem_of_mem_filter hs
    have ht := mem_of_mem_filter ht
    obtain ⟨s', hs', hsid⟩ := isSome_find?_iff.mp (hexists s hs)
    obtain ⟨t', ht', htid⟩ := isSome_find?_iff.mp (hexists t ht)
    have hsh := hhmac s (mem_of_mem_uniqueSubjects hs) s' hs' hsid
    have hth := hhmac t (mem_of_mem_uniqueSubjects ht) t' ht' htid
    have hsame : s' = t' := hwf.hmac_inj s' hs' t' ht' (by rw [hsh, hth, hhmacs])
    refine hne (inj_on_of_nodup_map (nodup_uniqueSubjects subjects) hs ht ?_)
    rw [← hsid, ← htid, hsame]

theorem Decides.eq (hwf : WellFormed db) (h : Decides db q subjects db') :
    (∀ s ∈ uniqueSubjects subjects, (db.subjects.find? s.subjectId).isSome = true) ∧
    ∃ (frequencyEntries : Table FrequencyEntry.primaryKey) (projections : Projections),
      frequencyEntries.rows = db.frequencyEntries.rows ++ decisionEntries db q subjects ∧
    db.projections.change (decisionChanges db q subjects) = .ok projections ∧
    db' = { db with frequencyEntries := frequencyEntries, projections := projections } := by
  have hinserted := h.inserted
  obtain ⟨hexists, hinserted⟩ := require_bind_eq_ok.mp hinserted
  obtain ⟨frequencyEntries, hentries, hinserted⟩ := orFail_bind_eq_ok.mp hinserted
  obtain ⟨projections, hchange, ⟨⟩⟩ := bind_eq_ok.mp hinserted
  refine ⟨hexists, frequencyEntries, projections, rows_of_insertAll? hentries, ?_, rfl⟩
  have hfold := foldl_addRaise_eq (nodup_decisionChanges (q := q) hwf h.hmac hexists)
  unfold decisionChanges at hfold ⊢
  rw [hfold] at hchange
  exact hchange

/-- The entries of the decisions raise the amounts as the changes raise the rows. -/
theorem balance_decisionEntries {counts : ℕ → Bool} (hlive : counts q.reservationId = true)
    (account : DimensionKey × ℕ) :
    balance counts account ((decisionEntries db q subjects).map fun e => e.fact.posting) =
      moved (decisionChanges db q subjects) account := by
  have hsubject : ∀ s : ResolvedSubject, balance counts account
      ((q.entries s (q.allows db s.subjectId)).map fun e => e.fact.posting) =
      if q.allows db s.subjectId = true
        then balance (fun _ => true) account ((q.changes s).map ProjectionChange.posting)
        else 0 := by
    intro s
    unfold FrequencyRequest.entries FrequencyRequest.changes
    cases hallows : q.allows db s.subjectId with
    | true =>
      rw [if_pos rfl, List.map_map, List.map_map]
      exact balance_map_congr (fun scope _ => hlive) (fun scope _ => rfl) (fun scope _ => rfl)
    | false =>
      refine balance_eq_zero (fun p hp _ _ => ?_)
      obtain ⟨e, he, rfl⟩ := mem_map.mp hp
      obtain ⟨scope, -, rfl⟩ := mem_map.mp he
      rfl
  have hfilter : ∀ (xs : List ResolvedSubject) f,
      ((xs.filter fun s => q.allows db s.subjectId).map f).sum =
        (xs.map fun s => if q.allows db s.subjectId = true then f s else 0).sum := by
    intro xs f
    induction xs with
    | nil => rfl
    | cons s xs ih =>
      rw [filter_cons, map_cons, sum_cons, ← ih]
      split
      · rw [map_cons, sum_cons]
      · rw [Nat.zero_add]
  unfold moved decisionEntries decisionChanges
  rw [map_flatMap, map_flatMap, balance_flatMap, balance_flatMap, hfilter]
  exact congrArg List.sum (map_congr_left (fun s _ => hsubject s))

/-- The decisions raise the amounts as the changes raise the rows. -/
theorem liveAmount_decide (hwf : WellFormed db) (h : Decides db q subjects db') (k : DimensionKey)
    (w : ℕ) :
    db'.liveAmount k w = db.liveAmount k w + moved (decisionChanges db q subjects) (k, w) := by
  obtain ⟨-, frequencyEntries, projections, hrows, -, rfl⟩ := h.eq hwf
  obtain ⟨r, hr, hstate⟩ := h.reserved
  have hlive : db.isLive q.reservationId = true := isLive_iff.mpr ⟨r, hr, by rw [hstate]; rfl⟩
  unfold Db.liveAmount
  rw [← balance_decisionEntries hlive, postings_eq, postings_eq, ← balance_append]
  rw [hrows, map_append, append_assoc]
  rfl

end

end SmsPlatform.Usage
