import SmsPlatform.Usage.Quota

/-!
# The lifecycle of a reservation

A reservation is released at most once, and it counts as long as it has not been released.  What
the release takes off the projections is what the reservation has counted.  A reservation that a
batch has been linked to is released for the batch only.
-/

namespace SmsPlatform.Usage

open Support Table List Option Db

/-- The release of the reservation has been requested. -/
def Db.isReleased (db : Db) (id : ℕ) : Bool :=
  (db.reservations.find? id).any (fun r => !r.state.isLive)

/-- The sum of the quota entries for a dimension and a day, of all reservations. -/
def Db.quotaTotal (db : Db) (k : QuotaKey) : ℕ :=
  ((db.quotaEntries.rows.filter fun e => decide (e.key = k)).map QuotaEntry.amount).sum

namespace World

/-- The releases of one reservation. -/
def releasesOf (w : World) (id : ℕ) : List Release :=
  w.releases.filter (fun e => decide (e.reservationId = id))

/-- What all releases have taken off a key in a window. -/
def takenOff (w : World) (account : DimensionKey × ℕ) : ℕ :=
  (w.releases.map fun e => moved e.changes account).sum

end World

variable {w : World} {db : Db}

theorem quotaTotal_eq (k : QuotaKey) :
    db.quotaTotal k = balance (fun _ => true) (.quota k, k.date) db.postings := by
  rw [balance_quotaKey]
  simp only [Bool.and_true]
  rfl

theorem isReleased_of_isLive {id : ℕ} (h : db.isLive id = true) : db.isReleased id = false := by
  obtain ⟨r, hr, hlive⟩ := isLive_iff.mp h
  unfold Db.isReleased
  rw [hr, any_some, hlive]
  rfl

/-! ## Steps without a release -/

/-- Nothing is linked or released, and quota entries change with what is counted. -/
structure Unreleased (db db' : Db) : Prop where
  linked : ∀ id, db'.isLinked id = db.isLinked id
  released : ∀ id, db'.isReleased id = db.isReleased id
  total : ∀ k, db'.quotaTotal k + db.quotaSum k = db.quotaTotal k + db'.quotaSum k

section

variable {db db' : Db} {u : Update Reservation.id} {id : ℕ}

theorem quota_of_quotaEntries (hquota : db'.quotaEntries = db.quotaEntries)
    (hlive : ∀ e ∈ db.quotaEntries, db'.isLive e.reservationId = db.isLive e.reservationId)
    (k : QuotaKey) : db'.quotaTotal k = db.quotaTotal k ∧ db'.quotaSum k = db.quotaSum k := by
  refine ⟨by rw [Db.quotaTotal, Db.quotaTotal, hquota], ?_⟩
  unfold Db.quotaSum
  rw [hquota]
  refine congrArg (fun es => (List.map QuotaEntry.amount es).sum) (filter_congr (fun e he => ?_))
  rw [hlive e he]

theorem total_of_quotaEntries (hquota : db'.quotaEntries = db.quotaEntries)
    (hlive : ∀ e ∈ db.quotaEntries, db'.isLive e.reservationId = db.isLive e.reservationId)
    (k : QuotaKey) : db'.quotaTotal k + db.quotaSum k = db.quotaTotal k + db'.quotaSum k := by
  obtain ⟨htotal, hsum⟩ := quota_of_quotaEntries hquota hlive k
  rw [htotal, hsum]

theorem Unreleased.refl (db : Db) : Unreleased db db := ⟨fun _ => rfl, fun _ => rfl, fun _ => rfl⟩

theorem Unreleased.of_same (hreservations : db'.reservations = db.reservations)
    (hquota : db'.quotaEntries = db.quotaEntries) (hbatches : db'.batches = db.batches) :
    Unreleased db db' := by
  refine ⟨fun id => ?_, fun id => ?_, total_of_quotaEntries hquota (fun e _ => ?_)⟩
  · rw [Db.isLinked, Db.isLinked, hbatches]
  · rw [Db.isReleased, Db.isReleased, hreservations]
  · rw [Db.isLive, Db.isLive, hreservations]

section

variable (hu : ∀ r, u.applies r = true → Advances r (u.change r))
include hu

theorem isReleased_apply (hreservations : db'.reservations = db.reservations.apply u) (id : ℕ) :
    db'.isReleased id = db.isReleased id := by
  unfold Db.isReleased
  rw [hreservations]
  exact any_find?_apply (fun r happ => by rw [(hu r happ).1]) id

theorem isLive_apply (hreservations : db'.reservations = db.reservations.apply u) (id : ℕ) :
    db'.isLive id = db.isLive id := by
  unfold Db.isLive
  rw [hreservations]
  exact any_find?_apply (fun r happ => (hu r happ).1) id

/-- A reservation goes on without being released. -/
theorem Unreleased.of_apply (hreservations : db'.reservations = db.reservations.apply u)
    (hquota : db'.quotaEntries = db.quotaEntries) (hbatches : db'.batches = db.batches) :
    Unreleased db db' := by
  refine ⟨fun id => ?_, isReleased_apply hu hreservations,
    total_of_quotaEntries hquota (fun e _ => isLive_apply hu hreservations e.reservationId)⟩
  rw [Db.isLinked, Db.isLinked, hbatches]

end

theorem unreleased_startReservation {request : ReservationRequest} {now : ℕ} (howned : db.Owned)
    (h : startReservation db request now = .ok (db', id)) : Unreleased db db' := by
  obtain ⟨-, h⟩ := require_bind_eq_ok.mp h
  split at h
  · obtain ⟨-, h⟩ := require_bind_eq_ok.mp h
    cases h
    exact .refl _
  obtain ⟨reservations, hinsert, ⟨⟩⟩ := orFail_bind_eq_ok.mp h
  have hrows := rows_of_insertAll? hinsert
  refine ⟨fun _ => rfl, fun i => ?_, total_of_quotaEntries rfl (fun e he => ?_)⟩
  · unfold Db.isReleased
    cases hfind : db.reservations.find? i with
    | some r => rw [find?_of_subset (mem_of_rows_append hrows) hfind]
    | none =>
      -- the reservation is the new one, or there is none with this id
      cases hnew : reservations.find? i with
      | none => rfl
      | some r =>
        obtain ⟨hmem, hid⟩ := find?_eq_some_iff.mp hnew
        rw [← mem_rows, hrows, mem_append, mem_singleton] at hmem
        rcases hmem with hmem | rfl
        · rw [find?_eq_some_iff.mpr ⟨hmem, hid⟩] at hfind
          cases hfind
        · rfl
  · exact isLive_start hrows (howned _ (mem_postings.mpr (.inl ⟨e, he, rfl⟩)))

theorem unreleased_quota {q : QuotaRequest} (hquota : ReservesQuota db id q db') :
    Unreleased db db' := by
  refine ⟨?_, ?_, fun k => ?_⟩
  · obtain ⟨quotaEntries, projections, -, -, rfl⟩ := hquota.inserted
    exact fun _ => rfl
  · obtain ⟨quotaEntries, projections, -, -, rfl⟩ := hquota.inserted
    exact isReleased_apply (fun r _ => ⟨rfl, fun h => h⟩) rfl
  · have htotal := balance_quota hquota (fun _ => true) rfl (.quota k, k.date)
    have hsum := liveAmount_quota hquota (.quota k) k.date
    rw [quotaTotal_eq, quotaTotal_eq, ← liveAmount_eq_quotaSum, ← liveAmount_eq_quotaSum, htotal,
      hsum]
    omega

theorem unreleased_exclude {phoneHmac segments : ℕ} {r : Reservation}
    (hr : db.reservations.find? id = some r) (hstate : r.state.isReleasable = true)
    (hreservations : db'.reservations = db.reservations) (hbatches : db'.batches = db.batches)
    (hquota : db'.quotaEntries = db.quotaEntries.apply (quotaReduction id segments))
    (hfrequency : db'.frequencyEntries =
      db.frequencyEntries.apply (frequencyExclusion db id phoneHmac)) : Unreleased db db' := by
  refine ⟨fun i => ?_, fun i => ?_, fun k => ?_⟩
  · rw [Db.isLinked, Db.isLinked, hbatches]
  · rw [Db.isReleased, Db.isReleased, hreservations]
  · have htotal := balance_exclude (fun _ => true) rfl hquota hfrequency
      (.quota k, k.date)
    have hsum := liveAmount_exclude hr hstate hreservations hquota hfrequency (.quota k) k.date
    rw [quotaTotal_eq, quotaTotal_eq, ← liveAmount_eq_quotaSum, ← liveAmount_eq_quotaSum, ← htotal,
      ← hsum]
    omega

theorem unreleased_releaseOne {reservationId : Option ℕ} {phoneHmac segments : ℕ}
    (h : releaseOne db reservationId phoneHmac segments = .ok db') : Unreleased db db' := by
  rcases releaseOne_eq_ok h with rfl | ⟨id, r, projections, hr, hstate, -, rfl⟩
  · exact .refl _
  · exact unreleased_exclude hr hstate rfl rfl rfl rfl

end

/-! ## Steps -/

/-- What a step does to reservations, batches and the history: nothing is linked or released, a
reservation is linked, or one is released. -/
inductive LifeStep (w w' : World) : Prop
  | keeps (hreleases : w'.releases = w.releases) (hcommits : w'.commits = w.commits)
      (hdb : Unreleased w.db w'.db)
  | links (id : ℕ) (hreleases : w'.releases = w.releases) (hcommits : w'.commits = id :: w.commits)
      (hlive : w.db.isReleased id = false)
      (hlinked : ∀ i, w'.db.isLinked i = (w.db.isLinked i || decide (i = id)))
      (hreleased : ∀ i, w'.db.isReleased i = w.db.isReleased i)
      (htotal : ∀ k, w'.db.quotaTotal k + w.db.quotaSum k = w.db.quotaTotal k + w'.db.quotaSum k)
  | releases (e : Release) (hreleases : w'.releases = e :: w.releases)
      (hcommits : w'.commits = w.commits) (hlive : w.db.isLive e.reservationId = true)
      (hunlinked : e.isUnlinked = true → w.db.isLinked e.reservationId = false)
      (hlinked : ∀ i, w'.db.isLinked i = w.db.isLinked i)
      (hreleased : ∀ i, w'.db.isReleased i = (w.db.isReleased i || decide (i = e.reservationId)))
      (hchange : w.db.projections.change e.changes = .ok w'.db.projections)
      (hmoved : ∀ account, moved e.changes account = w.db.amountOf e.reservationId account)
      (htotal : ∀ k, w'.db.quotaTotal k = w.db.quotaTotal k ∧
        w'.db.quotaSum k + moved e.changes (.quota k, k.date) = w.db.quotaSum k)

section

variable {w' : World} {db' : Db} {event : ReleaseEvent}

theorem isReleased_releaseRequest {id : ℕ} {r : Reservation}
    (hr : db.reservations.find? id = some r)
    (hreservations : db'.reservations = db.reservations.apply (releaseRequest id event)) (i : ℕ) :
    db'.isReleased i = (db.isReleased i || decide (i = id)) := by
  unfold Db.isReleased
  rw [hreservations, any_find?_releaseRequest hr]
  by_cases hi : i = id <;> simp [hi, releaseRequest, ReservationState.isLive]

/-- A release takes out what the reservation has counted. -/
theorem lifeStep_release {id observed : ℕ} {isUnlinked : Bool}
    {result : Db × Option (List ProjectionChange)} (hwf : WellFormed w.db)
    (hunlinked : isUnlinked = true → w.db.isLinked id = false)
    (h : requestRelease w.db id event observed = .ok result) :
    LifeStep w (w.release id isUnlinked result) := by
  rcases requestRelease_eq_ok h with rfl | ⟨r, projections, applied, hr, hlive, happlied, rfl⟩
  · exact .keeps rfl rfl (.refl _)
  have hcounts : w.db.isLive id = true := isLive_iff.mpr ⟨r, hr, hlive⟩
  have hcollect := applied_eq_collect hwf.rowed (isActive_of_isLive hcounts) happlied
  refine .releases ⟨id, isUnlinked, _, applied⟩ rfl rfl hcounts hunlinked (fun _ => rfl)
    (isReleased_releaseRequest hr rfl) (applyReleaseProjectionChanges_eq_ok happlied).2
    (fun account => ?_) (fun k => ⟨rfl, ?_⟩)
  · rw [hcollect, moved_collect]
  · rw [← liveAmount_eq_quotaSum, ← liveAmount_eq_quotaSum]
    exact liveAmount_release hr hlive hcollect (by rfl) (by rfl) (.quota k) k.date

theorem isLinked_append {b : Batch} (hrows : db'.batches.rows = db.batches.rows ++ [b])
    (i : ℕ) : db'.isLinked i = (db.isLinked i || decide (b.usageReservationId = some i)) := by
  unfold Db.isLinked
  rw [hrows, any_append, any_cons, any_nil, Bool.or_false]

/-- A batch is linked to a reservation that has not been released. -/
theorem lifeStep_insertBatch {reservationId : Option ℕ}
    (h : insertBatch w.db reservationId = .ok db') :
    LifeStep w { w with db := db', commits := reservationId.toList ++ w.commits } := by
  obtain ⟨batches, hinsert, h⟩ := orFail_bind_eq_ok.mp h
  have hrows := rows_of_insertAll? hinsert
  split at h
  · cases h
    refine .keeps rfl rfl ⟨fun i => ?_, fun _ => rfl, fun _ => rfl⟩
    rw [isLinked_append hrows]
    simp
  · obtain ⟨-, h⟩ := require_bind_eq_ok.mp h
    obtain ⟨hlive, hdb⟩ := commitUsageReservation_eq_ok h
    have hreleased : w.db.isReleased _ = false := isReleased_of_isLive hlive
    rcases hdb with rfl | rfl
    · refine .links _ rfl rfl hreleased (fun i => ?_) (fun _ => rfl) (fun _ => rfl)
      rw [isLinked_append hrows]
      simp [eq_comm]
    refine .links _ rfl rfl hreleased (fun i => ?_)
      (isReleased_apply advances_commitReservation rfl)
      (total_of_quotaEntries rfl
        (fun e _ => isLive_apply advances_commitReservation rfl e.reservationId))
    rw [isLinked_append hrows]
    simp [eq_comm]

theorem lifeStep_of_next {a : Action} (hwf : WellFormed w.db) (h : w.next a = some w') :
    LifeStep w w' := by
  cases a with
  | start request now =>
    obtain ⟨result, hok, rfl⟩ := map_toOption_eq_some.mp h
    exact .keeps rfl rfl (unreleased_startReservation hwf.owned hok)
  | reserveQuota id q =>
    obtain ⟨db', hok, rfl⟩ := map_toOption_eq_some.mp h
    rcases reserveQuota_eq_ok hok with rfl | hquota
    · exact .keeps rfl rfl (.refl _)
    · exact .keeps rfl rfl (unreleased_quota hquota)
  | allowFrequency q items observed =>
    obtain ⟨result, hok, rfl⟩ := map_toOption_eq_some.mp h
    unfold allowFrequency at hok
    split at hok
    · cases hok
      exact .keeps rfl rfl (.refl _)
    obtain ⟨db₁, subjects, -, hchunk, hdecides⟩ := decides_of_allowFrequencyChunk hwf.fresh hok
    obtain ⟨-, frequencyEntries, projections, -, -, hdb⟩ := hdecides.eq (hwf.moves hchunk.moves)
    refine .keeps rfl rfl (.of_same ?_ ?_ ?_)
    · exact (congrArg Db.reservations hdb).trans hchunk.keeps.reservations
    · exact (congrArg Db.quotaEntries hdb).trans hchunk.keeps.quotaEntries
    · exact (congrArg Db.batches hdb).trans hchunk.keeps.batches
  | insertBatch reservationId =>
    obtain ⟨db', hok, rfl⟩ := map_toOption_eq_some.mp h
    exact lifeStep_insertBatch hok
  | markUncertain id =>
    cases h
    exact .keeps rfl rfl (.of_apply advances_uncertainMark rfl rfl rfl)
  | releaseForBatch batchId reason observed =>
    obtain ⟨result, hok, rfl⟩ := map_toOption_eq_some.mp h
    unfold requestUsageReleaseForBatch at hok
    split at hok
    · cases hok
      exact .keeps rfl rfl (.refl _)
    rename_i id hid
    rw [Db.reservationOf, hid]
    exact lifeStep_release hwf (fun hfalse => absurd hfalse Bool.false_ne_true) hok
  | releaseUnlinked id reason observed =>
    obtain ⟨result, hok, rfl⟩ := map_toOption_eq_some.mp h
    obtain ⟨-, hok⟩ := require_bind_eq_ok.mp hok
    split at hok
    · cases hok
      exact .keeps rfl rfl (.refl _)
    · rename_i hlinked
      exact lifeStep_release hwf (fun _ => Bool.eq_false_of_not_eq_true hlinked) hok
  | finishRelease id =>
    obtain ⟨db', hok, rfl⟩ := map_toOption_eq_some.mp h
    rcases finishRelease_eq_ok hok with rfl | rfl
    · exact .keeps rfl rfl (.refl _)
    · exact .keeps rfl rfl (.of_apply advances_releaseMark rfl rfl rfl)
  | exclude batchId phoneHmac segments =>
    obtain ⟨db', hok, rfl⟩ := map_toOption_eq_some.mp h
    exact .keeps rfl rfl (unreleased_releaseOne hok)

end

/-! ## Runs -/

/-- The history and the database agree. -/
structure Ledgered (w : World) : Prop where
  once : ∀ id, (w.releasesOf id).length = (w.db.isReleased id).toNat
  committed : ∀ id, w.db.isLinked id = true ↔ id ∈ w.commits
  unlinked : ∀ e ∈ w.releases, e.isUnlinked = true → w.db.isLinked e.reservationId = false
  total : ∀ k, w.db.quotaSum k + w.takenOff (.quota k, k.date) = w.db.quotaTotal k

theorem Ledgered.isReleased (h : Ledgered w) {e : Release} (he : e ∈ w.releases) :
    w.db.isReleased e.reservationId = true := by
  have hmem : e ∈ w.releasesOf e.reservationId := mem_filter.mpr ⟨he, decide_eq_true rfl⟩
  have hpos := length_pos_of_mem hmem
  rw [h.once] at hpos
  cases hreleased : w.db.isReleased e.reservationId with
  | false =>
    rw [hreleased] at hpos
    exact absurd hpos (lt_irrefl 0)
  | true => rfl

theorem ledgered_initial : Ledgered World.initial := by
  refine ⟨fun _ => rfl, fun id => ?_, fun e he => ?_, fun _ => rfl⟩
  · exact iff_of_false Bool.false_ne_true not_mem_nil
  · cases he

theorem Ledgered.step {w' : World} (h : Ledgered w) (hstep : LifeStep w w') : Ledgered w' := by
  cases hstep with
  | keeps hreleases hcommits hdb =>
    refine ⟨fun id => ?_, fun id => ?_, fun e he => ?_, fun k => ?_⟩
    · rw [World.releasesOf, hreleases, hdb.released]
      exact h.once id
    · rw [hdb.linked, hcommits]
      exact h.committed id
    · rw [hreleases] at he
      rw [hdb.linked]
      exact h.unlinked e he
    · have htotal := hdb.total k
      have hbefore := h.total k
      rw [World.takenOff] at hbefore ⊢
      rw [hreleases]
      omega
  | links id hreleases hcommits hlive hlinked hreleased htotal =>
    refine ⟨fun i => ?_, fun i => ?_, fun e he hunlinked => ?_, fun k => ?_⟩
    · rw [World.releasesOf, hreleases, hreleased]
      exact h.once i
    · rw [hlinked, hcommits, Bool.or_eq_true, decide_eq_true_eq, mem_cons, h.committed, or_comm]
    · rw [hreleases] at he
      rw [hlinked, h.unlinked e he hunlinked, Bool.false_or, decide_eq_false_iff_not]
      rintro rfl
      rw [h.isReleased he] at hlive
      cases hlive
    · have htotal := htotal k
      have hbefore := h.total k
      rw [World.takenOff] at hbefore ⊢
      rw [hreleases]
      omega
  | releases e hreleases hcommits hlive hunlinked hlinked hreleased _ _ htotal =>
    refine ⟨fun i => ?_, fun i => ?_, fun f hf hflag => ?_, fun k => ?_⟩
    · have hbefore := h.once i
      rw [World.releasesOf] at hbefore ⊢
      rw [hreleases, hreleased, filter_cons]
      by_cases hi : e.reservationId = i
      · subst hi
        rw [isReleased_of_isLive hlive] at hbefore ⊢
        simpa using hbefore
      · simpa [hi, Ne.symm hi] using hbefore
    · rw [hlinked, hcommits]
      exact h.committed i
    · rw [hreleases] at hf
      rw [hlinked]
      rcases mem_cons.mp hf with rfl | hf
      · exact hunlinked hflag
      · exact h.unlinked f hf hflag
    · have hbefore := h.total k
      obtain ⟨htotal, hsum⟩ := htotal k
      rw [World.takenOff] at hbefore ⊢
      rw [hreleases, map_cons, sum_cons]
      omega

theorem ledgered_of_reachable (h : usage.Reachable w) : Ledgered w := by
  induction h with
  | init h =>
    subst h
    exact ledgered_initial
  | step hreach _ hnext ih =>
    exact ih.step (lifeStep_of_next (wellFormed_of_reachable hreach) hnext)

/-- In every reachable state a reservation has one release if it has been released, and none as
long as it counts.  No reservation that a batch was linked to has been released as an unlinked
one.  What is projected for a quota and what the releases have taken off make up the entries.
A step that adds a release takes off, for every key and window, what the reservation had. -/
theorem usage_reservation_released_once {w : World} (h : usage.Reachable w) :
    (∀ id r, w.db.reservations.find? id = some r →
      (w.releasesOf id).length = if r.state.isLive = true then 0 else 1) ∧
    (∀ e ∈ w.releases, e.isUnlinked = true →
      e.reservationId ∉ w.commits ∧ w.db.isLinked e.reservationId = false) ∧
    (∀ k, w.db.projections.valueAt (.quota k) + w.takenOff (.quota k, k.date) = w.db.quotaTotal k) ∧
    ∀ a w', w.next a = some w' → w'.releases = w.releases ∨
      ∃ e, w'.releases = e :: w.releases ∧ w.db.isLive e.reservationId = true ∧
        w.db.projections.change e.changes = .ok w'.db.projections ∧
        ∀ account, moved e.changes account = w.db.amountOf e.reservationId account := by
  have hwf := wellFormed_of_reachable h
  have hledger := ledgered_of_reachable h
  refine ⟨fun id r hr => ?_, fun e he hunlinked => ?_, fun k => ?_, fun a w' hnext => ?_⟩
  · have honce := hledger.once id
    rw [Db.isReleased, hr, any_some] at honce
    rw [honce]
    cases r.state.isLive <;> rfl
  · have hlinked := hledger.unlinked e he hunlinked
    refine ⟨fun hmem => ?_, hlinked⟩
    rw [(hledger.committed _).mpr hmem] at hlinked
    cases hlinked
  · rw [valueAt_eq_liveAmount hwf (exact_quota_of_reachable h k), liveAmount_eq_quotaSum]
    exact hledger.total k
  · cases lifeStep_of_next hwf hnext with
    | keeps hreleases | links _ hreleases => exact .inl hreleases
    | releases e hreleases _ hlive _ _ _ hchange hmoved =>
      exact .inr ⟨e, hreleases, hlive, hchange, hmoved⟩

/-- The first reservation is linked and released for its batch, the second is released as an
unlinked one after a lost answer; both releases are repeated. -/
def lifecycleRun : List Action :=
  [.start (sampleRequest "first") 0, .reserveQuota 1 (sampleQuota 3),
    .start (sampleRequest "second") 0, .reserveQuota 2 (sampleQuota 7), .insertBatch (some 1),
    .markUncertain 2, .releaseUnlinked 2 .uncertainRetry 50, .releaseUnlinked 2 .uncertainRetry 60,
    .releaseUnlinked 1 .orphanRecovery 70, .releaseForBatch 1 .cancelled 80,
    .releaseForBatch 1 .cancelled 90, .finishRelease 1]

theorem usage_reservation_released_once_lifecycleRun :
    ∃ w, usage.run World.initial lifecycleRun = some w ∧
      (w.releases.map fun e => (e.reservationId, e.isUnlinked)) = [(1, false), (2, true)] ∧
      w.db.projections.valueAt (.quota ⟨.app 1, 0⟩) + w.takenOff (.quota ⟨.app 1, 0⟩, 0) =
        w.db.quotaTotal ⟨.app 1, 0⟩ := by
  have hrun : ∃ w, usage.run .initial lifecycleRun = some w ∧
      (w.releases.map fun e => (e.reservationId, e.isUnlinked)) = [(1, false), (2, true)] := by
    refine ⟨_, rfl, ?_⟩
    decide +kernel
  obtain ⟨w, hw, hreleases⟩ := hrun
  have hreach : usage.Reachable w := .run (.init rfl) hw
  exact ⟨w, hw, hreleases, (usage_reservation_released_once hreach).2.2.1 ⟨.app 1, 0⟩⟩

end SmsPlatform.Usage
