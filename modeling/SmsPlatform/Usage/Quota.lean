import SmsPlatform.Usage.Runs

/-!
# Quota projections

The value of a quota row is the sum of the entries of live reservations for its dimension, in
every reachable state.  If the limits of applications and departments do not change, no value
exceeds its limit.
-/

namespace SmsPlatform.Usage

open Support List

/-- The sum of the quota entries of live reservations for a dimension and a day. -/
def Db.quotaSum (db : Db) (k : QuotaKey) : ℕ :=
  ((db.quotaEntries.rows.filter fun e =>
    decide (e.key = k) && db.isLive e.reservationId).map QuotaEntry.amount).sum

section

variable {db : Db}

/-- The balance of a quota key is a sum of its entries. -/
theorem balance_quotaKey (counts : ℕ → Bool) (k : QuotaKey) :
    balance counts (.quota k, k.date) db.postings = ((db.quotaEntries.rows.filter fun e =>
        decide (e.key = k) && counts e.reservationId).map QuotaEntry.amount).sum := by
  have hfrequency : balance counts (.quota k, k.date)
      (db.frequencyEntries.rows.map fun e => e.fact.posting) = 0 := by
    refine balance_eq_zero (fun p hp _ haccount => ?_)
    obtain ⟨e, -, rfl⟩ := mem_map.mp hp
    cases haccount
  rw [postings_eq, balance_append, hfrequency, Nat.add_zero]
  induction db.quotaEntries.rows with
  | nil => rfl
  | cons e es ih =>
    rw [map_cons, balance_cons, ih, filter_cons]
    by_cases hkey : e.key = k
    · cases hcounts : counts e.reservationId with
      | true => simp [Fact.posting, Fact.account, QuotaEntry.fact, hkey, hcounts]
      | false => simp [Fact.posting, QuotaEntry.fact, hcounts]
    · simp [Fact.posting, Fact.account, QuotaEntry.fact, hkey]

theorem liveAmount_eq_quotaSum (k : QuotaKey) : db.liveAmount (.quota k) k.date = db.quotaSum k :=
  balance_quotaKey db.isLive k

theorem valueAt_eq_liveAmount (hwf : WellFormed db) {k : QuotaKey} (h : db.Exact (.quota k)) :
    db.projections.valueAt (.quota k) = db.liveAmount (.quota k) k.date := by
  unfold Projections.valueAt
  cases hcounter : db.projections.counter (.quota k) with
  | none =>
    refine (h.eq_zero_of_lt (fun w v hsome => ?_)).symm
    rw [hcounter] at hsome
    cases hsome
  | some s =>
    have hvalue := h.value s.1 s.2 hcounter
    rw [window_eq_of_quota hwf hcounter] at hvalue
    exact hvalue

end

/-! ## Steps -/

section

variable {db db' : Db} {a : Action}

theorem exact_quota_dbStep (hwf : WellFormed db) (h : ∀ k, db.Exact (.quota k))
    (hstep : DbStep db a db') : ∀ k, db'.Exact (.quota k) := by
  cases hstep with
  | moves hmoves => exact exact_quota_moves hwf h hmoves
  | quota hquota => exact fun k => (h k).quota hwf hquota
  | decides _ hchunk hdecides =>
    intro k
    refine (exact_quota_moves hwf h hchunk.moves k).decides (hwf.moves hchunk.moves) hdecides ?_
    intro c hc hkey
    obtain ⟨s, -, hc⟩ := mem_flatMap.mp hc
    obtain ⟨scope, -, rfl⟩ := mem_map.mp hc
    cases hkey

/-- Elementary changes do not raise quota amounts. -/
theorem liveAmount_move_le (hwf : WellFormed db) (hmove : Move db db') (k : QuotaKey) (w : ℕ) :
    db'.liveAmount (.quota k) w ≤ db.liveAmount (.quota k) w := by
  cases hmove.shift hwf with
  | same hamounts _ => exact (hamounts _ w).le
  | lowers _ _ hamounts => exact Nat.le.intro (hamounts _ w)
  | merges hready heffect =>
    refine (heffect.liveAmount_other hready (fun j hj => ?_) w).le
    cases hj

theorem liveAmount_moves_le (hwf : WellFormed db) (hmoves : Moves db db') (k : QuotaKey) (w : ℕ) :
    db'.liveAmount (.quota k) w ≤ db.liveAmount (.quota k) w := by
  induction hmoves with
  | refl => exact le_refl _
  | tail hmoves hmove ih => exact (liveAmount_move_le (hwf.moves hmoves) hmove k w).trans ih

theorem moved_quota {id : ℕ} {q : QuotaRequest} (hquota : ReservesQuota db id q db') {k : QuotaKey}
    (hk : k ∈ q.keys) : moved q.changes (.quota k, k.date) = q.cost := by
  obtain ⟨quotaEntries, projections, -, hprojections, -⟩ := hquota.inserted
  have hnodup := (Projections.raised_of_change hprojections
    (fun c hc => (reset_of_mem_changes hc).1)).nodup
  have hmem : (⟨.quota k, q.date, q.cost, q.expiresAt, true⟩) ∈ q.changes :=
    mem_map_of_mem hk
  rw [moved_of_mem hnodup hmem k.date, if_pos (date_of_mem_keys hk), Int.natAbs_natCast]

/-- A quota amount rises by the reservation of a quota only, which has checked the limit. -/
theorem quotaSum_dbStep (hwf : WellFormed db) (h : ∀ k, db.Exact (.quota k))
    (hstep : DbStep db a db') (k : QuotaKey) :
    db'.quotaSum k ≤ db.quotaSum k ∨ ∃ id q, a = .reserveQuota id q ∧ k ∈ q.keys ∧
    db'.quotaSum k = db.quotaSum k + q.cost ∧
    (k = q.appKey → exceeds q.appLimit (db.quotaSum k) q.cost = false) ∧
    (k = q.deptKey → exceeds q.deptLimit (db.quotaSum k) q.cost = false) := by
  simp only [← liveAmount_eq_quotaSum]
  cases hstep with
  | moves hmoves => exact .inl (liveAmount_moves_le hwf hmoves k k.date)
  | @quota id q _ hquota =>
    rw [liveAmount_quota hquota]
    by_cases hk : k ∈ q.keys
    · right
      refine ⟨id, q, rfl, hk, ?_, ?_, ?_⟩
      · rw [moved_quota hquota hk]
      · rintro rfl
        rw [← valueAt_eq_liveAmount hwf (h _)]
        exact hquota.app
      · rintro rfl
        rw [← valueAt_eq_liveAmount hwf (h _)]
        exact hquota.dept
    · left
      rw [moved_of_not_mem, Nat.add_zero]
      intro c hc hkey
      obtain ⟨key, hmem, rfl⟩ := mem_map.mp hc
      cases hkey
      exact hk hmem
  | decides _ hchunk hdecides =>
    left
    rw [liveAmount_decide (hwf.moves hchunk.moves) hdecides, moved_of_not_mem, Nat.add_zero]
    · exact liveAmount_moves_le hwf hchunk.moves k k.date
    · intro c hc hkey
      obtain ⟨s, -, hc⟩ := mem_flatMap.mp hc
      obtain ⟨scope, -, rfl⟩ := mem_map.mp hc
      cases hkey

end

/-! ## Runs -/

theorem exact_quota_of_reachable {w : World} (h : usage.Reachable w) :
    ∀ k, w.db.Exact (.quota k) := by
  induction h with
  | init h =>
    subst h
    exact fun k => .of_zero (fun _ => rfl)
  | step hreach _ hnext ih =>
    have hwf := wellFormed_of_reachable hreach
    exact exact_quota_dbStep hwf ih (dbStep_of_next hwf.fresh hnext)

/-- Quotas are reserved with the limits that the application and the department have. -/
def FixedLimits (appLimit : ℕ → ℕ) (deptLimit : String → ℕ) (_ : World) : Action → Prop
  | .reserveQuota _ q => q.appLimit = appLimit q.appId ∧ q.deptLimit = deptLimit q.dept
  | _ => True

theorem le_of_exceeds_eq_false {limit n cost : ℕ} (h : exceeds limit n cost = false)
    (hpos : 0 < limit) : n + cost ≤ limit := by
  rw [exceeds, decide_eq_false_iff_not] at h
  exact Nat.le_of_not_lt (fun hlt => h ⟨hpos, hlt⟩)

/-- The sums of a dimension stay within a limit that all reservations have checked. -/
theorem quotaSum_le_of_fixedLimits {appLimit : ℕ → ℕ} {deptLimit : String → ℕ} {w : World}
    (h : usage.ReachableWhere (FixedLimits appLimit deptLimit) w) :
    (∀ app date, 0 < appLimit app → w.db.quotaSum ⟨.app app, date⟩ ≤ appLimit app) ∧
    ∀ dept date, 0 < deptLimit dept → w.db.quotaSum ⟨.dept dept, date⟩ ≤ deptLimit dept := by
  induction h with
  | init h =>
    subst h
    exact ⟨fun _ _ _ => Nat.zero_le _, fun _ _ _ => Nat.zero_le _⟩
  | step hreach hok hnext ih =>
    have hwf := wellFormed_of_reachable hreach.reachable
    have hstep := dbStep_of_next hwf.fresh hnext
    have hsums := quotaSum_dbStep hwf (exact_quota_of_reachable hreach.reachable) hstep
    refine ⟨fun app date hpos => ?_, fun dept date hpos => ?_⟩
    · rcases hsums ⟨.app app, date⟩ with hle | ⟨id, q, rfl, hmem, hsum, hlimit, -⟩
      · exact hle.trans (ih.1 app date hpos)
      have hkey : (⟨.app app, date⟩) = q.appKey := by
        simpa [QuotaRequest.keys, QuotaRequest.deptKey, QuotaRequest.volumeKey] using hmem
      have happId : app = q.appId := QuotaDimension.app.inj (congrArg QuotaKey.dimension hkey)
      have hchecked := hlimit hkey
      rw [hok.1, ← happId] at hchecked
      exact hsum.trans_le (le_of_exceeds_eq_false hchecked hpos)
    · rcases hsums ⟨.dept dept, date⟩ with hle | ⟨id, q, rfl, hmem, hsum, -, hlimit⟩
      · exact hle.trans (ih.2 dept date hpos)
      have hkey : (⟨.dept dept, date⟩) = q.deptKey := by
        simpa [QuotaRequest.keys, QuotaRequest.appKey, QuotaRequest.volumeKey] using hmem
      have hname : dept = q.dept := QuotaDimension.dept.inj (congrArg QuotaKey.dimension hkey)
      have hchecked := hlimit hkey
      rw [hok.2, ← hname] at hchecked
      exact hsum.trans_le (le_of_exceeds_eq_false hchecked hpos)

/-- In every reachable state the value of a quota projection is the sum of the entries of live
reservations; with fixed limits it does not exceed the limit of its application or department. -/
theorem quota_projection_eq_sum {w : World} (h : usage.Reachable w) :
    (∀ k, w.db.projections.valueAt (.quota k) = w.db.quotaSum k) ∧
      ∀ appLimit deptLimit, usage.ReachableWhere (FixedLimits appLimit deptLimit) w →
        (∀ app date, 0 < appLimit app →
          w.db.projections.valueAt (.quota ⟨.app app, date⟩) ≤ appLimit app) ∧
        ∀ dept date, 0 < deptLimit dept →
          w.db.projections.valueAt (.quota ⟨.dept dept, date⟩) ≤ deptLimit dept := by
  have hwf := wellFormed_of_reachable h
  have hvalue : ∀ k, w.db.projections.valueAt (.quota k) = w.db.quotaSum k := by
    intro k
    rw [valueAt_eq_liveAmount hwf (exact_quota_of_reachable h k), liveAmount_eq_quotaSum]
  refine ⟨hvalue, fun appLimit deptLimit hfixed => ?_⟩
  simp only [hvalue]
  exact quotaSum_le_of_fixedLimits hfixed

/-- The request of an application for a reservation. -/
def sampleRequest (requestKey : String) : ReservationRequest :=
  ⟨requestKey, 1, .apiApp, "sales", .market⟩

def sampleQuota (cost : ℕ) : QuotaRequest := ⟨1, "sales", .market, 0, cost, 10, 20, 100⟩

/-- Two reservations; a recipient of the first is excluded, the second is given back. -/
def quotaRun : List Action :=
  [.start (sampleRequest "first") 0, .reserveQuota 1 (sampleQuota 3),
    .start (sampleRequest "second") 0, .reserveQuota 2 (sampleQuota 7), .insertBatch (some 1),
    .exclude 1 5 2, .releaseUnlinked 2 .orphanRecovery 50]

theorem quota_projection_eq_sum_quotaRun : ∃ w, usage.run World.initial quotaRun = some w ∧
    w.db.quotaSum ⟨.app 1, 0⟩ = 1 ∧
    w.db.projections.valueAt (.quota ⟨.app 1, 0⟩) = w.db.quotaSum ⟨.app 1, 0⟩ ∧
    w.db.projections.valueAt (.quota ⟨.dept "sales", 0⟩) ≤ 20 := by
  have hrun : ∃ w, usage.run .initial quotaRun = some w ∧ w.db.quotaSum ⟨.app 1, 0⟩ = 1 := by
    refine ⟨_, rfl, ?_⟩
    decide +kernel
  obtain ⟨w, hw, hsum⟩ := hrun
  have hreach : usage.Reachable w := .run (.init rfl) hw
  have hfixed : usage.ReachableWhere (FixedLimits (fun _ => 10) (fun _ => 20)) w := by
    refine .run (.init rfl) ?_ hw
    simp [quotaRun, FixedLimits, sampleQuota]
  have hquota := quota_projection_eq_sum hreach
  exact ⟨w, hw, hsum, hquota.1 _, (hquota.2 _ _ hfixed).2 "sales" 0 (by decide)⟩

end SmsPlatform.Usage
