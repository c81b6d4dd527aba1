import SmsPlatform.Idempotency.Steps

/-!
# Results are kept until they have expired

The result of a completed claim is in the table, or it was deleted after it had expired.
Therefore a claim whose result is not found protected has an expired result, whether the record
is still there or not.
-/

namespace SmsPlatform.Idempotency

open Support Table Function Update List

/-- The batch is the current one of the key. -/
def World.Completed (w : World) (key : Key) (b : BatchId) : Prop :=
  ∃ q ∈ w.claims, q.key = key ∧ q.state = .completed b

/-- The result of a completed claim is kept until it has expired. -/
structure World.Kept (w : World) : Prop where
  record_lt : ∀ r ∈ w.records, r.batchId < w.nextBatch
  claim_lt : ∀ key b, w.Completed key b → b < w.nextBatch
  same_key : ∀ r ∈ w.records, ∀ key, w.Completed key r.batchId → r.key = key
  record_expiry : ∀ r ∈ w.records, w.resultExpiry r.batchId ≤ r.expiresAt
  claim_expiry : ∀ key b, w.Completed key b →
    (∃ r ∈ w.records, r.key = key ∧ r.batchId = b) ∨ w.resultExpiry b ≤ w.clock

variable {w w' : World} {b : BatchId} {key : Key}

/-- An update after which no claim is completed that was not so before. -/
theorem completed_of_apply {u : Update Claim.key} (hclaims : w'.claims = w.claims.apply u)
    (hu : ∀ q b, (u.change q).state = .completed b → q.state = .completed b)
    (h : w'.Completed key b) : w.Completed key b := by
  obtain ⟨q, hq, hkey, hstate⟩ := h
  rw [hclaims] at hq
  obtain ⟨q₀, hq₀, rfl⟩ := mem_apply_iff.mp hq
  have hbefore : (u.row q₀).state = .completed b → q₀.state = .completed b :=
    row_cases (P := fun q : Claim => q.state = .completed b → q₀.state = .completed b)
      (fun h => h) (fun _ => hu q₀ b)
  exact ⟨q₀, hq₀, (u.key_row q₀).symm.trans hkey, hbefore hstate⟩

/-- A step that completes no claim and keeps the records. -/
theorem World.Kept.of_same_records (hw : w.Kept)
    (hclaims : ∀ key b, w'.Completed key b → w.Completed key b)
    (hrecords : w'.records = w.records) (hexpiry : w'.resultExpiry = w.resultExpiry)
    (hclock : w.clock ≤ w'.clock) (hnext : w'.nextBatch = w.nextBatch) : w'.Kept := by
  constructor
  · rw [hrecords, hnext]
    exact hw.record_lt
  · intro key b hb
    rw [hnext]
    exact hw.claim_lt key b (hclaims key b hb)
  · intro r hr key hb
    rw [hrecords] at hr
    exact hw.same_key r hr key (hclaims key _ hb)
  · rw [hrecords, hexpiry]
    exact hw.record_expiry
  · intro key b hb
    rw [hrecords, hexpiry]
    exact (hw.claim_expiry key b (hclaims key b hb)).imp_right (fun h => h.trans hclock)

section

variable {w : World} {now : Time} {batchId : BatchId} {h : Holding} {q : Claim}

theorem World.Kept.reclaim (hw : w.Kept) {x : ℕ} {fingerprint : String} {ttl : Time}
    (hq : q ∈ w.claims) (hkey : q.key = key) (hstate : q.state = .completed batchId) :
    ((w.retire key fingerprint (now + ttl) batchId).setHeld x h).Kept := by
  -- The claim whose result is retired is active afterwards.
  have hother : ∀ {k b}, (∃ q' ∈ w.claims.apply
      (reclaimUpdate key batchId w.nextToken fingerprint (now + ttl)),
      q'.key = k ∧ q'.state = .completed b) → k ≠ key ∧ w.Completed k b := by
    rintro k b ⟨q', hq', rfl, hstate'⟩
    obtain ⟨q₀, hq₀, rfl⟩ := mem_apply_iff.mp hq'
    have hkey₀ := (reclaimUpdate key batchId w.nextToken fingerprint (now + ttl)).key_row q₀
    rw [hkey₀]
    have hne : q₀.key ≠ key := by
      intro hsame
      obtain rfl : q₀ = q := eq_of_key_eq hq₀ hq (hsame.trans hkey.symm)
      have happ : (reclaimUpdate key batchId w.nextToken fingerprint (now + ttl)).applies q₀ =
          true := by simp [reclaimUpdate, hkey, hstate]
      rw [row_of_applies happ] at hstate'
      cases hstate'
    rw [row_of_not_applies (by simp [reclaimUpdate, hne])] at hstate'
    exact ⟨hne, q₀, hq₀, rfl, hstate'⟩
  constructor
  · exact fun r hr => hw.record_lt r (mem_keep_iff.mp hr).1
  · exact fun k b hb => hw.claim_lt k b (hother hb).2
  · exact fun r hr k hb => hw.same_key r (mem_keep_iff.mp hr).1 k (hother hb).2
  · exact fun r hr => hw.record_expiry r (mem_keep_iff.mp hr).1
  · intro k b hb
    obtain ⟨hne, hb⟩ := hother hb
    refine (hw.claim_expiry k b hb).imp_left ?_
    rintro ⟨r, hr, hrkey, hrbatch⟩
    refine ⟨r, mem_keep_iff.mpr ⟨hr, ?_⟩, hrkey, hrbatch⟩
    simp [hrkey, hne]

theorem World.Kept.commit (hw : w.Kept) {x : ℕ} {command : BatchCommand}
    {hbatch : ∀ b ∈ w.batches.rows, b.id ≠ w.nextBatch}
    (hrecord : ∀ r ∈ (w.recordsFor h.key now).rows, r.key ≠ h.key) (hq : q ∈ w.claims)
    (howned : q.isOwned h = true) (hlease : now < q.expiresAt) :
    (w.complete x h command now hbatch hrecord).Kept := by
  have hmem := @mem_insertNew_iff _ _ _ (w.recordsFor h.key now)
    ⟨h.key, command.requestHash, w.nextBatch, command.expiresAt now⟩
  have hqkey := (Claim.isOwned_iff.mp howned).1
  have hcompleted : ∀ {k b}, (∃ q' ∈ w.claims.apply
      (completeUpdate h w.nextBatch (command.expiresAt now) now),
      q'.key = k ∧ q'.state = .completed b) →
      (k = h.key ∧ b = w.nextBatch) ∨ (k ≠ h.key ∧ w.Completed k b) := by
    rintro k b ⟨q', hq', rfl, hstate⟩
    obtain ⟨q₀, hq₀, rfl⟩ := mem_apply_iff.mp hq'
    have hkey₀ := (completeUpdate h w.nextBatch (command.expiresAt now) now).key_row q₀
    rw [hkey₀]
    by_cases hsame : q₀.key = h.key
    · obtain rfl : q₀ = q := eq_of_key_eq hq₀ hq (hsame.trans hqkey.symm)
      have happ : (completeUpdate h w.nextBatch (command.expiresAt now) now).applies q₀ = true := by
        simp [completeUpdate, howned, hlease]
      rw [row_of_applies happ] at hstate
      cases hstate
      exact .inl ⟨hsame, rfl⟩
    · have hnot : (completeUpdate h w.nextBatch (command.expiresAt now) now).applies q₀ =
          false := by
        simp [completeUpdate, Claim.isOwned, hsame]
      rw [row_of_not_applies hnot] at hstate
      exact .inr ⟨hsame, q₀, hq₀, rfl, hstate⟩
  have hold : ∀ r ∈ w.recordsFor h.key now, r ∈ w.records := fun r hr => (mem_keep_iff.mp hr).1
  constructor
  · intro r hr
    rcases (hmem hrecord).mp hr with hr | rfl
    · exact Nat.lt_succ_of_lt (hw.record_lt r (hold r hr))
    · exact Nat.lt_succ_self _
  · intro k b hb
    rcases hcompleted hb with ⟨-, rfl⟩ | ⟨-, hb⟩
    · exact Nat.lt_succ_self _
    · exact Nat.lt_succ_of_lt (hw.claim_lt k b hb)
  · intro r hr k hb
    rcases (hmem hrecord).mp hr with hr | rfl
    · rcases hcompleted hb with ⟨-, hsame⟩ | ⟨-, hb⟩
      · exact absurd hsame (hw.record_lt r (hold r hr)).ne
      · exact hw.same_key r (hold r hr) k hb
    · rcases hcompleted hb with ⟨hkey, -⟩ | ⟨-, hb⟩
      · exact hkey.symm
      · exact absurd (hw.claim_lt k _ hb) (lt_irrefl _)
  · intro r hr
    rcases (hmem hrecord).mp hr with hr | rfl
    · have hne : r.batchId ≠ w.nextBatch := (hw.record_lt r (hold r hr)).ne
      simp only [update_of_ne hne]
      exact hw.record_expiry r (hold r hr)
    · simp only [update_self]
      exact le_rfl
  · intro k b hb
    rcases hcompleted hb with ⟨rfl, rfl⟩ | ⟨hkey, hb⟩
    · exact .inl ⟨_, (hmem hrecord).mpr (.inr rfl), rfl, rfl⟩
    have hne : b ≠ w.nextBatch := (hw.claim_lt k b hb).ne
    simp only [update_of_ne hne]
    refine (hw.claim_expiry k b hb).imp_left ?_
    rintro ⟨r, hr, rfl, hrbatch⟩
    refine ⟨r, (hmem hrecord).mpr (.inl (mem_keep_iff.mpr ⟨hr, ?_⟩)), rfl, hrbatch⟩
    simp [hkey]

theorem World.Kept.reschedule (hw : w.Kept) {scheduledAt : Time}
    (h : w.reschedule batchId scheduledAt = some w') : w'.Kept := by
  obtain ⟨b₀, -, rfl⟩ := Option.map_eq_some_iff.mp h
  have hrow : ∀ r₀ : Record, ∀ r, (if decide (r₀.batchId = batchId) = true then
      { r₀ with expiresAt := max r₀.expiresAt (scheduledAt + 7 * 86400) } else r₀) = r →
      r.key = r₀.key ∧ r.batchId = r₀.batchId := by
    rintro r₀ r rfl
    split <;> exact ⟨rfl, rfl⟩
  constructor
  · intro r hr
    obtain ⟨r₀, hr₀, hr⟩ := mem_apply_iff.mp hr
    rw [(hrow r₀ r hr).2]
    exact hw.record_lt r₀ hr₀
  · exact hw.claim_lt
  · intro r hr k hb
    obtain ⟨r₀, hr₀, hr⟩ := mem_apply_iff.mp hr
    obtain ⟨hkey, hbatch⟩ := hrow r₀ r hr
    rw [hkey]
    rw [hbatch] at hb
    exact hw.same_key r₀ hr₀ k hb
  · intro r hr
    obtain ⟨r₀, hr₀, rfl⟩ := mem_apply_iff.mp hr
    have hany : r₀.batchId = batchId →
        w.records.rows.any (fun r => decide (r.batchId = batchId)) = true :=
      fun hsame => any_eq_true.mpr ⟨r₀, hr₀, decide_eq_true hsame⟩
    by_cases hsame : r₀.batchId = batchId
    · rw [row_of_applies (decide_eq_true hsame)]
      simp only [hany hsame, if_true]
      rw [hsame, update_self]
      exact max_le_max ((hsame ▸ hw.record_expiry r₀ hr₀)) le_rfl
    · rw [row_of_not_applies (decide_eq_false hsame)]
      dsimp only
      split
      · rw [update_of_ne hsame]
        exact hw.record_expiry r₀ hr₀
      · exact hw.record_expiry r₀ hr₀
  · intro k b hb
    by_cases hexists : ∃ r ∈ w.records, r.key = k ∧ r.batchId = b
    · obtain ⟨r, hr, rfl, rfl⟩ := hexists
      exact .inl ⟨_, row_mem_apply hr, (hrow r _ rfl).1, (hrow r _ rfl).2⟩
    have hexpired := (hw.claim_expiry k b hb).resolve_left hexists
    right
    dsimp only
    split
    · rename_i hany
      obtain ⟨r, hr, hbatch⟩ := any_eq_true.mp hany
      have hne : b ≠ batchId := by
        intro hsame
        have hrb : r.batchId = b := (of_decide_eq_true hbatch).trans hsame.symm
        rw [← hrb] at hb
        exact hexists ⟨r, hr, hw.same_key r hr k hb, hrb⟩
      rw [update_of_ne hne]
      exact hexpired
    · exact hexpired

theorem World.Kept.cleanup (hw : w.Kept) {page : List Key} {cutoff : Time}
    (hbegan : now ≤ w.clock) : (w.cleanup page cutoff now).Kept := by
  have hclaims : ∀ {k b}, (w.cleanup page cutoff now).Completed k b → w.Completed k b :=
    completed_of_apply rfl (fun _ _ hstate => hstate)
  constructor
  · exact fun r hr => hw.record_lt r (mem_keep_iff.mp hr).1
  · exact fun k b hb => hw.claim_lt k b (hclaims hb)
  · exact fun r hr k hb => hw.same_key r (mem_keep_iff.mp hr).1 k (hclaims hb)
  · exact fun r hr => hw.record_expiry r (mem_keep_iff.mp hr).1
  · intro k b hb
    rcases hw.claim_expiry k b (hclaims hb) with ⟨r, hr, hkey, rfl⟩ | hexpired
    · by_cases hcleaned : w.isCleaned page cutoff now r = true
      · right
        have hnot : w.isLive r now = false := by
          simpa using (Bool.and_eq_true_iff.mp hcleaned).2
        simp only [World.isLive, Record.isLive, Bool.or_eq_false_iff, decide_eq_false_iff_not,
          not_lt] at hnot
        exact (hw.record_expiry r hr).trans (hnot.1.1.trans hbegan)
      · exact .inl ⟨r, mem_keep_iff.mpr ⟨hr, by simpa using hcleaned⟩, hkey, rfl⟩
    · exact .inr hexpired

end

theorem Step.kept {a : Action} (h : Step w a w') (hbegan : a.began ≤ w.clock) (hw : w.Kept) :
    w'.Kept := by
  cases h with
  | ticked => exact hw.of_same_records (fun _ _ hb => hb) rfl rfl (Nat.le_add_right _ _) rfl
  | worked | operated => exact hw.of_same_records (fun _ _ hb => hb) rfl rfl le_rfl rfl
  | reserved hnew =>
    refine hw.of_same_records ?_ rfl rfl le_rfl rfl
    rintro key b ⟨q, hq, hkey, hstate⟩
    rcases (mem_insertNew_iff hnew).mp hq with hq | rfl
    · exact ⟨q, hq, hkey, hstate⟩
    · cases hstate
  | takenOver | released =>
    refine hw.of_same_records (fun _ _ => completed_of_apply rfl ?_) rfl rfl le_rfl rfl
    intro q b hstate
    cases hstate
  | renewed =>
    exact hw.of_same_records (fun _ _ => completed_of_apply rfl (fun _ _ hstate => hstate))
      rfl rfl le_rfl rfl
  | reclaimed hq hkey hstate => exact hw.reclaim hq hkey hstate
  | committed hheld hbatch hrecord hq howned hlease => exact hw.commit hrecord hq howned hlease
  | rescheduled hnext => exact hw.reschedule hnext
  | cleaned => exact hw.cleanup hbegan

theorem kept_of_reachable (h : idempotency.Reachable w) : w.Kept := by
  refine h.invariant ?_ ?_
  · rintro _ rfl
    refine ⟨?_, ?_, ?_, ?_, ?_⟩
    · exact fun r hr => absurd hr (not_mem_empty r)
    · rintro key b ⟨q, hq, -⟩
      exact absurd hq (not_mem_empty q)
    · exact fun r hr => absurd hr (not_mem_empty r)
    · exact fun r hr => absurd hr (not_mem_empty r)
    · rintro key b ⟨q, hq, -⟩
      exact absurd hq (not_mem_empty q)
  · intro s a t hs hnext
    obtain ⟨hbegan, hstep⟩ := step_of_next hnext
    exact hstep.kept hbegan hs

/-! ## Retired results -/

/-- The result had expired and the work of the batch was over. -/
def Retirement.Due (r : Retirement) : Prop := r.expiresAt ≤ r.retiredAt ∧ r.wasProtected = false

/-- A result that is not protected has expired. -/
theorem World.Kept.expired (hw : w.Kept) {q : Claim} {now : Time}
    (hq : q ∈ w.claims) (hstate : q.state = .completed b) (hbegan : now ≤ w.clock)
    (hfree : q.resultProtected w.operations (w.resultOf q.key b) (w.batches.find? b) now = false) :
    w.resultExpiry b ≤ w.clock := by
  obtain ⟨⟨t, ht, hle⟩, -⟩ := resultProtected_eq_false_iff.mp hfree
  rcases hw.claim_expiry q.key b ⟨q, hq, rfl, hstate⟩ with ⟨r, hr, hkey, hbatch⟩ | hexpired
  · have hresult : w.resultOf q.key b = some r := by
      rw [World.resultOf, find?_eq_some_iff.mpr ⟨hr, hkey⟩]
      simp [hbatch]
    rw [hresult] at ht
    cases ht
    have hexpiry := hw.record_expiry r hr
    rw [hbatch] at hexpiry
    exact hexpiry.trans (hle.trans hbegan)
  · exact hexpired

theorem Step.due {a : Action} (h : Step w a w') (hbegan : a.began ≤ w.clock) (hkept : w.Kept)
    (hw : ∀ r ∈ w.retirements, r.Due) : ∀ r ∈ w'.retirements, r.Due := by
  cases h with
  | reclaimed hq hkey hstate hprotected =>
    subst hkey
    intro r hr
    rcases mem_cons.mp hr with rfl | hr
    · exact ⟨hkept.expired hq hstate hbegan hprotected,
        (resultProtected_eq_false_iff.mp hprotected).2⟩
    · exact hw r hr
  | rescheduled hnext =>
    rw [(reschedule_frame hnext).2.2.2.1]
    exact hw
  | _ => exact hw

theorem due_of_reachable (h : idempotency.Reachable w) : ∀ r ∈ w.retirements, r.Due := by
  induction h with
  | init h =>
    subst h
    exact fun r hr => absurd hr not_mem_nil
  | step hreach _ hnext ih =>
    obtain ⟨hbegan, hstep⟩ := step_of_next hnext
    exact hstep.due hbegan (kept_of_reachable hreach) ih

end SmsPlatform.Idempotency
