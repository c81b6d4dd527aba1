import SmsPlatform.RateLimit.TokenBucket
import SmsPlatform.Support.Counting

/-!
# Safety of the token bucket

Tokens and outstanding grants of the current epoch share the capacity, epochs
are at least one second apart, and a grant is made within the second of its
epoch.  The bound on the grants of an interval follows by counting epochs.

The epoch survives a clock that goes back as long as the key is there.  The key
has a deadline: once a script has found the deadline passed, the epoch is
forgotten, and a reading from before the deadline starts an earlier one.
-/

namespace SmsPlatform.RateLimit

open Support List Option

variable {limits : BucketLimits}
variable {b : Bucket} {key : BucketKey} {w : BucketWorld} {lane : Lane} {now : ℕ}

/-! ## Reading what was stored -/

@[simp] theorem wholeNumber_natCast (n : ℕ) : wholeNumber n = some n := by
  simp [wholeNumber]

@[simp] theorem bucketOf_none : bucketOf none = none := rfl

@[simp] theorem bucketOf_stored (b : Bucket) (deadline : ℕ) :
    bucketOf (some ⟨b.stored, deadline⟩) = some b := by
  simp [bucketOf, Bucket.stored]

@[simp] theorem epochOf_storeBucket (now ttl : ℕ) (b : Bucket) :
    epochOf (storeBucket now ttl b) = some b.lastMs := by
  simp [epochOf, storeBucket]

theorem readField_natCast_eq_some {n m bound : ℕ}
    (h : readField (some (n : ℚ)) bound = some m) : m = n := by
  simp only [readField, bind_some, wholeNumber_natCast, filter_eq_some_iff, some.injEq] at h
  exact h.1.symm

theorem loadBucket_stored {capacity deadline : ℕ} {b' : Bucket}
    (h : loadBucket capacity now (some ⟨b.stored, deadline⟩) = some b') :
    b' = refill capacity now b := by
  simp only [loadBucket, Bucket.stored, bind_eq_bind, bind_eq_some_iff, some.injEq] at h
  obtain ⟨tokens, htokens, lastMs, hlast, hrefill⟩ := h
  rw [← hrefill, readField_natCast_eq_some htokens, readField_natCast_eq_some hlast]

/-! ## The invariant -/

/-- Two epochs in the order in which they were in force: equal, or the later
one starts after the second of the earlier one. -/
def EpochFollows (later earlier : ℕ) : Prop :=
  earlier = later ∨ earlier + 1000 ≤ later

/-- The bucket shares the capacity with the outstanding grants of its epoch,
and its epoch continues the epochs so far. -/
structure Fits (limits : BucketLimits) (w : BucketWorld) (b : Bucket) : Prop where
  room : b.tokens + outstanding w.live b.lastMs ≤ limits.vendorQps
  follows : ∀ e ∈ w.epochs, EpochFollows b.lastMs e

/-- A key is a well formed bucket that fits. -/
def KeyFits (limits : BucketLimits) (w : BucketWorld) (key : BucketKey) : Prop :=
  ∀ k, key = some k → ∃ b : Bucket, k.value = b.stored ∧ Fits limits w b ∧ b.lastMs ∈ w.epochs

structure BucketSound (limits : BucketLimits) (w : BucketWorld) : Prop where
  key : KeyFits limits w w.key
  spaced : w.epochs.Pairwise EpochFollows
  issued : ∀ g ∈ w.live, g.epoch ∈ w.epochs ∧ g.epoch ≤ g.grantedAt ∧ g.grantedAt < g.epoch + 1000
  outstanding_le : ∀ e, outstanding w.live e ≤ limits.vendorQps

theorem keyFits_alive (h : KeyFits limits w key) : KeyFits limits w (Expiring.alive now key) := by
  intro k hk
  exact h k (Expiring.alive_eq_some_iff.mp hk).1

theorem bucketSound_start (limits : BucketLimits) : BucketSound limits BucketWorld.start where
  key := by
    intro k hk
    exact absurd hk (by simp [BucketWorld.start])
  spaced := .nil
  issued := by
    intro g hg
    exact absurd hg (by simp [BucketWorld.start])
  outstanding_le := by
    simp [outstanding, BucketWorld.start]

/-- An epoch that is past every epoch so far has no outstanding grant. -/
theorem outstanding_eq_zero (hw : BucketSound limits w) {epoch : ℕ}
    (hpast : ∀ e ∈ w.epochs, e + 1000 ≤ epoch) : outstanding w.live epoch = 0 := by
  rw [outstanding, count_eq_zero]
  intro hmem
  obtain ⟨g, hg, hepoch⟩ := mem_map.mp hmem
  have hle := hpast g.epoch (hw.issued g hg).1
  omega

/-- Epochs that start after every epoch so far admit a bucket of any fill. -/
theorem fits_of_past (hw : BucketSound limits w) (htokens : b.tokens ≤ limits.vendorQps)
    (hpast : ∀ e ∈ w.epochs, e + 1000 ≤ b.lastMs) : Fits limits w b where
  room := by
    rw [outstanding_eq_zero hw hpast]
    exact htokens
  follows := fun e he => .inr (hpast e he)

/-- Refilling keeps the bucket within its bounds, and a bucket with tokens is in
the second of its epoch. -/
theorem refill_fits (hw : BucketSound limits w) (now : ℕ) (hfits : Fits limits w b) :
    Fits limits w (refill limits.vendorQps now b) ∧ (0 < (refill limits.vendorQps now b).tokens →
        (refill limits.vendorQps now b).lastMs ≤ now ∧
          now < (refill limits.vendorQps now b).lastMs + 1000) := by
  by_cases hback : now < b.lastMs
  · rw [refill, if_pos hback]
    refine ⟨⟨?_, hfits.follows⟩, fun htokens => absurd htokens (lt_irrefl 0)⟩
    simpa using hw.outstanding_le b.lastMs
  by_cases helapsed : 0 < (now - b.lastMs) / 1000
  · have heq : refill limits.vendorQps now b =
        ⟨min limits.vendorQps (b.tokens + (now - b.lastMs) / 1000 * limits.vendorQps),
          b.lastMs + (now - b.lastMs) / 1000 * 1000⟩ := by
      rw [refill, if_neg hback, if_pos helapsed]
    rw [heq]
    refine ⟨fits_of_past hw (Nat.min_le_left _ _) ?_, fun _ => ?_⟩
    · intro e he
      have hfollows := hfits.follows e he
      dsimp only
      rcases hfollows with heq | hle <;> omega
    · dsimp only
      omega
  · have heq : refill limits.vendorQps now b = b := by
      rw [refill, if_neg hback, if_neg helapsed]
    rw [heq]
    refine ⟨hfits, fun _ => ?_⟩
    omega

/-- The bucket is recreated only when every epoch it has had is over. -/
def RecreatedAfterEpochs (w : BucketWorld) : BucketCall → Prop
  | .acquire _ now => Expiring.alive now w.key = none → ∀ e ∈ w.epochs, e + 1000 ≤ now
  | .refund _ _ => True

instance (w : BucketWorld) (call : BucketCall) : Decidable (RecreatedAfterEpochs w call) := by
  unfold RecreatedAfterEpochs
  cases call <;> infer_instance

/-- Whatever an acquisition loads fits, and has tokens only in the second of its
epoch. -/
theorem loadBucket_fits (hw : BucketSound limits w)
    (hok : RecreatedAfterEpochs w (.acquire lane now))
    (h : loadBucket limits.vendorQps now (Expiring.alive now w.key) = some b) :
    Fits limits w b ∧ (0 < b.tokens → b.lastMs ≤ now ∧ now < b.lastMs + 1000) := by
  cases hkey : Expiring.alive now w.key with
  | none =>
    rw [hkey] at h
    obtain rfl : ⟨limits.vendorQps, now⟩ = b := by simpa [loadBucket] using h
    refine ⟨fits_of_past hw (le_rfl) (hok hkey), fun _ => ?_⟩
    dsimp only
    omega
  | some k =>
    obtain ⟨b₀, hvalue, hfits, -⟩ := keyFits_alive hw.key k hkey
    have hk : k = ⟨b₀.stored, k.deadline⟩ := by rw [← hvalue]
    rw [hkey, hk] at h
    rw [loadBucket_stored h]
    exact refill_fits hw now hfits

/-! ## One script -/

/-- What the acquiring script does: it leaves a malformed key, grants a token
or refuses one. -/
inductive Acquired (limits : BucketLimits) (lane : Lane) (now : ℕ) (key : BucketKey) :
    ℤ × BucketKey → Prop
  | malformed : Acquired limits lane now key (-2, Expiring.alive now key)
  | granted {b : Bucket} {ttl : ℕ}
      (hload : loadBucket limits.vendorQps now (Expiring.alive now key) = some b)
      (hadmits : admits limits lane (min limits.vendorQps b.tokens) = true) :
      Acquired limits lane now key
        (b.lastMs, storeBucket now ttl ⟨min limits.vendorQps b.tokens - 1, b.lastMs⟩)
  | refused {b : Bucket} {ttl : ℕ}
      (hload : loadBucket limits.vendorQps now (Expiring.alive now key) = some b) :
      Acquired limits lane now key
        (-1, storeBucket now ttl ⟨min limits.vendorQps b.tokens, b.lastMs⟩)

theorem tokenBucketScript_acquired (limits : BucketLimits) (lane : Lane) (now : ℕ)
    (key : BucketKey) : Acquired limits lane now key (tokenBucketScript limits lane now key) := by
  unfold tokenBucketScript
  split
  · exact .malformed
  next b hload =>
  dsimp only
  split
  · next hadmits => exact .granted hload hadmits
  · exact .refused hload

/-- Both lanes need a token. -/
theorem pos_of_admits {tokens : ℕ} (h : admits limits lane tokens = true) : 0 < tokens := by
  cases lane with
  | realtime => exact of_decide_eq_true h
  | bulk => exact lt_of_le_of_lt (Nat.zero_le _) (of_decide_eq_true h)

@[simp] theorem recordGrant_epoch (now epoch : ℕ) (live : List Grant) :
    recordGrant now (epoch : ℤ) live = ⟨epoch, now⟩ :: live := by
  have hnonneg : ¬ (epoch : ℤ) < 0 := by omega
  have hlarge : ¬ (epoch : ℤ) < -1 := by omega
  simp [recordGrant, leaseOfReply, hnonneg, hlarge]

@[simp] theorem recordGrant_refused (now : ℕ) (live : List Grant) :
    recordGrant now (-1) live = live := by
  simp [recordGrant, leaseOfReply]

theorem outstanding_cons (g : Grant) (live : List Grant) (e : ℕ) :
    outstanding (g :: live) e = outstanding live e + if g.epoch = e then 1 else 0 := by
  simp [outstanding, count_cons]

theorem bucketSound_store (hw : BucketSound limits w) {ttl : ℕ} {live : List Grant}
    (hroom : b.tokens + outstanding live b.lastMs ≤ limits.vendorQps)
    (hfollows : ∀ e ∈ w.epochs, EpochFollows b.lastMs e)
    (hissued : ∀ g ∈ live, (g.epoch = b.lastMs ∨ g.epoch ∈ w.epochs) ∧
      g.epoch ≤ g.grantedAt ∧ g.grantedAt < g.epoch + 1000)
    (hle : ∀ e, e ≠ b.lastMs → outstanding live e ≤ limits.vendorQps) : BucketSound limits
      ⟨storeBucket now ttl b, live, (epochOf (storeBucket now ttl b)).toList ++ w.epochs⟩ where
  key := by
    intro k hk
    obtain rfl : ⟨b.stored, now + ttl⟩ = k := by simpa [storeBucket] using hk
    refine ⟨b, rfl, ⟨hroom, ?_⟩, by simp⟩
    intro e he
    rw [epochOf_storeBucket, toList_some, singleton_append, mem_cons] at he
    rcases he with rfl | he
    · exact .inl rfl
    · exact hfollows e he
  spaced := by
    simpa using ⟨hfollows, hw.spaced⟩
  issued := by
    intro g hg
    obtain ⟨hmem, hbounds⟩ := hissued g hg
    exact ⟨by simpa using hmem, hbounds⟩
  outstanding_le := by
    intro e
    by_cases he : e = b.lastMs
    · rw [he]
      exact le_trans (Nat.le_add_left _ _) hroom
    · exact hle e he

/-- A key that is left as it was found, and its epoch recorded once more. -/
theorem bucketSound_keep (hw : BucketSound limits w) (now : ℕ) :
    BucketSound limits ⟨Expiring.alive now w.key, w.live,
      (epochOf (Expiring.alive now w.key)).toList ++ w.epochs⟩ := by
  cases hkey : Expiring.alive now w.key with
  | none =>
    refine ⟨fun k hk => absurd hk (by simp), ?_, ?_, hw.outstanding_le⟩
    · simpa [epochOf] using hw.spaced
    · simpa [epochOf] using hw.issued
  | some k =>
    obtain ⟨b, hvalue, hfits, -⟩ := keyFits_alive hw.key k hkey
    obtain ⟨value, deadline⟩ := k
    obtain rfl : value = b.stored := hvalue
    have hstore : BucketSound limits ⟨storeBucket 0 deadline b, w.live,
        (epochOf (storeBucket 0 deadline b)).toList ++ w.epochs⟩ :=
      bucketSound_store hw hfits.room hfits.follows
        (fun g hg => ⟨.inr (hw.issued g hg).1, (hw.issued g hg).2⟩)
        (fun e _ => hw.outstanding_le e)
    simpa [storeBucket] using hstore

theorem bucketSound_acquire (hw : BucketSound limits w)
    (hok : RecreatedAfterEpochs w (.acquire lane now)) :
    BucketSound limits (w.step limits (.acquire lane now)) := by
  have hacquired := tokenBucketScript_acquired limits lane now w.key
  dsimp only [BucketWorld.step]
  generalize tokenBucketScript limits lane now w.key = result at hacquired ⊢
  have hold : ∀ g ∈ w.live, ∀ b : Bucket, (g.epoch = b.lastMs ∨ g.epoch ∈ w.epochs) ∧
      g.epoch ≤ g.grantedAt ∧ g.grantedAt < g.epoch + 1000 :=
    fun g hg _ => ⟨.inr (hw.issued g hg).1, (hw.issued g hg).2⟩
  cases hacquired with
  | malformed => exact bucketSound_keep hw now
  | @granted b ttl hload hadmits =>
    obtain ⟨hfits, hsecond⟩ := loadBucket_fits hw hok hload
    have hpos := pos_of_admits hadmits
    have hroom := hfits.room
    rw [recordGrant_epoch]
    refine bucketSound_store hw ?_ hfits.follows ?_ ?_
    · rw [outstanding_cons, if_pos rfl]
      dsimp only
      omega
    · intro g hg
      rcases mem_cons.mp hg with rfl | hg
      · exact ⟨.inl rfl, hsecond (by omega)⟩
      · exact hold g hg b
    · intro e he
      rw [outstanding_cons, if_neg (fun h => he h.symm)]
      exact hw.outstanding_le e
  | @refused b ttl hload =>
    obtain ⟨hfits, -⟩ := loadBucket_fits hw hok hload
    have hroom := hfits.room
    rw [recordGrant_refused]
    refine bucketSound_store hw ?_ hfits.follows (fun g hg => hold g hg b)
      (fun e _ => hw.outstanding_le e)
    dsimp only
    omega

/-- What the refunding script does: it leaves the key, or returns a token to the
epoch of the lease while that epoch lasts. -/
inductive Refunded (capacity leaseEpoch now : ℕ) (key : BucketKey) :
    Option ℤ × BucketKey → Prop
  | kept {reply : Option ℤ} (hreply : reply ≠ some 1) :
      Refunded capacity leaseEpoch now key (reply, Expiring.alive now key)
  | returned {tokens : ℚ} {n deadline : ℕ} (hkey : Expiring.alive now key =
        some ⟨.hash (some tokens) (some (leaseEpoch : ℚ)), deadline⟩)
      (htokens : wholeNumber tokens = some n) :
      Refunded capacity leaseEpoch now key
        (some 1, storeBucket now 60000 ⟨min capacity (n + 1), leaseEpoch⟩)

theorem tokenRefundScript_refunded (capacity leaseEpoch now : ℕ) (key : BucketKey) :
    Refunded capacity leaseEpoch now key (tokenRefundScript capacity leaseEpoch now key) := by
  have hzero : (some 0 : Option ℤ) ≠ some 1 := by decide
  unfold tokenRefundScript
  split
  · next hkey => exact hkey ▸ .kept hzero
  · next hkey => exact hkey ▸ .kept (by simp)
  · next tokens lastMs deadline hkey =>
    by_cases hepoch : lastMs ≠ leaseEpoch
    · rw [if_pos hepoch]
      exact hkey ▸ .kept hzero
    rw [if_neg hepoch]
    split
    · exact hkey ▸ .kept hzero
    split
    · exact hkey ▸ .kept hzero
    next n htokens =>
    rw [not_not.mp hepoch] at hkey
    exact .returned hkey htokens
  · next hkey => exact hkey ▸ .kept hzero

/-- Taking back one grant of an epoch lowers its outstanding grants by one. -/
theorem outstanding_eraseP (live : List Grant) (epoch e : ℕ) :
    outstanding (live.eraseP (fun g => g.epoch == epoch)) e =
      outstanding live e - if e = epoch then 1 else 0 := by
  have hmap : (live.eraseP (fun g => g.epoch == epoch)).map Grant.epoch =
      (live.map Grant.epoch).erase epoch := by
    rw [erase_eq_eraseP', eraseP_map]
    rfl
  rw [outstanding, hmap, count_erase, outstanding]
  by_cases he : e = epoch
  · simp [he]
  · simp [he, Ne.symm he]

theorem bucketSound_refund (hw : BucketSound limits w) (leaseEpoch now : ℕ) :
    BucketSound limits (w.step limits (.refund leaseEpoch now)) := by
  have hrefunded := tokenRefundScript_refunded limits.vendorQps leaseEpoch now w.key
  dsimp only [BucketWorld.step]
  generalize tokenRefundScript limits.vendorQps leaseEpoch now w.key = result at hrefunded ⊢
  cases hrefunded with
  | kept hreply =>
    rw [recordRefund, if_neg hreply]
    exact bucketSound_keep hw now
  | @returned tokens n deadline hkey htokens =>
    obtain ⟨b, hvalue, hfits, -⟩ := keyFits_alive hw.key _ hkey
    obtain ⟨rfl, rfl⟩ : n = b.tokens ∧ leaseEpoch = b.lastMs := by
      simp only [Bucket.stored, Stored.hash.injEq, some.injEq, Nat.cast_inj] at hvalue
      rw [hvalue.1, wholeNumber_natCast, some.injEq] at htokens
      exact ⟨htokens.symm, hvalue.2⟩
    have hroom := hfits.room
    rw [recordRefund, if_pos rfl]
    refine bucketSound_store hw ?_ hfits.follows ?_ ?_
    · rw [outstanding_eraseP, if_pos rfl]
      dsimp only
      omega
    · intro g hg
      have hissued := hw.issued g (mem_of_mem_eraseP hg)
      exact ⟨.inr hissued.1, hissued.2⟩
    · intro e he
      rw [outstanding_eraseP]
      exact le_trans (Nat.sub_le _ _) (hw.outstanding_le e)

/-- The invariant holds along every run that recreates the bucket only after its
epochs. -/
theorem bucketSound_of_reachable
    (h : (bucketMachine limits).ReachableWhere RecreatedAfterEpochs w) : BucketSound limits w := by
  refine Machine.ReachableWhere.invariant ?_ ?_ h
  · rintro _ rfl
    exact bucketSound_start limits
  · intro s call t hs hok hnext
    obtain rfl : s.step limits call = t := by simpa [bucketMachine] using hnext
    cases call with
    | acquire lane now => exact bucketSound_acquire hs hok
    | refund leaseEpoch now => exact bucketSound_refund hs leaseEpoch now

/-! ## The bounds -/

section

variable (hw : BucketSound limits w)
include hw

theorem BucketSound.tokens_le {k : Expiring Stored}
    (hk : w.key = some k) : ∃ b : Bucket, k.value = b.stored ∧ b.tokens ≤ limits.vendorQps := by
  obtain ⟨b, hvalue, hfits, -⟩ := hw.key k hk
  exact ⟨b, hvalue, le_trans (Nat.le_add_right _ _) hfits.room⟩

theorem BucketSound.epochs_ordered : w.epochs.Pairwise (fun later earlier => earlier ≤ later) := by
  refine hw.spaced.imp ?_
  rintro later earlier (rfl | hle)
  · exact le_rfl
  · omega

theorem BucketSound.apart {a b : ℕ} (ha : a ∈ w.epochs)
    (hb : b ∈ w.epochs) (hlt : a < b) : a + 1000 ≤ b := by
  have hsym : w.epochs.Pairwise (fun x y => EpochFollows x y ∨ EpochFollows y x) :=
    hw.spaced.imp .inl
  have : Std.Symm (fun x y => EpochFollows x y ∨ EpochFollows y x) :=
    ⟨fun _ _ h => h.symm⟩
  rcases hsym.forall ha hb (ne_of_lt hlt) with (h | h) | (h | h)
  · omega
  · omega
  · omega
  · exact h

/-- Grants of an interval come from the epochs that overlap it. -/
theorem BucketSound.grants_le (start width : ℕ) :
    (grantedWithin w.live start width).length ≤ limits.vendorQps * (width / 1000 + 2) := by
  have hmem : ∀ e ∈ ((grantedWithin w.live start width).map Grant.epoch).toFinset,
      e ∈ w.epochs ∧ start - 999 ≤ e ∧ e ≤ start + width := by
    intro e he
    rw [List.mem_toFinset, List.mem_map] at he
    obtain ⟨g, hg, rfl⟩ := he
    simp only [grantedWithin, mem_filter, Bool.and_eq_true, decide_eq_true_eq] at hg
    obtain ⟨hepoch, hle, hlt⟩ := hw.issued g hg.1
    exact ⟨hepoch, by omega, by omega⟩
  have hcount : ∀ e, ((grantedWithin w.live start width).map Grant.epoch).count e ≤
      limits.vendorQps := by
    intro e
    have hsub : List.Sublist ((grantedWithin w.live start width).map Grant.epoch)
        (w.live.map Grant.epoch) := filter_sublist.map Grant.epoch
    exact le_trans (hsub.count_le e) (hw.outstanding_le e)
  have hcard : ((grantedWithin w.live start width).map Grant.epoch).toFinset.card ≤
      (start + width - (start - 999)) / 1000 + 1 :=
    card_le_of_spaced (by decide) (fun a ha => (hmem a ha).2.1)
      (fun a ha => (hmem a ha).2.2)
      (fun a ha b hb hlt => hw.apart (hmem a ha).1 (hmem b hb).1 hlt)
  calc (grantedWithin w.live start width).length ≤ limits.vendorQps *
          ((grantedWithin w.live start width).map Grant.epoch).toFinset.card :=
        length_le_mul_card_image hcount
    _ ≤ limits.vendorQps * (width / 1000 + 2) := Nat.mul_le_mul_left _ (by omega)

end

/-- A bulk grant leaves the reserve in the bucket. -/
theorem reserved_le_of_bulk_grant (hgrant : 0 ≤ (tokenBucketScript limits .bulk now key).1) :
    ∃ b, bucketOf (tokenBucketScript limits .bulk now key).2 = some b ∧
    limits.reservedRealtimeQps ≤ b.tokens := by
  have hacquired := tokenBucketScript_acquired limits .bulk now key
  generalize tokenBucketScript limits .bulk now key = result at hacquired hgrant ⊢
  cases hacquired with
  | granted hload hadmits =>
    refine ⟨_, bucketOf_stored _ _, ?_⟩
    have hlt := of_decide_eq_true hadmits
    dsimp only
    omega
  | _ =>
    omega

/-- A refund adds at most one token, and only to the epoch of its lease. -/
theorem epoch_eq_of_refund {leaseEpoch : ℕ} {b' : Bucket}
    (hb : bucketOf (Expiring.alive now key) = some b)
    (hb' : bucketOf (tokenRefundScript limits.vendorQps leaseEpoch now key).2 = some b')
    (hmore : b.tokens < b'.tokens) :
    b.lastMs = leaseEpoch ∧ b'.lastMs = leaseEpoch ∧ b'.tokens = b.tokens + 1 := by
  have hrefunded := tokenRefundScript_refunded limits.vendorQps leaseEpoch now key
  generalize tokenRefundScript limits.vendorQps leaseEpoch now key = result at hrefunded hb'
  cases hrefunded with
  | kept hreply =>
    rw [hb, some.injEq] at hb'
    rw [hb'] at hmore
    exact absurd hmore (lt_irrefl _)
  | @returned tokens n deadline hkey htokens =>
    obtain rfl : ⟨n, leaseEpoch⟩ = b := by
      simpa [hkey, bucketOf, htokens] using hb
    obtain rfl : ⟨min limits.vendorQps (n + 1), leaseEpoch⟩ = b' := by
      simpa [storeBucket] using hb'
    refine ⟨rfl, rfl, ?_⟩
    dsimp only at hmore ⊢
    omega

/-- The safety of the bucket in one state of a run. -/
structure BucketSafe (limits : BucketLimits) (w : BucketWorld) : Prop where
  tokens_le : ∀ k, w.key = some k → ∃ b : Bucket, k.value = b.stored ∧ b.tokens ≤ limits.vendorQps
  epochs_ordered : w.epochs.Pairwise (fun later earlier => earlier ≤ later)
  outstanding_le : ∀ epoch, outstanding w.live epoch ≤ limits.vendorQps
  grants_le : ∀ start width, (grantedWithin w.live start width).length ≤
    limits.vendorQps * (width / 1000 + 2)
  bulk_leaves_reserve : ∀ now, 0 ≤ (tokenBucketScript limits .bulk now w.key).1 →
    ∃ b, bucketOf (tokenBucketScript limits .bulk now w.key).2 = some b ∧
      limits.reservedRealtimeQps ≤ b.tokens
  refund_same_epoch : ∀ leaseEpoch now b b', bucketOf (Expiring.alive now w.key) = some b →
    bucketOf (tokenRefundScript limits.vendorQps leaseEpoch now w.key).2 = some b' →
    b.tokens < b'.tokens →
    b.lastMs = leaseEpoch ∧ b'.lastMs = leaseEpoch ∧ b'.tokens = b.tokens + 1

/-- The bucket is safe in every run of acquisitions and refunds, with readings
that may go back, whose acquisitions recreate the key only when the epochs it
forgot are over. -/
theorem token_bucket_safe (limits : BucketLimits) (w : BucketWorld)
    (h : (bucketMachine limits).ReachableWhere RecreatedAfterEpochs w) : BucketSafe limits w := by
  have hsound := bucketSound_of_reachable h
  exact {
    tokens_le := fun _ hk => hsound.tokens_le hk
    epochs_ordered := hsound.epochs_ordered
    outstanding_le := hsound.outstanding_le
    grants_le := hsound.grants_le
    bulk_leaves_reserve := fun _ hgrant => reserved_le_of_bulk_grant hgrant
    refund_same_epoch := fun _ _ _ _ hb hb' hmore => epoch_eq_of_refund hb hb' hmore }

/-- Two tokens a second, one of them reserved. -/
def twoTokens : BucketLimits := ⟨2, 1, by decide⟩

/-- A realtime and a refused bulk request, a refund of the first, and a bulk
request after the clock went back. -/
def refundedRun : BucketWorld :=
  (((BucketWorld.start.step twoTokens (.acquire .realtime 5000)).step twoTokens
    (.acquire .bulk 5200)).step twoTokens (.refund 5000 5300)).step twoTokens (.acquire .bulk 4000)

theorem token_bucket_safe_refundedRun :
    refundedRun.epochs = [5000, 5000, 5000, 5000] ∧ BucketSafe twoTokens refundedRun := by
  refine ⟨by decide +kernel, token_bucket_safe twoTokens refundedRun ?_⟩
  have h₀ : (bucketMachine twoTokens).ReachableWhere RecreatedAfterEpochs
      .start := .init rfl
  have h₁ := h₀.step (a := .acquire .realtime 5000) (by decide +kernel) rfl
  have h₂ := h₁.step (a := .acquire .bulk 5200) (by decide +kernel) rfl
  have h₃ := h₂.step (a := .refund 5000 5300) (by decide) rfl
  exact h₃.step (by decide +kernel) rfl

/-- One token a second. -/
def oneToken : BucketLimits := ⟨1, 0, by decide⟩

/-- The clock jumps past the deadline of the key and back, three times: each
time the bucket starts its epoch again. -/
def forgottenEpochs : List BucketCall :=
  [.acquire .realtime 100000, .refund 100000 160001,
   .acquire .realtime 100000, .refund 100000 160001,
   .acquire .realtime 100000, .refund 100000 160001,
   .acquire .realtime 50000]

/-- A key that expired during a forward jump of the clock takes the epoch with
it: grants of one epoch and of one instant exceed their bounds, and the epoch
decreases. -/
theorem bucket_epoch_forgotten :
    ∃ w, (bucketMachine oneToken).run BucketWorld.start forgottenEpochs = some w ∧
      oneToken.vendorQps < outstanding w.live 100000 ∧
      oneToken.vendorQps * (0 / 1000 + 2) < (grantedWithin w.live 100000 0).length ∧
      ¬ w.epochs.Pairwise (fun later earlier => earlier ≤ later) := by
  refine ⟨_, rfl, ?_, ?_, ?_⟩ <;> decide +kernel

end SmsPlatform.RateLimit
