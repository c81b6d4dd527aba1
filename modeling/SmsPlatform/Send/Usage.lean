import Mathlib.Algebra.BigOperators.Group.Finset.Piecewise
import Mathlib.Algebra.BigOperators.Ring.List
import SmsPlatform.Send.Allocation

/-!
# Conservation of the usage allocation

The rows of a batch add up to its messages that are not excluded, as long as no
chunk with an excluded message is split.  `blacklistedSplitRun` shows what happens
otherwise.
-/

namespace SmsPlatform.Send

open Support Vendor Table List Db

section

variable {db : Db} {batchId : BatchId}

section

variable (h : Allocated db none)
include h

theorem Allocated.allocatedAt {a : Allocation}
    (ha : a ∈ db.allocations) : ∃ c ∈ db.chunks, AllocatedAt db c a := by
  obtain ⟨c, hc, hid, -⟩ := h.owner a ha
  obtain ⟨a', ha'⟩ := h.row c hc (by simp)
  obtain rfl : a' = a := eq_of_key_eq ha'.mem ha (ha'.chunkId.trans hid)
  exact ⟨c, hc, ha'⟩

/-- What remains of a batch is what remains of its allocated chunks. -/
theorem Allocated.remaining_perm (hplan : Plan db []) (hprepared : db.chunksOf batchId ≠ []) :
    ((db.allocationsOf batchId).flatMap (fun a => db.remainingOf a.chunkId)).Perm
      (db.batchRemaining batchId) := by
  have hnodup : (db.allocationsOf batchId).Nodup :=
    (List.Nodup.of_map _ db.allocations.nodup).filter _
  refine (perm_ext_iff_of_nodup ?_ ?_).mpr (fun k => ?_)
  · refine nodup_flatMap.mpr ⟨fun a _ => (db.sortedLT_messageKeys _).nodup.filter _, ?_⟩
    refine hnodup.pairwise_of_forall_ne (fun a ha a' ha' hne => ?_)
    obtain ⟨c, hc, hca⟩ := h.allocatedAt (mem_allocationsOf.mp ha).1
    obtain ⟨c', hc', hca'⟩ := h.allocatedAt (mem_allocationsOf.mp ha').1
    have hchunks : c ≠ c' := by
      rintro rfl
      exact hne (eq_of_key_eq hca.mem hca'.mem (hca.chunkId.trans hca'.chunkId.symm))
    intro k hk hk'
    have hmem : k ∈ db.messagesOf c.id := hca.chunkId ▸ (mem_remainingOf.mp hk).1
    have hmem' : k ∈ db.messagesOf c'.id := hca'.chunkId ▸ (mem_remainingOf.mp hk').1
    exact hplan.disjoint hc hc' hchunks hmem hmem'
  · exact (db.sortedLT_messageKeys _).nodup.filter _
  · simp only [mem_flatMap, Db.batchRemaining, mem_filter, Bool.not_eq_true', mem_remainingOf]
    constructor
    · rintro ⟨a, ha, hk, hopen⟩
      obtain ⟨hmem, rfl⟩ := mem_allocationsOf.mp ha
      obtain ⟨c, hc, hca⟩ := h.allocatedAt hmem
      rw [hca.chunkId] at hk
      obtain ⟨m, hm, hkey, hbatch, -⟩ := hplan.batchId_of_mem hc hk
      exact ⟨mem_batchKeys.mpr ⟨m, hm, hbatch.trans hca.batchId.symm, hkey⟩, hopen⟩
    · rintro ⟨hk, hopen⟩
      obtain ⟨c, hc, hmem⟩ := hplan.exists_chunk hprepared hk
      obtain ⟨hchunk, rfl⟩ := mem_chunksOf.mp hc
      obtain ⟨a, ha⟩ := h.row c hchunk (by simp)
      exact ⟨a, mem_allocationsOf.mpr ⟨ha.mem, ha.batchId⟩, ha.chunkId ▸ hmem, hopen⟩

theorem Allocated.recipient_sum (hplan : Plan db []) (hprepared : db.chunksOf batchId ≠ []) :
    ((db.allocationsOf batchId).map Allocation.recipientCount).sum =
      (db.batchRemaining batchId).length := by
  rw [← (h.remaining_perm hplan hprepared).length_eq, length_flatMap]
  refine congrArg List.sum (map_congr_left (fun a ha => ?_))
  obtain ⟨c, -, hca⟩ := h.allocatedAt (mem_allocationsOf.mp ha).1
  rw [hca.recipients, hca.chunkId]

theorem Allocated.segment_sum (hplan : Plan db []) {b : Batch}
    (hb : b ∈ db.batches) (hprepared : db.chunksOf b.id ≠ []) :
    ((db.allocationsOf b.id).map Allocation.segmentCount).sum =
      b.segments * (db.batchRemaining b.id).length := by
  rw [← h.recipient_sum hplan hprepared, ← sum_map_mul_left]
  refine congrArg List.sum (map_congr_left (fun a ha => ?_))
  obtain ⟨hmem, hbatch⟩ := mem_allocationsOf.mp ha
  obtain ⟨c, -, hca⟩ := h.allocatedAt hmem
  rw [hca.segments b hb (hbatch.symm.trans hca.batchId), hca.recipients]

/-- One chunk of a batch, and only one, carries the request. -/
theorem Allocated.request_sum (hplan : Plan db []) (hprepared : db.chunksOf batchId ≠ []) :
    ((db.allocationsOf batchId).map Allocation.requestCount).sum = 1 := by
  obtain ⟨c₀, hc₀⟩ := exists_mem_of_ne_nil _ hprepared
  obtain ⟨hmem₀, rfl⟩ := mem_chunksOf.mp hc₀
  obtain ⟨c, hc, hbatch, hone⟩ := h.fromOne.first c₀ hmem₀
  obtain ⟨a, ha⟩ := h.row c hc (by simp)
  have hmem : a ∈ db.allocationsOf c₀.batchId :=
    mem_allocationsOf.mpr ⟨ha.mem, ha.batchId.trans hbatch⟩
  have hnodup : (db.allocationsOf c₀.batchId).Nodup :=
    (List.Nodup.of_map _ db.allocations.nodup).filter _
  have hcount : ∀ a' ∈ db.allocationsOf c₀.batchId, a'.requestCount = if a' = a then 1 else 0 := by
    intro a' ha'
    obtain ⟨hmem', hbatch'⟩ := mem_allocationsOf.mp ha'
    obtain ⟨d, hd, hda⟩ := h.allocatedAt hmem'
    rw [hda.requests]
    refine if_congr ?_ rfl rfl
    constructor
    · intro hno
      obtain rfl : d = c := hplan.numbered d hd c hc
        (hda.batchId.symm.trans (hbatch'.trans hbatch.symm)) (hno.trans hone.symm)
      exact eq_of_key_eq hmem' ha.mem (hda.chunkId.trans ha.chunkId.symm)
    · rintro rfl
      obtain rfl : d = c := eq_of_key_eq hd hc (hda.chunkId.symm.trans ha.chunkId)
      exact hone
  rw [map_congr_left hcount, ← sum_toFinset _ hnodup, Finset.sum_ite_eq',
    if_pos (mem_toFinset.mpr hmem)]

end

end

theorem plan_allocated_of_clean {registry : Registry} {db : Db}
    (h : (store registry).ReachableWhere (SplitsClean registry) db) :
    Allocated db none ∧ Plan db [] := by
  refine h.invariant (I := fun db => Allocated db none ∧ Plan db []) ?_ ?_
  · rintro _ rfl
    exact ⟨allocated_start, plan_start⟩
  · rintro db action db' ⟨hallocated, hplan⟩ hok hstep
    exact ⟨allocated_step hallocated hplan hok hstep, plan_step hplan hstep⟩

/-- In every run that splits no chunk with an excluded message, the allocation of a
prepared batch is that of its messages which are not excluded. -/
theorem allocation_conserved_of_clean_splits (registry : Registry) {db : Db}
    (h : (store registry).ReachableWhere (SplitsClean registry) db) {b : Batch}
    (hb : b ∈ db.batches)
    (hprepared : db.chunksOf b.id ≠ []) :
    ((db.allocationsOf b.id).map Allocation.recipientCount).sum = (db.batchRemaining b.id).length ∧
      ((db.allocationsOf b.id).map Allocation.segmentCount).sum =
        b.segments * (db.batchRemaining b.id).length ∧
      ((db.allocationsOf b.id).map Allocation.requestCount).sum = 1 := by
  obtain ⟨hallocated, hplan⟩ := plan_allocated_of_clean h
  exact ⟨hallocated.recipient_sum hplan hprepared, hallocated.segment_sum hplan hb hprepared,
    hallocated.request_sum hplan hprepared⟩

/-- One of three messages is found on the blacklist before the chunk is sent. -/
def blacklistedRun : List Action :=
  [ .accept noticeBatch [(1, "a"), (2, "b"), (3, "c")] 0, .prepare 0 noticeBatch.batchNo 3 [1] true,
    .write (.setBlacklist ["a"]),
    .dispatch 1 none,
    .claim 0 1 0 .notEnforced,
    .begin 0 1 1 primaryVendorId ]

/-- The vendor then finds the chunk too large. -/
def blacklistedSplitRun : List Action := blacklistedRun ++ [.split 1 ⟨.granted, 2, 3⟩]

/-- What is allocated to batch 1, and what is not excluded. -/
def usage (db : Db) : List (ChunkId × ℕ × ℕ × ℕ) × List MessageKey :=
  ((db.allocationsOf 1).map (fun a => (a.chunkId, a.recipientCount, a.segmentCount,
    a.requestCount)), db.batchRemaining 1)

theorem usage_blacklistedSplitRun :
    ((store defaultVendorRegistry).run Db.start blacklistedSplitRun).map usage =
      some ([(1, 0, 0, 1), (2, 2, 2, 0), (3, 1, 1, 0)], [toLex (2, 0), toLex (3, 0)]) := by
  decide

theorem recipientCount_eq_usage (db : Db) :
    (db.allocationsOf 1).map Allocation.recipientCount = (usage db).1.map (fun row => row.2.1) := by
  simp [usage]

/-- After the split three recipients are allocated for the two messages that are
left. -/
theorem split_restores_excluded_allocation : ∃ db, (store defaultVendorRegistry).Reachable db ∧
      ((db.allocationsOf 1).map Allocation.recipientCount).sum = 3 ∧
      (db.batchRemaining 1).length = 2 := by
  obtain ⟨db, hrun, husage⟩ := Option.map_eq_some_iff.mp usage_blacklistedSplitRun
  refine ⟨db, .run (.init rfl) hrun, ?_, ?_⟩
  · rw [recipientCount_eq_usage, husage]
    rfl
  · rw [show db.batchRemaining 1 = (usage db).2 from rfl, husage]
    rfl

theorem usage_blacklistedRun :
    ((store defaultVendorRegistry).run Db.start blacklistedRun).map usage =
      some ([(1, 2, 2, 1)], [toLex (2, 0), toLex (3, 0)]) := by
  decide

/-- Only a split gives a chunk its halves. -/
theorem splitsClean_of_parent {registry : Registry} {db : Db} {action : Action}
    (hpass : ∀ answers, action ≠ .retrySplits answers) (hparent : action.parent = none) :
    SplitsClean registry db action := by
  intro db' hstep parent hnone hsome
  refine absurd (existingSplitChildren_eq_nil.mpr (fun c' hc' => ?_)) hsome
  have hdescends := (attemptStep_of_step hpass hstep).descends
  rw [hparent] at hdescends
  rcases hdescends c' hc' with ⟨c, hc, hsame, -⟩ | ⟨-, hnew, -⟩
  · rw [hsame]
    exact existingSplitChildren_eq_nil.mp hnone c hc
  · cases hsplit : c'.split with
    | none => simp [isChildOf, hsplit]
    | some s => cases hnew s hsplit

theorem allocation_conserved_blacklistedRun :
    ∃ db, (store defaultVendorRegistry).ReachableWhere (SplitsClean defaultVendorRegistry) db ∧
      (db.batchRemaining 1).length = 2 ∧
      ((db.allocationsOf 1).map Allocation.recipientCount).sum = 2 := by
  obtain ⟨db, hrun, husage⟩ := Option.map_eq_some_iff.mp usage_blacklistedRun
  have hreach : (store defaultVendorRegistry).ReachableWhere
    (SplitsClean defaultVendorRegistry) db := by
    refine .run (.init rfl) (fun label hlabel db => ?_) hrun
    simp only [blacklistedRun, mem_cons, not_mem_nil, or_false] at hlabel
    rcases hlabel with rfl | rfl | rfl | rfl | rfl | rfl <;>
      exact splitsClean_of_parent (by simp) rfl
  -- the allocation row leads to the chunk, and the chunk to the batch
  obtain ⟨hallocated, hplan⟩ := plan_allocated_of_clean hreach
  have hrow : (1, 2, 2, 1) ∈ (usage db).1 := by simp [husage]
  obtain ⟨a, ha, -⟩ := mem_map.mp hrow
  obtain ⟨hmem, hbatchId⟩ := mem_allocationsOf.mp ha
  obtain ⟨c, hc, -, hcbatch, -⟩ := hallocated.owner a hmem
  obtain ⟨b, hb, hid⟩ := hplan.chunkBatch c hc
  have hbatch : b.id = 1 := by rw [hid, hcbatch, hbatchId]
  have hprepared : db.chunksOf b.id ≠ [] := ne_nil_of_mem (mem_chunksOf.mpr ⟨hc, hid.symm⟩)
  have hremaining : (db.batchRemaining 1).length = 2 := by
    rw [show db.batchRemaining 1 = (usage db).2 from rfl, husage]
    rfl
  have hconserved := (allocation_conserved_of_clean_splits defaultVendorRegistry hreach hb
    hprepared).1
  rw [hbatch] at hconserved
  exact ⟨db, hreach, hremaining, hconserved.trans hremaining⟩

end SmsPlatform.Send
