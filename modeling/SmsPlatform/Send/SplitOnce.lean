import SmsPlatform.Send.SingleCall

/-!
# Splitting once

The vendor's answer that a chunk is too large is to be met by halving the chunk and
trying once more.  A worker that goes on with the halves of its own split does not
split them again.  A worker that is given such a half by the half's own event knows
nothing of the split.
-/

namespace SmsPlatform.Send

open Support Vendor Table Option

/-! ## Chunks that no split has made -/

/-- The chunk is there and comes from the preparation of its batch. -/
def IsRoot (db : Db) (chunkId : ChunkId) : Prop :=
  ∃ c ∈ db.chunks, c.id = chunkId ∧ c.split = none

variable {db db' : Db} {chunkId : ChunkId}

theorem IsRoot.stay (h : IsRoot db chunkId) (hstay : ChunksStay db db') : IsRoot db' chunkId := by
  obtain ⟨c, hc, hid, hsplit⟩ := h
  obtain ⟨c', hc', hsame, -⟩ := hstay c hc
  refine ⟨c', hc', hsame.id_eq.trans hid, ?_⟩
  rw [hsame]
  exact hsplit

/-- Only such chunks have been split, or wait to be. -/
structure SplitFlat (db : Db) : Prop where
  parents : ∀ c ∈ db.chunks, ∀ s, c.split = some s → IsRoot db s.parentChunkId
  waiting : ∀ c ∈ db.chunks, c.state.status = .splitCapacityBlocked → c.split = none

theorem SplitFlat.descends {parent : Option ChunkId} (h : SplitFlat db)
    (hstay : ChunksStay db db') (hdescends : Descends db db' parent)
    (hparent : ∀ chunkId, parent = some chunkId → IsRoot db chunkId) : SplitFlat db' := by
  constructor
  · intro c' hc' s hs
    rcases hdescends c' hc' with ⟨c, hc, hsame, -⟩ | ⟨-, hnew, -⟩
    · rw [hsame] at hs
      exact (h.parents c hc s hs).stay hstay
    · exact (hparent _ (hnew s hs)).stay hstay
  · intro c' hc' hstatus
    rcases hdescends c' hc' with ⟨c, hc, hsame, hblocked⟩ | ⟨hstate, -⟩
    · rw [hsame]
      rcases hblocked hstatus with hwaiting | hsplit
      · exact h.waiting c hc hwaiting
      · obtain ⟨d, hd, hid, hroot⟩ := hparent _ hsplit
        obtain rfl : d = c := eq_of_key_eq hd hc hid
        exact hroot
    · rw [hstate] at hstatus
      cases hstatus

variable {registry : Registry}

/-- A pass over waiting chunks splits what was not made by a split. -/
theorem SplitFlat.retrySplits {answers : List SplitAnswer}
    (h : SplitFlat db) (hstep : db.next registry (.retrySplits answers) = some db') :
    SplitFlat db' := by
  refine (retrySplits_preserves (P := fun db₁ => SplitFlat db₁ ∧ ChunksStay db db₁)
    ⟨h, .refl db⟩ hstep ?_).1
  rintro c hc hblocked db₁ answer db₂ ⟨hflat, hstay⟩ hsplit
  have hroot : IsRoot db₁ c.id := .stay ⟨c, hc, rfl, h.waiting c hc hblocked⟩ hstay
  have hstay₂ := chunksStay_of_step hsplit
  refine ⟨hflat.descends hstay₂ (attemptStep_of_step (by simp) hsplit).descends ?_,
    hstay.trans hstay₂⟩
  rintro _ ⟨⟩
  exact hroot

theorem SplitFlat.foreign {action : Action} (h : SplitFlat db)
    (hforeign : action.isForeign = true) (hstep : db.next registry action = some db') :
    SplitFlat db' := by
  cases hsettles : action.settles with
  | false =>
    exact h.descends (chunksStay_of_step hstep) (descends_of_settles hsettles hstep) (by simp)
  | true =>
    cases action with
    | retrySplits answers => exact h.retrySplits hstep
    | finalize | split => cases hforeign
    | _ => cases hsettles

/-! ## Workers that split -/

/-- The vendor's answer is met by a split only for chunks that no split has made. -/
def AnswersSplitRoots (world : World) : Label → Prop
  | .answer pid (.apiError code) =>
    (policyFor code).shrinkBatchOnce = true → (world.workers pid).allowSplit = true →
      IsRoot world.db (world.workers pid).payload.chunkId
  | _ => True

structure SplitsRoots (config : WorkerConfig) (world : World) : Prop where
  sound : Sound config world
  flat : SplitFlat world.db
  splitting : ∀ pid chunkId, (world.workers pid).splitParent = some chunkId →
    IsRoot world.db chunkId

theorem Worker.answered_splitParent {w : Worker} {auth : InvokeAuthorization} {answer : CallAnswer}
    (h : (w.answered auth answer).splitParent = some chunkId) :
    chunkId = w.payload.chunkId ∧ ∃ code, answer = .apiError code ∧
    (policyFor code).shrinkBatchOnce = true ∧ w.allowSplit = true := by
  cases answer with
  | taskId | transport | other => cases h
  | apiError code =>
    unfold Worker.answered handleTerminalApiError at h
    dsimp only at h
    split at h
    · cases h
    split at h
    · rename_i hpolicy
      cases h
      exact ⟨rfl, code, rfl, Bool.and_eq_true_iff.mp hpolicy⟩
    · split at h <;> cases h

variable {config : WorkerConfig} {world : World}

/-- The workers that are about to split, after a step of one of them. -/
theorem SplitsRoots.setWorker (h : SplitsRoots config world) {pid : ℕ} {w' : Worker}
    (hstay : ChunksStay world.db db')
    (hown : ∀ chunkId, w'.splitParent = some chunkId → IsRoot db' chunkId) (q : ℕ)
    (chunkId : ChunkId) (hq : ((world.setWorker pid w').workers q).splitParent = some chunkId) :
    IsRoot db' chunkId := by
  rw [World.workers_setWorker] at hq
  split at hq
  · exact hown chunkId hq
  · exact (h.splitting q chunkId hq).stay hstay

theorem splitsRoots_step {label : Label} {world' : World} (h : SplitsRoots config world)
    (hok : AnswersSplitRoots world label) (hstep : world.next config label = some world') :
    SplitsRoots config world' := by
  have hsound := sound_step h.sound hstep
  cases label with
  | foreign action =>
    dsimp only [World.next] at hstep
    split at hstep
    · rename_i hforeign
      obtain ⟨db', hnext, rfl⟩ := map_eq_some_iff.mp hstep
      exact ⟨hsound, h.flat.foreign hforeign hnext,
        fun pid chunkId hpid => (h.splitting pid chunkId hpid).stay (chunksStay_of_step hnext)⟩
    · cases hstep
  | work pid step =>
    obtain ⟨⟨w', db'⟩, hwork, rfl⟩ := map_eq_some_iff.mp hstep
    obtain ⟨settled, heffect⟩ := h.sound.step_effect hwork
    refine ⟨hsound, h.flat.descends heffect.advances.stay heffect.descends (h.splitting pid),
      h.setWorker heffect.advances.stay ?_⟩
    simp [heffect.unsplit]
  | call pid =>
    dsimp only [World.next] at hstep
    split at hstep
    · cases hstep
      refine ⟨hsound, h.flat, h.setWorker (.refl world.db) ?_⟩
      rintro chunkId ⟨⟩
    · cases hstep
  | answer pid answer =>
    dsimp only [World.next] at hstep
    split at hstep
    · cases hstep
      refine ⟨hsound, h.flat, h.setWorker (.refl world.db) (fun chunkId hsplit => ?_)⟩
      obtain ⟨rfl, code, rfl, hpolicy, hallow⟩ := Worker.answered_splitParent hsplit
      exact hok hpolicy hallow
    · cases hstep

/-- In every run in which a worker that may split gets the answer to halve a chunk only
for chunks that no split has made, no chunk is split that a split has made. -/
theorem split_once_of_answers_split_roots (config : WorkerConfig) {world : World}
    (h : (sendSystem config).ReachableWhere AnswersSplitRoots world) :
    ∀ c ∈ world.db.chunks, ∀ s, c.split = some s →
      ∀ d ∈ world.db.chunks, d.id = s.parentChunkId → d.split = none := by
  have hroots : SplitsRoots config world := by
    refine h.invariant ?_ (fun _ _ _ => splitsRoots_step)
    rintro _ rfl
    exact ⟨sound_start config, ⟨fun c hc => absurd hc (not_mem_empty c),
      fun c hc => absurd hc (not_mem_empty c)⟩, fun pid chunkId hpid => by cases hpid⟩
  intro c hc s hs d hd hid
  obtain ⟨e, he, heid, hsplit⟩ := hroots.flat.parents c hc s hs
  obtain rfl : e = d := eq_of_key_eq he hd (heid.trans hid.symm)
  exact hsplit

/-- A chunk of four messages is on its way to the vendor. -/
def fourInFlight : List Label :=
  [ .foreign (.accept noticeBatch [(1, "a"), (2, "b"), (3, "c"), (4, "d")] 0),
    .foreign (.prepare 0 noticeBatch.batchNo 4 [1] true) ] ++ submitUntilCall 0 0 1 1 ++
  [ .call 0 ]

/-- The vendor finds it too large, and the worker splits it. -/
def tooLarge : List Label := [ .answer 0 (.apiError 1006), .work 0 (.split ⟨.granted, 2, 3⟩) ]

theorem chunks_fourInFlight :
    ((sendSystem soleVendor).run World.start fourInFlight).map (fun world =>
      ((world.workers 0).payload.chunkId, world.db.chunks.rows.map (fun c => (c.id, c.split)))) =
      some (1, [(1, none)]) := by
  decide

theorem chunks_tooLarge :
    ((sendSystem soleVendor).run World.start (fourInFlight ++ tooLarge)).map (fun world =>
      world.db.chunks.rows.map (fun c => (c.id, c.split))) =
      some [(1, none), (2, some ⟨1, 1, 1⟩), (3, some ⟨1, 1, 2⟩)] := by
  decide

theorem exists_chunk_of_rows {rows : List (ChunkId × Option SplitIdentity)}
    (h : db.chunks.rows.map (fun c => (c.id, c.split)) = rows) {id : ChunkId}
    {split : Option SplitIdentity} (hmem : (id, split) ∈ rows) :
    ∃ c ∈ db.chunks, c.id = id ∧ c.split = split := by
  rw [← h] at hmem
  obtain ⟨c, hc, heq⟩ := List.mem_map.mp hmem
  rw [Prod.mk.injEq] at heq
  exact ⟨c, hc, heq⟩

theorem split_once_tooLarge :
    ∃ world, (sendSystem soleVendor).ReachableWhere AnswersSplitRoots world ∧
      ∃ c ∈ world.db.chunks, c.split = some ⟨1, 1, 1⟩ ∧
        ∃ d ∈ world.db.chunks, d.id = 1 ∧ d.split = none := by
  obtain ⟨world, hrun, hrows⟩ := map_eq_some_iff.mp chunks_fourInFlight
  obtain ⟨world', hrun', hrows'⟩ := map_eq_some_iff.mp chunks_tooLarge
  rw [Machine.run_append, hrun, bind_some] at hrun'
  rw [Prod.mk.injEq] at hrows
  obtain ⟨hpayload, hbefore⟩ := hrows
  have hreach : (sendSystem soleVendor).ReachableWhere AnswersSplitRoots world :=
    .run (.init rfl) (by simp [fourInFlight, submitUntilCall, AnswersSplitRoots]) hrun
  have hroot : IsRoot world.db 1 := exists_chunk_of_rows hbefore (by simp)
  have hreach' : (sendSystem soleVendor).ReachableWhere AnswersSplitRoots world' := by
    obtain ⟨world₁, hanswer, hsplit⟩ := bind_eq_some_iff.mp hrun'
    have hok : AnswersSplitRoots world (.answer 0 (.apiError 1006)) := by
      intro _ _
      rw [hpayload]
      exact hroot
    exact .run (hreach.step hok hanswer) (by simp [AnswersSplitRoots]) hsplit
  obtain ⟨c, hc, -, hsplit⟩ : ∃ c ∈ world'.db.chunks, c.id = 2 ∧ c.split = some ⟨1, 1, 1⟩ :=
    exists_chunk_of_rows hrows' (by simp)
  obtain ⟨d, hd, hid, -⟩ : ∃ d ∈ world'.db.chunks, d.id = 1 ∧ d.split = none :=
    exists_chunk_of_rows hrows' (by simp)
  exact ⟨world', hreach', c, hc, hsplit, d, hd, hid,
    split_once_of_answers_split_roots soleVendor hreach' c hc _ hsplit d hd hid⟩

/-! ## A half with an event of its own -/

/-- Another worker, started by the event of the first half, gets the same answer for it. -/
def halfSplit : List Label :=
  fourInFlight ++ tooLarge ++ submitUntilCall 1 0 2 2 ++
    [ .call 1, .answer 1 (.apiError 1006), .work 1 (.split ⟨.granted, 4, 5⟩) ]

theorem chunks_halfSplit : ((sendSystem soleVendor).run World.start halfSplit).map (fun world =>
      world.db.chunks.rows.map (fun c => (c.id, c.split))) =
      some [(1, none), (2, some ⟨1, 1, 1⟩), (3, some ⟨1, 1, 2⟩), (4, some ⟨2, 1, 1⟩),
        (5, some ⟨2, 1, 2⟩)] := by
  decide

/-- The half of a split is split again. -/
theorem half_split_again : ∃ world, (sendSystem soleVendor).Reachable world ∧
      ∃ c ∈ world.db.chunks, ∃ s, c.split = some s ∧
        ∃ d ∈ world.db.chunks, d.id = s.parentChunkId ∧ d.split = some ⟨1, 1, 1⟩ := by
  obtain ⟨world, hrun, hchunks⟩ := map_eq_some_iff.mp chunks_halfSplit
  obtain ⟨c, hc, -, hsplit⟩ : ∃ c ∈ world.db.chunks, c.id = 4 ∧ c.split = some ⟨2, 1, 1⟩ :=
    exists_chunk_of_rows hchunks (by simp)
  obtain ⟨d, hd, hid, hsplit'⟩ : ∃ d ∈ world.db.chunks, d.id = 2 ∧ d.split = some ⟨1, 1, 1⟩ :=
    exists_chunk_of_rows hchunks (by simp)
  exact ⟨world, .run (.init rfl) hrun, c, hc, _, hsplit, d, hd, hid, hsplit'⟩

end SmsPlatform.Send
