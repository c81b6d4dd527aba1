import SmsPlatform.Send.AttemptSteps

/-!
# Attempts and chunks stay paired

An attempt that is submitted, uncertain or inconsistent says that the vendor may
hold the chunk.  The chunk must then have left the pipeline, or it could be sent
again.  Finalization writes both rows in one transaction.  Recovery ages the
attempt whatever the status of the batch, but moves the chunk only while the
batch is sending: the pair stays together exactly as long as recovery finds no
old call in a batch that has stopped.
-/

namespace SmsPlatform.Send

open Support Schema Vendor Table List

/-- The vendor may hold the chunk, and no worker is expected to say more. -/
def Attempt.isSettledBlocking (a : Attempt) : Bool :=
  a.outcome.isBlocking && decide (a.outcome ≠ .invoking)

/-- The chunk of an attempt, with the relation between the two. -/
def PairedIn (db : Db) (a : Attempt) : Prop :=
  ∃ c ∈ db.chunks, c.id = a.chunkId ∧
    (a.isSettledBlocking = true → c.state.isPreSend = false)

def Paired (db : Db) : Prop := ∀ a ∈ db.attempts, PairedIn db a

/-! ## Steps -/

variable {a : Attempt} {db db' : Db}

theorem PairedIn.mono (h : PairedIn db a) (hchunks : ChunksStay db db') : PairedIn db' a := by
  obtain ⟨c, hc, hid, hleft⟩ := h
  obtain ⟨c', hc', hsame, hleft'⟩ := hchunks c hc
  exact ⟨c', hc', hsame.id_eq.trans hid, fun ha => hleft' (hleft ha)⟩

theorem Paired.of_attempts_eq (h : Paired db) (hchunks : ChunksStay db db')
    (hattempts : db'.attempts = db.attempts) : Paired db' := by
  intro a ha
  rw [hattempts] at ha
  exact (h a ha).mono hchunks

theorem Paired.opens (h : Paired db) (hopens : Opens db db' a) : Paired db' := by
  intro x hx
  rcases (hopens.rows x).mp hx with hx | rfl
  · exact (h x hx).mono hopens.quiet.chunksStay
  · obtain ⟨c, hc, hid, -⟩ := hopens.chunk
    exact ⟨c, hc, hid, by simp [Attempt.isSettledBlocking, hopens.invoking]⟩

theorem Paired.notes (h : Paired db) (hnotes : Notes db db' a) : Paired db' := by
  intro x hx
  rcases (hnotes.rows x).mp hx with hx | rfl
  · exact (h x hx).mono hnotes.quiet.chunksStay
  · obtain ⟨c, hc, hid⟩ := hnotes.chunk
    exact ⟨c, hc, hid, by simp [Attempt.isSettledBlocking, AttemptOutcome.isBlocking,
      hnotes.cancelled]⟩

theorem Paired.settles {s : Settlement} (h : Paired db) (hsettles : Settles db db' a s) :
    Paired db' := by
  have hstay := hsettles.quiet.chunksStay
  intro x hx
  rcases (hsettles.rows x).mp hx with ⟨hx, -⟩ | rfl
  · exact (h x hx).mono hstay
  by_cases hblocking : s.outcome.isBlocking = true
  · obtain ⟨c, hc, hid, hleft⟩ := hsettles.chunk hblocking
    exact ⟨c, hc, hid, fun _ => hleft⟩
  · obtain ⟨c, hc, hid, -⟩ := (h a hsettles.mem).mono hstay
    exact ⟨c, hc, hid, by simp [Attempt.isSettledBlocking, Attempt.settledWith, hblocking]⟩

theorem Paired.cuts {parent : ChunkId} (h : Paired db) (hcuts : Cuts db db' parent) :
    Paired db' := by
  intro x hx
  rw [hcuts.attempts] at hx
  obtain ⟨a, ha, rfl⟩ := mem_apply_iff.mp hx
  rcases attemptUpdate_row_cases _ a with heq | ⟨-, s, hs, heq⟩
  · rw [heq]
    exact (h a ha).mono hcuts.chunksStay
  obtain ⟨c, hc, hid, -⟩ := (h a ha).mono hcuts.chunksStay
  rw [heq]
  refine ⟨c, hc, hid, fun hblocking => ?_⟩
  split at hs
  · cases hs
    simp [Attempt.isSettledBlocking, Attempt.settledWith, AttemptOutcome.isBlocking]
      at hblocking
  · cases hs

/-! ## Recovery -/

/-- A recovery pass finds an old call only in a batch that is sending. -/
def RecoversActive (db : Db) : Action → Prop
  | .recover now => ∀ a ∈ db.attempts, ∀ c ∈ db.chunks, c.id = a.chunkId →
      isStaleInvoking now c a = true → c.id ∈ stalledCandidates db →
      ∃ b ∈ db.batches, b.id = c.batchId ∧ b.status.isActive = true
  | _ => True

/-- In a sending batch the chunk is aged together with its attempt. -/
theorem isStaleChunk_of_isStaleInvoking {now : Time} {candidates : List ChunkId} {c : Chunk}
    {b : Batch} (ha : a ∈ db.attempts) (hid : c.id = a.chunkId) (hcandidate : c.id ∈ candidates)
    (hb : b ∈ db.batches) (hbid : b.id = c.batchId) (hactive : b.status.isActive = true)
    (hstale : isStaleInvoking now c a = true) : isStaleChunk db now candidates c = true := by
  have hmem : a ∈ db.attemptsOf c.id := Db.mem_attemptsOf.mpr ⟨ha, hid.symm⟩
  have hfind : db.batches.find? c.batchId = some b := find?_eq_some_iff.mpr ⟨hb, hbid⟩
  have hparts := hstale
  simp only [isStaleInvoking, Bool.and_eq_true, decide_eq_true_eq] at hparts
  have hany : (db.attemptsOf c.id).any (isStaleInvoking now c) = true :=
    any_eq_true.mpr ⟨a, hmem, hstale⟩
  have hblocking : (db.attemptsOf c.id).any (fun a => a.outcome.isBlocking) = true :=
    any_eq_true.mpr ⟨a, hmem, by rw [hparts.1.1]; rfl⟩
  simp [isStaleChunk, hcandidate, hfind, hactive, ChunkState.isSubmitting, hparts.1.2.1, hany,
    hblocking]

theorem Paired.recovers {now : Time} (h : Paired db) (hok : RecoversActive db (.recover now)) :
    Paired (recoverStalled db now) := by
  have hstay := (quiet_recoverStalled db now).chunksStay
  intro x hx
  rcases mem_recoverStalled hx with hx | ⟨a, ha, -, s, hs, rfl⟩
  · exact (h x hx).mono hstay
  obtain ⟨c, hc, hid, -, -, hcase⟩ := recoveredOutcome_eq_some hs
  rcases hcase with hleft | ⟨hcandidate, hstale⟩
  · obtain ⟨c', hc', hsame, hleft'⟩ := hstay c hc
    exact ⟨c', hc', hsame.id_eq.trans hid, fun _ => hleft' hleft⟩
  obtain ⟨b, hb, hbid, hactive⟩ := hok a ha c hc hid hstale hcandidate
  have hchunk := isStaleChunk_of_isStaleInvoking ha hid hcandidate hb hbid hactive hstale
  refine ⟨_, row_mem_apply hc, (Update.key_row _ c).trans hid, fun _ => ?_⟩
  rw [Update.row_of_applies hchunk]
  rfl

theorem Paired.attemptStep {action : Action} (h : Paired db) (hok : RecoversActive db action)
    (hstep : AttemptStep db db' action) : Paired db' := by
  cases hstep with
  | same stay _ attempts => exact h.of_attempts_eq stay attempts
  | opened a hopens => exact h.opens hopens
  | noted a hnotes => exact h.notes hnotes
  | settled a s _ hsettles => exact h.settles hsettles
  | recovered now haction hrecover =>
    subst haction hrecover
    exact h.recovers hok
  | cut parent _ _ hcuts => exact h.cuts hcuts

theorem paired_step {registry : Registry} {action : Action} (h : Paired db)
    (hok : RecoversActive db action) (hstep : db.next registry action = some db') : Paired db' := by
  by_cases hpass : ∃ answers, action = .retrySplits answers
  · obtain ⟨answers, rfl⟩ := hpass
    refine retrySplits_preserves h hstep (fun c _ _ db₁ answer db₂ h₁ hsplit => ?_)
    have hok₁ : RecoversActive db₁ (.split c.id answer) := trivial
    exact h₁.attemptStep hok₁ (attemptStep_of_step (by simp) hsplit)
  · exact h.attemptStep hok (attemptStep_of_step (fun answers hans => hpass ⟨answers, hans⟩) hstep)

/-- In every run whose recovery passes find old calls only in sending batches, no
attempt that the vendor may have accepted has a chunk that is still in the
pipeline. -/
theorem no_torn_pair_of_active_recovery (registry : Registry) {db : Db}
    (h : (store registry).ReachableWhere RecoversActive db) {a : Attempt} {c : Chunk}
    (ha : a ∈ db.attempts) (hc : c ∈ db.chunks) (hid : a.chunkId = c.id)
    (houtcome : a.outcome = .submitted ∨ a.outcome = .uncertain ∨ a.outcome = .inconsistent) :
    c.state.status ≠ .pending ∧ c.state.status ≠ .retrying ∧
      c.state.status ≠ .failoverPending ∧ c.state.status ≠ .submitting := by
  have hpaired : Paired db := by
    refine h.invariant ?_ (fun s a t hs hok ht => paired_step hs hok ht)
    intro db₀ hinit
    subst hinit
    intro x hx
    exact absurd hx (not_mem_empty x)
  obtain ⟨c', hc', hid', hleft⟩ := hpaired a ha
  obtain rfl : c' = c := eq_of_key_eq hc' hc (hid'.trans hid)
  have hsettled : a.isSettledBlocking = true := by
    rcases houtcome with ho | ho | ho <;> simp [Attempt.isSettledBlocking, ho] <;> rfl
  have hnot := mt ChunkState.isPreSend_iff.mpr (by rw [hleft hsettled]; decide)
  simpa only [not_or] using hnot

/-! ## An old call in a batch without balance -/

/-- Two chunks of one batch are handed to the vendor. -/
def bothInvoked : List Action :=
  [ .accept noticeBatch [(1, "a"), (2, "b")] 0,
    .prepare 0 noticeBatch.batchNo 1 [1, 2] true,
    .claim 0 1 0 .notEnforced,
    .begin 0 1 1 primaryVendorId,
    .claim 0 2 0 .notEnforced,
    .begin 0 2 2 primaryVendorId ]

/-- The second is refused for lack of balance, which blocks the batch.  Recovery
passes after the worker of the first has been silent for sixteen minutes. -/
def balanceBlockedRun : List Action :=
  bothInvoked ++
    [ .finalize 1
        { attemptId := 2
          chunkId := 2
          expectedGeneration := 1
          result := .paused
          vendorCode := some 999
          safeToFailover := true
          batchId := some 1
          balanceBlocked := true },
      .recover 960 ]

/-- What a run leaves of the two tables. -/
def pairs (db : Db) : List (AttemptId × ChunkId × AttemptOutcome) × List (ChunkId × ChunkStatus) :=
  (db.attempts.rows.map (fun a => (a.id, a.chunkId, a.outcome)),
    db.chunks.rows.map (fun c => (c.id, c.state.status)))

theorem exists_pair (db : Db) (attemptId : AttemptId) (chunkId : ChunkId)
    (outcome : AttemptOutcome) (status : ChunkStatus)
    (ha : (attemptId, chunkId, outcome) ∈ (pairs db).1) (hc : (chunkId, status) ∈ (pairs db).2) :
    ∃ a ∈ db.attempts, ∃ c ∈ db.chunks,
      a.chunkId = c.id ∧ a.outcome = outcome ∧ c.state.status = status := by
  obtain ⟨a, hmem, hattempt⟩ := mem_map.mp ha
  obtain ⟨c, hmem', hchunk⟩ := mem_map.mp hc
  simp only [Prod.mk.injEq] at hattempt hchunk
  exact ⟨a, hmem, c, hmem', hattempt.2.1.trans hchunk.1.symm, hattempt.2.2, hchunk.2⟩

theorem pairs_balanceBlockedRun :
    ((store defaultVendorRegistry).run Db.start balanceBlockedRun).map pairs =
      some ([(1, 1, .uncertain), (2, 2, .paused)], [(1, .submitting), (2, .retrying)]) := by
  decide

/-- After this run the first attempt is uncertain and its chunk is still being
submitted. -/
theorem torn_pair_after_balanceBlockedRun :
    ∃ db, (store defaultVendorRegistry).Reachable db ∧ ∃ a ∈ db.attempts, ∃ c ∈ db.chunks,
      a.chunkId = c.id ∧ a.outcome = .uncertain ∧ c.state.status = .submitting := by
  obtain ⟨db, hrun, hpairs⟩ := Option.map_eq_some_iff.mp pairs_balanceBlockedRun
  refine ⟨db, .run (.init rfl) hrun, ?_⟩
  exact exists_pair db 1 1 .uncertain .submitting (by simp [hpairs]) (by simp [hpairs])

/-- The first chunk is submitted instead, and both stay paired. -/
def submittedRun : List Action :=
  bothInvoked ++
    [ .finalize 1
        { attemptId := 1
          chunkId := 1
          expectedGeneration := 1
          result := .submitted
          vendorTaskId := some "task"
          batchId := some 1 } ]

theorem pairs_submittedRun : ((store defaultVendorRegistry).run Db.start submittedRun).map pairs =
      some ([(1, 1, .submitted), (2, 2, .invoking)], [(1, .submitted), (2, .submitting)]) := by
  decide

theorem no_torn_pair_after_submittedRun :
    ∃ db, (store defaultVendorRegistry).ReachableWhere RecoversActive db ∧
      ∃ a ∈ db.attempts, ∃ c ∈ db.chunks, a.outcome = .submitted ∧ a.chunkId = c.id ∧
        c.state.status ≠ .pending ∧ c.state.status ≠ .retrying ∧
        c.state.status ≠ .failoverPending ∧ c.state.status ≠ .submitting := by
  obtain ⟨db, hrun, hpairs⟩ := Option.map_eq_some_iff.mp pairs_submittedRun
  have hreach : (store defaultVendorRegistry).ReachableWhere RecoversActive db := by
    refine .run (.init rfl) (fun label hlabel db => ?_) hrun
    simp only [submittedRun, bothInvoked, cons_append, nil_append, mem_cons,
      not_mem_nil, or_false] at hlabel
    rcases hlabel with rfl | rfl | rfl | rfl | rfl | rfl | rfl <;> trivial
  obtain ⟨a, ha, c, hc, hid, houtcome, -⟩ :=
    exists_pair db 1 1 .submitted .submitted (by simp [hpairs]) (by simp [hpairs])
  exact ⟨db, hreach, a, ha, c, hc, houtcome, hid, no_torn_pair_of_active_recovery
    defaultVendorRegistry hreach ha hc hid (.inl houtcome)⟩

end SmsPlatform.Send
