import SmsPlatform.Send.Store

/-!
# What each transaction does to the attempts

One lemma per transaction that opens or settles attempts.  They are all that
the safety arguments need to know about these transactions.
-/

namespace SmsPlatform.Send

open Support Schema Vendor Table Db List ChunkState Update

variable {action : Action} {a x : Attempt} {f : Attempt → Option Settlement} {newId : AttemptId}
  {result : AttemptOutcome} {batch : Batch} {c chunk : Chunk} {chunkId : ChunkId}
  {db db' db₁ db₂ db₃ : Db} {report : FinalizeReport} {req : FinalizeRequest} {ids : List ChunkId}
  {group : List MessageKey} {answers : List SplitAnswer} {registry : Registry} {s : Settlement}
  {now : Time} {vendorId : VendorId} {batchSize requests : ℕ}

theorem ChunkState.isPreSend_iff {s : ChunkState} : s.isPreSend = true ↔
    s.status = .pending ∨ s.status = .retrying ∨ s.status = .failoverPending ∨
      s.status = .submitting := by
  simp [isPreSend, isWaiting, isSubmitting, or_assoc]

/-! ## Opening -/

/-- An `invoking` attempt is opened on a chunk that is being submitted and on
which nothing may have been accepted. -/
structure Opens (db db' : Db) (a : Attempt) : Prop where
  quiet : Quiet db db'
  invoking : a.outcome = .invoking
  fresh : ∀ x ∈ db.attempts, x.id ≠ a.id
  clear : ∀ x ∈ db.attempts, x.chunkId = a.chunkId → x.outcome.isBlocking = false
  rows : ∀ x, x ∈ db'.attempts ↔ x ∈ db.attempts ∨ x = a
  chunk : ∃ c ∈ db'.chunks, c.id = a.chunkId ∧ c.state.status = .submitting

theorem Db.mem_insertAttempt (h : db.insertAttempt a = some db') :
    x ∈ db'.attempts ↔ x ∈ db.attempts ∨ x = a := by
  obtain ⟨hfresh, rfl⟩ := insertAttempt_eq_some h
  exact mem_insertNew_iff hfresh

theorem quiet_routed {id : ChunkId} {generation : ℕ}
    (h : db.casChunk id (fun _ => true) (ChunkState.routed vendorId generation) = some db') :
    Quiet db db' :=
  Db.quiet_casChunk h (fun _ _ => .of_status_eq rfl)

theorem beginVendorInvoke_opens
    (h : beginVendorInvoke db now newId chunkId vendorId = .ok (a, db')) :
    Opens db db' a ∧ a.chunkId = chunkId := by
  unfold beginVendorInvoke at h
  dsimp only at h
  split at h
  · cases h
  rename_i ctx hctx
  obtain ⟨hchunk, hid, -, -, hattempts⟩ := lockSendContext_eq_some hctx
  split at h
  · cases h
  split at h
  · cases h
  rename_i hsubmitting
  split at h
  · cases h
  rename_i hclear
  split at h
  · cases h
  rename_i db₁ hinsert
  split at h
  · cases h
  rename_i db₂ hcas
  cases h
  obtain ⟨hfresh, hdb₁⟩ := insertAttempt_eq_some hinsert
  obtain ⟨c, hc, hcid, -, hc'⟩ := exists_chunk_casChunk hcas
  refine ⟨⟨?_, rfl, hfresh, ?_, ?_, ?_⟩, rfl⟩
  · exact (quiet_insertAttempt hinsert).trans (quiet_routed hcas)
  · intro x hx hxid
    by_contra hblocking
    refine hclear (any_eq_true.mpr ⟨x, ?_, by simpa using hblocking⟩)
    rw [hattempts]
    exact mem_attemptsOf.mpr ⟨hx, hxid⟩
  · intro x
    rw [attempts_casChunk hcas]
    exact mem_insertAttempt hinsert
  · refine ⟨_, hc', hcid, ?_⟩
    have hsame : c = ctx.chunk := by
      rw [hdb₁] at hc
      exact eq_of_key_eq hc hchunk (hcid.trans hid.symm)
    simpa [ChunkState.routed, hsame] using hsubmitting

/-- `record_vendor_attempt` leaves the irreversible attempts alone. -/
structure Notes (db db' : Db) (a : Attempt) : Prop where
  quiet : Quiet db db'
  cancelled : a.outcome = .cancelledBeforeInvoke
  fresh : ∀ x ∈ db.attempts, x.id ≠ a.id
  rows : ∀ x, x ∈ db'.attempts ↔ x ∈ db.attempts ∨ x = a
  chunk : ∃ c ∈ db'.chunks, c.id = a.chunkId

theorem recordVendorAttempt_notes {generation : ℕ}
    (h : recordVendorAttempt db newId chunkId vendorId generation .cancelledBeforeInvoke =
      .ok (a, db')) : Notes db db' a := by
  unfold recordVendorAttempt at h
  dsimp only at h
  split at h
  · cases h
  rename_i db₁ hinsert
  split at h
  · cases h
  rename_i db₂ hcas
  cases h
  obtain ⟨hfresh, -⟩ := insertAttempt_eq_some hinsert
  obtain ⟨c, -, hcid, -, hc'⟩ := exists_chunk_casChunk hcas
  refine ⟨(quiet_insertAttempt hinsert).trans (quiet_routed hcas), rfl, hfresh, ?_,
    ⟨_, hc', hcid⟩⟩
  intro x
  rw [attempts_casChunk hcas]
  exact mem_insertAttempt hinsert

theorem ite_some_eq_none {α : Type*} {p : Prop} [Decidable p] {x : α} {y : Option α}
    (h : (if p then some x else y) = none) : ¬ p ∧ y = none := by
  split at h
  · cases h
  · exact ⟨‹¬ p›, h⟩

/-- A claim that is granted has passed every check against the locked rows. -/
theorem claimDeniedReason_eq_none {req : ClaimRequest} {facts : ClaimFacts}
    (h : claimDeniedReason registry req facts = none) : facts.chunkStatus = .failoverPending ∧
    facts.outcomes.any AttemptOutcome.isBlocking = false := by
  obtain ⟨-, h⟩ := ite_some_eq_none h
  obtain ⟨hstatus, h⟩ := ite_some_eq_none h
  obtain ⟨-, h⟩ := ite_some_eq_none h
  obtain ⟨-, h⟩ := ite_some_eq_none h
  obtain ⟨-, h⟩ := ite_some_eq_none h
  cases hprevious : facts.previous with
  | none =>
    rw [hprevious] at h
    cases h
  | some previous =>
    rw [hprevious] at h
    obtain ⟨-, h⟩ := ite_some_eq_none h
    obtain ⟨-, h⟩ := ite_some_eq_none h
    obtain ⟨-, h⟩ := ite_some_eq_none h
    obtain ⟨-, h⟩ := ite_some_eq_none h
    obtain ⟨hblocking, -⟩ := ite_some_eq_none h
    exact ⟨not_not.mp hstatus, by simpa using hblocking⟩

theorem claimNextVendorInvoke_cases {req : ClaimRequest} {budget : SubmissionBudget}
    {claim : InvokeClaim}
    (h : claimNextVendorInvoke registry db now newId req budget = (claim, db')) :
    (claim.kind ≠ .authorized ∧ db' = db) ∨ ∃ a, Opens db db' a ∧ a.chunkId = req.chunkId ∧
        claim.authorization = some a.authorization := by
  unfold claimNextVendorInvoke at h
  dsimp only at h
  split at h
  · cases h
    exact .inl ⟨by simp [deniedClaim], rfl⟩
  rename_i ctx hctx
  obtain ⟨-, -, -, -, hattempts⟩ := lockSendContext_eq_some hctx
  split at h
  · cases h
    exact .inl ⟨by simp [deniedClaim], rfl⟩
  split at h
  · cases h
    exact .inl ⟨by simp, rfl⟩
  split at h
  · cases h
    exact .inl ⟨by simp [deniedClaim], rfl⟩
  rename_i hgranted
  split at h
  · cases h
    exact .inl ⟨by simp [deniedClaim], rfl⟩
  split at h
  · cases h
    exact .inl ⟨by simp [deniedClaim], rfl⟩
  split at h
  · cases h
    exact .inl ⟨by simp [deniedClaim], rfl⟩
  rename_i db₁ hinsert
  split at h
  · cases h
    exact .inl ⟨by simp [deniedClaim], rfl⟩
  rename_i db₂ hcas
  cases h
  refine .inr ⟨_, ⟨?_, rfl, (insertAttempt_eq_some hinsert).1, ?_, ?_, ?_⟩,
    rfl, rfl⟩
  · refine (quiet_insertAttempt hinsert).trans
      (quiet_casChunk_submitting hcas ?_ ?_)
    · intro s hs
      simp only [Bool.and_eq_true, decide_eq_true_eq] at hs
      exact isPreSend_iff.mpr (.inr (.inr (.inl hs.1.1)))
    · simp [ChunkState.handedOver, ChunkState.claimed]
  · intro x hx hxid
    have hclear := (claimDeniedReason_eq_none hgranted).2
    simp only [claimFacts, any_map, any_eq_false] at hclear
    have hmem : x ∈ ctx.attempts := by
      rw [hattempts]
      exact mem_attemptsOf.mpr ⟨hx, hxid⟩
    simpa using hclear x hmem
  · intro x
    rw [attempts_casChunk hcas]
    exact mem_insertAttempt hinsert
  · obtain ⟨c, -, hcid, -, hc'⟩ := exists_chunk_casChunk hcas
    exact ⟨_, hc', hcid, rfl⟩

/-! ## Settling -/

/-- The row a settlement makes of an attempt. -/
def Attempt.settledWith (a : Attempt) (s : Settlement) : Attempt :=
  { a with
    outcome := s.outcome
    safeToFailover := s.safeToFailover
    vendorCode := s.vendorCode }

theorem attemptUpdate_row_of_some (ha : a.outcome = .invoking) (hf : f a = some s) :
    (attemptUpdate f).row a = a.settledWith s := by
  rw [row_of_applies (by simp [attemptUpdate, ha, hf])]
  simp [attemptUpdate, hf, Attempt.settledWith]

theorem attemptUpdate_row_of_none (hf : f a = none) : (attemptUpdate f).row a = a :=
  row_of_not_applies (by simp [attemptUpdate, hf])

theorem attemptUpdate_row_of_ne (ha : a.outcome ≠ .invoking) : (attemptUpdate f).row a = a :=
  Update.row_of_not_applies (by simp [attemptUpdate, ha])

/-- An update of attempts changes only `invoking` rows, and keeps their identity. -/
theorem attemptUpdate_row_cases (f : Attempt → Option Settlement) (a : Attempt) :
    (attemptUpdate f).row a = a ∨
      a.outcome = .invoking ∧ ∃ s, f a = some s ∧ (attemptUpdate f).row a = a.settledWith s := by
  by_cases ha : a.outcome = .invoking
  · cases hf : f a with
    | none => exact Or.inl (attemptUpdate_row_of_none hf)
    | some s => exact .inr ⟨ha, s, rfl, attemptUpdate_row_of_some ha hf⟩
  · exact .inl (attemptUpdate_row_of_ne ha)

/-- One attempt is settled, and a result that may be an acceptance takes the
chunk out of the pipeline with it. -/
structure Settles (db db' : Db) (a : Attempt) (s : Settlement) : Prop where
  quiet : Quiet db db'
  mem : a ∈ db.attempts
  invoking : a.outcome = .invoking
  rows : ∀ x, x ∈ db'.attempts ↔ (x ∈ db.attempts ∧ x.id ≠ a.id) ∨ x = a.settledWith s
  result : s.outcome ∈ finalizeResults
  chunk : s.outcome.isBlocking = true →
    ∃ c ∈ db'.chunks, c.id = a.chunkId ∧ c.state.isPreSend = false

theorem mem_completeVendorAttempt (ha : a ∈ db.attempts) (hinv : a.outcome = .invoking) :
    x ∈ (completeVendorAttempt db a.id s).attempts ↔
      (x ∈ db.attempts ∧ x.id ≠ a.id) ∨ x = a.settledWith s := by
  have hrow : ∀ y ∈ db.attempts,
      (attemptUpdate (fun b => if b.id = a.id then some s else none)).row y =
        if y.id = a.id then a.settledWith s else y := by
    intro y hy
    by_cases hid : y.id = a.id
    · obtain rfl : y = a := eq_of_key_eq hy ha hid
      rw [attemptUpdate_row_of_some (s := s) hinv (by simp), if_pos rfl]
    · rw [attemptUpdate_row_of_none (by simp [hid]), if_neg hid]
  constructor
  · intro hx
    obtain ⟨y, hy, rfl⟩ := mem_apply_iff.mp hx
    rw [hrow y hy]
    split
    · exact .inr rfl
    · rename_i hid
      exact .inl ⟨hy, hid⟩
  · rintro (⟨hx, hid⟩ | rfl)
    · exact mem_apply_iff.mpr ⟨x, hx, by rw [hrow x hx, if_neg hid]⟩
    · exact mem_apply_iff.mpr ⟨a, ha, by rw [hrow a ha, if_pos rfl]⟩

/-- What the chunk's part of a finalization does, once the attempt is settled. -/
structure Applies (db db' : Db) (chunkId : ChunkId) (result : AttemptOutcome) : Prop where
  write : QuietWrite db db'
  chunk : result.isBlocking = true →
    ∃ c ∈ db'.chunks, c.id = chunkId ∧ c.state.isPreSend = false

/-- Results after which the vendor may be called again do not touch the pairing. -/
theorem Applies.of_reversible (h : QuietWrite db db') (hresult : result.isBlocking = false) :
    Applies db db' chunkId result :=
  ⟨h, fun hb => absurd (hresult.symm.trans hb) (by decide)⟩

variable {ctx : LockedSendContext} {exhausted : Bool} {safe : Bool}

theorem applyRejectOrFail_applies
    (h : applyRejectOrFail registry db now req ctx result safe exhausted = some (report, db'))
    (hresult : result.isBlocking = false) : Applies db db' req.chunkId result := by
  have hsubmitting := isPreSend_of_isSubmitting
  refine .of_reversible ?_ hresult
  unfold applyRejectOrFail at h
  dsimp only at h
  split at h
  · obtain ⟨db₁, hcas, ⟨⟩⟩ := Option.map_eq_some_iff.mp h
    exact .cas hcas hsubmitting (by simp [ChunkState.awaitFailover])
  obtain ⟨db₁, hcas, ⟨⟩⟩ := Option.map_eq_some_iff.mp h
  exact (QuietWrite.cas hcas hsubmitting
    (by simp [ChunkState.markFailedForGood, ChunkState.markFailed])).trans
    (.finalizeFailedMessages _ _ _)

theorem applyFinalize_applies
    (h : applyFinalize registry db now req ctx result safe exhausted = some (report, db'))
    (hresult : result ∈ finalizeResults) : Applies db db' req.chunkId result := by
  have hsubmitting := ChunkState.isPreSend_of_isSubmitting
  unfold applyFinalize at h
  dsimp only at h
  split at h
  · obtain ⟨db₁, hcas, ⟨⟩⟩ := Option.map_eq_some_iff.mp h
    obtain ⟨c, -, hid, -, hc'⟩ := exists_chunk_casChunk hcas
    exact ⟨(QuietWrite.cas hcas hsubmitting (by simp [ChunkState.markSubmitted])).trans
      (.setMessages _ _ (by decide)), fun _ => ⟨_, hc', hid, rfl⟩⟩
  · obtain ⟨db₁, hcas, ⟨⟩⟩ := Option.map_eq_some_iff.mp h
    obtain ⟨c, -, hid, -, hc'⟩ := exists_chunk_casChunk hcas
    exact ⟨.cas hcas hsubmitting (by simp [ChunkState.markUncertain]),
      fun _ => ⟨_, hc', hid, rfl⟩⟩
  iterate 2
    · obtain ⟨db₁, hcas, ⟨⟩⟩ := Option.map_eq_some_iff.mp h
      exact .of_reversible (.cas hcas (fun s hs => hsubmitting s (by simp_all))
        (by simp [ChunkState.retryLater])) rfl
  · split at h
    · obtain ⟨db₁, hcas, ⟨⟩⟩ := Option.map_eq_some_iff.mp h
      exact .of_reversible ((QuietWrite.cas hcas hsubmitting
        (by simp [ChunkState.holdBack])).trans (.setBatch _ _ _)) rfl
    · obtain ⟨db₁, hcas, ⟨⟩⟩ := Option.map_eq_some_iff.mp h
      exact .of_reversible (.cas hcas hsubmitting (by simp [ChunkState.holdBack])) rfl
  · exact applyRejectOrFail_applies h rfl
  · exact applyRejectOrFail_applies h rfl
  · cases h
    refine .of_reversible (.refl db) ?_
    simp only [finalizeResults, mem_cons, not_mem_nil, or_false] at hresult
    rcases hresult with rfl | rfl | rfl | rfl | rfl | rfl | rfl | rfl <;>
      simp_all [AttemptOutcome.isBlocking]

theorem settlement_outcome (req : FinalizeRequest) (s : ChunkState) :
    (req.settlement s).outcome = req.result ∨
      req.result = .delayed ∧ (req.settlement s).outcome = .failed := by
  by_cases h : req.exhausted s = true
  · refine .inr ⟨?_, by simp [FinalizeRequest.settlement, h]⟩
    rw [FinalizeRequest.exhausted, Bool.and_eq_true, decide_eq_true_eq] at h
    exact h.1
  · exact .inl (by simp [FinalizeRequest.settlement, h])

theorem settlement_mem_finalizeResults {s : ChunkState} (h : req.result ∈ finalizeResults) :
    (req.settlement s).outcome ∈ finalizeResults := by
  rcases settlement_outcome req s with heq | ⟨-, heq⟩
  · rw [heq]
    exact h
  · rw [heq]
    decide

theorem finalizeVendorAttempt_cases
    (h : finalizeVendorAttempt registry db now req = .ok (report, db')) :
    db' = db ∨ ∃ a s, Settles db db' a s ∧ a.id = req.attemptId ∧ a.chunkId = req.chunkId ∧
    (s.outcome = req.result ∨ req.result = .delayed ∧ s.outcome = .failed) := by
  unfold finalizeVendorAttempt at h
  dsimp only at h
  split at h
  · cases h
  rename_i hsupported
  split at h
  · cases h
    exact .inl rfl
  rename_i ctx hctx
  obtain ⟨-, -, -, -, hattempts⟩ := lockSendContext_eq_some hctx
  split at h
  · cases h
    exact .inl rfl
  split at h
  · cases h
    exact .inl rfl
  rename_i a hfind
  obtain ⟨ha, hchunk⟩ := mem_attemptsOf.mp
    (hattempts ▸ mem_of_find?_eq_some hfind)
  have hid : a.id = req.attemptId := by simpa using find?_some hfind
  split at h
  · cases h
    exact .inl rfl
  split at h
  · cases h
    exact .inl rfl
  rename_i hinvoking
  have hinvoking : a.outcome = .invoking := by simpa using hinvoking
  split at h
  · cases h
    exact .inl rfl
  split at h
  · cases h
    exact .inl rfl
  rename_i outcome happlied
  cases h
  have hallowed := settlement_mem_finalizeResults (s := ctx.chunk.state)
    (by simpa using hsupported)
  have happlies := applyFinalize_applies happlied hallowed
  rw [← hid] at happlied happlies
  refine .inr ⟨a, req.settlement ctx.chunk.state,
    ⟨?_, ha, hinvoking, ?_, hallowed, ?_⟩, hid, hchunk,
    settlement_outcome _ _⟩
  · exact (quiet_settleAttempts db _).trans happlies.write.quiet
  · intro x
    rw [happlies.write.attempts]
    exact mem_completeVendorAttempt ha hinvoking
  · rw [hchunk]
    exact happlies.chunk

/-! ## Recovery -/

theorem quiet_recoverStalled (db : Db) (now : Time) : Quiet db (recoverStalled db now) := by
  refine { Quiet.refl db with chunks := .apply ?_ }
  intro c _
  cases h : isStaleChunk db now (stalledCandidates db) c with
  | false =>
    rw [row_of_not_applies h]
    exact .refl c
  | true =>
    rw [row_of_applies h]
    simp only [isStaleChunk, Bool.and_eq_true] at h
    exact ⟨rfl, .of_preSend (isPreSend_of_isSubmitting _ h.1.1.2)
      (by simp [chunkUpdate])⟩

/-- Recovery settles an attempt as possibly accepted: because the chunk has left
the pipeline, or because the call is too old. -/
theorem recoveredOutcome_eq_some {candidates : List ChunkId}
    (h : recoveredOutcome db now candidates a = some s) :
    ∃ c ∈ db.chunks, c.id = a.chunkId ∧ s.outcome.isBlocking = true ∧
    s.outcome ≠ .invoking ∧ (c.state.isPreSend = false ∨
      c.id ∈ candidates ∧ isStaleInvoking now c a = true) := by
  unfold recoveredOutcome at h
  split at h
  · cases h
  rename_i c hfind
  obtain ⟨hc, hid⟩ := find?_eq_some_iff.mp hfind
  refine ⟨c, hc, hid, ?_⟩
  split at h
  · cases h
  rename_i hcandidate
  split at h
  · rename_i hrepair
    cases h
    simp only [isRepairable, Bool.and_eq_true, decide_eq_true_eq] at hrepair
    refine ⟨rfl, by simp, .inl ?_⟩
    simp [ChunkState.isPreSend, ChunkState.isWaiting, ChunkState.isSubmitting, hrepair.1.1]
  · split at h
    · rename_i hstale
      cases h
      exact ⟨rfl, by simp, .inr ⟨not_not.mp hcandidate, hstale⟩⟩
    split at h
    case h_5 => cases h
    all_goals
      rename_i hstatus
      cases h
      refine ⟨rfl, by simp, .inl ?_⟩
      simp [ChunkState.isPreSend, ChunkState.isWaiting, ChunkState.isSubmitting, hstatus]

theorem mem_recoverStalled (h : x ∈ (recoverStalled db now).attempts) :
    x ∈ db.attempts ∨ ∃ a ∈ db.attempts, a.outcome = .invoking ∧
    ∃ s, recoveredOutcome db now (stalledCandidates db) a = some s ∧ x = a.settledWith s := by
  obtain ⟨a, ha, rfl⟩ := mem_apply_iff.mp h
  rcases attemptUpdate_row_cases (recoveredOutcome db now (stalledCandidates db)) a with
    heq | ⟨hinv, s, hs, heq⟩
  · rw [heq]
    exact .inl ha
  · exact .inr ⟨a, ha, hinv, s, hs, heq⟩

/-! ## Split -/

theorem Db.insertChunk_eq_some (h : db.insertChunk c = some db') :
    ∃ hfresh : ∀ x ∈ db.chunks.rows, x.id ≠ c.id,
      db' = { db with chunks := db.chunks.insertNew c hfresh } := by
  unfold insertChunk at h
  split at h
  · rename_i hfresh
    split at h
    · cases h
      exact ⟨hfresh, rfl⟩
    · cases h
  · cases h

theorem Db.insertAllocation_frame (db : Db) (a : Allocation) :
    (db.insertAllocation a).chunks = db.chunks ∧ (db.insertAllocation a).attempts = db.attempts ∧
    (db.insertAllocation a).messages = db.messages ∧
    (db.insertAllocation a).exclusions = db.exclusions ∧
    (db.insertAllocation a).batches = db.batches := by
  unfold insertAllocation
  split <;> simp

theorem plantChunk_chunks (h : plantChunk db batch chunk group requests = some db') :
    (∀ x ∈ db.chunks, x.id ≠ chunk.id) ∧
    (∀ x, x ∈ db'.chunks ↔ x ∈ db.chunks ∨ x = chunk) ∧ db'.attempts = db.attempts := by
  unfold plantChunk at h
  split at h
  · cases h
  rename_i db₁ hinsert
  cases h
  obtain ⟨hfresh, rfl⟩ := insertChunk_eq_some hinsert
  refine ⟨hfresh, fun x => ?_, ?_⟩
  · change x ∈ (Db.insertAllocation _ _).chunks ↔ _
    rw [(insertAllocation_frame _ _).1]
    exact mem_insertNew_iff hfresh
  · exact (insertAllocation_frame _ _).2.1

/-- Where the chunks after a step come from: they were there, or they are new.  Only
the parent of a split may begin to wait for capacity, and only it gets children. -/
def Descends (db db' : Db) (parent : Option ChunkId) : Prop :=
  ∀ c' ∈ db'.chunks,
    (∃ c ∈ db.chunks, c.Same c' ∧ (c'.state.status = .splitCapacityBlocked →
      c.state.status = .splitCapacityBlocked ∨ parent = some c.id)) ∨
    c'.state = {} ∧ (∀ s, c'.split = some s → parent = some s.parentChunkId) ∧
      ∀ c ∈ db.chunks, c.id ≠ c'.id

theorem RowsFollow.descends (h : RowsFollow db db') : Descends db db' none := by
  intro c' hc'
  obtain ⟨c, hc, hfollows⟩ := h.chunks.exists_left hc'
  exact .inl ⟨c, hc, hfollows.identity, fun hs => .inl (hfollows.state.blocked hs)⟩

theorem Descends.mono (h : Descends db db' none) (parent : Option ChunkId) :
    Descends db db' parent := by
  intro c' hc'
  rcases h c' hc' with ⟨c, hc, hsame, hblocked⟩ | ⟨hstate, hsplit, hfresh⟩
  · exact .inl ⟨c, hc, hsame, fun hs => .inl ((hblocked hs).resolve_right (by simp))⟩
  · exact .inr ⟨hstate, fun s hs => absurd (hsplit s hs) (by simp), hfresh⟩

/-- A split takes its parent out of the pipeline, settles what is still
`invoking` on it, and adds new chunks only. -/
structure Cuts (db db' : Db) (parent : ChunkId) : Prop where
  attempts : db'.attempts = (settleSplitVendorAttempt db parent).attempts
  splittable : ∃ c ∈ db.chunks, c.id = parent ∧ c.state.isSplittable = true
  kept : ∀ c ∈ db.chunks, ∃ c' ∈ db'.chunks, c' = { c with state := c'.state } ∧
    (c.id ≠ parent → c' = c) ∧ (c.id = parent → c'.state.isPreSend = false)
  origin : Descends db db' (some parent)

theorem cuts_of_casChunk {parent : ChunkId} {f : ChunkState → ChunkState}
    (h : db.casChunk parent ChunkState.isSplittable f = some db')
    (hf : ∀ s, (f s).isPreSend = false) : Cuts db (settleSplitVendorAttempt db' parent) parent := by
  obtain ⟨c₀, hc₀, hid₀, hsplittable, rfl⟩ := casChunk_eq_some h
  have hrow : ∀ c : Chunk, (chunkUpdate (fun c => decide (c.id = parent)) f).row c =
      if c.id = parent then { c with state := f c.state } else c := by
    simp [Update.row, chunkUpdate]
  refine ⟨rfl, ⟨c₀, hc₀, hid₀, hsplittable⟩, ?_, ?_⟩
  · intro c hc
    refine ⟨_, row_mem_apply hc, ?_⟩
    rw [hrow]
    by_cases hid : c.id = parent
    · simp [hid, hf]
    · simp [hid]
  · intro c' hc'
    obtain ⟨c, hc, rfl⟩ := mem_apply_iff.mp hc'
    refine .inl ⟨c, hc, ?_⟩
    rw [hrow]
    by_cases hid : c.id = parent
    · rw [if_pos hid]
      exact ⟨rfl, fun _ => .inr (congrArg some hid.symm)⟩
    · rw [if_neg hid]
      exact ⟨rfl, .inl⟩

theorem Cuts.plantChunk {parent : ChunkId} (h : Cuts db db₁ parent)
    (hplant : plantChunk db₁ batch chunk group requests = some db₂) (hstate : chunk.state = {})
    (hsplit : ∀ s, chunk.split = some s → s.parentChunkId = parent) : Cuts db db₂ parent := by
  obtain ⟨hfresh, hchunks, hattempts⟩ := plantChunk_chunks hplant
  refine ⟨hattempts.trans h.attempts, h.splittable, ?_, ?_⟩
  · intro c hc
    obtain ⟨c', hc', hrest⟩ := h.kept c hc
    exact ⟨c', (hchunks c').mpr (.inl hc'), hrest⟩
  · intro c' hc'
    rcases (hchunks c').mp hc' with hc' | rfl
    · exact h.origin c' hc'
    refine .inr ⟨hstate, fun s hs => congrArg some (hsplit s hs).symm, fun c hc => ?_⟩
    obtain ⟨c'', hc'', hidentity, -⟩ := h.kept c hc
    have hid : c''.id = c.id := by rw [hidentity]
    rw [← hid]
    exact hfresh c'' hc''

theorem createSplitChildren_cuts {parent : SplitParent} {id₁ id₂ : ChunkId}
    (h : createSplitChildren db parent id₁ id₂ = .ok (ids, db')) : Cuts db db' parent.chunkId := by
  unfold createSplitChildren at h
  dsimp only at h
  split at h
  · cases h
  rename_i db₁ hcas
  have hcut := cuts_of_casChunk hcas (fun _ => rfl)
  split at h
  · cases h
  split at h
  · cases h
  split at h
  · cases h
  rename_i db₂ hplant₁
  split at h
  · cases h
  rename_i db₃ hplant₂
  cases h
  have hcut₃ := (hcut.plantChunk hplant₁ rfl (by rintro _ ⟨⟩; rfl)).plantChunk
    hplant₂ rfl (by rintro _ ⟨⟩; rfl)
  exact ⟨hcut₃.attempts, hcut₃.splittable, hcut₃.kept, hcut₃.origin⟩

theorem completeVendorSplit_cases {parent : SplitParent} {capacity : SplitCapacity}
    {id₁ id₂ : ChunkId} (h : completeVendorSplit db parent capacity id₁ id₂ = .ok (ids, db')) :
    db' = db ∨ Cuts db db' parent.chunkId := by
  unfold completeVendorSplit at h
  split at h
  · cases h
    exact .inl rfl
  · cases h
  · split at h
    · cases h
      exact .inl rfl
    split at h
    · cases h
      exact .inl rfl
    split at h
    · cases h
    · cases h
      unfold markSplitCapacityBlocked
      split
      · exact .inl rfl
      · rename_i hcas
        exact .inr (cuts_of_casChunk hcas (fun _ => rfl))
    · exact .inr (createSplitChildren_cuts h)

variable {answer : SplitAnswer}

theorem split_eq_some (h : db.next registry (.split chunkId answer) = some db') :
    ∃ c ∈ db.chunks, c.id = chunkId ∧ ∃ ids,
      completeVendorSplit db c.asParent answer.capacity answer.id₁ answer.id₂ = .ok (ids, db') := by
  unfold Db.next at h
  dsimp only at h
  split at h
  · cases h
  rename_i c hfind
  obtain ⟨hc, hid⟩ := find?_eq_some_iff.mp hfind
  exact ⟨c, hc, hid, committed_eq_some h⟩

theorem next_split (registry : Registry) (hc : c ∈ db.chunks) (answer : SplitAnswer) :
    db.next registry (.split c.id answer) =
      committed (completeVendorSplit db c.asParent answer.capacity answer.id₁ answer.id₂) := by
  unfold Db.next
  dsimp only
  rw [find?_eq_some_iff.mpr ⟨hc, rfl⟩]

/-- A pass over blocked chunks is a sequence of splits. -/
theorem retrySplits_run (registry : Registry) {rows : List Chunk} {retried : ℕ}
    (hrows : ∀ c ∈ rows, ∃ c' ∈ db.chunks, c.Same c')
    (h : retrySplits rows answers db = .ok (retried, db')) :
    ∃ actions, (∀ action ∈ actions, ∃ c ∈ rows, ∃ answer, action = .split c.id answer) ∧
    (store registry).run db actions = some db' := by
  induction rows generalizing answers db retried with
  | nil =>
    cases h
    exact ⟨[], by simp, rfl⟩
  | cons c rows ih =>
    have htail : ∀ d ∈ rows, ∃ c' ∈ db.chunks, d.Same c' :=
      fun d hd => hrows d (mem_cons_of_mem c hd)
    unfold retrySplits at h
    split at h
    · obtain ⟨actions, hsplits, hrun⟩ := ih htail h
      refine ⟨actions, fun action hmem => ?_, hrun⟩
      obtain ⟨d, hd, hsplit⟩ := hsplits action hmem
      exact ⟨d, mem_cons_of_mem c hd, hsplit⟩
    · split at h
      · cases h
      rename_i answer answers
      split at h
      · cases h
      rename_i children db₁ hsplit
      split at h
      · cases h
      rename_i hrest
      cases h
      obtain ⟨c', hc', hsame⟩ := hrows c mem_cons_self
      have hstep : (store registry).next db (.split c'.id answer) = some db₁ := by
        refine (next_split registry hc' answer).trans ?_
        rw [hsame.asParent_eq, hsplit]
        rfl
      have hrows₁ : ∀ d ∈ rows, ∃ c' ∈ db₁.chunks, d.Same c' := by
        intro d hd
        obtain ⟨d', hd', hsame'⟩ := htail d hd
        rcases completeVendorSplit_cases hsplit with rfl | hcuts
        · exact ⟨d', hd', hsame'⟩
        · obtain ⟨d'', hd'', hlater, -⟩ := hcuts.kept d' hd'
          exact ⟨d'', hd'', hsame'.trans hlater⟩
      obtain ⟨actions, hsplits, hrun⟩ := ih hrows₁ hrest
      refine ⟨.split c'.id answer :: actions, ?_, ?_⟩
      · intro action hmem
        rcases mem_cons.mp hmem with rfl | hmem
        · exact ⟨c, mem_cons_self, answer, by rw [hsame.id_eq]⟩
        · obtain ⟨d, hd, hsplit⟩ := hsplits action hmem
          exact ⟨d, mem_cons_of_mem c hd, hsplit⟩
      · rw [Machine.run_cons, hstep]
        exact hrun

theorem retryCapacityBlockedSplits_run (registry : Registry) {retried : ℕ}
    (h : retryCapacityBlockedSplits db answers = .ok (retried, db')) :
    ∃ actions, (∀ action ∈ actions, ∃ c ∈ db.chunks,
        c.state.status = .splitCapacityBlocked ∧ ∃ answer, action = .split c.id answer) ∧
    (store registry).run db actions = some db' := by
  obtain ⟨actions, hsplits, hrun⟩ := retrySplits_run registry
    (fun c hc => ⟨c, (mem_of_mem_select hc).1, rfl⟩) h
  refine ⟨actions, fun action hmem => ?_, hrun⟩
  obtain ⟨c, hc, hsplit⟩ := hsplits action hmem
  obtain ⟨hmem', hblocked⟩ := mem_of_mem_select hc
  exact ⟨c, hmem', of_decide_eq_true hblocked, hsplit⟩

theorem retrySplits_preserves {P : Db → Prop} (hP : P db)
    (h : db.next registry (.retrySplits answers) = some db')
    (hsplit : ∀ c ∈ db.chunks, c.state.status = .splitCapacityBlocked → ∀ db₁ answer db₂,
      P db₁ → db₁.next registry (.split c.id answer) = some db₂ → P db₂) : P db' := by
  obtain ⟨retried, hretry⟩ := committed_eq_some h
  obtain ⟨actions, hsplits, hrun⟩ := retryCapacityBlockedSplits_run registry hretry
  refine Machine.run_preserves (fun action => ∃ c ∈ db.chunks,
    c.state.status = .splitCapacityBlocked ∧ ∃ answer, action = .split c.id answer) P
    ?_ hP hsplits hrun
  rintro db₁ action db₂ hP ⟨c, hc, hblocked, answer, rfl⟩ hstep
  exact hsplit c hc hblocked db₁ answer db₂ hP hstep

/-! ## Preparation, dispatch and acceptance -/

/-- Chunks are only added, and the attempts stay. -/
structure Adds (db db' : Db) : Prop where
  attempts : db'.attempts = db.attempts
  kept : ∀ c ∈ db.chunks, c ∈ db'.chunks
  origin : ∀ c' ∈ db'.chunks, c' ∈ db.chunks ∨
    c'.state = {} ∧ c'.split = none ∧ ∀ c ∈ db.chunks, c.id ≠ c'.id

theorem Adds.refl (db : Db) : Adds db db := ⟨rfl, fun _ => id, fun _ => .inl⟩

theorem Adds.trans (h : Adds db₁ db₂) (h' : Adds db₂ db₃) : Adds db₁ db₃ := by
  refine ⟨h'.attempts.trans h.attempts, fun c hc => h'.kept c (h.kept c hc), fun c hc => ?_⟩
  rcases h'.origin c hc with hc | ⟨hstate, hsplit, hfresh⟩
  · exact h.origin c hc
  · exact .inr ⟨hstate, hsplit, fun d hd => hfresh d (h.kept d hd)⟩

theorem plantChunk_adds (h : plantChunk db batch chunk group requests = some db')
    (hstate : chunk.state = {}) (hsplit : chunk.split = none) : Adds db db' := by
  obtain ⟨hfresh, hchunks, hattempts⟩ := plantChunk_chunks h
  refine ⟨hattempts, fun c hc => (hchunks c).mpr (.inl hc), fun c hc => ?_⟩
  rcases (hchunks c).mp hc with hc | rfl
  · exact .inl hc
  · exact .inr ⟨hstate, hsplit, hfresh⟩

theorem prepareLoop_adds {rows : List MessageKey} {offset : ℕ}
    (h : prepareLoop batch batchSize rows ids offset db = some db') : Adds db db' := by
  induction ids generalizing offset db with
  | nil =>
    unfold prepareLoop at h
    split at h
    · cases h
      exact .refl _
    · cases h
  | cons id ids ih =>
    unfold prepareLoop at h
    dsimp only at h
    split at h
    · cases h
    split at h
    · cases h
    · rename_i hplant
      exact (plantChunk_adds hplant rfl rfl).trans (ih h)

theorem adds_setBatch (db : Db) (id : BatchId) (f : BatchStatus → BatchStatus) :
    Adds db (db.setBatch id f) := ⟨rfl, fun _ hc => hc, fun _ => .inl⟩

variable {newIds : List ChunkId} {materialized : Bool} {batchNo : BatchNo}

/-- Either the batch was planned already, or the loop has run on an unplanned
batch. -/
theorem prepareChunks_cases
    (h : prepareChunks db now batchNo batchSize newIds materialized = .ok (ids, db')) :
    (∃ batchId, db' = db ∨ db' = queuedToSending db batchId) ∨
      ∃ batch ∈ db.batches, ∃ db₁, 1 ≤ batchSize ∧ (∀ c ∈ db.chunks, c.batchId ≠ batch.id) ∧
        prepareLoop batch batchSize (db.messageKeys (fun m =>
          decide (m.batchId = batch.id ∧ m.chunkId = none))) newIds 0 db = some db₁ ∧
        db' = db₁.setBatch batch.id (fun _ => .sending) := by
  unfold prepareChunks at h
  dsimp only at h
  split at h
  · cases h
  rename_i hsize
  split at h
  · cases h
  rename_i batch hfind
  split at h
  · cases h
    exact .inl ⟨batch.id, .inl rfl⟩
  split at h
  · cases h
  split at h
  · cases h
    exact .inl ⟨batch.id, .inr rfl⟩
  split at h
  · cases h
    exact .inl ⟨batch.id, .inr rfl⟩
  rename_i hnone
  split at h
  · cases h
  rename_i db₁ hloop
  split at h
  · cases h
    refine .inr ⟨batch, mem_of_find?_eq_some hfind, db₁,
      Nat.le_of_not_lt hsize, fun c hc hid => hnone ?_, hloop, rfl⟩
    exact any_eq_true.mpr ⟨c, hc, by simpa using hid⟩
  · cases h

theorem prepareChunks_adds
    (h : prepareChunks db now batchNo batchSize newIds materialized = .ok (ids, db')) :
    Adds db db' := by
  rcases prepareChunks_cases h with ⟨batchId, rfl | rfl⟩ | ⟨batch, -, db₁, -, -, hloop, rfl⟩
  · exact .refl _
  · exact adds_setBatch _ _ _
  · exact (prepareLoop_adds hloop).trans (adds_setBatch _ _ _)

theorem acceptBatch_adds {phones : List (ℕ × String)}
    (h : acceptBatch db batch phones now = some db') : Adds db db' := by
  unfold acceptBatch at h
  dsimp only at h
  split at h
  · split at h
    · cases h
      exact ⟨rfl, fun _ => id, fun _ => .inl⟩
    · cases h
  · cases h

/-- The rows a dispatch decision leaves behind. -/
structure Dispatches (db db' : Db) : Prop where
  rows : RowsFollow db db'
  attempts : db'.attempts = db.attempts

theorem QuietWrite.dispatches (h : QuietWrite db db') : Dispatches db db' :=
  ⟨h.quiet.toRowsFollow, h.attempts⟩

theorem Dispatches.trans (h : Dispatches db₁ db₂) (h' : Dispatches db₂ db₃) : Dispatches db₁ db₃ :=
  ⟨h.rows.trans h'.rows, h'.attempts.trans h.attempts⟩

theorem quietWrite_failUnchunked (hc : c.state.isPreSend = true) :
    QuietWrite db (failUnchunked db chunkId c.state.status) := by
  unfold failUnchunked
  split
  · exact .refl db
  refine .cas_getD (fun s hs => ?_) (by simp [ChunkState.markFailed])
  rw [decide_eq_true_eq] at hs
  rw [isPreSend_iff] at hc ⊢
  rwa [hs]

theorem excludeOne_dispatches (db : Db) (batchId : BatchId) (generation : ℕ)
    (key : MessageKey) : Dispatches db (excludeOne db batchId generation key).2 := by
  unfold excludeOne
  split
  · rename_i h
    have hinserted : Dispatches db { db with
        exclusions := db.exclusions.insertNew ⟨key, batchId, generation⟩ h } :=
      ⟨{ RowsFollow.refl db with }, rfl⟩
    exact hinserted.trans (QuietWrite.setMessages _ _ (by decide)).dispatches
  · exact ⟨.refl db, rfl⟩

theorem excludeAll_dispatches (batchId : BatchId) (generation : ℕ) (keys : List MessageKey)
    (db : Db) : Dispatches db (excludeAll batchId generation keys db).2 := by
  induction keys generalizing db with
  | nil => exact ⟨.refl db, rfl⟩
  | cons key keys ih => exact (excludeOne_dispatches db batchId generation key).trans (ih _)

theorem releaseExcluded_dispatches (db : Db) (chunkId : ChunkId) (batch : Batch)
    (excluded : ℕ) : Dispatches db (releaseExcluded db chunkId batch excluded) := by
  unfold releaseExcluded
  split
  · exact ⟨.refl db, rfl⟩
  have hcut : Dispatches db { db with
      allocations := db.allocations.apply (allocationCut chunkId excluded
        (calculateQuotaCost (batch.signName ++ batch.content) excluded)) } :=
    ⟨{ RowsFollow.refl db with }, rfl⟩
  exact hcut.trans (QuietWrite.setBatch _ _ _).dispatches

theorem decideDispatch_dispatches {appFlag : Option Bool} {decision : DispatchDecision}
    (h : decideDispatch db chunkId appFlag = .ok (decision, db')) : Dispatches db db' := by
  unfold decideDispatch at h
  dsimp only at h
  split at h
  · cases h
  rename_i ctx _
  split at h
  · cases h
    exact ⟨.refl _, rfl⟩
  rename_i hpre
  have hpre : ctx.chunk.state.isPreSend = true := by simpa using hpre
  split at h
  · cases h
    exact ((quietWrite_failUnchunked hpre).trans (.setBatch _ _ _)).dispatches
  split at h
  · cases h
    exact ⟨.refl _, rfl⟩
  have hexcluded : Dispatches db (excludeBlacklisted db chunkId ctx.batch).2 :=
    (excludeAll_dispatches _ _ _ db).trans (releaseExcluded_dispatches _ _ _ _)
  split at h
  · cases h
    exact hexcluded.trans
      ((quietWrite_failUnchunked hpre).trans (.setBatch _ _ _)).dispatches
  · cases h
    exact hexcluded

/-! ## All other transactions -/

/-- The transactions that add chunks or messages, or exclude messages. -/
def Action.changesPlan : Action → Bool
  | .accept .. | .prepare .. | .split .. | .retrySplits .. | .dispatch .. => true
  | _ => false

theorem quiet_of_step (h : action.changesPlan = false)
    (hstep : db.next registry action = some db') : Quiet db db' := by
  cases action with
  | accept | prepare | split | retrySplits | dispatch => cases h
  | claim now chunkId retries budget =>
    cases hstep
    exact (QuietWrite.claimSubmission db now chunkId retries budget).quiet
  | begin now newId chunkId vendorId =>
    obtain ⟨a, hbegin⟩ := committed_eq_some hstep
    exact (beginVendorInvoke_opens hbegin).1.quiet
  | recordCancelled newId chunkId vendorId generation =>
    obtain ⟨a, hrecord⟩ := committed_eq_some hstep
    exact (recordVendorAttempt_notes hrecord).quiet
  | finalize now req =>
    obtain ⟨report, hfinalize⟩ := committed_eq_some hstep
    rcases finalizeVendorAttempt_cases hfinalize with rfl | ⟨a, s, hsettles, -⟩
    · exact .refl db'
    · exact hsettles.quiet
  | claimNext now newId req budget =>
    cases hstep
    cases hclaim : claimNextVendorInvoke registry db now newId req budget with
    | mk claim db₁ =>
      rcases claimNextVendorInvoke_cases hclaim with ⟨-, rfl⟩ | ⟨a, hopens, -⟩
      · exact .refl db₁
      · exact hopens.quiet
  | recover now =>
    cases hstep
    exact quiet_recoverStalled db now
  | write w =>
    cases hstep
    exact (quietWrite_runWrite registry db w).quiet

/-! ## Chunks across a step -/

/-- Chunks stay, and those that have left the pipeline do not return. -/
def ChunksStay (db db' : Db) : Prop :=
  ∀ c ∈ db.chunks, ∃ c' ∈ db'.chunks, c.Same c' ∧
    (c.state.isPreSend = false → c'.state.isPreSend = false)

theorem ChunksStay.refl (db : Db) : ChunksStay db db := fun c hc => ⟨c, hc, rfl, id⟩

theorem RowsFollow.chunksStay (h : RowsFollow db db') : ChunksStay db db' := by
  intro c hc
  obtain ⟨c', hc', hfollows⟩ := h.chunks.exists_right hc
  exact ⟨c', hc', hfollows.identity, hfollows.state.left⟩

theorem Adds.chunksStay (h : Adds db db') : ChunksStay db db' :=
  fun c hc => ⟨c, h.kept c hc, rfl, id⟩

theorem Cuts.chunksStay {parent : ChunkId} (h : Cuts db db' parent) : ChunksStay db db' := by
  intro c hc
  obtain ⟨c', hc', hsame, hother, hparent⟩ := h.kept c hc
  refine ⟨c', hc', hsame, fun hleft => ?_⟩
  by_cases hid : c.id = parent
  · exact hparent hid
  · rw [hother hid]
    exact hleft

theorem chunksStay_of_split
    (hstep : db.next registry (.split chunkId answer) = some db') : ChunksStay db db' := by
  obtain ⟨c, -, -, ids, hsplit⟩ := split_eq_some hstep
  rcases completeVendorSplit_cases hsplit with rfl | hcuts
  · exact .refl db'
  · exact hcuts.chunksStay

theorem ChunksStay.trans (h : ChunksStay db₁ db₂) (h' : ChunksStay db₂ db₃) :
    ChunksStay db₁ db₃ := by
  intro c hc
  obtain ⟨c', hc', hsame, hleft⟩ := h c hc
  obtain ⟨c'', hc'', hsame', hleft'⟩ := h' c' hc'
  exact ⟨c'', hc'', hsame.trans hsame', fun hc => hleft' (hleft hc)⟩

theorem chunksStay_of_step (hstep : db.next registry action = some db') : ChunksStay db db' := by
  by_cases hquiet : action.changesPlan = false
  · exact (quiet_of_step hquiet hstep).chunksStay
  cases action with
  | accept batch phones now => exact (acceptBatch_adds hstep).chunksStay
  | prepare now batchNo batchSize newIds materialized =>
    obtain ⟨ids, hprepare⟩ := committed_eq_some hstep
    exact (prepareChunks_adds hprepare).chunksStay
  | split chunkId answer => exact chunksStay_of_split hstep
  | retrySplits answers =>
    exact retrySplits_preserves (.refl db) hstep
      (fun _ _ _ _ _ _ hstay hsplit => hstay.trans (chunksStay_of_split hsplit))
  | dispatch chunkId appFlag =>
    obtain ⟨decision, hdispatch⟩ := committed_eq_some hstep
    exact (decideDispatch_dispatches hdispatch).rows.chunksStay
  | _ => exact absurd rfl hquiet

/-! ## What a step does to the attempts -/

theorem Adds.descends (h : Adds db db') : Descends db db' none := by
  intro c' hc'
  rcases h.origin c' hc' with hc | ⟨hstate, hsplit, hfresh⟩
  · exact .inl ⟨c', hc, rfl, .inl⟩
  · exact .inr ⟨hstate, by simp [hsplit], hfresh⟩

/-- The transactions that settle attempts with whatever outcome they are given. -/
def Action.settles : Action → Bool
  | .finalize .. | .split .. | .retrySplits .. => true
  | _ => false

/-- Everything a transaction can do to the attempts.  A pass over waiting chunks is a
sequence of such steps. -/
inductive AttemptStep (db db' : Db) (action : Action) : Prop
  | same (stay : ChunksStay db db') (descends : Descends db db' none)
      (attempts : db'.attempts = db.attempts)
  | opened (a : Attempt) (h : Opens db db' a)
  | noted (a : Attempt) (h : Notes db db' a)
  | settled (a : Attempt) (s : Settlement) (haction : action.settles = true)
      (h : Settles db db' a s)
  | recovered (now : Time) (haction : action = .recover now) (h : db' = recoverStalled db now)
  | cut (parent : ChunkId) (answer : SplitAnswer) (haction : action = .split parent answer)
      (h : Cuts db db' parent)

theorem AttemptStep.refl (db : Db) (action : Action) : AttemptStep db db action :=
  .same (.refl db) (RowsFollow.refl db).descends rfl

theorem Adds.attemptStep (h : Adds db db') (action : Action) : AttemptStep db db' action :=
  .same h.chunksStay h.descends h.attempts

theorem Dispatches.attemptStep (h : Dispatches db db') (action : Action) :
    AttemptStep db db' action :=
  .same h.rows.chunksStay h.rows.descends h.attempts

def Action.parent : Action → Option ChunkId
  | .split chunkId _ => some chunkId
  | _ => none

theorem AttemptStep.descends (h : AttemptStep db db' action) : Descends db db' action.parent := by
  cases h with
  | same _ descends _ => exact descends.mono _
  | opened a hopens => exact hopens.quiet.descends.mono _
  | noted a hnotes => exact hnotes.quiet.descends.mono _
  | settled a s _ hsettles => exact hsettles.quiet.descends.mono _
  | recovered now _ hrecover =>
    subst hrecover
    exact (quiet_recoverStalled db now).descends.mono _
  | cut parent answer haction hcuts =>
    subst haction
    exact hcuts.origin

theorem attemptStep_of_step (hpass : ∀ answers, action ≠ .retrySplits answers)
    (hstep : db.next registry action = some db') : AttemptStep db db' action := by
  cases action with
  | accept batch phones now => exact (acceptBatch_adds hstep).attemptStep _
  | prepare now batchNo batchSize newIds materialized =>
    obtain ⟨ids, hprepare⟩ := committed_eq_some hstep
    exact (prepareChunks_adds hprepare).attemptStep _
  | claim now chunkId retries budget =>
    cases hstep
    exact (QuietWrite.claimSubmission db now chunkId retries budget).dispatches.attemptStep _
  | begin now newId chunkId vendorId =>
    obtain ⟨a, hbegin⟩ := committed_eq_some hstep
    exact .opened a (beginVendorInvoke_opens hbegin).1
  | recordCancelled newId chunkId vendorId generation =>
    obtain ⟨a, hrecord⟩ := committed_eq_some hstep
    exact .noted a (recordVendorAttempt_notes hrecord)
  | finalize now req =>
    obtain ⟨report, hfinalize⟩ := committed_eq_some hstep
    rcases finalizeVendorAttempt_cases hfinalize with rfl | ⟨a, s, hsettles, -⟩
    · exact .refl _ _
    · exact .settled a s rfl hsettles
  | claimNext now newId req budget =>
    cases hstep
    cases hclaim : claimNextVendorInvoke registry db now newId req budget with
    | mk claim db₁ =>
      rcases claimNextVendorInvoke_cases hclaim with ⟨-, rfl⟩ | ⟨a, hopens, -⟩
      · exact .refl _ _
      · exact .opened a hopens
  | split chunkId answer =>
    obtain ⟨c, -, rfl, ids, hsplit⟩ := split_eq_some hstep
    rcases completeVendorSplit_cases hsplit with rfl | hcuts
    · exact .refl _ _
    · exact .cut c.id answer rfl hcuts
  | retrySplits answers => exact absurd rfl (hpass answers)
  | recover now =>
    cases hstep
    exact .recovered now rfl rfl
  | dispatch chunkId appFlag =>
    obtain ⟨decision, hdispatch⟩ := committed_eq_some hstep
    exact (decideDispatch_dispatches hdispatch).attemptStep _
  | write w =>
    cases hstep
    exact (quietWrite_runWrite registry db w).dispatches.attemptStep _

end SmsPlatform.Send
