import SmsPlatform.Send.Quiet
import SmsPlatform.Support.Machine

/-!
# The database as a machine

A step of the machine is one committed transaction, whoever runs it.  Workers,
recovery passes, report pullers and operators interleave freely, so a run is any
sequence of transactions.  A transaction that raises or is rolled back is no
step.

`complete_vendor_attempt` is not among the transactions: the workers only reach
it when an attempt row has vanished, which is shown not to happen.
-/

namespace SmsPlatform.Send

open Support Schema Vendor Table ChunkState Db

/-- The transactions that change nothing but chunk, message and batch states. -/
inductive Write
  | rejectDisallowedRecipient (chunkId : ChunkId) (deniedCount : ℕ)
  | deferDailyLimit (chunkId : ChunkId) (resetAt : Time)
  | releaseUnsent (now : Time) (chunkId : ChunkId)
  | releaseControlClaim (now : Time) (chunkId : ChunkId)
  | markSubmitted (now : Time) (chunkId : ChunkId) (taskId : String)
  | markFailed (chunkId : ChunkId) (code : ℤ) (message : String)
  | markUncertain (chunkId : ChunkId)
  | scheduleRetry (now : Time) (chunkId : ChunkId) (code : ℤ) (expectedRetryCount delay : ℕ)
  | delayChunk (now : Time) (chunkId : ChunkId) (code : ℤ) (delay : ℕ)
  | balanceBlocked (now : Time) (batchId : BatchId) (chunkId : ChunkId)
  | pauseBlocked (now : Time) (chunkId : ChunkId) (code : ℤ)
  | applyReport (key : MessageKey) (status : MessageStatus)
  | confirmUncertain (now : Time) (chunkId : ChunkId) (taskId : String)
  | expireUncertain (chunkId : ChunkId)
  | setBatchStatus (batchId : BatchId) (status : BatchStatus)
  | setBlacklist (digests : List String)
  | repairLegacySafeReject (now : Time)

def runWrite (registry : Registry) (db : Db) : Write → Db
  | .rejectDisallowedRecipient chunkId count => rejectDisallowedRecipient db chunkId count
  | .deferDailyLimit chunkId resetAt => deferDailyLimit db chunkId resetAt
  | .releaseUnsent now chunkId => releaseUnsent db now chunkId
  | .releaseControlClaim now chunkId => releaseControlClaim db now chunkId
  | .markSubmitted now chunkId taskId => markSubmitted db now chunkId taskId
  | .markFailed chunkId code message => markFailed db chunkId code message
  | .markUncertain chunkId => markUncertain db chunkId
  | .scheduleRetry now chunkId code retries delay =>
    (scheduleRetry db now chunkId code retries delay).2
  | .delayChunk now chunkId code delay => delayChunk db now chunkId code delay
  | .balanceBlocked now batchId chunkId => balanceBlocked db now batchId chunkId
  | .pauseBlocked now chunkId code => pauseBlocked db now chunkId code
  | .applyReport key status => applyReport db key status
  | .confirmUncertain now chunkId taskId => confirmUncertain db now chunkId taskId
  | .expireUncertain chunkId => expireUncertain db chunkId
  | .setBatchStatus batchId status => setBatchStatus db batchId status
  | .setBlacklist digests => setBlacklist db digests
  | .repairLegacySafeReject now => repairLegacySafeRejectSubmitting registry db now

inductive Action
  | accept (batch : Batch) (phones : List (ℕ × String)) (now : Time)
  | prepare (now : Time) (batchNo : BatchNo) (batchSize : ℕ) (newIds : List ChunkId)
      (materialized : Bool)
  | claim (now : Time) (chunkId : ChunkId) (expectedRetryCount : ℕ) (budget : SubmissionBudget)
  | begin (now : Time) (newId : AttemptId) (chunkId : ChunkId) (vendorId : VendorId)
  | recordCancelled (newId : AttemptId) (chunkId : ChunkId) (vendorId : VendorId)
      (generation : ℕ)
  | finalize (now : Time) (req : FinalizeRequest)
  | claimNext (now : Time) (newId : AttemptId) (req : ClaimRequest) (budget : SubmissionBudget)
  | split (chunkId : ChunkId) (answer : SplitAnswer)
  | retrySplits (answers : List SplitAnswer)
  | recover (now : Time)
  | dispatch (chunkId : ChunkId) (appFlag : Option Bool)
  | write (w : Write)

/-- The database after a transaction that does not raise. -/
def committed {α : Type*} : Except String (α × Db) → Option Db
  | .ok (_, db) => some db
  | .error _ => none

theorem committed_eq_some {α : Type*} {r : Except String (α × Db)} {db : Db}
    (h : committed r = some db) : ∃ x, r = .ok (x, db) := by
  unfold committed at h
  split at h
  · cases h
    exact ⟨_, rfl⟩
  · cases h

def Db.next (registry : Registry) (db : Db) : Action → Option Db
  | .accept batch phones now => acceptBatch db batch phones now
  | .prepare now batchNo batchSize newIds materialized =>
    committed (prepareChunks db now batchNo batchSize newIds materialized)
  | .claim now chunkId retries budget => some (claimSubmission db now chunkId retries budget).2
  | .begin now newId chunkId vendorId =>
    committed (beginVendorInvoke db now newId chunkId vendorId)
  | .recordCancelled newId chunkId vendorId generation =>
    committed (recordVendorAttempt db newId chunkId vendorId generation
      .cancelledBeforeInvoke)
  | .finalize now req => committed (finalizeVendorAttempt registry db now req)
  | .claimNext now newId req budget =>
    some (claimNextVendorInvoke registry db now newId req budget).2
  | .split chunkId answer =>
    match db.chunks.find? chunkId with
    | none => none
    | some c =>
      committed (completeVendorSplit db c.asParent answer.capacity answer.id₁ answer.id₂)
  | .retrySplits answers => committed (retryCapacityBlockedSplits db answers)
  | .recover now => some (recoverStalled db now)
  | .dispatch chunkId appFlag => committed (decideDispatch db chunkId appFlag)
  | .write w => some (runWrite registry db w)

/-- All runs of transactions on an empty installation. -/
def store (registry : Registry) : Machine Db Action where
  init db := db = Db.start
  next := Db.next registry

/-- A batch of two short notices. -/
def noticeBatch : Batch where
  id := 1
  batchNo := ⟨List.replicate 32 '0', rfl⟩
  status := .queued
  category := .notice
  signName := []
  content := ['h', 'i']
  segments := 1
  routePolicyVersion := 1
  segments_eq := rfl

/-! ## Quiet transactions -/

/-- A transaction without effect on attempts and plan. -/
structure QuietWrite (db db' : Db) : Prop where
  quiet : Quiet db db'
  attempts : db'.attempts = db.attempts

namespace QuietWrite

variable {db : Db}

theorem refl (db : Db) : QuietWrite db db := ⟨.refl db, rfl⟩

theorem trans {db₁ db₂ db₃ : Db} (h : QuietWrite db₁ db₂) (h' : QuietWrite db₂ db₃) :
    QuietWrite db₁ db₃ :=
  ⟨h.quiet.trans h'.quiet, h'.attempts.trans h.attempts⟩

theorem setMessages (db : Db) (p : Message → Bool) {status : MessageStatus}
    (h : status ≠ .pending) : QuietWrite db (db.setMessages p status) :=
  ⟨quiet_setMessages db p h, rfl⟩

theorem setBatch (db : Db) (id : BatchId) (f : BatchStatus → BatchStatus) :
    QuietWrite db (db.setBatch id f) :=
  ⟨quiet_setBatch db id f, rfl⟩

theorem finalizeFailedMessages (db : Db) (chunkId : ChunkId) (batchId : BatchId) :
    QuietWrite db (db.finalizeFailedMessages chunkId batchId) :=
  ⟨quiet_finalizeFailedMessages db chunkId batchId, attempts_finalizeFailedMessages _ _ _⟩

variable {f : ChunkState → ChunkState} {guard : ChunkState → Bool} {id : ChunkId}

theorem cas {db' : Db}
    (h : db.casChunk id guard f = some db') (hguard : ∀ s, guard s = true → s.isPreSend = true)
    (hf : ∀ s, (f s).status ≠ .splitCapacityBlocked) : QuietWrite db db' :=
  ⟨quiet_casChunk_submitting h hguard hf, attempts_casChunk h⟩

theorem cas_getD (hguard : ∀ s, guard s = true → s.isPreSend = true)
    (hf : ∀ s, (f s).status ≠ .splitCapacityBlocked) :
    QuietWrite db ((db.casChunk id guard f).getD db) := by
  cases h : db.casChunk id guard f with
  | none => exact refl db
  | some db' => exact cas h hguard hf

theorem foldl {α : Type*} {f : Db → α → Db} (hf : ∀ db x, QuietWrite db (f db x)) (xs : List α)
    (db : Db) : QuietWrite db (xs.foldl f db) := by
  induction xs generalizing db with
  | nil => exact refl db
  | cons x xs ih => exact (hf db x).trans (ih (f db x))

theorem whenBatchActive {chunkId : ChunkId} {f : Chunk → Option Db}
    (hf : ∀ c db', f c = some db' → QuietWrite db db') :
    QuietWrite db (whenBatchActive db chunkId f) := by
  unfold Send.whenBatchActive
  split
  · exact refl db
  rename_i ctx _
  split
  · cases h : f ctx.chunk with
    | none => exact refl db
    | some db' => exact hf _ _ h
  · exact refl db

theorem failSubmitting (db : Db) (chunkId : ChunkId) (code : Option ℤ) (message : String) :
    QuietWrite db (failSubmitting db chunkId code message) := by
  unfold Send.failSubmitting
  split
  · exact refl db
  split
  · exact refl db
  rename_i h
  have hcas := cas h isPreSend_of_isSubmitting
    (by simp [ChunkState.markFailed])
  exact hcas.trans (finalizeFailedMessages _ _ _)

theorem claimSubmission (db : Db) (now : Time) (chunkId : ChunkId) (retries : ℕ)
    (budget : SubmissionBudget) :
    QuietWrite db (claimSubmission db now chunkId retries budget).2 := by
  have hguard : ∀ s : ChunkState, s.claimable now retries = true → s.isPreSend = true := by
    intro s hs
    simp only [ChunkState.claimable, Bool.and_eq_true, decide_eq_true_eq] at hs
    rcases hs.1.1 with h | h <;> simp [ChunkState.isPreSend, ChunkState.isWaiting, h]
  unfold Send.claimSubmission
  split
  · exact refl db
  split
  · exact refl db
  split
  · exact refl db
  · split <;> exact refl db
  all_goals
    split
    · exact refl db
    · rename_i h
      exact cas h hguard (by simp [ChunkState.claimed])

theorem repairLegacySafeReject (registry : Registry) (db : Db) (now : Time)
    (chunkId : ChunkId) : QuietWrite db (repairLegacySafeReject registry db now chunkId) := by
  unfold Send.repairLegacySafeReject
  dsimp only
  split
  · exact refl db
  split
  · exact refl db
  split
  · exact refl db
  split
  · exact cas_getD isPreSend_of_isSubmitting
      (by simp [ChunkState.awaitFailover])
  split
  · exact refl db
  rename_i h
  have hcas := cas h isPreSend_of_isSubmitting
    (by simp [ChunkState.markFailedForGood, ChunkState.markFailed])
  exact hcas.trans (finalizeFailedMessages _ _ _)

end QuietWrite

theorem quietWrite_applyReport (db : Db) (key : MessageKey) (status : MessageStatus) :
    QuietWrite db (applyReport db key status) := by
  unfold applyReport
  split
  · exact .refl db
  split
  · exact .refl db
  rename_i hstatus
  have hmessages : Rel Message.Follows db.messages
      (db.messages.apply (messageReportUpdate key status)) := by
    refine .apply (fun m _ => ?_)
    by_cases hm : m.key = key
    · rw [Update.row_of_applies (by simp [messageReportUpdate, hm])]
      exact ⟨rfl, fun hs => absurd hs hstatus⟩
    · rw [Update.row_of_not_applies (by simp [messageReportUpdate, hm])]
      exact .refl m
  have hreported : QuietWrite db
      { db with messages := db.messages.apply (messageReportUpdate key status) } :=
    ⟨{ Quiet.refl db with messages := hmessages }, rfl⟩
  exact hreported.trans (.setBatch _ _ _)

/-- The uncertain scan only moves chunks that have left the pipeline. -/
theorem quietWrite_uncertain {db db' : Db} {chunkId : ChunkId} {f : ChunkState → ChunkState}
    (h : db.casChunk chunkId (fun s => decide (s.status = .uncertain)) f = some db')
    (hf : ∀ s, (f s).isPreSend = false ∧ (f s).status ≠ .splitCapacityBlocked) :
    QuietWrite db db' :=
  ⟨quiet_casChunk h (fun s _ => ⟨fun _ => (hf s).1, fun hs => absurd hs (hf s).2⟩),
    attempts_casChunk h⟩

theorem quietWrite_runWrite (registry : Registry) (db : Db) (w : Write) :
    QuietWrite db (runWrite registry db w) := by
  have hsubmitting := isPreSend_of_isSubmitting
  have hwaiting := isPreSend_of_isWaiting
  cases w with
  | rejectDisallowedRecipient chunkId count =>
    unfold runWrite rejectDisallowedRecipient
    refine .whenBatchActive (fun c db' h => ?_)
    obtain ⟨db₁, hcas, rfl⟩ := Option.map_eq_some_iff.mp h
    exact (QuietWrite.cas hcas hwaiting (by simp [ChunkState.markFailed])).trans
      (.finalizeFailedMessages _ _ _)
  | deferDailyLimit chunkId resetAt =>
    unfold runWrite deferDailyLimit
    refine .whenBatchActive (fun c db' h => ?_)
    refine .cas h hwaiting (fun s => ?_)
    dsimp only
    split <;> decide
  | markSubmitted now chunkId taskId =>
    unfold runWrite markSubmitted
    dsimp only
    split
    · exact .refl db
    rename_i h
    exact (QuietWrite.cas h hsubmitting (by simp [ChunkState.markSubmitted])).trans
      (.setMessages _ _ (by decide))
  | markFailed chunkId code message => exact .failSubmitting db chunkId _ message
  | markUncertain chunkId =>
    exact .cas_getD hsubmitting (by simp [ChunkState.markUncertain])
  | scheduleRetry now chunkId code retries delay =>
    unfold runWrite scheduleRetry
    dsimp only
    split
    · exact .refl db
    rename_i h
    exact .cas h (fun s hs => hsubmitting s (by simp_all))
      (by simp [ChunkState.retryLater])
  | delayChunk now chunkId code delay =>
    unfold runWrite delayChunk
    dsimp only
    split
    · rename_i h
      exact .cas h (fun s hs => hsubmitting s (by simp_all))
        (by simp [ChunkState.retryLater])
    · exact .failSubmitting db chunkId _ _
  | balanceBlocked now batchId chunkId =>
    unfold runWrite balanceBlocked
    dsimp only
    split
    · exact .refl db
    split
    · exact .refl db
    split
    · exact .refl db
    rename_i h
    exact (QuietWrite.cas h hsubmitting (by simp [ChunkState.holdBack])).trans
      (.setBatch _ _ _)
  | applyReport key status => exact quietWrite_applyReport db key status
  | confirmUncertain | expireUncertain =>
    simp only [runWrite, confirmUncertain, expireUncertain]
    split
    · exact .refl db
    rename_i h
    exact (quietWrite_uncertain h (fun s => ⟨rfl, by simp⟩)).trans
      (.setMessages _ _ (by decide))
  | setBatchStatus batchId status => exact .setBatch db batchId _
  | setBlacklist digests => exact ⟨{ Quiet.refl db with }, rfl⟩
  | repairLegacySafeReject now =>
    exact .foldl (fun db chunkId => .repairLegacySafeReject registry db now chunkId) _ db
  | _ =>
    exact .cas_getD hsubmitting (by simp [ChunkState.holdBack])

end SmsPlatform.Send
