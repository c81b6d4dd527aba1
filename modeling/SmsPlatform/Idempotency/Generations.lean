import SmsPlatform.Idempotency.Results

/-!
# One batch for a generation of a claim

A claim that is not completed has a larger generation than every batch committed under its
key, and the results of those batches have been retired.  A result is retired only when it has
expired and the work of its batch is not protected.  Both are kept by every step, so that a
batch is committed by the one client that holds the current token, and never while an earlier
result is in force.
-/

namespace SmsPlatform.Idempotency

open Support Table Update Claim List Bool

/-! ## Committed batches and their claims -/

/-- The claim shows the batch, or is past it and the result of the batch is retired. -/
def Claim.Covers (retired : Prop) (c : Commit) (q : Claim) : Prop :=
  (q.state = .completed c.batchId ∧ q.generation = c.generation) ∨
    (c.generation < q.generation ∧ retired)

namespace Claim.Covers

variable {retired retired' : Prop} {c : Commit} {q : Claim}

theorem mono (h : q.Covers retired c) (himp : retired → retired') : q.Covers retired' c :=
  h.imp_right (fun hpast => ⟨hpast.1, himp hpast.2⟩)

/-- An active claim is past the batch. -/
theorem past (h : q.Covers retired c) (hstate : ∀ b, q.state ≠ .completed b) :
    c.generation < q.generation ∧ retired :=
  h.resolve_left (fun hshown => hstate _ hshown.1)

end Claim.Covers

variable {a : Action} {q : Claim} {c : Commit} {w w' : World} {h : Holding}

theorem Claim.not_completed_of_owned (howned : q.isOwned h = true) (b : BatchId) :
    q.state ≠ .completed b := by
  rw [(isOwned_iff.mp howned).2.2.2]
  intro heq
  cases heq

theorem Claim.not_completed_of_free {now : Time} (hfree : q.isFree now = true) (b : BatchId) :
    q.state ≠ .completed b := by
  intro hstate
  simp [Claim.isFree, hstate] at hfree

section

variable {retired : Prop}  {expiresAt now : Time} {fingerprint : String} {token : Token} {key : Key}

theorem covers_takeOver (h : q.Covers retired c) :
    ((takeOverUpdate key token fingerprint expiresAt now).row q).Covers retired c := by
  refine row_cases h (fun happ => ?_)
  have hpast := h.past (not_completed_of_free (and_eq_true_iff.mp happ).2)
  exact .inr ⟨Nat.lt_succ_of_lt hpast.1, hpast.2⟩

theorem covers_reclaim {batchId : BatchId}
    (h : q.Covers retired c) (hretired : c.batchId = batchId → retired) :
    ((reclaimUpdate key batchId token fingerprint expiresAt).row q).Covers retired c := by
  refine row_cases h (fun happ => ?_)
  have hstate : q.state = .completed batchId := (of_decide_eq_true happ).2
  rcases h with ⟨hshown, hgeneration⟩ | ⟨hlt, hold⟩
  · rw [hstate] at hshown
    cases hshown
    exact .inr ⟨hgeneration.ge.trans_lt (Nat.lt_succ_self _), hretired rfl⟩
  · exact .inr ⟨Nat.lt_succ_of_lt hlt, hold⟩

variable {held : Holding}

theorem covers_renew {ttl margin : Time} (h : q.Covers retired c) :
    ((renewUpdate held ttl margin now).row q).Covers retired c :=
  row_cases h (fun _ => h)

theorem covers_release {records : Table Record.key} (h : q.Covers retired c) :
    ((releaseUpdate held records now).row q).Covers retired c := by
  refine row_cases h (fun happ => ?_)
  exact .inr (h.past (not_completed_of_owned (and_eq_true_iff.mp happ).1))

theorem covers_complete {batchId : BatchId} (h : q.Covers retired c) :
    ((completeUpdate held batchId expiresAt now).row q).Covers retired c := by
  refine row_cases h (fun happ => ?_)
  exact .inr (h.past (not_completed_of_owned (and_eq_true_iff.mp happ).1))

theorem covers_keepExpiry {deleted : List Record} (h : q.Covers retired c) :
    ((keepExpiryUpdate deleted).row q).Covers retired c :=
  row_cases h (fun _ => h)

end

def World.Retired (w : World) (c : Commit) : Prop :=
  ∃ r ∈ w.retirements, r.key = c.key ∧ r.batchId = c.batchId

/-- The claims of the table after an update still cover what they covered. -/
theorem exists_covers_apply {u : Update Claim.key} {retired retired' : Prop}
    (h : ∃ q ∈ w.claims, q.key = c.key ∧ q.Covers retired c)
    (hrow : ∀ q ∈ w.claims, q.key = c.key → q.Covers retired c → (u.row q).Covers retired' c) :
    ∃ q ∈ w.claims.apply u, q.key = c.key ∧ q.Covers retired' c := by
  obtain ⟨q, hq, hkey, hcovers⟩ := h
  exact ⟨u.row q, row_mem_apply hq, (u.key_row q).trans hkey, hrow q hq hkey hcovers⟩

/-- Every batch that was committed is covered by the claim of its key. -/
def World.Covered (w : World) : Prop :=
  ∀ c ∈ w.commits, ∃ q ∈ w.claims, q.key = c.key ∧ q.Covers (w.Retired c) c

theorem Step.covered (h : Step w a w') (hw : w.Covered) : w'.Covered := by
  intro c hc
  have hmore : (∀ r ∈ w.retirements, r ∈ w'.retirements) → w.Retired c → w'.Retired c :=
    fun hsub ⟨r, hr, hsame⟩ => ⟨r, hsub r hr, hsame⟩
  cases h with
  | ticked | worked | operated => exact hw c hc
  | reserved hnew =>
    obtain ⟨q, hq, hcovers⟩ := hw c hc
    exact ⟨q, (mem_insertNew_iff hnew).mpr (.inl hq), hcovers⟩
  | takenOver => exact exists_covers_apply (hw c hc) (fun _ _ _ => covers_takeOver)
  | @reclaimed x key fingerprint ttl batchId now generation =>
    refine exists_covers_apply (hw c hc) (fun q _ hkey hq => ?_)
    have hq := hq.mono (hmore (fun r hr => mem_cons_of_mem _ hr))
    by_cases happ : q.key = key
    · exact covers_reclaim hq (fun hbatch =>
        ⟨_, mem_cons_self, happ.symm.trans hkey, hbatch.symm⟩)
    · rw [row_of_not_applies (by simp [reclaimUpdate, happ])]
      exact hq
  | renewed => exact exists_covers_apply (hw c hc) (fun _ _ _ => covers_renew)
  | released => exact exists_covers_apply (hw c hc) (fun _ _ _ => covers_release)
  | @committed x command now held q hheld hbatch hrecord hq howned hlease =>
    rcases mem_cons.mp hc with rfl | hc
    · obtain ⟨hkey, -, hgeneration, -⟩ := isOwned_iff.mp howned
      have happ : (completeUpdate held w.nextBatch (command.expiresAt now) now).applies q =
          true := by simp [completeUpdate, howned, hlease]
      refine ⟨_, row_mem_apply hq, (key_row _ q).trans hkey, ?_⟩
      rw [row_of_applies happ]
      exact .inl ⟨rfl, hgeneration⟩
    · exact exists_covers_apply (hw c hc) (fun _ _ _ => covers_complete)
  | rescheduled hnext =>
    obtain ⟨-, hclaims, hcommits, hretirements, -⟩ := reschedule_frame hnext
    rw [hcommits] at hc
    unfold World.Retired
    rw [hclaims, hretirements]
    exact hw c hc
  | cleaned => exact exists_covers_apply (hw c hc) (fun _ _ _ => covers_keepExpiry)

theorem covered_of_reachable (h : idempotency.Reachable w) : w.Covered := by
  refine h.invariant ?_ ?_
  · rintro _ rfl c hc
    cases hc
  · intro s a t hs hnext
    exact (step_of_next hnext).2.covered hs

/-- A client that commits holds the claim, and the batches before are retired. -/
theorem World.Covered.of_commit (hw : w.Covered) {held : Holding} (hq : q ∈ w.claims)
    (howned : q.isOwned held = true) (hc : c ∈ w.commits) (hkey : c.key = held.key) :
    c.generation < held.generation ∧ w.Retired c := by
  obtain ⟨hqkey, -, hgeneration, -⟩ := isOwned_iff.mp howned
  obtain ⟨q', hq', hkey', hcovers⟩ := hw c hc
  obtain rfl : q' = q := eq_of_key_eq hq' hq (hkey'.trans (hkey.trans hqkey.symm))
  rw [← hgeneration]
  exact hcovers.past (not_completed_of_owned howned)

/-! ## Generations -/

def World.OnePerGeneration (w : World) : Prop :=
  w.commits.Pairwise (fun c d => c.key = d.key → c.generation ≠ d.generation)

theorem Step.onePerGeneration (h : Step w a w') (hcovered : w.Covered) (hw : w.OnePerGeneration) :
    w'.OnePerGeneration := by
  cases h with
  | committed hheld hbatch hrecord hq howned hlease =>
    refine pairwise_cons.mpr ⟨fun d hd hkey heq => ?_, hw⟩
    have hlt := (hcovered.of_commit hq howned hd hkey.symm).1
    exact absurd heq.symm hlt.ne
  | rescheduled hnext =>
    unfold World.OnePerGeneration
    rw [(reschedule_frame hnext).2.2.1]
    exact hw
  | _ => exact hw

theorem onePerGeneration_of_reachable (h : idempotency.Reachable w) : w.OnePerGeneration := by
  have hboth : w.Covered ∧ w.OnePerGeneration := by
    refine Machine.Reachable.invariant (I := fun w => w.Covered ∧ w.OnePerGeneration) ?_ ?_ h
    · rintro _ rfl
      refine ⟨fun c hc => ?_, .nil⟩
      cases hc
    · intro s a t hs hnext
      have hstep := (step_of_next hnext).2
      exact ⟨hstep.covered hs.1, hstep.onePerGeneration hs.1 hs.2⟩
  exact hboth.2

/-! ## Holders -/

/-- No two clients were given the same token. -/
structure World.Distinct (w : World) : Prop where
  lt : ∀ x h, w.held x = some h → h.token < w.nextToken
  eq : ∀ x y hx hy, w.held x = some hx → w.held y = some hy → hx.token = hy.token → x = y

theorem World.Distinct.setHeld {w₁ : World} (hw : w.Distinct) (hheld : w₁.held = w.held)
    (hnext : w₁.nextToken = w.nextToken) (x : ℕ) (htoken : h.token = w.nextToken) :
    (w₁.setHeld x h).Distinct := by
  have hcases : ∀ y g, (w₁.setHeld x h).held y = some g →
      (y = x ∧ g = h) ∨ (y ≠ x ∧ w.held y = some g) := by
    intro y g hy
    simp only [World.setHeld, hheld] at hy
    by_cases hxy : y = x
    · subst hxy
      rw [Function.update_self] at hy
      exact .inl ⟨rfl, (Option.some.inj hy).symm⟩
    · rw [Function.update_of_ne hxy] at hy
      exact .inr ⟨hxy, hy⟩
  constructor
  · intro y g hy
    show g.token < w₁.nextToken + 1
    rw [hnext]
    rcases hcases y g hy with ⟨-, rfl⟩ | ⟨-, hy⟩
    · rw [htoken]
      exact Nat.lt_succ_self _
    · exact Nat.lt_succ_of_lt (hw.lt y g hy)
  · intro y z hy hz hheldy hheldz htokens
    rcases hcases y hy hheldy with ⟨rfl, rfl⟩ | ⟨-, hheldy⟩
    · rcases hcases z hz hheldz with ⟨rfl, rfl⟩ | ⟨-, hheldz⟩
      · rfl
      · have hlt := hw.lt z hz hheldz
        rw [← htokens, htoken] at hlt
        exact absurd hlt (lt_irrefl _)
    · rcases hcases z hz hheldz with ⟨rfl, rfl⟩ | ⟨-, hheldz⟩
      · have hlt := hw.lt y hy (by assumption)
        rw [htokens, htoken] at hlt
        exact absurd hlt (lt_irrefl _)
      · exact hw.eq y z hy hz hheldy hheldz htokens

theorem Step.distinct (h : Step w a w') (hw : w.Distinct) : w'.Distinct := by
  cases h with
  | reserved | takenOver | reclaimed =>
    refine hw.setHeld ?_ ?_ _ ?_ <;> rfl
  | rescheduled hnext =>
    obtain ⟨-, -, -, -, hheld, htoken, -⟩ := reschedule_frame hnext
    constructor
    · rw [hheld, htoken]
      exact hw.lt
    · rw [hheld]
      exact hw.eq
  | _ => exact ⟨hw.lt, hw.eq⟩

theorem distinct_of_reachable (h : idempotency.Reachable w) : w.Distinct := by
  refine h.invariant ?_ ?_
  · rintro _ rfl
    refine ⟨fun x h hx => ?_, fun x y hx hy hheld => ?_⟩
    · cases hx
    · cases hheld
  · intro s a t hs hnext
    exact (step_of_next hnext).2.distinct hs

/-! ## Idempotent acceptance -/

/-- What a step that adds a batch has found. -/
theorem Step.of_new_commit (h : Step w a w') (hc : c ∈ w'.commits) (hnew : c ∉ w.commits) :
    ∃ command now held q, a = .commit c.client command now ∧ w.held c.client = some held ∧
    held.key = c.key ∧ held.generation = c.generation ∧ q ∈ w.claims ∧
    q.isOwned held = true ∧ now < q.expiresAt := by
  cases h with
  | rescheduled hnext =>
    rw [(reschedule_frame hnext).2.2.1] at hc
    exact absurd hc hnew
  | @committed x command now held q hheld hbatch hrecord hq howned hlease =>
    rcases mem_cons.mp hc with rfl | hc
    · exact ⟨command, now, held, q, rfl, hheld, rfl, rfl, hq, howned, hlease⟩
    · exact absurd hc hnew
  | _ => exact absurd hc hnew

/-- At most one batch is committed for a generation of a claim.  The client that commits holds the
token and the generation of an active claim that has not expired, and no other client was given
that token.  The results of the batches that were committed before under the key have been
retired, each after it had expired and when the work of its batch was not protected. -/
theorem one_batch_per_generation {w : World} (h : idempotency.Reachable w) :
    w.commits.Pairwise (fun c d => c.key = d.key → c.generation ≠ d.generation) ∧
    ∀ a w', idempotency.next w a = some w' → ∀ c ∈ w'.commits, c ∉ w.commits →
      (∃ command now held, a = .commit c.client command now ∧ w.held c.client = some held ∧
        (∃ q ∈ w.claims, q.key = c.key ∧ q.state = .active ∧ now < q.expiresAt ∧
          q.token = held.token ∧ q.generation = held.generation ∧ q.generation = c.generation) ∧
        ∀ y other, y ≠ c.client → w.held y = some other → other.token ≠ held.token) ∧
      ∀ d ∈ w.commits, d.key = c.key → ∃ r ∈ w.retirements, r.key = d.key ∧ r.batchId = d.batchId ∧
          r.expiresAt ≤ r.retiredAt ∧ r.wasProtected = false := by
  refine ⟨onePerGeneration_of_reachable h, ?_⟩
  intro a w' hnext c hc hnew
  obtain ⟨command, now, held, q, ha, hheld, hkey, hgeneration, hq, howned, hlease⟩ :=
    (step_of_next hnext).2.of_new_commit hc hnew
  obtain ⟨hqkey, htoken, hqgeneration, hactive⟩ := isOwned_iff.mp howned
  constructor
  · refine ⟨command, now, held, ha, hheld, ?_, ?_⟩
    · exact ⟨q, hq, hqkey.trans hkey, hactive, hlease, htoken, hqgeneration,
        hqgeneration.trans hgeneration⟩
    · intro y other hy hother heq
      exact hy ((distinct_of_reachable h).eq y c.client other held hother hheld heq)
  · intro d hd hdkey
    obtain ⟨r, hr, hrkey, hrbatch⟩ :=
      ((covered_of_reachable h).of_commit hq howned hd (hdkey.trans hkey.symm)).2
    exact ⟨r, hr, hrkey, hrbatch, due_of_reachable h r hr⟩

/-! ## A key that is used twice -/

def sampleKey : Key := ⟨.app, "1", "order"⟩

def sampleCommand : BatchCommand :=
  ⟨.queued, 1, false, false, some 1, none, none, some ⟨"aa", 1⟩, none⟩

/-- The first batch, with its work done. -/
def finishedBatch : Batch :=
  { sampleCommand.batch 0 "order" with status := .completed, chunks := [.submitted] }

/-- A batch is committed, and a day later another client claims its key. -/
def reuseRun : List Action :=
  [.reserve 0 sampleKey "aa" 30 none 0, .commit 0 sampleCommand 0, .work finishedBatch,
    .tick 86400, .reserve 1 sampleKey "bb" 30 (some 0) 86400]

theorem one_batch_per_generation_reused : ∃ w w', idempotency.run World.start reuseRun = some w ∧
      idempotency.next w (.commit 1 sampleCommand 86400) = some w' ∧
      w'.commits = [⟨1, sampleKey, 2, 1⟩, ⟨0, sampleKey, 1, 0⟩] ∧
      ∃ r ∈ w.retirements, r.batchId = 0 ∧ r.expiresAt ≤ r.retiredAt ∧ r.wasProtected = false := by
  have hrun : ∃ w w', idempotency.run .start reuseRun = some w ∧
      idempotency.next w (.commit 1 sampleCommand 86400) = some w' ∧
      w'.commits = [⟨1, sampleKey, 2, 1⟩, ⟨0, sampleKey, 1, 0⟩] ∧
      w.commits = [⟨0, sampleKey, 1, 0⟩] := by
    refine ⟨_, _, rfl, rfl, ?_, ?_⟩ <;> decide +kernel
  obtain ⟨w, w', hrun, hnext, hcommits, hbefore⟩ := hrun
  have hstart : idempotency.Reachable .start := .init rfl
  have hw : idempotency.Reachable w := hstart.run hrun
  have hnew : (⟨1, sampleKey, 2, 1⟩) ∈ w'.commits := by
    rw [hcommits]
    exact mem_cons_self
  have hfresh : (⟨1, sampleKey, 2, 1⟩) ∉ w.commits := by
    rw [hbefore]
    decide
  have hold : (⟨0, sampleKey, 1, 0⟩) ∈ w.commits := by
    rw [hbefore]
    exact mem_cons_self
  obtain ⟨r, hr, -, hbatch, hdue⟩ :=
    ((one_batch_per_generation hw).2 _ w' hnext _ hnew hfresh).2 _ hold rfl
  exact ⟨w, w', hrun, hnext, hcommits, r, hr, hbatch, hdue⟩

end SmsPlatform.Idempotency
