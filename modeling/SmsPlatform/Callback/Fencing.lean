import SmsPlatform.Callback.Rows

/-!
# Leases on callback tasks and the retry budget

A lease id is generated once and given to one worker.  The statements that settle a task name
it, so that a worker whose task has been claimed again changes nothing any more.  The number of
retries is raised by one statement only, which the worker issues while its schedule has a delay
left.
-/

namespace SmsPlatform.Callback

open Support Table Function Update

/-! ## Settlements -/

section

variable {schedule : RetrySchedule} {c : CallbackClaim} {outcome : DeliveryOutcome} {now : Time}
  {t : CallbackTask}

/-- Every settlement is a fenced statement on the claimed task that gives the lease back.  It
counts a retry only while the schedule has a delay left. -/
theorem settlement_cases (schedule : RetrySchedule) (c : CallbackClaim) (outcome : DeliveryOutcome)
    (now : Time) : ∃ retryCount o, settlement schedule c outcome now =
        settleUpdate c.taskId c.leaseId retryCount now o ∧
    (o.retried = true → retryCount = some c.retryCount ∧
      c.retryCount < schedule.delays.length ∧ outcome ≠ .failed authorityBusyError) := by
  unfold settlement
  split
  · exact ⟨_, _, rfl, nofun⟩
  split
  · exact ⟨_, _, rfl, nofun⟩
  rename_i hbusy
  split
  · rename_i delay hdelay
    refine ⟨_, _, rfl, fun _ => ⟨rfl, (List.getElem?_eq_some_iff.mp hdelay).1, ?_⟩⟩
    rintro rfl
    exact hbusy rfl
  · exact ⟨_, _, rfl, nofun⟩

theorem settlement_applies (h : (settlement schedule c outcome now).applies t = true) :
    t.id = c.taskId ∧ t.heldUnder c.leaseId now = true := by
  obtain ⟨retryCount, o, heq, -⟩ := settlement_cases schedule c outcome now
  rw [heq] at h
  simp only [settleUpdate, Bool.and_eq_true, decide_eq_true_eq] at h
  exact h.1

theorem settlement_leaseId : ((settlement schedule c outcome now).change t).leaseId = none := by
  obtain ⟨retryCount, o, heq, -⟩ := settlement_cases schedule c outcome now
  rw [heq]
  rfl

theorem settlement_retryCount_le (h : (settlement schedule c outcome now).applies t = true)
    (hle : t.retryCount ≤ schedule.delays.length) :
    ((settlement schedule c outcome now).change t).retryCount ≤ schedule.delays.length := by
  obtain ⟨retryCount, o, heq, hretried⟩ := settlement_cases schedule c outcome now
  rw [heq] at h ⊢
  cases ho : o.retried with
  | false => simpa [settleUpdate, ho] using hle
  | true =>
    obtain ⟨rfl, hlt, -⟩ := hretried ho
    simp only [settleUpdate, Bool.and_eq_true, decide_eq_true_eq, Option.all_some] at h
    simp only [settleUpdate, ho, h.2]
    exact hlt

/-- A delivery that found the authority busy is not counted. -/
theorem settlement_busy_retryCount :
    ((settlement schedule c (.failed authorityBusyError) now).change t).retryCount =
      t.retryCount := by
  obtain ⟨retryCount, o, heq, hretried⟩ :=
    settlement_cases schedule c (.failed authorityBusyError) now
  rw [heq]
  cases ho : o.retried with
  | false => simp [settleUpdate, ho]
  | true => exact absurd rfl (hretried ho).2.2

end

variable {a : Action} {c : CallbackClaim} {t t' : CallbackTask} {setting : Setting} {now : Time}
  {w w' : World}

theorem heldUnder_iff {leaseId : LeaseId} :
    t.heldUnder leaseId now = true ↔ t.status = .retrying ∧ t.leaseId = some leaseId ∧
    ∃ expiry, t.leaseExpiresAt = some expiry ∧ now < expiry := by
  simp [CallbackTask.heldUnder, Option.any_eq_true, and_assoc]

variable {schedule : RetrySchedule}

theorem settlement_retrying {outcome : DeliveryOutcome}
    (h : (settlement schedule c outcome now).applies t = true) : t.status = .retrying :=
  (heldUnder_iff.mp (settlement_applies h).2).1

/-! ## Lease ids -/

/-- Lease ids stem from the generator, and each of them belongs to one worker. -/
structure Fenced (w : World) : Prop where
  claim_lt : ∀ x c, (w.worker x).claim? = some c → c.leaseId < w.nextLease
  distinct : ∀ x c y d, (w.worker x).claim? = some c → (w.worker y).claim? = some d →
    c.leaseId = d.leaseId → x = y
  lease_last : ∀ t ∈ w.tasks, ∀ l, t.leaseId = some l → ∃ x, w.lastClaim t.id = some (x, l)
  last_lt : ∀ id x l, w.lastClaim id = some (x, l) → l < w.nextLease
  owner : ∀ id x l, w.lastClaim id = some (x, l) →
    ∀ y c, (w.worker y).claim? = some c → c.leaseId = l → y = x

/-- A step that is not a claim gives no worker a claim. -/
theorem Step.claims (h : Step setting w a w') :
    (w'.nextLease = w.nextLease ∧ w'.lastClaim = w.lastClaim ∧
      ∀ y c, (w'.worker y).claim? = some c → (w.worker y).claim? = some c) ∨
    ∃ x id c, w'.nextLease = w.nextLease + 1 ∧ c.leaseId = w.nextLease ∧
    w'.lastClaim = Function.update w.lastClaim id (some (x, w.nextLease)) ∧
    w'.worker = Function.update w.worker x (.claimed c) := by
  have hset : ∀ {w₁ : World} {x : ℕ} {pc : WorkerPc}, w₁.worker = w.worker →
      (∀ c, pc.claim? = some c → (w.worker x).claim? = some c) →
      ∀ y c, ((w₁.setWorker x pc).worker y).claim? = some c → (w.worker y).claim? = some c := by
    intro w₁ x pc hsame hpc y c hy
    simp only [World.setWorker, hsame] at hy
    by_cases hxy : y = x
    · subst hxy
      rw [update_self] at hy
      exact hpc c hy
    · rwa [update_of_ne hxy] at hy
  cases h with
  | @claimed x t => exact .inr ⟨x, t.id, _, rfl, rfl, rfl, rfl⟩
  | retreated h => exact .inl ⟨rfl, rfl, hset rfl h.claim⟩
  | acquireRefused h => exact .inl ⟨rfl, rfl, hset rfl h.claim⟩
  | released hpc hpending h => exact .inl ⟨rfl, rfl, hset rfl h.claim⟩
  | @acquired x c t answered now hpc =>
    refine .inl ⟨rfl, rfl, hset rfl (fun d hd => ?_)⟩
    rw [hpc]
    cases answered <;> exact hd
  | loaded hpc | confirmed hpc | posted hpc =>
    exact .inl ⟨rfl, rfl, hset rfl (fun d hd => by rw [hpc]; exact hd)⟩
  | settled hpc => exact .inl ⟨rfl, rfl, hset rfl (fun d hd => by cases hd)⟩
  | _ => exact .inl ⟨rfl, rfl, fun _ _ hy => hy⟩

/-- A lease id on a task is an old one of the task or the one just generated for it. -/
theorem RowStep.leaseId (h : RowStep setting w a w' t t') {l : LeaseId} (hl : t'.leaseId = some l) :
    t.leaseId = some l ∨ (l = w.nextLease ∧ ∃ x leaseSeconds now,
      a = .claim x t.id leaseSeconds now ∧ t.isDue now = true) := by
  cases h with
  | same | appended | beaten => exact .inl hl
  | restored | revoked => cases hl
  | claimed ha hdue =>
    cases hl
    exact .inr ⟨rfl, _, _, _, ha, hdue⟩
  | settled ha hpc happ =>
    rw [settlement_leaseId] at hl
    cases hl

/-- What a task is about never changes. -/
theorem RowStep.identity (h : RowStep setting w a w' t t') :
    t'.appId = t.appId ∧ t'.batchId = t.batchId ∧ t'.url = t.url ∧
    t'.callbackSecretEnc = t.callbackSecretEnc := by
  cases h with
  | same | appended | restored | claimed | beaten | revoked => exact ⟨rfl, rfl, rfl, rfl⟩
  | @settled x c outcome schedule now =>
    obtain ⟨retryCount, o, heq, -⟩ := settlement_cases schedule c outcome now
    rw [heq]
    exact ⟨rfl, rfl, rfl, rfl⟩

/-- The lease on a task is the one under which it was claimed last. -/
theorem Step.lease_last (h : Step setting w a w')
    (hlast : ∀ t ∈ w.tasks, ∀ l, t.leaseId = some l → ∃ x, w.lastClaim t.id = some (x, l)) :
    ∀ t' ∈ w'.tasks, ∀ l, t'.leaseId = some l → ∃ x, w'.lastClaim t'.id = some (x, l) := by
  have hother : w'.lastClaim = w.lastClaim →
    (∀ x id leaseSeconds now, a ≠ .claim x id leaseSeconds now) →
      ∀ t' ∈ w'.tasks, ∀ l, t'.leaseId = some l → ∃ x, w'.lastClaim t'.id = some (x, l) := by
    intro hsame hclaim t' ht' l hl
    rw [hsame]
    rcases h.task_cases ht' with ⟨t, ht, hid⟩ | ⟨hnew, -⟩
    · rcases (h.rowStep ht ht' hid).leaseId hl with hold | ⟨-, x, leaseSeconds, now, ha, -⟩
      · rw [hid]
        exact hlast t ht l hold
      · exact absurd ha (hclaim x t.id leaseSeconds now)
    · cases hnew <;> cases hl
  cases h with
  | reportAppended | reportCreated | finishedCreated | restored | beaten | settled
  | changeCommitted => exact hother rfl nofun
  | @claimed x u leaseSeconds now hpc hu hdue =>
    intro t' ht' l hl
    obtain ⟨t, ht, rfl⟩ := mem_apply_iff.mp ht'
    have hkey : ((claimUpdate u.id w.nextLease leaseSeconds now).row t).id = t.id :=
      key_row _ t
    rw [hkey]
    by_cases hid : t.id = u.id
    · have hsame : t = u := eq_of_key_eq ht hu hid
      have happ : (claimUpdate u.id w.nextLease leaseSeconds now).applies t = true := by
        simp [claimUpdate, hsame, hdue]
      rw [row_of_applies happ] at hl
      cases hl
      exact ⟨x, by simp [World.setWorker, hid]⟩
    · have happ : (claimUpdate u.id w.nextLease leaseSeconds now).applies t = false := by
        simp [claimUpdate, hid]
      rw [row_of_not_applies happ] at hl
      simpa [World.setWorker, hid] using hlast t ht l hl
  | _ => exact hlast

theorem Fenced.distinct_step (hf : Fenced w) (h : Step setting w a w') (x : ℕ) (c : CallbackClaim)
    (y : ℕ) (d : CallbackClaim) (hx : (w'.worker x).claim? = some c)
    (hy : (w'.worker y).claim? = some d) (hlease : c.leaseId = d.leaseId) : x = y := by
  rcases h.claims with ⟨-, -, hworker⟩ | ⟨z, id, e, -, he, -, hworker⟩
  · exact hf.distinct x c y d (hworker x c hx) (hworker y d hy) hlease
  rw [hworker] at hx hy
  by_cases hxz : x = z <;> by_cases hyz : y = z
  · rw [hxz, hyz]
  · rw [hxz, update_self] at hx
    rw [update_of_ne hyz] at hy
    cases hx
    exact absurd (hlease.symm.trans he) (hf.claim_lt y d hy).ne
  · rw [hyz, update_self] at hy
    rw [update_of_ne hxz] at hx
    cases hy
    exact absurd (hlease.trans he) (hf.claim_lt x c hx).ne
  · rw [update_of_ne hxz] at hx
    rw [update_of_ne hyz] at hy
    exact hf.distinct x c y d hx hy hlease

theorem fenced_step (hf : Fenced w) (h : Step setting w a w') : Fenced w' := by
  refine ⟨?_, hf.distinct_step h, h.lease_last hf.lease_last, ?_, ?_⟩
  · intro x c hc
    rcases h.claims with ⟨hnext, -, hworker⟩ | ⟨y, id, d, hnext, hd, -, hworker⟩
    · rw [hnext]
      exact hf.claim_lt x c (hworker x c hc)
    rw [hworker] at hc
    rw [hnext]
    by_cases hxy : x = y
    · subst hxy
      rw [update_self] at hc
      cases hc
      exact hd ▸ Nat.lt_succ_self w.nextLease
    · rw [update_of_ne hxy] at hc
      exact Nat.lt_succ_of_lt (hf.claim_lt x c hc)
  · intro id x l hl
    rcases h.claims with ⟨hnext, hlast, -⟩ | ⟨y, id', d, hnext, -, hlast, -⟩
    · rw [hlast] at hl
      rw [hnext]
      exact hf.last_lt id x l hl
    rw [hlast] at hl
    rw [hnext]
    by_cases hid : id = id'
    · subst hid
      rw [update_self] at hl
      cases hl
      exact Nat.lt_succ_self _
    · rw [update_of_ne hid] at hl
      exact Nat.lt_succ_of_lt (hf.last_lt id x l hl)
  · intro id x l hl y c hc hlease
    rcases h.claims with ⟨-, hlast, hworker⟩ | ⟨z, id', d, -, hd, hlast, hworker⟩
    · rw [hlast] at hl
      exact hf.owner id x l hl y c (hworker y c hc) hlease
    rw [hlast] at hl
    rw [hworker] at hc
    -- The new lease id is above all old ones, so it is only in the hands of `z`.
    by_cases hid : id = id' <;> by_cases hyz : y = z
    · subst hid
      rw [update_self] at hl
      cases hl
      exact hyz
    · subst hid
      rw [update_self] at hl
      cases hl
      rw [update_of_ne hyz] at hc
      exact absurd hlease (hf.claim_lt y c hc).ne
    · subst hyz
      rw [update_of_ne hid] at hl
      rw [update_self] at hc
      cases hc
      exact absurd (hlease.symm.trans hd) (hf.last_lt id x l hl).ne
    · rw [update_of_ne hid] at hl
      rw [update_of_ne hyz] at hc
      exact hf.owner id x l hl y c hc hlease

theorem fenced_of_reachable (h : (callbacks setting).Reachable w) : Fenced w := by
  refine h.invariant ?_ ?_
  · rintro _ ⟨apps, rfl⟩
    exact ⟨nofun, nofun, fun t ht => absurd ht (not_mem_empty t), nofun, nofun⟩
  · intro w a w' hf hnext
    exact fenced_step hf (step_of_next hnext).2

/-! ## The retry budget -/

/-- The number of delays in every schedule. -/
theorem retryCount_le_of_reachable (h : (callbacks setting).Reachable w) :
    ∀ t ∈ w.tasks, t.retryCount ≤ 5 := by
  refine h.invariant (I := fun w => ∀ t ∈ w.tasks, t.retryCount ≤ 5) ?_ ?_
  · rintro _ ⟨apps, rfl⟩ t ht
    exact absurd ht (not_mem_empty t)
  · intro w a w' hle hnext
    refine (step_of_next hnext).2.forall_tasks hle ?_ ?_
    · intro t t' ht hle hrow
      cases hrow with
      | same | appended | claimed | beaten => exact hle
      | restored | revoked => exact Nat.zero_le _
      | @settled x c outcome schedule now ha hpc happ =>
        have hbound := settlement_retryCount_le happ (schedule.length_eq ▸ hle)
        rwa [schedule.length_eq] at hbound
    · intro t' hnew
      cases hnew <;> exact Nat.zero_le _

/-! ## The main result -/

/-- The task ends, or its lease is given back. -/
def CallbackTask.SettledAs (t t' : CallbackTask) : Prop :=
  (t.status = .pending ∨ t.status = .retrying) ∧
    (t'.status = .done ∨ t'.status = .dead ∨ t.leaseId.isSome = true ∧ t'.leaseId = none)

theorem not_settledAs_of_eq (hstatus : t'.status = t.status) (hlease : t'.leaseId = t.leaseId) :
    ¬ t.SettledAs t' := by
  rintro ⟨hopen, hend⟩
  rw [hstatus, hlease] at hend
  rcases hend with hdone | hdead | ⟨hsome, hnone⟩
  · rw [hdone] at hopen
    simp at hopen
  · rw [hdead] at hopen
    simp at hopen
  · rw [hnone] at hsome
    cases hsome

theorem manualRetryUpdate_applies {taskId : TaskId} {app : App} {legacy : Bool}
    (h : (manualRetryUpdate taskId app legacy).applies t = true) : t.status = .dead := by
  simp only [manualRetryUpdate, Bool.and_eq_true, decide_eq_true_eq] at h
  exact h.1.1.2.1

/-- All statements but `manual_retry` only find tasks that are not over. -/
theorem RowStep.active (h : RowStep setting w a w' t t') :
    t' = t ∨ (a = .manualRetry t.id ∧ t.status = .dead) ∨ t.status = .pending ∨
      t.status = .retrying := by
  cases h with
  | same => exact .inl rfl
  | restored ha happ => exact .inr (.inl ⟨ha, manualRetryUpdate_applies happ⟩)
  | appended ha hopen =>
    simp only [CallbackTask.isOpen, decide_eq_true_eq] at hopen
    exact .inr (.inr (.inl hopen.2.2.1))
  | claimed ha hdue =>
    simp only [CallbackTask.isDue, Bool.or_eq_true, Bool.and_eq_true, decide_eq_true_eq] at hdue
    rcases hdue with (hpending | hretry) | hexpired
    · exact .inr (.inr (.inl hpending))
    · exact .inr (.inr (.inr hretry.1.1))
    · exact .inr (.inr (.inr hexpired.1.1))
  | beaten happ =>
    simp only [heartbeatUpdate, Bool.and_eq_true] at happ
    exact .inr (.inr (.inr (heldUnder_iff.mp happ.2).1))
  | settled ha hpc happ => exact .inr (.inr (.inr (settlement_retrying happ)))
  | revoked ha happ =>
    simp only [revokeUpdate, Bool.and_eq_true, decide_eq_true_eq] at happ
    exact .inr (.inr happ.1.1.2)

/-- Only the worker that claimed a task last settles it, as long as its lease has not run out,
unless a change of the application revokes the task. -/
theorem RowStep.settler (hf : Fenced w) (ht : t ∈ w.tasks) (h : RowStep setting w a w' t t')
    (hsettled : t.SettledAs t') : (∃ new unseen, a = .commitChange new unseen) ∨
    ∃ x c outcome schedule now, a = .settle x schedule now ∧ w.worker x = .settling c outcome ∧
    c.taskId = t.id ∧ w.lastClaim t.id = some (x, c.leaseId) ∧
    t.heldUnder c.leaseId now = true := by
  cases h with
  | same | appended | beaten => exact absurd hsettled (not_settledAs_of_eq rfl rfl)
  | claimed => exact absurd hsettled.2 (by simp [claimUpdate])
  | restored ha happ =>
    have hopen := hsettled.1
    rw [manualRetryUpdate_applies happ] at hopen
    simp at hopen
  | revoked ha => exact .inl ⟨_, _, ha⟩
  | @settled x c outcome schedule now ha hpc happ =>
    obtain ⟨hid, hheld⟩ := settlement_applies happ
    obtain ⟨y, hlast⟩ := hf.lease_last t ht c.leaseId (heldUnder_iff.mp hheld).2.1
    have hxy : x = y := hf.owner t.id y c.leaseId hlast x c (by rw [hpc]; rfl) rfl
    subst hxy
    exact .inr ⟨x, c, outcome, schedule, now, ha, hpc, hid.symm, hlast, hheld⟩

theorem RowStep.ended (h : RowStep setting w a w' t t')
    (hend : t.status = .done ∨ t.status = .dead) (hne : t' ≠ t) : a = .manualRetry t.id := by
  rcases h.active with hsame | ⟨ha, -⟩ | hopen | hopen
  · exact absurd hsame hne
  · exact ha
  all_goals
    rw [hopen] at hend
    simp at hend

/-- The settlement of a delivery that found the authority busy counts no retry. -/
theorem RowStep.busy {x : ℕ} (h : RowStep setting w (.settle x schedule now) w' t t')
    (hpc : w.worker x = .settling c (.failed authorityBusyError)) :
    t'.retryCount = t.retryCount := by
  cases h with
  | same | appended | claimed | beaten => rfl
  | restored ha | revoked ha => cases ha
  | settled ha hpc' happ =>
    cases ha
    rw [hpc] at hpc'
    cases hpc'
    exact settlement_busy_retryCount

theorem acquire_busy {x : ℕ} {answered : Bool} {r : AuthorityLease}
    (hpc : w.worker x = .claimed c) (ht : t ∈ w.tasks) (hid : t.id = c.taskId)
    (hr : r ∈ w.authorities) (happ : r.appId = t.appId) (hexpires : now < r.expiresAt)
    (h : w.acquire x answered now = some w') :
    w'.worker x = .settling c (.failed authorityBusyError) ∧ w'.tasks = w.tasks := by
  unfold World.acquire at h
  rw [hpc] at h
  simp only [find?_eq_some_iff.mpr ⟨ht, hid⟩] at h
  split at h
  · cases h
  split at h
  · rename_i hfree
    refine absurd happ (hfree r ?_)
    exact World.mem_unexpired_iff.mpr ⟨hr, fun _ => hexpires⟩
  · cases h
    exact ⟨update_self _ _ _, rfl⟩

/-- The lease of a task fences its settlement, and the retries stay within the schedule. -/
theorem callback_tasks_fenced {setting : Setting} {w : World}
    (h : (callbacks setting).Reachable w) :
    (∀ t ∈ w.tasks, ∀ schedule : RetrySchedule, t.retryCount ≤ schedule.delays.length) ∧
    ∀ a w', (callbacks setting).next w a = some w' → ∀ t ∈ w.tasks, ∀ t' ∈ w'.tasks, t'.id = t.id →
        (t.SettledAs t' → (∀ new unseen, a ≠ .commitChange new unseen) →
          ∃ x c outcome schedule now, a = .settle x schedule now ∧
            w.worker x = .settling c outcome ∧ c.taskId = t.id ∧
            w.lastClaim t.id = some (x, c.leaseId) ∧ t.heldUnder c.leaseId now = true) ∧
        (∀ x c answered now, a = .acquire x answered now → w.worker x = .claimed c →
          c.taskId = t.id → (∃ r ∈ w.authorities, r.appId = t.appId ∧ now < r.expiresAt) →
          w'.worker x = .settling c (.failed authorityBusyError) ∧ t' = t) ∧
        (∀ x c schedule now, a = .settle x schedule now →
          w.worker x = .settling c (.failed authorityBusyError) → t'.retryCount = t.retryCount) ∧
        ((t.status = .done ∨ t.status = .dead) → t' ≠ t → a = .manualRetry t.id) := by
  refine ⟨fun t ht schedule => ?_, fun a w' hnext t ht t' ht' hid => ?_⟩
  · rw [schedule.length_eq]
    exact retryCount_le_of_reachable h t ht
  · have hrow := (step_of_next hnext).2.rowStep ht ht' hid
    refine ⟨fun hsettled hno => ?_, ?_, ?_, hrow.ended⟩
    · rcases hrow.settler (fenced_of_reachable h) ht hsettled with ⟨new, unseen, ha⟩ | hholder
      · exact absurd ha (hno new unseen)
      · exact hholder
    · rintro x c answered now rfl hpc htask ⟨r, hr, happ, hexpires⟩
      have hacquire : w.acquire x answered now = some w' := by
        have hstep : w.next setting (.acquire x answered now) = some w' := hnext
        unfold World.next at hstep
        split at hstep
        · exact hstep
        · cases hstep
      obtain ⟨hbusy, htasks⟩ := acquire_busy hpc ht htask.symm hr happ hexpires hacquire
      rw [htasks] at ht'
      exact ⟨hbusy, eq_of_key_eq ht' ht hid⟩
    · rintro x c schedule now rfl hpc
      exact hrow.busy hpc

/-! ## A run with failing deliveries -/

def sampleApp : App := ⟨0, true, some (lit "callback"), some [0, 1], true⟩

def sampleApps : Table App.id := ⟨[sampleApp], by decide⟩

def sampleSetting : Setting := ⟨fun _ => 0, fun _ => false⟩

/-- The shortest schedule that the runtime policy admits. -/
def shortSchedule : RetrySchedule where
  delays := [1, 1, 1, 1, 1]
  length_eq := rfl
  bounds := by decide
  sorted := by decide

def sampleReport (key : EventKey) : ReportEvent := ⟨key, 7, key, 0, [], [], 0⟩

/-- The worker `x` claims task 1 and its delivery fails. -/
def failedAttempt (x : ℕ) (now : Time) : List Action :=
  [.claim x 1 30 now, .raise x "ConnectError", .settle x shortSchedule now, .tick 1]

/-- A report is enqueued, and all attempts to deliver it fail within a few seconds. -/
def exhaustedRun : List Action :=
  .enqueueReport 1 (sampleReport 100) 0 ::
    (failedAttempt 0 0 ++ failedAttempt 1 1 ++ failedAttempt 2 2 ++ failedAttempt 3 3 ++
      failedAttempt 4 4 ++ failedAttempt 5 5)

/-- The lease of worker 0 runs out while it has the authority, and worker 1 takes the task over. -/
def takeoverRun : List Action :=
  [.enqueueReport 1 (sampleReport 100) 0, .claim 0 1 3 0, .acquire 0 true 0, .tick 4,
    .claim 1 1 30 4]

/-- The new holder finds the authority busy. -/
theorem callback_tasks_fenced_takeover : ∃ w w',
    (callbacks sampleSetting).run (World.start sampleApps) takeoverRun = some w ∧
      (callbacks sampleSetting).next w (.acquire 1 true 4) = some w' ∧
      w.lastClaim 1 = some (1, 1) ∧ w.authorities.rows = [⟨0, 1, 0, 30⟩] ∧
      w'.worker 1 = .settling ⟨1, 0, 0, 1⟩ (.failed authorityBusyError) ∧
      ∃ t ∈ w.tasks, t ∈ w'.tasks := by
  have hrun : ∃ w w', (callbacks sampleSetting).run (.start sampleApps) takeoverRun = some w ∧
      (callbacks sampleSetting).next w (.acquire 1 true 4) = some w' ∧
      w.lastClaim 1 = some (1, 1) ∧ w.authorities.rows = [⟨0, 1, 0, 30⟩] ∧
      w.worker 1 = .claimed ⟨1, 0, 0, 1⟩ ∧ (∃ t ∈ w.tasks.rows, t.id = 1 ∧ t.appId = 0) ∧
      ∃ t' ∈ w'.tasks.rows, t'.id = 1 := by
    refine ⟨_, _, rfl, rfl, ?_, ?_, ?_, ?_, ?_⟩ <;> decide +kernel
  obtain ⟨w, w', hrun, hnext, hlast, hleases, hpc, ⟨t, ht, hid, happ⟩, t', ht', hid'⟩ := hrun
  have hstart : (callbacks sampleSetting).Reachable (.start sampleApps) :=
    .init ⟨sampleApps, rfl⟩
  have hbusy : ∃ r ∈ w.authorities, r.appId = t.appId ∧ 4 < r.expiresAt := by
    refine ⟨⟨0, 1, 0, 30⟩, ?_, happ.symm, by decide⟩
    rw [← mem_rows, hleases]
    exact List.mem_singleton_self _
  obtain ⟨hworker, rfl⟩ := ((callback_tasks_fenced (hstart.run hrun)).2 _ w' hnext t ht t' ht'
    (hid'.trans hid.symm)).2.1 1 _ true 4 rfl hpc hid.symm hbusy
  exact ⟨w, w', hrun, hnext, hlast, hleases, hworker, t', ht, ht'⟩

end SmsPlatform.Callback
