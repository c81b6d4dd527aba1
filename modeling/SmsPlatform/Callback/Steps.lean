import SmsPlatform.Callback.System

/-!
# What a step does

`Step` lists the steps of the callbacks with the guard that made each of them possible.  Steps
that only move a worker out of its delivery are one case.  Every invariant is proved by cases on
`Step`.
-/

namespace SmsPlatform.Callback

open Support Table Option

/-- The leases that `acquire_authority` and `ensure_callback_authority_idle` leave. -/
def World.unexpired (w : World) (appId : AppId) (now : Time) : Table AuthorityLease.appId :=
  w.authorities.keep fun r => !decide (r.appId = appId ∧ r.expiresAt ≤ now)

variable {appId : AppId}

theorem World.mem_unexpired_iff {w : World} {now : Time} {r : AuthorityLease} :
    r ∈ w.unexpired appId now ↔ r ∈ w.authorities ∧ (r.appId = appId → now < r.expiresAt) := by
  simp [unexpired, imp_iff_not_or]

/-- The worker leaves its delivery, with its claim or without. -/
structure Retreat (before after : WorkerPc) : Prop where
  claim : ∀ c, after.claim? = some c → before.claim? = some c
  away : after.isAway = true

theorem Retreat.of_none {before after : WorkerPc} (hafter : after.claim? = none)
    (haway : after.isAway = true) : Retreat before after := by
  refine ⟨fun c hc => ?_, haway⟩
  rw [hafter] at hc
  cases hc

theorem Retreat.of_claim {before after : WorkerPc} {c : CallbackClaim}
    (hbefore : before.claim? = some c) (hafter : after.claim? = some c)
    (haway : after.isAway = true) : Retreat before after :=
  ⟨fun d hd => by rw [hbefore, ← hafter, hd], haway⟩

inductive Step (setting : Setting) (w : World) : Action → World → Prop
  | ticked {seconds} : Step setting w (.tick seconds) { w with clock := w.clock + seconds }
  | appCreated {a} (hfresh : ∀ x ∈ w.apps.rows, x.id ≠ a.id) :
      Step setting w (.createApp a) { w with apps := w.apps.insertNew a hfresh }
  | stayed {a} : Step setting w a w
  | reportAppended {id e now t} (hfresh : ∀ x ∈ w.events.rows, x.key ≠ e.key)
      (hopen : openTask w.tasks w.apps e.batchId now = some t) :
      Step setting w (.enqueueReport id e now)
        (w.record setting (w.tasks.apply (appendUpdate t.id e)) e hfresh)
  | reportCreated {id e now url secret} (hfresh : ∀ x ∈ w.events.rows, x.key ≠ e.key)
      (haccepts : (w.apps.find? (setting.appOf e.batchId)).any App.acceptsReports = true)
      (hid : ∀ x ∈ w.tasks.rows, x.id ≠ id) :
      Step setting w (.enqueueReport id e now) (w.record setting (w.tasks.insertNew
        ((newTask id (setting.appOf e.batchId) .messageReport e.batchId url secret now).append e)
        hid) e hfresh)
  | reportDropped {id e now} (hfresh : ∀ x ∈ w.events.rows, x.key ≠ e.key)
      (haccepts : (w.apps.find? (setting.appOf e.batchId)).any App.acceptsReports = false) :
      Step setting w (.enqueueReport id e now) (w.record setting w.tasks e hfresh)
  | finishedCreated {id batchId now url secret} (hid : ∀ x ∈ w.tasks.rows, x.id ≠ id) :
      Step setting w (.enqueueFinished id batchId now) { w with
          tasks := w.tasks.insertNew (newTask id (setting.appOf batchId) .batchFinished batchId url
            secret now) hid }
  | restored {taskId t a} (ht : t ∈ w.tasks) (hid : t.id = taskId)
      (happ : (manualRetryUpdate taskId a (setting.legacyUnavailable taskId)).applies t = true) :
      Step setting w (.manualRetry taskId) { w with
          tasks := w.tasks.apply (manualRetryUpdate taskId a (setting.legacyUnavailable taskId))
          restored := Function.update w.restored taskId true }
  | claimed {x t leaseSeconds now} (hpc : w.worker x = .idle) (ht : t ∈ w.tasks)
      (hdue : t.isDue now = true) :
      Step setting w (.claim x t.id leaseSeconds now) ({ w with
          tasks := w.tasks.apply (claimUpdate t.id w.nextLease leaseSeconds now)
          nextLease := w.nextLease + 1
          lastClaim := Function.update w.lastClaim t.id (some (x, w.nextLease))
          }.setWorker x (.claimed ⟨t.id, t.appId, t.retryCount, w.nextLease⟩))
  | retreated {a x pc} (h : Retreat (w.worker x) pc) : Step setting w a (w.setWorker x pc)
  | beaten {x c leaseSeconds now} (hpc : (w.worker x).claim? = some c) :
      Step setting w (.beat x leaseSeconds now) { w with
          tasks := w.tasks.apply (heartbeatUpdate c.taskId c.leaseId leaseSeconds now)
          authorities := w.authorities.apply (World.extendAuthority c (now + leaseSeconds))
          grants :=
            if 0 < w.authorities.rowcount (World.extendAuthority c (now + leaseSeconds)) then
              Function.update w.grants c.leaseId
                ((w.grants c.leaseId).map fun g => { g with expiresAt := now + leaseSeconds })
            else w.grants }
  | acquired {x c t answered now} (hpc : w.worker x = .claimed c)
      (ht : w.tasks.find? c.taskId = some t) (hlock : w.isLocked t.appId = false)
      (hfree : ∀ r ∈ (w.unexpired t.appId now).rows, r.appId ≠ t.appId) :
      Step setting w (.acquire x answered now) ({ w with
          authorities := (w.unexpired t.appId now).insertNew
            ⟨t.appId, t.id, c.leaseId, now + World.authoritySeconds⟩ hfree
          grants := Function.update w.grants c.leaseId
            (some ⟨t.id, t.appId, now + World.authoritySeconds, false⟩)
          }.setWorker x
            (if answered then .acquired c else .settling c (.failed "OperationalError")))
  | acquireRefused {x appId pc answered now} (h : Retreat (w.worker x) pc) :
      Step setting w (.acquire x answered now)
        ({ w with authorities := w.unexpired appId now }.setWorker x pc)
  | loaded {x c t now} (hpc : w.worker x = .acquired c) (ht : w.tasks.find? c.taskId = some t) :
      Step setting w (.load x now) (w.setWorker x (.loaded c t))
  | confirmed {x c material t a now} (hpc : w.worker x = .loaded c material)
      (ht : w.tasks.find? c.taskId = some t) (hlock : w.isLocked t.appId = false)
      (ha : w.apps.find? t.appId = some a) (hauth : a.authorizes t = true)
      (hrow : 0 < w.authorities.rowcount (World.confirmUpdate t.appId c now)) :
      Step setting w (.confirm x now) ({ w with
          authorities := w.authorities.apply (World.confirmUpdate t.appId c now)
          grants := Function.update w.grants c.leaseId
            (some ⟨t.id, t.appId, now + World.authoritySeconds, true⟩)
          }.setWorker x (.confirmed c material a.config))
  | posted {x c material current answer outcome}
      (hpc : w.worker x = .confirmed c material current) :
      Step setting w (.post x answer) ({ w with
          posts := ⟨c.taskId, c.leaseId, material.url, material.callbackSecretEnc, current⟩ ::
            w.posts }.setWorker x (.releasing c (some outcome)))
  | released {x c outcome pc} (hpc : w.worker x = .releasing c outcome)
      (hpending : w.isPending c = false) (h : Retreat (w.worker x) pc) :
      Step setting w (.release x true) ({ w with
          authorities := w.authorities.keep fun r =>
            !decide (r.taskId = c.taskId ∧ r.leaseId = c.leaseId)
          grants := Function.update w.grants c.leaseId none }.setWorker x pc)
  | settled {x c outcome schedule now} (hpc : w.worker x = .settling c outcome) :
      Step setting w (.settle x schedule now)
        ({ w with tasks := w.tasks.apply (settlement schedule c outcome now) }.setWorker x .done)
  | changeBegun {appId now} (hfree : ∀ change ∈ w.changes.rows, change.appId ≠ appId)
      (hidle : ∀ r ∈ w.unexpired appId now, r.appId ≠ appId) :
      Step setting w (.beginChange appId now) { w with
          authorities := w.unexpired appId now
          changes := w.changes.insertNew ⟨appId, now,
            (w.authorities.find? appId).filter fun r => decide (r.expiresAt ≤ now)⟩ hfree }
  | changeCommitted {new old change unseen} (hchange : w.changes.find? new.id = some change) :
      Step setting w (.commitChange new unseen) { w with
          apps := w.apps.put new
          tasks := w.tasks.apply (revokeUpdate old new unseen change.now)
          changes := w.changes.keep fun c => decide (c.appId ≠ new.id) }
  | changeAborted {appId change} (hchange : w.changes.find? appId = some change) :
      Step setting w (.abortChange appId) { w with
          authorities := change.rollback w.authorities
          changes := w.changes.keep fun c => decide (c.appId ≠ appId) }

/-! ## Every step is one of these -/

section

variable {setting : Setting} {w w' : World} {now : Time} {x : ℕ} {a : Action}

theorem step_retreat {before after : WorkerPc} {c : CallbackClaim}
    (hpc : w.worker x = before) (hbefore : before.claim? = some c) (hafter : after.claim? = some c)
    (haway : after.isAway = true) : Step setting w a (w.setWorker x after) :=
  .retreated (.of_claim (hpc ▸ hbefore) hafter haway)

theorem step_enqueueReport {id : TaskId} {e : ReportEvent}
    (h : w.enqueueReport setting id e now = some w') :
    Step setting w (.enqueueReport id e now) w' := by
  unfold World.enqueueReport at h
  split at h
  · rename_i hfresh
    obtain ⟨tasks, hplace, rfl⟩ := map_eq_some_iff.mp h
    unfold placeReport at hplace
    split at hplace
    · rename_i t hopen
      cases hplace
      exact .reportAppended hfresh hopen
    split at hplace
    · rename_i appId url secret happ
      split at hplace
      · rename_i hid
        cases hplace
        exact .reportCreated hfresh (by rw [happ]; rfl) hid
      · cases hplace
    · rename_i hrefuse
      cases hplace
      refine .reportDropped hfresh ?_
      cases happ : w.apps.find? (setting.appOf e.batchId) with
      | none => rfl
      | some a =>
        obtain ⟨appId, isActive, url, secret, enabled⟩ := a
        cases isActive <;> cases url <;> cases secret <;> cases enabled <;>
          first | rfl | exact absurd happ (hrefuse _ _ _)
  · cases h
    exact .stayed

theorem step_enqueueFinished {id : TaskId} {batchId : BatchId}
    (h : w.enqueueFinished setting id batchId now = some w') :
    Step setting w (.enqueueFinished id batchId now) w' := by
  unfold World.enqueueFinished at h
  split at h
  · rename_i appId url secret enabled happ
    obtain ⟨-, hkey⟩ := find?_eq_some_iff.mp happ
    split at h
    · rename_i hid
      cases h
      have happId : appId = setting.appOf batchId := hkey
      subst happId
      exact .finishedCreated hid
    · cases h
  · cases h
    exact .stayed

theorem step_manualRetry {taskId : TaskId} (h : w.manualRetry setting taskId = some w') :
    Step setting w (.manualRetry taskId) w' := by
  obtain ⟨t, ht, h⟩ := bind_eq_some_iff.mp h
  obtain ⟨a, -, h⟩ := bind_eq_some_iff.mp h
  obtain ⟨hmem, hid⟩ := find?_eq_some_iff.mp ht
  dsimp only at h
  split at h
  · rename_i happ
    cases h
    exact .restored hmem hid happ
  · cases h

variable {leaseSeconds : Time}

theorem step_claim {taskId : TaskId} (h : w.claim x taskId leaseSeconds now = some w') :
    Step setting w (.claim x taskId leaseSeconds now) w' := by
  unfold World.claim at h
  split at h
  · rename_i hpc
    split at h
    · cases h
    split at h
    · cases h
      exact .retreated (.of_none rfl rfl)
    rename_i t ht
    cases h
    obtain ⟨hfind, hdue⟩ := filter_eq_some_iff.mp ht
    obtain ⟨hmem, rfl⟩ := find?_eq_some_iff.mp hfind
    exact .claimed hpc hmem hdue
  · cases h

theorem step_beat (h : w.beat x leaseSeconds now = some w') :
    Step setting w (.beat x leaseSeconds now) w' := by
  obtain ⟨c, hpc, h⟩ := bind_eq_some_iff.mp h
  dsimp only at h
  split at h
  · cases h
  split at h
  · cases h
    exact .beaten hpc
  · cases h
    exact .stayed

theorem step_acquire {answered : Bool} (h : w.acquire x answered now = some w') :
    Step setting w (.acquire x answered now) w' := by
  unfold World.acquire at h
  split at h
  · rename_i c hpc
    have hretreat : ∀ kind, Retreat (w.worker x) (.settling c (.failed kind)) := fun kind =>
      .of_claim (by rw [hpc]; rfl) rfl rfl
    split at h
    · cases h
      exact .retreated (hretreat _)
    rename_i t ht
    split at h
    · cases h
    rename_i hlock
    dsimp only at h
    split at h
    · rename_i hfree
      split at h
      · cases h
        exact .acquired hpc ht (by simpa using hlock) hfree
      · cases h
        exact .acquireRefused (hretreat _)
    · cases h
      exact .retreated (hretreat _)
  · cases h

theorem step_load (h : w.load x now = some w') : Step setting w (.load x now) w' := by
  unfold World.load at h
  split at h
  · rename_i c hpc
    split at h
    · rename_i t ht
      cases h
      exact .loaded hpc (filter_eq_some_iff.mp ht).1
    · cases h
      exact step_retreat hpc rfl rfl rfl
  · cases h

theorem step_confirm (h : w.confirm x now = some w') : Step setting w (.confirm x now) w' := by
  unfold World.confirm at h
  split at h
  · rename_i c material hpc
    have hrefused : ∀ o, Step setting w (.confirm x now)
      (w.setWorker x (.releasing c o)) := fun _ =>
      step_retreat hpc rfl rfl rfl
    dsimp only at h
    split at h
    · cases h
      exact hrefused _
    rename_i t ht
    split at h
    · cases h
    rename_i hlock
    split at h
    · cases h
      exact hrefused _
    rename_i a ha
    split at h
    · rename_i hok
      cases h
      simp only [Bool.and_eq_true, decide_eq_true_eq, World.mayDeliver, ha] at hok
      exact .confirmed hpc ht (by simpa using hlock) ha hok.1.2 hok.2
    · cases h
      exact hrefused _
  · cases h

theorem step_post {answer : Except String ℕ} (h : w.post x answer = some w') :
    Step setting w (.post x answer) w' := by
  unfold World.post at h
  split at h
  · rename_i c material current hpc
    cases h
    exact .posted hpc
  · cases h

theorem step_raise {kind : String} (h : w.raise x kind = some w') :
    Step setting w (.raise x kind) w' := by
  unfold World.raise at h
  split at h <;> cases h <;> rename_i hpc
  all_goals exact step_retreat hpc rfl rfl rfl

theorem step_lose (h : w.lose x = some w') : Step setting w (.lose x) w' := by
  have hdone : Step setting w (.lose x) (w.setWorker x .done) := .retreated (.of_none rfl rfl)
  unfold World.lose at h
  split at h <;> cases h <;> rename_i hpc
  · exact hdone
  · exact hdone
  all_goals exact step_retreat hpc rfl rfl rfl

theorem step_release {reached : Bool} (h : w.release x reached = some w') :
    Step setting w (.release x reached) w' := by
  unfold World.release at h
  split at h
  · rename_i c outcome hpc
    have hretreat : Retreat (w.worker x) (.afterRelease c outcome) := by
      cases outcome with
      | none => exact .of_none rfl rfl
      | some o => exact .of_claim (by rw [hpc]; rfl) rfl rfl
    split at h
    · rename_i hreached
      split at h
      · cases h
      rename_i hpending
      cases h
      rw [hreached]
      exact .released hpc (by simpa using hpending) hretreat
    · cases h
      exact .retreated hretreat
  · cases h

theorem step_settle {schedule : RetrySchedule} (h : w.settle x schedule now = some w') :
    Step setting w (.settle x schedule now) w' := by
  unfold World.settle at h
  split at h
  · rename_i c outcome hpc
    cases h
    exact .settled hpc
  · cases h

theorem step_beginChange (h : w.beginChange appId now = some w') :
    Step setting w (.beginChange appId now) w' := by
  unfold World.beginChange at h
  split at h
  · rename_i hfree
    dsimp only at h
    split at h
    · cases h
    rename_i hidle
    cases h
    refine .changeBegun hfree ?_
    exact find?_eq_none_iff.mp (not_isSome_iff_eq_none.mp hidle)
  · cases h

theorem step_commitChange {new : App} {unseen : List TaskId}
    (h : w.commitChange new unseen = some w') : Step setting w (.commitChange new unseen) w' := by
  obtain ⟨change, hchange, h⟩ := bind_eq_some_iff.mp h
  obtain ⟨old, -, rfl⟩ := map_eq_some_iff.mp h
  exact .changeCommitted hchange

theorem step_abortChange (h : w.abortChange appId = some w') :
    Step setting w (.abortChange appId) w' := by
  obtain ⟨change, hchange, rfl⟩ := map_eq_some_iff.mp h
  exact .changeAborted hchange

theorem step_createApp {a : App} (h : w.createApp a = some w') :
    Step setting w (.createApp a) w' := by
  unfold World.createApp at h
  split at h
  · cases h
    exact .appCreated _
  · cases h

/-- Every step of the machine is listed, and its transaction did not begin in the future. -/
theorem step_of_next (h : w.next setting a = some w') :
    a.began ≤ w.clock ∧ Step setting w a w' := by
  obtain ⟨hbegan, h⟩ := ite_none_right_eq_some.mp h
  refine ⟨hbegan, ?_⟩
  cases a with
  | tick seconds =>
    cases h
    exact .ticked
  | createApp a => exact step_createApp h
  | enqueueReport id e now => exact step_enqueueReport h
  | enqueueFinished id batchId now => exact step_enqueueFinished h
  | manualRetry taskId => exact step_manualRetry h
  | claim x taskId leaseSeconds now => exact step_claim h
  | beat x leaseSeconds now => exact step_beat h
  | acquire x answered now => exact step_acquire h
  | load x now => exact step_load h
  | confirm x now => exact step_confirm h
  | post x answer => exact step_post h
  | raise x kind => exact step_raise h
  | lose x => exact step_lose h
  | release x reached => exact step_release h
  | settle x schedule now => exact step_settle h
  | beginChange appId now => exact step_beginChange h
  | commitChange new unseen => exact step_commitChange h
  | abortChange appId => exact step_abortChange h

end

end SmsPlatform.Callback
