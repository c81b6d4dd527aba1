import SmsPlatform.Callback.Steps

/-!
# What a step does to one task and to one worker

A step leaves a task alone, appends a report to it, or rewrites it by one of the statements of
the repository.  `RowStep` lists these cases with the guard of each.  A task that appears in a
step is a new one.  `Move` lists what a step makes of a worker.
-/

namespace SmsPlatform.Callback

open Support Table Update List Bool

/-- In the step `a` from `w` to `w'` the task `t` becomes the last argument. -/
inductive RowStep (setting : Setting) (w : World) (a : Action) (w' : World) (t : CallbackTask) :
    CallbackTask → Prop
  | same : RowStep setting w a w' t t
  | appended {id e now} (ha : a = .enqueueReport id e now) (hopen : t.isOpen e.batchId now = true)
      (hfresh : ∀ x ∈ w.events.rows, x.key ≠ e.key) : RowStep setting w a w' t (t.append e)
  | restored {app} (ha : a = .manualRetry t.id)
      (happ : (manualRetryUpdate t.id app (setting.legacyUnavailable t.id)).applies t = true)
      (hrec : w'.restored t.id = true) :
      RowStep setting w a w' t
        ((manualRetryUpdate t.id app (setting.legacyUnavailable t.id)).change t)
  | claimed {x leaseSeconds now} (ha : a = .claim x t.id leaseSeconds now)
      (hdue : t.isDue now = true) :
      RowStep setting w a w' t ((claimUpdate t.id w.nextLease leaseSeconds now).change t)
  | beaten {c : CallbackClaim} {leaseSeconds now}
      (happ : (heartbeatUpdate c.taskId c.leaseId leaseSeconds now).applies t = true) :
      RowStep setting w a w' t ((heartbeatUpdate c.taskId c.leaseId leaseSeconds now).change t)
  | settled {x c outcome schedule now} (ha : a = .settle x schedule now)
      (hpc : w.worker x = .settling c outcome)
      (happ : (settlement schedule c outcome now).applies t = true) :
      RowStep setting w a w' t ((settlement schedule c outcome now).change t)
  | revoked {new old unseen now} (ha : a = .commitChange new unseen)
      (happ : (revokeUpdate old new unseen now).applies t = true) :
      RowStep setting w a w' t ((revokeUpdate old new unseen now).change t)

variable {a : Action} {t : CallbackTask} {setting : Setting} {w w' : World}

theorem mem_of_newest {ts : List CallbackTask} (h : newest ts = some t) : t ∈ ts := by
  induction ts generalizing t with
  | nil => cases h
  | cons u ts ih =>
    unfold newest at h
    split at h
    · cases h
      exact mem_cons_self
    rename_i v hv
    split at h
    · cases h
      exact mem_cons_self
    · cases h
      exact mem_cons_of_mem u (ih hv)

theorem openTask_eq_some {tasks : TaskTable} {apps : Table App.id} {batchId : BatchId}
    {now : Time} (h : openTask tasks apps batchId now = some t) :
    t ∈ tasks ∧ t.isOpen batchId now = true ∧
    (apps.find? t.appId).any (fun a => a.authorizes t) = true := by
  have hmem := mem_filter.mp (mem_of_newest h)
  rw [and_eq_true] at hmem
  exact ⟨hmem.1, hmem.2.1, hmem.2.2⟩

/-- Every step acts on every task through `RowStep`. -/
theorem Step.rowStep (h : Step setting w a w') {t' : CallbackTask} (ht : t ∈ w.tasks)
    (ht' : t' ∈ w'.tasks) (hid : t'.id = t.id) : RowStep setting w a w' t t' := by
  have hkeep : t' ∈ w.tasks → RowStep setting w a w' t t' := by
    intro hmem
    rw [eq_of_key_eq hmem ht hid]
    exact .same
  cases h with
  | @reportAppended id e now u hfresh hopen =>
    obtain ⟨hu, huopen, -⟩ := openTask_eq_some hopen
    rw [eq_row_of_mem_apply ht ht' hid]
    refine row_cases .same (fun happ => ?_)
    have hsame : t = u := eq_of_key_eq ht hu (of_decide_eq_true happ)
    exact .appended rfl (hsame ▸ huopen) hfresh
  | reportCreated _ _ hnew | finishedCreated hnew =>
    rcases (mem_insertNew_iff hnew).mp ht' with hmem | rfl
    · exact hkeep hmem
    · exact absurd hid.symm (hnew t ht)
  | @restored taskId u app hu huid happ =>
    rw [eq_row_of_mem_apply ht ht' hid]
    refine row_cases .same (fun happ => ?_)
    have htask : t.id = taskId := by
      simp only [manualRetryUpdate, and_eq_true, decide_eq_true_eq] at happ
      exact happ.1.1.1
    subst htask
    exact .restored rfl happ (by simp)
  | @claimed x u leaseSeconds now hpc hu hdue =>
    rw [eq_row_of_mem_apply ht ht' hid]
    refine row_cases .same (fun happ => ?_)
    have htask : t.id = u.id := by
      simp only [claimUpdate, and_eq_true, decide_eq_true_eq] at happ
      exact happ.1
    rw [← eq_of_key_eq ht hu htask] at hdue ⊢
    exact .claimed rfl hdue
  | beaten hpc =>
    rw [eq_row_of_mem_apply ht ht' hid]
    exact row_cases .same .beaten
  | settled hpc =>
    rw [eq_row_of_mem_apply ht ht' hid]
    exact row_cases .same (.settled rfl hpc)
  | changeCommitted hchange =>
    rw [eq_row_of_mem_apply ht ht' hid]
    exact row_cases .same (.revoked rfl)
  | _ => exact hkeep ht'

/-- A task that a step creates. -/
inductive NewTask (setting : Setting) (w : World) (a : Action) : CallbackTask → Prop
  | report {id e now url secret} (ha : a = .enqueueReport id e now)
      (hfresh : ∀ x ∈ w.events.rows, x.key ≠ e.key) :
      NewTask setting w a ((newTask id (setting.appOf e.batchId) .messageReport e.batchId url secret
        now).append e)
  | finished {id batchId now url secret} (ha : a = .enqueueFinished id batchId now) :
      NewTask setting w a (newTask id (setting.appOf batchId) .batchFinished batchId url secret now)

/-- A task of the new state was there before or is new. -/
theorem Step.task_cases (h : Step setting w a w') {t' : CallbackTask} (ht' : t' ∈ w'.tasks) :
    (∃ t ∈ w.tasks, t'.id = t.id) ∨ NewTask setting w a t' ∧ ∀ t ∈ w.tasks, t.id ≠ t'.id := by
  have hold : ∀ u : TaskUpdate, t' ∈ w.tasks.apply u → ∃ t ∈ w.tasks, t'.id = t.id := by
    intro u hmem
    obtain ⟨t, ht, rfl⟩ := mem_apply_iff.mp hmem
    exact ⟨t, ht, u.key_row t⟩
  cases h with
  | reportAppended | restored | claimed | beaten | settled | changeCommitted =>
    exact .inl (hold _ ht')
  | reportCreated hfresh haccepts hnew =>
    rcases (mem_insertNew_iff hnew).mp ht' with hmem | rfl
    · exact .inl ⟨t', hmem, rfl⟩
    · exact .inr ⟨.report rfl hfresh, hnew⟩
  | finishedCreated hnew =>
    rcases (mem_insertNew_iff hnew).mp ht' with hmem | rfl
    · exact .inl ⟨t', hmem, rfl⟩
    · exact .inr ⟨.finished rfl, hnew⟩
  | _ => exact .inl ⟨t', ht', rfl⟩

theorem Step.task_kept (h : Step setting w a w') (ht : t ∈ w.tasks) :
    ∃ t' ∈ w'.tasks, t'.id = t.id := by
  cases h with
  | reportAppended | restored | claimed | beaten | settled | changeCommitted =>
    exact ⟨_, row_mem_apply ht, key_row _ t⟩
  | reportCreated hfresh haccepts hnew =>
    exact ⟨t, (mem_insertNew_iff hnew).mpr (.inl ht), rfl⟩
  | finishedCreated hnew => exact ⟨t, (mem_insertNew_iff hnew).mpr (.inl ht), rfl⟩
  | _ => exact ⟨t, ht, rfl⟩

/-- A property of single tasks that new tasks have and that `RowStep` preserves. -/
theorem Step.forall_tasks (h : Step setting w a w') {P P' : CallbackTask → Prop}
    (hP : ∀ t ∈ w.tasks, P t)
    (hrow : ∀ t t', t ∈ w.tasks → P t → RowStep setting w a w' t t' → P' t')
    (hnew : ∀ t', NewTask setting w a t' → P' t') : ∀ t' ∈ w'.tasks, P' t' := by
  intro t' ht'
  rcases h.task_cases ht' with ⟨t, ht, hid⟩ | ⟨hcreated, -⟩
  · exact hrow t t' ht (hP t ht) (h.rowStep ht ht' hid)
  · exact hnew t' hcreated

/-! ## Workers -/

/-- A worker goes from the first position to the second. -/
inductive Move (w : World) : WorkerPc → WorkerPc → Prop
  | stay {pc} : Move w pc pc
  | claim {c : CallbackClaim} (hlease : c.leaseId = w.nextLease) : Move w .idle (.claimed c)
  | retreat {before after} (h : Retreat before after) : Move w before after
  | acquire {c} : Move w (.claimed c) (.acquired c)
  | load {c t} (ht : w.tasks.find? c.taskId = some t) : Move w (.acquired c) (.loaded c t)
  | confirm {c material t a} (ht : w.tasks.find? c.taskId = some t)
      (ha : w.apps.find? t.appId = some a) (hauth : a.authorizes t = true) :
      Move w (.loaded c material) (.confirmed c material a.config)

theorem move_setWorker {w₁ : World} {x : ℕ} {pc : WorkerPc} (hsame : w₁.worker = w.worker)
    (hmove : Move w (w.worker x) pc) (y : ℕ) :
    Move w (w.worker y) ((w₁.setWorker x pc).worker y) := by
  simp only [World.setWorker, hsame]
  by_cases hxy : y = x
  · subst hxy
    rw [Function.update_self]
    exact hmove
  · rw [Function.update_of_ne hxy]
    exact .stay

/-- Every step acts on every worker through `Move`. -/
theorem Step.move (h : Step setting w a w') (y : ℕ) : Move w (w.worker y) (w'.worker y) := by
  cases h with
  | claimed hpc => exact move_setWorker rfl (by rw [hpc]; exact .claim rfl) y
  | retreated h => exact move_setWorker rfl (.retreat h) y
  | acquireRefused h => exact move_setWorker rfl (.retreat h) y
  | released hpc hpending h => exact move_setWorker rfl (.retreat h) y
  | @acquired x c t answered now hpc =>
    refine move_setWorker rfl ?_ y
    rw [hpc]
    cases answered with
    | true => exact .acquire
    | false => exact .retreat (.of_claim rfl rfl rfl)
  | loaded hpc ht => exact move_setWorker rfl (by rw [hpc]; exact .load ht) y
  | confirmed hpc ht hlock ha hauth =>
    exact move_setWorker rfl (by rw [hpc]; exact .confirm ht ha hauth) y
  | posted hpc =>
    exact move_setWorker rfl (by rw [hpc]; exact .retreat (.of_claim rfl rfl rfl)) y
  | @settled x c outcome schedule now hpc =>
    have hretreat : Retreat (w.worker x) .done := .of_none rfl rfl
    exact move_setWorker rfl (.retreat hretreat) y
  | _ => exact .stay

/-- A worker gets a claim only with a lease id that has just been generated. -/
theorem Move.claim? {before after : WorkerPc} (h : Move w before after) {c : CallbackClaim}
    (hc : after.claim? = some c) : before.claim? = some c ∨ c.leaseId = w.nextLease := by
  cases h with
  | stay | acquire | load | confirm => exact .inl hc
  | claim hlease =>
    cases hc
    exact .inr hlease
  | retreat h => exact .inl (h.claim c hc)

theorem Move.claimed {before : WorkerPc} {c : CallbackClaim} (h : Move w before (.claimed c)) :
    before = .claimed c ∨ c.leaseId = w.nextLease := by
  cases h with
  | stay => exact .inl rfl
  | claim hlease => exact .inr hlease
  | retreat h => cases h.away

end SmsPlatform.Callback
