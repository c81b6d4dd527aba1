import Mathlib.Data.List.Pairwise
import SmsPlatform.Callback.Fencing

/-!
# Each report event in one callback task

The keys that the tasks hold are, up to order, those of the report events whose application
wanted callbacks when they were enqueued.  As no event is enqueued twice, each of these keys is
in one task, and once in it.

A task takes further reports while it is pending.  A task that has been claimed is pending again
after a manual retry only.  If that happens in the minute in which the task was created, the
task is open once more; the last part of the main result is for runs in which no report meets
such a task.
-/

namespace SmsPlatform.Callback

open Support Table List Update

/-! ## The keys that the tasks hold -/

def reportKeys (tasks : TaskTable) : List EventKey := tasks.rows.flatMap CallbackTask.eventKeys

variable {a : Action} {t t' : CallbackTask} {setting : Setting} {tasks : TaskTable} {w w' : World}

theorem reportKeys_apply_of_eq {u : TaskUpdate} (h : ∀ t, (u.change t).eventKeys = t.eventKeys) :
    reportKeys (tasks.apply u) = reportKeys tasks := by
  have hrow : ∀ t, (u.row t).eventKeys = t.eventKeys := fun t =>
    row_cases (P := fun s : CallbackTask => s.eventKeys = t.eventKeys) rfl
      (fun _ => h t)
  simp [reportKeys, flatMap_map, hrow]

theorem reportKeys_append (ht : t ∈ tasks) (e : ReportEvent) :
    (reportKeys (tasks.apply (appendUpdate t.id e))).Perm (e.key :: reportKeys tasks) := by
  obtain ⟨before, after, hsplit, hothers⟩ := exists_split ht
  have hrest : ∀ xs : List CallbackTask, (∀ s ∈ xs, s ∈ before ++ after) →
      xs.map (appendUpdate t.id e).row = xs := by
    intro xs hxs
    refine (map_congr_left (fun s hs => ?_)).trans (map_id' xs)
    exact row_of_not_applies (decide_eq_false (hothers s (hxs s hs)).2)
  have hself : (appendUpdate t.id e).row t = t.append e := row_of_applies (decide_eq_true rfl)
  have hrows : (tasks.apply (appendUpdate t.id e)).rows = before ++ t.append e :: after := by
    rw [rows_apply, hsplit, map_append, map_cons, hself,
      hrest before (fun s hs => mem_append_left _ hs),
      hrest after (fun s hs => mem_append_right _ hs)]
  have hkeys : (t.append e).eventKeys = t.eventKeys ++ [e.key] := rfl
  simp only [reportKeys, hrows, hsplit, flatMap_append, flatMap_cons, hkeys,
    append_assoc, singleton_append]
  rw [← append_assoc, ← append_assoc]
  exact perm_middle

theorem reportKeys_insertNew (hid : ∀ x ∈ tasks.rows, x.id ≠ t.id) :
    reportKeys (tasks.insertNew t hid) = reportKeys tasks ++ t.eventKeys := by
  simp [reportKeys, Table.insertNew]

/-- The keys of the events that call for a callback. -/
def World.acceptedKeys (w : World) : List EventKey :=
  (w.events.rows.filter fun e => w.accepted e.key).map ReportEvent.key

theorem acceptedKeys_nodup (w : World) : w.acceptedKeys.Nodup :=
  w.events.nodup.sublist (filter_sublist.map _)

theorem acceptedKeys_insertNew {e : ReportEvent} {b : Bool}
    (hfresh : ∀ x ∈ w.events.rows, x.key ≠ e.key) :
    World.acceptedKeys { w with
      tasks := tasks
      events := w.events.insertNew e hfresh
      accepted := Function.update w.accepted e.key b } =
      w.acceptedKeys ++ if b then [e.key] else [] := by
  have hold : w.events.rows.filter (fun x => Function.update w.accepted e.key b x.key) =
      w.events.rows.filter (fun x => w.accepted x.key) := by
    refine filter_congr (fun x hx => ?_)
    rw [Function.update_of_ne (hfresh x hx)]
  simp only [World.acceptedKeys, Table.insertNew, filter_append, hold]
  cases b <;> simp

/-! ## The invariant -/

structure ReportsPlaced (setting : Setting) (w : World) : Prop where
  keys : (reportKeys w.tasks).Perm w.acceptedKeys
  appId : ∀ t ∈ w.tasks, t.appId = setting.appOf t.batchId
  aligned : ∀ t ∈ w.tasks, t.messageTimes.length = t.messageIds.length ∧
    t.eventKeys.length = t.messageIds.length ∧ t.messageIds.length ≤ maxReferences
  claimed_mem : ∀ id, (w.lastClaim id).isSome = true → ∃ t ∈ w.tasks, t.id = id
  restored : ∀ t ∈ w.tasks, (w.lastClaim t.id).isSome = true → t.status = .pending →
    w.restored t.id = true

theorem isOpen_iff {batchId : BatchId} {now : Time} :
    t.isOpen batchId now = true ↔ t.event = .messageReport ∧ t.batchId = batchId ∧
    t.status = .pending ∧ t.retryCount = 0 ∧ startOfMinute now ≤ t.createdAt ∧
    t.messageIds.length < maxReferences := by
  simp [CallbackTask.isOpen]

/-- Who authorizes a report callback also accepts new ones. -/
theorem acceptsReports_of_authorizes {a : App} (h : a.authorizes t = true)
    (hevent : t.event = .messageReport) : a.acceptsReports = true := by
  simp only [App.authorizes, Bool.and_eq_true, Bool.or_eq_true, decide_eq_true_eq, hevent,
    ne_eq, not_true_eq_false, false_or] at h
  obtain ⟨⟨hactive, hurl, hsecret⟩, henabled⟩ := h
  simp [App.acceptsReports, hactive, hurl, hsecret, henabled]

/-- What a step keeps of the references of a task, and when it appends to them. -/
theorem RowStep.references (h : RowStep setting w a w' t t') :
    (t'.messageIds = t.messageIds ∧ t'.messageTimes = t.messageTimes ∧ t'.eventKeys = t.eventKeys) ∨
    ∃ id e now, a = .enqueueReport id e now ∧ t.isOpen e.batchId now = true ∧ t' = t.append e := by
  cases h with
  | appended ha hopen => exact .inr ⟨_, _, _, ha, hopen, rfl⟩
  | same | restored | claimed | beaten | revoked => exact .inl ⟨rfl, rfl, rfl⟩
  | @settled x c outcome schedule now =>
    obtain ⟨retryCount, o, heq, -⟩ := settlement_cases schedule c outcome now
    rw [heq]
    exact .inl ⟨rfl, rfl, rfl⟩

/-- A task is pending because it was so before, or after a manual retry. -/
theorem RowStep.pending (h : RowStep setting w a w' t t') (hpending : t'.status = .pending) :
    t.status = .pending ∨ w'.restored t.id = true := by
  cases h with
  | restored ha happ hrec => exact .inr hrec
  | claimed | revoked => cases hpending
  | settled =>
    unfold settlement at hpending
    repeat' split at hpending
    all_goals cases hpending
  | _ => exact .inl hpending

/-- What a step does to the two histories of a task. -/
theorem Step.histories (h : Step setting w a w') :
    (∀ id, w.restored id = true → w'.restored id = true) ∧
    ∀ id, (w'.lastClaim id).isSome = true → (w.lastClaim id).isSome = true ∨
      ∃ t ∈ w.tasks, t.id = id ∧ ∀ t' ∈ w'.tasks, t'.id = id → t'.status ≠ .pending := by
  cases h with
  | @restored taskId =>
    refine ⟨fun id hid => ?_, fun _ h => .inl h⟩
    by_cases heq : id = taskId
    · simp [heq]
    · simpa [heq] using hid
  | @claimed x u leaseSeconds now hpc hu hdue =>
    refine ⟨fun _ h => h, fun id hid => ?_⟩
    by_cases heq : id = u.id
    · refine .inr ⟨u, hu, heq.symm, fun t' ht' hid' => ?_⟩
      have happ : (claimUpdate u.id w.nextLease leaseSeconds now).applies u = true := by
        simp [claimUpdate, hdue]
      rw [eq_row_of_mem_apply hu ht' (hid'.trans heq), row_of_applies happ]
      simp [claimUpdate]
    · exact .inl (by simpa [World.setWorker, heq] using hid)
  | _ => exact ⟨fun _ h => h, fun _ h => .inl h⟩

theorem newTask_fields (h : NewTask setting w a t) :
    t.appId = setting.appOf t.batchId ∧ t.messageTimes.length = t.messageIds.length ∧
    t.eventKeys.length = t.messageIds.length ∧ t.messageIds.length ≤ 1 := by
  cases h with
  | report => exact ⟨rfl, rfl, rfl, le_rfl⟩
  | finished => exact ⟨rfl, rfl, rfl, Nat.zero_le 1⟩

/-- The keys in the tasks follow the accepted events. -/
theorem Step.reportKeys (h : Step setting w a w') (hp : ReportsPlaced setting w) :
    (reportKeys w'.tasks).Perm w'.acceptedKeys := by
  cases h with
  | restored | claimed | beaten | changeCommitted =>
    refine (reportKeys_apply_of_eq ?_).symm ▸ hp.keys
    exact fun _ => rfl
  | @settled x c outcome schedule now =>
    obtain ⟨retryCount, o, heq, -⟩ := settlement_cases schedule c outcome now
    have hkeep : ∀ t, ((settlement schedule c outcome now).change t).eventKeys = t.eventKeys :=
      fun t => by rw [heq]; rfl
    exact (reportKeys_apply_of_eq hkeep).symm ▸ hp.keys
  | @reportAppended id e now t hfresh hopen =>
    obtain ⟨ht, hisOpen, hauthorized⟩ := openTask_eq_some hopen
    obtain ⟨hevent, hbatch, -⟩ := isOpen_iff.mp hisOpen
    rw [Option.any_eq_true] at hauthorized
    obtain ⟨app, happ, hauth⟩ := hauthorized
    have haccepts : (w.apps.find? (setting.appOf e.batchId)).any App.acceptsReports = true := by
      rw [← hbatch, ← hp.appId t ht, happ]
      exact acceptsReports_of_authorizes hauth hevent
    rw [acceptedKeys_insertNew hfresh, haccepts]
    exact (reportKeys_append ht e).trans
      ((hp.keys.cons e.key).trans (perm_append_singleton e.key w.acceptedKeys).symm)
  | @reportCreated id e now url secret hfresh haccepts hid =>
    rw [acceptedKeys_insertNew hfresh, haccepts, reportKeys_insertNew hid]
    exact hp.keys.append_right [e.key]
  | @reportDropped id e now hfresh haccepts =>
    rw [acceptedKeys_insertNew hfresh, haccepts]
    simpa using hp.keys
  | finishedCreated hid =>
    rw [reportKeys_insertNew hid]
    exact (append_nil _).symm ▸ hp.keys
  | _ => exact hp.keys

theorem reportsPlaced_step (hp : ReportsPlaced setting w) (h : Step setting w a w') :
    ReportsPlaced setting w' where
  keys := h.reportKeys hp
  appId := by
    refine h.forall_tasks hp.appId (fun t t' ht happ hrow => ?_)
      (fun t' hnew => (newTask_fields hnew).1)
    obtain ⟨hsame, hbatch, -⟩ := hrow.identity
    rw [hsame, hbatch, happ]
  aligned := by
    refine h.forall_tasks hp.aligned (fun t t' ht haligned hrow => ?_) (fun t' hnew => ?_)
    · rcases hrow.references with ⟨hids, htimes, hkeys⟩ | ⟨id, e, now, -, hopen, rfl⟩
      · rwa [hids, htimes, hkeys]
      · have hroom := (isOpen_iff.mp hopen).2.2.2.2.2
        simp only [CallbackTask.append, length_append, length_singleton]
        omega
    · obtain ⟨-, htimes, hkeys, hle⟩ := newTask_fields hnew
      exact ⟨htimes, hkeys, hle.trans (by decide)⟩
  claimed_mem := by
    intro id hid
    obtain ⟨t, ht, rfl⟩ : ∃ t ∈ w.tasks, t.id = id := by
      rcases h.histories.2 id hid with hold | ⟨t, ht, heq, -⟩
      · exact hp.claimed_mem id hold
      · exact ⟨t, ht, heq⟩
    exact h.task_kept ht
  restored := by
    intro t' ht' hclaimed hpending
    obtain ⟨hmono, hclaims⟩ := h.histories
    rcases hclaims t'.id hclaimed with hold | ⟨t, ht, hid, hstatus⟩
    · rcases h.task_cases ht' with ⟨t, ht, hid⟩ | ⟨-, hfresh⟩
      · rcases (h.rowStep ht ht' hid).pending hpending with hbefore | hrestored
        · rw [hid] at hold ⊢
          exact hmono t.id (hp.restored t ht hold hbefore)
        · rw [hid]
          exact hrestored
      · obtain ⟨t, ht, hid⟩ := hp.claimed_mem t'.id hold
        exact absurd hid (hfresh t ht)
    · exact absurd hpending (hstatus t' ht' rfl)

theorem reportsPlaced_of_reachable (h : (callbacks setting).Reachable w) :
    ReportsPlaced setting w := by
  refine h.invariant ?_ ?_
  · rintro _ ⟨apps, rfl⟩
    exact ⟨.refl [], fun t ht => absurd ht (not_mem_empty t),
      fun t ht => absurd ht (not_mem_empty t), nofun,
      fun t ht => absurd ht (not_mem_empty t)⟩
  · intro w a w' hp hnext
    exact reportsPlaced_step hp (step_of_next hnext).2

/-! ## The main result -/

/-- No report is enqueued in the minute in which a task of its batch that has been retried
manually was created. -/
def World.regular (w : World) : Action → Bool
  | .enqueueReport _ e now => w.tasks.rows.all fun t =>
    !(w.restored t.id && decide (t.batchId = e.batchId)) || decide (t.createdAt < startOfMinute now)
  | _ => true

/-- An accepted key is in one task, and once in it. -/
theorem ReportsPlaced.once (hp : ReportsPlaced setting w) {e : ReportEvent} (he : e ∈ w.events)
    (haccepted : w.accepted e.key = true) :
    ∃ t ∈ w.tasks, t.eventKeys.count e.key = 1 ∧ ∀ t' ∈ w.tasks, e.key ∈ t'.eventKeys → t' = t := by
  have hnodup : (Callback.reportKeys w.tasks).Nodup := hp.keys.nodup_iff.mpr (acceptedKeys_nodup w)
  obtain ⟨heach, hdisjoint⟩ := nodup_flatMap.mp hnodup
  have hkey : e.key ∈ Callback.reportKeys w.tasks := by
    refine hp.keys.mem_iff.mpr (mem_map_of_mem ?_)
    exact mem_filter.mpr ⟨he, haccepted⟩
  obtain ⟨t, ht, hmem⟩ := mem_flatMap.mp hkey
  refine ⟨t, ht, count_eq_one_of_mem (heach t ht) hmem, fun t' ht' hmem' => ?_⟩
  by_contra hne
  have hsymm : Std.Symm (Function.onFun List.Disjoint CallbackTask.eventKeys) :=
    ⟨fun _ _ h _ hb ha => h ha hb⟩
  exact hdisjoint.forall ht' ht hne hmem' hmem

/-- A regular step appends to no task that has been claimed. -/
theorem ReportsPlaced.frozen (hp : ReportsPlaced setting w) (hok : w.regular a = true)
    (ht : t ∈ w.tasks) (hrow : RowStep setting w a w' t t')
    (hclaimed : (w.lastClaim t.id).isSome = true) :
    t'.messageIds = t.messageIds ∧ t'.messageTimes = t.messageTimes ∧
    t'.eventKeys = t.eventKeys := by
  rcases hrow.references with hsame | ⟨id, e, now, rfl, hopen, -⟩
  · exact hsame
  obtain ⟨-, hbatch, hpending, -, hminute, -⟩ := isOpen_iff.mp hopen
  have hrestored := hp.restored t ht hclaimed hpending
  have hbefore := all_eq_true.mp hok t ht
  simp only [hrestored, hbatch, decide_true, Bool.and_self, Bool.not_true, Bool.false_or,
    decide_eq_true_eq] at hbefore
  exact absurd hbefore (not_lt.mpr hminute)

/-- Report events are placed once, in tasks that stay aligned and bounded, and along regular
runs nothing is appended to a task that has been claimed. -/
theorem report_events_in_one_task {setting : Setting} {w : World}
    (h : (callbacks setting).ReachableWhere (fun w a => w.regular a = true) w) :
    (∀ e ∈ w.events, w.accepted e.key = true → ∃ t ∈ w.tasks, t.eventKeys.count e.key = 1 ∧
        ∀ t' ∈ w.tasks, e.key ∈ t'.eventKeys → t' = t) ∧
    (∀ t ∈ w.tasks, t.messageTimes.length = t.messageIds.length ∧
      t.eventKeys.length = t.messageIds.length ∧ t.messageIds.length ≤ maxReferences) ∧
    ∀ a w', w.regular a = true → (callbacks setting).next w a = some w' →
      ∀ t ∈ w.tasks, ∀ t' ∈ w'.tasks, t'.id = t.id → (w.lastClaim t.id).isSome = true →
        t'.messageIds = t.messageIds ∧ t'.messageTimes = t.messageTimes ∧
          t'.eventKeys = t.eventKeys := by
  have hp : ReportsPlaced setting w := reportsPlaced_of_reachable h.reachable
  refine ⟨fun e he => hp.once he, hp.aligned, fun a w' hok hnext t ht t' ht' hid => ?_⟩
  exact hp.frozen hok ht ((step_of_next hnext).2.rowStep ht ht' hid)

/-- A dead task is retried manually, and a minute later another report is enqueued. -/
def retriedRun : List Action :=
  exhaustedRun ++ [.manualRetry 1, .tick 60, .enqueueReport 2 (sampleReport 101) 66]

theorem report_events_in_one_task_retried :
    ∃ w, (callbacks sampleSetting).run (World.start sampleApps) retriedRun = some w ∧
      w.tasks.rows.map (fun t => (t.status, t.eventKeys)) = [(.pending, [100]), (.pending, [101])] ∧
      ∀ e ∈ w.events, ∃ t ∈ w.tasks, t.eventKeys.count e.key = 1 ∧
        ∀ t' ∈ w.tasks, e.key ∈ t'.eventKeys → t' = t := by
  have hrun : ∃ w, (callbacks sampleSetting).runWhere (fun w a => w.regular a = true)
      (.start sampleApps) retriedRun = some w ∧
      w.tasks.rows.map (fun t => (t.status, t.eventKeys)) = [(.pending, [100]), (.pending, [101])] ∧
      ∀ e ∈ w.events.rows, w.accepted e.key = true := by
    refine ⟨_, rfl, ?_, ?_⟩ <;> decide +kernel
  obtain ⟨w, hrun, htasks, haccepted⟩ := hrun
  have hstart : (callbacks sampleSetting).ReachableWhere (fun w a => w.regular a = true)
      (.start sampleApps) := .init ⟨sampleApps, rfl⟩
  have hplaced := (report_events_in_one_task (hstart.runWhere hrun)).1
  exact ⟨w, Machine.run_of_runWhere hrun, htasks, fun e he => hplaced e he (haccepted e he)⟩

/-- With the shortest schedule a task is dead within the minute.  A manual retry opens it again,
and the next report is appended to it. -/
theorem claimed_task_is_appended_to : ∃ w w', (callbacks sampleSetting).run (World.start sampleApps)
        (exhaustedRun ++ [.manualRetry 1]) = some w ∧ (w.lastClaim 1).isSome = true ∧
      w.tasks.rows.map (fun t => (t.id, t.eventKeys)) = [(1, [100])] ∧
      (callbacks sampleSetting).next w (.enqueueReport 2 (sampleReport 101) 6) = some w' ∧
      w'.tasks.rows.map (fun t => (t.id, t.eventKeys)) = [(1, [100, 101])] := by
  refine ⟨_, _, rfl, ?_, ?_, rfl, ?_⟩ <;> decide +kernel

end SmsPlatform.Callback
