import SmsPlatform.Report.Outcome

/-!
# Completion of a batch

Every operation that ends messages has a rule of its own for the status of the batch.
If each of them takes effect, the batch row after a number of operations is a function
of what they have made of the messages: the order does not matter.
-/

namespace SmsPlatform.Report

open Support Schema Vendor Table Update List Option

/-! ## Counts -/

section

variable {db db' : Db} {batch : BatchId}

theorem count_summand_nonneg (p : MessageStatus → Bool) (m : Message) :
    0 ≤ (if m.batchId = batch then indicator p m.status else 0) := by
  unfold indicator
  split_ifs <;> decide

theorem count_eq_zero_iff {p : MessageStatus → Bool} : db.count batch p = 0 ↔
    ∀ m ∈ db.messages, m.batchId = batch → p m.status = false := by
  rw [Db.count, total_eq_zero_iff _ (fun m _ => count_summand_nonneg p m)]
  refine forall₂_congr (fun m _ => ?_)
  by_cases hbatch : m.batchId = batch
  · simp [indicator]
  · simp [hbatch]

theorem count_pos {p : MessageStatus → Bool} {m : Message} (hm : m ∈ db.messages)
    (hbatch : m.batchId = batch) (hp : p m.status = true) : 0 < db.count batch p := by
  refine lt_of_le_of_ne (total_nonneg _ (fun m _ => count_summand_nonneg p m)) ?_
  intro hzero
  have hfalse := count_eq_zero_iff.mp hzero.symm m hm hbatch
  rw [hp] at hfalse
  cases hfalse

/-- With the right difference, a refresh is a recount. -/
theorem refreshBatch_eq_recount {delta : Option Delta} (h : db.CountersMatch)
    (hbatches : db'.batches = db.batches)
    (hdelta : ∀ d, delta = some d → d.Between db db' batch)
    (hmessages : (db'.counts batch).messages ≠ 0) :
    db'.refreshBatch batch delta = db'.recount refreshRule batch := by
  unfold Db.refreshBatch
  split
  · rfl
  rename_i d
  split
  · rfl
  rename_i hcount
  obtain ⟨b₀, hb₀, happ₀⟩ :=
    exists_applies_of_rowcount_pos (Nat.pos_of_ne_zero hcount)
  simp only [deltaUpdate, Bool.and_eq_true, decide_eq_true_eq] at happ₀
  obtain ⟨n, hn⟩ := isSome_iff_exists.mp happ₀.2
  congr 1
  refine apply_congr (fun b hb => ?_)
  by_cases hid : b.id = batch
  · obtain rfl : b = b₀ := eq_of_key_eq hb hb₀ (hid.trans happ₀.1.symm)
    have hcached := h b (hbatches ▸ hb) (b.delivered, b.failed, b.unknownCnt, n)
      (by simp [Batch.cached, hn])
    have hnew := hdelta d rfl
    rw [hid] at hcached
    simp only [Counts.cached, Prod.mk.injEq] at hcached
    simp only [Delta.Between, Counts.cached, Prod.mk.injEq] at hnew
    rw [row_of_applies (by simp [deltaUpdate, hid, hn]),
      row_of_applies (by simp [recountUpdate, hid])]
    simp only [deltaUpdate, recountUpdate, refreshRule, hn, hcached, hnew, hmessages,
      map_some, any_some, decide_eq_true_eq, if_false]
  · simp [Update.row, deltaUpdate, recountUpdate, hid]

/-- Recounts whose rules agree on the batch. -/
theorem apply_recountUpdate_congr {t : Table Batch.id}
    {rule rule' : BatchStatus → Counts → BatchStatus} {counts : Counts}
    (h : ∀ b ∈ t, b.id = batch → rule b.status counts = rule' b.status counts) :
    t.apply (recountUpdate rule batch counts) = t.apply (recountUpdate rule' batch counts) := by
  refine apply_congr (fun b hb => ?_)
  by_cases hid : b.id = batch
  · simp [Update.row, recountUpdate, h b hb hid]
  · simp [Update.row, recountUpdate, hid]

end

/-! ## One operation -/

/-- The rule for the status of a batch that all clean operations amount to. -/
def endRule : Finishing → BatchStatus → Counts → BatchStatus
  | .terminalize _ => fun status counts => if counts.active = 0 then .completedUnknown else status
  | _ => refreshRule

/-- Some message of the batch has changed. -/
def MessagesMoved (s t : Db) (batch : BatchId) : Prop :=
  ∃ m ∈ s.messages, ∃ m' ∈ t.messages, m'.id = m.id ∧ m.batchId = batch ∧
    m'.projection ≠ m.projection

/-- The operation counts the batch again. -/
structure Db.Refreshes (db db' : Db) (op : Finishing) (batch : BatchId) : Prop where
  batches : db'.batches =
    db.batches.apply (recountUpdate (endRule op) batch (db'.counts batch))
  others : ∀ other, MessagesMoved db db' other → other = batch
  touched : MessagesMoved db db' batch ∨
    ∃ c ∈ db.chunks, c.batchId = batch ∧ ∃ hits, op = .exclude c.id hits
  owner : ∀ c ∈ db.chunks, (op = .terminalize c.id ∨ ∃ hits, op = .exclude c.id hits) →
    c.batchId = batch

/-- The operation changes neither a batch nor a message. -/
structure Db.Spares (db db' : Db) (op : Finishing) : Prop where
  batches : db'.batches = db.batches
  messages : ∀ batch, ¬ MessagesMoved db db' batch
  no_terminalize : ∀ chunk, op ≠ .terminalize chunk
  no_exclude : ∀ chunk hits, op ≠ .exclude chunk hits

section

variable {book : EventKey → Event} {phones : EventKey → List String} {db db' : Db}
variable {chunk : ChunkId} {key : EventKey} {m : Message}
variable {batch : BatchId} {op : Finishing}

theorem Db.Spares.of_eq (hbatches : db'.batches = db.batches)
    (hmessages : db'.messages = db.messages) (hterminalize : ∀ chunk, op ≠ .terminalize chunk)
    (hexclude : ∀ chunk hits, op ≠ .exclude chunk hits) : db.Spares db' op := by
  refine ⟨hbatches, ?_, hterminalize, hexclude⟩
  rintro batch ⟨m, hm, m', hm', hid, -, hmoved⟩
  rw [hmessages] at hm'
  exact hmoved (by rw [eq_of_key_eq hm' hm hid])

theorem Db.Sets.others {p : Message → Bool} {status : MessageStatus} (h : db.Sets db' p status)
    (hplace : ∀ m ∈ db.messages, p m = true → m.batchId = batch) (other : BatchId)
    (hother : MessagesMoved db db' other) : other = batch := by
  obtain ⟨m, hm, m', hm', hid, rfl, hmoved⟩ := hother
  by_contra hne
  rw [h.messages] at hm'
  rw [eq_row_of_mem_apply hm hm' hid,
    row_of_not_applies (Bool.eq_false_iff.mpr (fun hp => hne (hplace m hm hp)))] at hmoved
  exact hmoved rfl

/-- An operation that ends some messages of a batch. -/
theorem Db.Sets.refreshes {p : Message → Bool} {status : MessageStatus}
    (h : db.Sets db' p status) (hstatus : isActive status = false)
    (hplace : ∀ m ∈ db.messages, p m = true → m.batchId = batch) (hm : m ∈ db.messages)
    (hp : p m = true) (hbatches : ∀ m' ∈ db'.messages, m'.batchId = batch → m'.status = status →
      db'.batches = db.batches.apply (recountUpdate (endRule op) batch (db'.counts batch)))
    (howner : ∀ c ∈ db.chunks, (op = .terminalize c.id ∨ ∃ hits, op = .exclude c.id hits) →
      c.batchId = batch) : db.Refreshes db' op batch := by
  have hm' : (statusUpdate p status).row m ∈ db'.messages := by
    rw [h.messages]
    exact row_mem_apply hm
  rw [row_of_applies hp] at hm'
  refine ⟨hbatches _ hm' (hplace m hm hp) rfl, h.others hplace,
    .inl ⟨m, hm, _, hm', rfl, hplace m hm hp, fun heq => ?_⟩, howner⟩
  have hsame : status = m.status := congrArg Prod.fst heq
  rw [hsame, h.active m hp] at hstatus
  cases hstatus

theorem messages_ne_zero (hm : m ∈ db.messages) (hbatch : m.batchId = batch) :
    (db.counts batch).messages ≠ 0 :=
  (count_pos hm hbatch rfl).ne'

theorem finalizeRule_eq {status : BatchStatus} {counts : Counts} (h : counts.messages ≠ 0) :
    finalizeRule status counts = refreshRule status counts := by
  unfold finalizeRule refreshRule
  rw [if_neg h]

theorem finish_fail (hreached : db.Reached book) (h : db.failChunk chunk = some db') :
    db.Spares db' (.fail chunk) ∨ ∃ batch, db.Refreshes db' (.fail chunk) batch := by
  have hsets := sets_failChunk h
  obtain ⟨c, hc, rfl, -, ⟨hnone, rfl⟩ | ⟨⟨m, hm, hfails⟩, rfl⟩⟩ := failChunk_eq_some h
  · left
    refine .of_eq rfl ?_ (by simp) (by simp)
    refine apply_of_rowcount_eq_zero ?_
    exact countP_eq_zero.mpr (fun m hm => Bool.eq_false_iff.mp (hnone m hm))
  · right
    have hplace : ∀ m ∈ db.messages, m.failsWith c.id = true → m.batchId = c.batchId := by
      intro m hm hq
      simp only [Message.failsWith, Bool.and_eq_true, decide_eq_true_eq] at hq
      exact batch_of_chunk hreached.placed hc hm hq.1.1
    refine ⟨c.batchId, hsets.refreshes rfl hplace hm hfails (fun m' hm' hbatch _ => ?_) (by simp)⟩
    refine apply_recountUpdate_congr (fun b _ _ => finalizeRule_eq ?_)
    exact @messages_ne_zero (db.chunkFailed c.id) _ _ hm' hbatch

theorem terminalizeRule_eq {status : BatchStatus} {counts : Counts} (h : 0 < counts.unknown) :
    terminalizeRule status counts = endRule (.terminalize chunk) status counts := by
  by_cases hended : counts.active = 0
  · simp [terminalizeRule, endRule, hended, h]
  · simp only [terminalizeRule, endRule, hended, false_and, if_false, ite_eq_right_iff]
    exact Eq.symm

theorem finish_terminalize (hreached : db.Reached book)
    (hclean : EndsCleanly book phones db (.terminalize chunk))
    (h : db.terminalizeUnknown chunk = some db') :
    ∃ batch, db.Refreshes db' (.terminalize chunk) batch := by
  have hsets := sets_terminalizeUnknown h
  obtain ⟨c, hc, rfl, -, rfl⟩ := terminalizeUnknown_eq_some h
  obtain ⟨m, hm, hchunk, hactive⟩ := hclean
  have hends : m.endsWith c.id = true := by
    simp [Message.endsWith, hchunk, hactive]
  have hplace : ∀ m ∈ db.messages, m.endsWith c.id = true → m.batchId = c.batchId := by
    intro m hm hq
    simp only [Message.endsWith, Bool.and_eq_true, decide_eq_true_eq] at hq
    exact batch_of_chunk hreached.placed hc hm hq.1
  refine ⟨c.batchId, hsets.refreshes rfl hplace hm hends (fun m' hm' hbatch hunknown => ?_) ?_⟩
  · refine apply_recountUpdate_congr (fun b _ _ => terminalizeRule_eq ?_)
    exact @count_pos (db.chunkEnded c.id) _ _ _ hm' hbatch (by rw [hunknown]; rfl)
  · rintro c' hc' (hop | ⟨hits, hop⟩)
    · rw [eq_of_key_eq hc' hc (Finishing.terminalize.inj hop).symm]
    · cases hop

/-- An event that is shown is followed by a refresh of the batch. -/
theorem projectReport_changed (hfresh : ∀ p ∈ db.projections.rows, p.eventKey ≠ key)
    (hchanged : m.supersededBy key (book key) = true) :
    ∃ (shown : Db) (delta : Option Delta), shown.batches = db.batches ∧
    shown.messages = db.messages.apply (projectUpdate book m.id key) ∧
    (∀ d, delta = some d → d = statusDelta m.status (book key).messageStatus) ∧
    db.projectReport book m key = shown.refreshBatch m.batchId delta := by
  unfold Db.projectReport
  rw [dif_pos hfresh]
  rw [if_pos hchanged]
  refine ⟨_, _, ?_, ?_, ?_, rfl⟩
  · rfl
  · rfl
  · intro d hd
    split at hd
    · cases hd
    · exact (Option.some.inj hd).symm

theorem projectReport_unchanged (hprojected : db.Projected book)
    (h : ¬ ((∀ p ∈ db.projections.rows, p.eventKey ≠ key) ∧ m.supersededBy key (book key) = true)) :
    (db.projectReport book m key).batches = db.batches ∧
    (db.projectReport book m key).messages = db.messages := by
  unfold Db.projectReport
  split
  · rename_i hfresh
    rw [if_neg (fun hchanged => h ⟨hfresh, hchanged⟩)]
    exact ⟨rfl, rfl⟩
  · rw [hprojected.repair_eq]
    exact ⟨rfl, rfl⟩

theorem finish_report (hreached : db.Reached book)
    (h : db.finish book phones (.report key) = some db') :
    db.Spares db' (.report key) ∨ ∃ batch, db.Refreshes db' (.report key) batch := by
  rcases finish_report_cases h with ⟨-, rfl⟩ | ⟨m, hm, -, rfl⟩
  · exact .inl (.of_eq rfl rfl (by simp) (by simp))
  by_cases hshown : (∀ p ∈ db.projections.rows, p.eventKey ≠ key) ∧
      m.supersededBy key (book key) = true
  · right
    obtain ⟨shown, delta, hbatches, hmessages, hdelta, heq⟩ :=
      projectReport_changed hshown.1 hshown.2
    have hrow : (projectUpdate book m.id key).row m = m.project key (book key) :=
      row_of_applies (by simp [projectUpdate])
    have hm' : m.project key (book key) ∈ shown.messages := by
      rw [hmessages, ← hrow]
      exact row_mem_apply hm
    have hrecount : db.projectReport book m key = shown.recount refreshRule m.batchId := by
      rw [heq]
      refine refreshBatch_eq_recount hreached.countersMatch hbatches (fun d hd => ?_)
        (messages_ne_zero hm' rfl)
      rw [hdelta d hd]
      exact between_of_project hm hmessages
    rw [hrecount]
    refine ⟨m.batchId, ?_, ?_, .inl ⟨m, hm, _, hm', rfl, rfl, ?_⟩, by simp⟩
    · rw [← hbatches]
      rfl
    · rintro _ ⟨x, hx, x', hx', hid, rfl, hmoved⟩
      by_contra hother
      have hne : x.id ≠ m.id := fun heq => hother (by rw [eq_of_key_eq hx hm heq])
      rw [projectReport_other hreached.projected hx (hrecount ▸ hx') hid hne] at hmoved
      exact hmoved rfl
    · intro hsame
      have hkey : some key = m.reportEventKey := by
        simp only [Message.projection, Message.project, Prod.mk.injEq] at hsame
        exact hsame.2.2.2.2
      rcases hreached.projected.shown m hm with ⟨hnone, -⟩ | ⟨shownKey, hshows⟩
      · rw [((noReportEvidence_iff m).mp hnone).1] at hkey
        cases hkey
      · rw [hshows.shows_event.columns.2.2.2.2] at hkey
        exact hshown.1 _ hshows.recorded (Option.some.inj hkey).symm
  · left
    obtain ⟨hbatches, hmessages⟩ := projectReport_unchanged hreached.projected hshown
    exact .of_eq hbatches hmessages (by simp) (by simp)

theorem finish_expire {now timeout limit : ℕ} (hreached : db.Reached book) :
    db.Spares (db.expireBatch book batch now timeout limit)
        (.expire batch now timeout limit) ∨
      ∃ β, db.Refreshes (db.expireBatch book batch now timeout limit)
        (.expire batch now timeout limit) β := by
  have hsets := sets_expireBatch hreached.projected batch now timeout limit
  by_cases hcount : db.messages.rowcount (expireUpdate db batch
      (db.overdueMessages batch now timeout limit) now timeout) = 0
  · left
    have hsame : db.expireBatch book batch now timeout limit = db := by
      unfold Db.expireBatch
      dsimp only
      rw [hreached.projected.repair_eq, if_pos hcount]
    exact .of_eq (congrArg Db.batches hsame) (congrArg Db.messages hsame) (by simp) (by simp)
  · right
    obtain ⟨m, hm, happ⟩ := exists_applies_of_rowcount_pos (Nat.pos_of_ne_zero hcount)
    refine ⟨batch, hsets.refreshes rfl (fun m _ hq => (sent_of_expireUpdate hq).1) hm happ
      (fun m' hm' hbatch _ => ?_) (by simp)⟩
    have hrecount : db.expireBatch book batch now timeout limit = .recount
        { db with messages := db.messages.apply (expireUpdate db batch
          (db.overdueMessages batch now timeout limit) now timeout) } refreshRule batch := by
      unfold Db.expireBatch
      dsimp only
      rw [hreached.projected.repair_eq, if_neg hcount]
      refine refreshBatch_eq_recount hreached.countersMatch rfl (fun d hd => ?_)
        (messages_ne_zero (hsets.messages ▸ hm') hbatch)
      cases hd
      exact between_of_expired rfl (fun m _ => sent_of_expireUpdate)
    rw [hrecount]
    rfl

theorem settleRule_idem (status : BatchStatus) (counts : Counts) :
    settleRule (settleRule status counts) counts = settleRule status counts := by
  by_cases hunknown : status = .completedUnknown
  · simp [settleRule, hunknown]
  by_cases hnone : counts.messages = 0
  · simp [settleRule, hunknown, hnone]
  by_cases hended : counts.active = 0 ∧ status.isActive = true
  · have hfirst : settleRule status counts = .completed := by
      rw [settleRule, if_neg hunknown, if_neg hnone, if_pos hended]
    rw [hfirst, settleRule, if_neg (by decide), if_neg hnone,
      if_neg (fun hboth => Bool.false_ne_true hboth.2)]
  · simp only [settleRule, hunknown, hnone, hended, if_false]

theorem settleRule_eq {status : BatchStatus} {counts : Counts}
    (h : counts.active = 0 → canComplete status = true) :
    settleRule status counts = refreshRule status counts := by
  unfold settleRule refreshRule
  by_cases hunknown : status = .completedUnknown
  · rw [if_pos hunknown, if_pos hunknown]
  rw [if_neg hunknown, if_neg hunknown]
  split
  · rfl
  by_cases hactive : counts.active = 0
  · have hcan := h hactive
    simp only [canComplete, Bool.or_eq_true, decide_eq_true_eq, hunknown, or_false] at hcan
    rcases hcan with hrunning | hcompleted
    · rw [if_pos ⟨hactive, hrunning⟩, if_pos hactive]
    · rw [if_pos hactive, hcompleted, ite_eq_right_iff]
      exact fun _ => rfl
  · rw [if_neg hactive, if_neg (fun hboth => hactive hboth.1)]

theorem finish_exclude {hits : List MessageId} (hreached : db.Reached book)
    (hclean : EndsCleanly book phones db (.exclude chunk hits))
    (h : db.finish book phones (.exclude chunk hits) = some db') :
    ∃ batch, db.Refreshes db' (.exclude chunk hits) batch := by
  obtain ⟨d, hplan, rfl⟩ := map_eq_some_iff.mp h
  have hmem := mem_excluded_iff hclean hplan
  have hexcluded : ∀ id ∈ d.excluded, ∃ m ∈ db.messages, m.id = id ∧ m.batchId = d.batchId :=
    fun id hid => decideDispatch_excluded hreached.placed hplan hid
  have hsets := sets_settleDispatch db d
  have hmessages := hsets.messages
  obtain ⟨excluded, hexmessages, -, hbatches, -, heq⟩ := settleDispatch_eq db d
  obtain ⟨c, hc, rfl, -, hd⟩ := decideDispatch_eq_some hplan
  have hcounts : (db.settleDispatch d).counts d.batchId = d.counts := by
    rw [count_congr (u := db.exclude d.excluded) hmessages, hd]
  have hrow : (db.settleDispatch d).batches =
      db.batches.apply (recountUpdate settleRule d.batchId d.counts) := by
    rw [heq]
    split
    · rw [← hbatches]
      rfl
    have hagain : (excluded.writeCounts settleRule d.batchId d.counts).counts d.batchId =
        d.counts := by
      rw [← hcounts]
      exact count_congr (hexmessages.trans hmessages.symm) d.batchId
    unfold Db.recount
    rw [hagain, ← hbatches]
    refine Table.ext ?_
    show ((excluded.batches.rows.map _).map _) = excluded.batches.rows.map _
    rw [List.map_map]
    refine map_congr_left (fun b _ => ?_)
    by_cases hid : b.id = d.batchId
    · simp [Update.row, recountUpdate, hid, settleRule_idem]
    · simp [Update.row, recountUpdate, hid]
  have hbatch : d.batchId = c.batchId := by rw [hd]
  refine ⟨d.batchId, ?_, hsets.others (fun x hx hp => ?_),
    .inr ⟨c, hc, hbatch.symm, hits, rfl⟩, ?_⟩
  · rw [hrow, hcounts]
    refine apply_recountUpdate_congr (fun b hb hid => settleRule_eq (fun hactive => ?_))
    refine hclean.2.1 b hb ?_ ?_
    · rw [hid, hbatch, Db.batchOf, find?_eq_some_iff.mpr ⟨hc, rfl⟩]
      rfl
    · have hsame : (db.exclude hits).messages = (db.exclude d.excluded).messages := by
        have hsameIds : Message.isExcluded hits = Message.isExcluded d.excluded := by
          funext m
          exact decide_eq_decide.mpr (and_congr (hmem m.id).symm .rfl)
        exact congrArg (fun p => db.messages.apply (statusUpdate p .other)) hsameIds
      rw [hid]
      have hzero : ((db.exclude hits).counts d.batchId).active = 0 := by
        rw [count_congr hsame, ← count_congr hmessages, hcounts]
        exact hactive
      exact hzero
  · obtain ⟨m, hm, hid, hmbatch⟩ := hexcluded x.id (of_decide_eq_true hp).1
    rw [← eq_of_key_eq hm hx hid, hmbatch]
  · rintro c' hc' (hop | ⟨hits', hop⟩)
    · cases hop
    · rw [hbatch, eq_of_key_eq hc' hc (Finishing.exclude.inj hop).1.symm]

/-- Every clean operation counts one batch again or changes nothing that is counted. -/
theorem finish_batches (hreached : db.Reached book)
    (hclean : EndsCleanly book phones db op) (h : db.finish book phones op = some db') :
    db.Spares db' op ∨ ∃ batch, db.Refreshes db' op batch := by
  cases op with
  | fail chunk => exact finish_fail hreached h
  | report key => exact finish_report hreached h
  | exclude chunk hits => exact .inr (finish_exclude hreached hclean h)
  | expire batch now timeout limit =>
    cases h
    exact finish_expire hreached
  | terminalize chunk => exact .inr (finish_terminalize hreached hclean h)

end

/-! ## Runs -/

/-- Some operation has ended an uncertain chunk of the batch. -/
def Terminalized (s : Db) (done : List Finishing) (batch : BatchId) : Prop :=
  ∃ c ∈ s.chunks, c.batchId = batch ∧ .terminalize c.id ∈ done

/-- Some operation has counted the batch again. -/
def Counted (s t : Db) (done : List Finishing) (batch : BatchId) : Prop :=
  MessagesMoved s t batch ∨
    ∃ c ∈ s.chunks, c.batchId = batch ∧ ∃ hits, .exclude c.id hits ∈ done

open Classical in
/-- The status of a batch after some operations. -/
noncomputable def endStatus (terminalized counted : Prop) (counts : Counts) (b : Batch) :
    BatchStatus :=
  if b.status = .completedUnknown ∨ terminalized ∧ counts.active = 0 then .completedUnknown
  else if counted ∧ counts.messages ≠ 0 ∧ counts.active = 0 then .completed
  else b.status

open Classical in
/-- The row of a batch after some operations. -/
noncomputable def endRow (terminalized counted : Prop) (counts : Counts) (b : Batch) : Batch :=
  if counted then
    { id := b.id
      status := endStatus terminalized counted counts b
      delivered := counts.delivered
      failed := counts.failed
      unknownCnt := counts.unknown
      activeMessageCount := some counts.active }
  else { b with status := endStatus terminalized counted counts b }

noncomputable def Db.expectedRow (s : Db) (done : List Finishing) (t : Db) (b : Batch) : Batch :=
  endRow (Terminalized s done b.id) (Counted s t done b.id) (t.counts b.id) b

/-- The batches are what the messages and the operations make of them. -/
structure Db.BatchesFollow (s : Db) (done : List Finishing) (t : Db) : Prop where
  keys : t.batches.rows.map Batch.id = s.batches.rows.map Batch.id
  rows : ∀ b₀ ∈ s.batches, ∀ b ∈ t.batches, b.id = b₀.id →
    b = s.expectedRow done t b₀

section

variable {book : EventKey → Event} {phones : EventKey → List String} {s t t' : Db}
  {done : List Finishing} {op : Finishing}

variable {b : Batch} {batch : BatchId} {counts : Counts} {ops ops' : List Finishing}
  {counted terminalized terminalized' : Prop}

theorem terminalized_append (h : ∀ c ∈ s.chunks, c.batchId = batch → op ≠ .terminalize c.id) :
    Terminalized s (done ++ [op]) batch ↔ Terminalized s done batch := by
  refine exists_congr (fun c => and_congr_right (fun hc => and_congr_right (fun hbatch => ?_)))
  rw [mem_append, mem_singleton]
  exact or_iff_left (fun heq => h c hc hbatch heq.symm)

section

variable (hfollows : s.Follows book phones done t)
  (hmessages : Rel (Message.Later book) t.messages t'.messages)

section

include hmessages

theorem counts_eq_of_unmoved (hsame : ¬ MessagesMoved t t' batch) :
    t'.counts batch = t.counts batch := by
  have hcount : ∀ p, t'.count batch p = t.count batch p := by
    intro p
    refine congrArg List.sum (hmessages.with_mem.map_eq ?_)
    rintro m m' ⟨hlater, hm, hm'⟩
    rw [hlater.batch_eq]
    by_cases hbatch : m.batchId = batch
    · have hprojection : m'.projection = m.projection := by_contra (fun hmoved =>
        hsame ⟨m, hm, m', hm', hlater.id_eq, hbatch, hmoved⟩)
      rw [show m'.status = m.status from congrArg Prod.fst hprojection]
    · rw [if_neg hbatch, if_neg hbatch]
  simp [Db.counts, hcount]

theorem counts_messages_eq :
    (t'.counts batch).messages = (t.counts batch).messages := by
  refine congrArg List.sum (hmessages.map_eq (fun m m' hlater => ?_))
  rw [hlater.batch_eq]
  rfl

/-- Nothing becomes active again. -/
theorem active_eq_zero (hreached' : t'.Reached book)
    (h : (t.counts batch).active = 0) : (t'.counts batch).active = 0 := by
  refine count_eq_zero_iff.mpr (fun m' hm' hbatch => ?_)
  rw [Bool.eq_false_iff]
  intro hactive
  obtain ⟨m, hm, hlater⟩ := hmessages.exists_left hm'
  have hkey := ((noReportEvidence_iff m').mp (hreached'.projected.of_active hm' hactive).1).1
  have hstatus : m'.status = m.status :=
    congrArg Prod.fst (hlater.projection_eq_of_active hkey hactive)
  have hfalse := count_eq_zero_iff.mp h m hm (hlater.batch_eq.symm.trans hbatch)
  rw [hstatus, hfalse] at hactive
  cases hactive

end

include hfollows hmessages

/-- What has moved since the start has still moved, and what moves now has moved. -/
theorem messagesMoved_step
    (h : MessagesMoved s t batch ∨ MessagesMoved t t' batch) : MessagesMoved s t' batch := by
  rcases h with ⟨m, hm, m', hm', hid, hbatch, hmoved⟩ | ⟨m', hm', m'', hm'', hid, hbatch, hmoved⟩
  · obtain ⟨m₁, hm₁, hlater⟩ := hfollows.messages.exists_right hm
    obtain rfl : m₁ = m' := eq_of_key_eq hm₁ hm' (hlater.id_eq.trans hid.symm)
    obtain ⟨m'', hm'', hlater'⟩ := hmessages.exists_right hm'
    exact ⟨m, hm, m'', hm'', hlater'.id_eq.trans hid, hbatch,
      hlater.ne_of_ne hlater' hmoved⟩
  · obtain ⟨m, hm, hlater⟩ := hfollows.messages.exists_left hm'
    obtain ⟨m₂, hm₂, hlater'⟩ := hmessages.exists_right hm'
    obtain rfl : m₂ = m'' := eq_of_key_eq hm₂ hm'' (hlater'.id_eq.trans hid.symm)
    refine ⟨m, hm, m₂, hm₂, hid.trans hlater.id_eq, hlater.batch_eq.symm.trans hbatch, ?_⟩
    by_cases hsame : m'.projection = m.projection
    · rw [← hsame]
      exact hmoved
    · exact hlater.ne_of_ne hlater' hsame

theorem messagesMoved_congr (hsame : ¬ MessagesMoved t t' batch) :
    MessagesMoved s t' batch ↔ MessagesMoved s t batch := by
  constructor
  · rintro ⟨m, hm, m'', hm'', hid, hbatch, hmoved⟩
    obtain ⟨m', hm', hlater⟩ := hfollows.messages.exists_right hm
    refine ⟨m, hm, m', hm', hlater.id_eq, hbatch, fun heq => hsame ⟨m', hm', m'', hm'',
      hid.trans hlater.id_eq.symm, hlater.batch_eq.trans hbatch, ?_⟩⟩
    rw [heq]
    exact hmoved
  · exact fun h => messagesMoved_step hfollows hmessages (.inl h)

/-- The row of a batch that the operation does not concern stays as expected. -/
theorem expectedRow_congr (hsame : ¬ MessagesMoved t t' b.id)
    (howner : ∀ c ∈ s.chunks, c.batchId = b.id →
      op ≠ .terminalize c.id ∧ ∀ hits, op ≠ .exclude c.id hits) :
    s.expectedRow (done ++ [op]) t' b = s.expectedRow done t b := by
  have hcounts := counts_eq_of_unmoved hmessages hsame
  have hmoved := messagesMoved_congr hfollows hmessages hsame
  have hterminalized : Terminalized s (done ++ [op]) b.id ↔ Terminalized s done b.id :=
    terminalized_append (fun c hc hbatch => (howner c hc hbatch).1)
  have hcounted : Counted s t' (done ++ [op]) b.id ↔ Counted s t done b.id := by
    refine or_congr hmoved (exists_congr (fun c => and_congr_right (fun hc =>
      and_congr_right (fun hbatch => exists_congr (fun hits => ?_)))))
    rw [mem_append, mem_singleton]
    exact or_iff_left (fun heq => (howner c hc hbatch).2 hits heq.symm)
  rw [Db.expectedRow, Db.expectedRow, hcounts, propext hterminalized, propext hcounted]

end

theorem endStatus_of_terminalized (h : terminalized) (hended : counts.active = 0) :
    endStatus terminalized counted counts b = .completedUnknown := by
  rw [endStatus, if_pos (.inr ⟨h, hended⟩)]

section

variable {counts' : Counts} (hactive : counts.active = 0 → counts'.active = 0)
include hactive

theorem endStatus_terminalize {chunk : ChunkId} (h : terminalized') :
    endRule (.terminalize chunk) (endStatus terminalized counted counts b) counts' =
      endStatus terminalized' True counts' b := by
  by_cases hended : counts'.active = 0
  · rw [endStatus_of_terminalized h hended]
    exact if_pos hended
  · have hbefore : counts.active ≠ 0 := fun h => hended (hactive h)
    simp [endRule, endStatus, hended, hbefore]

theorem endStatus_true (hmessages : counts'.messages = counts.messages)
    (hlast : terminalized → counts'.active = 0 → counts.active = 0) :
    refreshRule (endStatus terminalized counted counts b) counts' =
      endStatus terminalized True counts' b := by
  have hsame : b.status = .completedUnknown ∨ terminalized ∧ counts'.active = 0 ↔
      b.status = .completedUnknown ∨ terminalized ∧ counts.active = 0 :=
    or_congr_right (and_congr_right (fun h => ⟨hlast h, hactive⟩))
  by_cases hunknown : b.status = .completedUnknown ∨ terminalized ∧ counts.active = 0
  · rw [endStatus, if_pos hunknown, endStatus, if_pos (hsame.mpr hunknown)]
    rfl
  have hstatus : b.status ≠ .completedUnknown := fun heq => hunknown (.inl heq)
  rw [endStatus, if_neg hunknown, endStatus, if_neg (mt hsame.mp hunknown)]
  by_cases hnone : counts'.messages = 0
  · rw [if_neg (fun h => h.2.1 (hmessages.symm.trans hnone)), if_neg (fun h => h.2.1 hnone),
      refreshRule, if_neg hstatus, if_pos hnone]
  by_cases hended : counts'.active = 0
  · rw [if_pos (show True ∧ _ from ⟨trivial, hnone, hended⟩), refreshRule, if_neg hnone,
      if_pos hended, ite_eq_right_iff]
    split
    · intro heq
      cases heq
    · exact fun heq => absurd heq hstatus
  · rw [if_neg (fun h => hended (hactive h.2.2)), if_neg (fun h => hended h.2.2),
      refreshRule, if_neg hstatus, if_neg hnone, if_neg hended]

end

theorem endRow_id (terminalized counted : Prop) (counts : Counts) (b : Batch) :
    (endRow terminalized counted counts b).id = b.id := by
  unfold endRow
  split <;> rfl

theorem endRow_status (terminalized counted : Prop) (counts : Counts) (b : Batch) :
    (endRow terminalized counted counts b).status =
      endStatus terminalized counted counts b := by
  unfold endRow
  split <;> rfl

theorem recounted_row {counts' : Counts}
    {rule : BatchStatus → Counts → BatchStatus}
    (hstatus : rule (endStatus terminalized counted counts b) counts' =
      endStatus terminalized' True counts' b) :
    (recountUpdate rule batch counts').change (endRow terminalized counted counts b) =
      endRow terminalized' True counts' b := by
  have hright : endRow terminalized' True counts' b =
      { id := b.id
        status := endStatus terminalized' True counts' b
        delivered := counts'.delivered
        failed := counts'.failed
        unknownCnt := counts'.unknown
        activeMessageCount := some counts'.active } := by
    rw [endRow, if_pos trivial]
  rw [hright, ← hstatus]
  simp [recountUpdate, endRow_id, endRow_status]

theorem Db.BatchesFollow.exists_start (h : s.BatchesFollow done t) (hb : b ∈ t.batches) :
    ∃ b₀ ∈ s.batches, b₀.id = b.id ∧ b = s.expectedRow done t b₀ := by
  obtain ⟨b₀, hb₀, hid⟩ := mem_map.mp (h.keys ▸ mem_map_of_mem hb)
  exact ⟨b₀, hb₀, hid, h.rows b₀ hb₀ b hb hid.symm⟩

theorem Db.BatchesFollow.start : s.BatchesFollow [] s where
  keys := rfl
  rows b₀ hb₀ b hb hid := by
    have hterminalized : ¬ Terminalized s [] b₀.id := by
      rintro ⟨c, -, -, hmem⟩
      cases hmem
    have hcounted : ¬ Counted s s [] b₀.id := by
      rintro (⟨m, hm, m', hm', hsame, -, hmoved⟩ | ⟨c, -, -, hits, hmem⟩)
      · exact hmoved (by rw [eq_of_key_eq hm' hm hsame])
      · cases hmem
    have hstatus : endStatus (Terminalized s [] b₀.id) (Counted s s [] b₀.id)
        (s.counts b₀.id) b₀ = b₀.status := by
      rw [endStatus, if_neg (fun h : Counted s s [] b₀.id ∧ _ => hcounted h.1)]
      split
      · rename_i hunknown
        exact (hunknown.resolve_right (fun h => hterminalized h.1)).symm
      · rfl
    rw [eq_of_key_eq hb hb₀ hid, Db.expectedRow, endRow, if_neg hcounted, hstatus]

section

variable (hfollows : s.Follows book phones done t)
include hfollows

theorem counted_of_refreshes (hmessages : Rel (Message.Later book) t.messages t'.messages)
    (h : t.Refreshes t' op batch) : Counted s t' (done ++ [op]) batch := by
  rcases h.touched with hmoved | ⟨c, hc, hbatch, hits, rfl⟩
  · exact .inl (messagesMoved_step hfollows hmessages (.inr hmoved))
  obtain ⟨c₀, hc₀, hsame⟩ := hfollows.chunks.exists_left hc
  obtain ⟨hid, hbatch₀, -⟩ := hsame.columns
  refine .inr ⟨c₀, hc₀, hbatch₀.symm.trans hbatch, hits, ?_⟩
  rw [hid]
  exact mem_append_right _ (mem_singleton.mpr rfl)

theorem terminalized_of_refreshes {chunk : ChunkId}
    (hfinish : t.finish book phones (.terminalize chunk) = some t')
    (h : t.Refreshes t' (.terminalize chunk) batch) :
    Terminalized s (done ++ [.terminalize chunk]) batch := by
  obtain ⟨c, hc, rfl, -, -⟩ := terminalizeUnknown_eq_some hfinish
  obtain ⟨c₀, hc₀, hsame⟩ := hfollows.chunks.exists_left hc
  obtain ⟨hid, hbatch₀, -⟩ := hsame.columns
  refine ⟨c₀, hc₀, hbatch₀.symm.trans (h.owner c hc (.inl rfl)), ?_⟩
  rw [hid]
  exact mem_append_right _ (mem_singleton.mpr rfl)

/-- The batch of a chunk that has been ended keeps an active message. -/
theorem last_of_keepsLast (hkeeps : t.KeepsLast book phones op)
    (hfinish : t.finish book phones op = some t') (h : Terminalized s done batch)
    (hended : (t'.counts batch).active = 0) : (t.counts batch).active = 0 := by
  obtain ⟨c₀, hc₀, rfl, hdone⟩ := h
  obtain ⟨c, hc, hsame⟩ := hfollows.chunks.exists_right hc₀
  obtain ⟨hid, hbatch, -⟩ := hsame.columns
  rw [← hbatch] at hended ⊢
  exact hkeeps t' hfinish c hc (hfollows.terminal c hc (by rw [hid]; exact hdone)) hended

theorem Db.BatchesFollow.step (h : s.BatchesFollow done t)
    (hclean : EndsCleanly book phones t op)
    (hfinish : t.finish book phones op = some t') : s.BatchesFollow (done ++ [op]) t' := by
  have hmessages := finish_messages hfollows.reached hfinish
  rcases finish_batches hfollows.reached hclean hfinish with hspares | ⟨batch, hrefreshes⟩
  · refine ⟨by rw [hspares.batches]; exact h.keys, fun b₀ hb₀ b hb hid => ?_⟩
    rw [hspares.batches] at hb
    rw [expectedRow_congr hfollows hmessages (hspares.messages b₀.id)
      (fun c _ _ => ⟨hspares.no_terminalize c.id, hspares.no_exclude c.id⟩)]
    exact h.rows b₀ hb₀ b hb hid
  · have howner : ∀ c ∈ s.chunks, (op = .terminalize c.id ∨ ∃ hits, op = .exclude c.id hits) →
        c.batchId = batch := by
      intro c hc hop
      obtain ⟨c', hc', hsame⟩ := hfollows.chunks.exists_right hc
      obtain ⟨hid, hbatch, -⟩ := hsame.columns
      rw [← hbatch]
      exact hrefreshes.owner c' hc' (by rw [hid]; exact hop)
    constructor
    · rw [hrefreshes.batches, rows_apply, List.map_map, ← h.keys]
      exact map_congr_left (fun b _ => key_row _ b)
    · intro b₀ hb₀ b' hb' hid
      rw [hrefreshes.batches] at hb'
      rcases mem_apply_cases hb' with ⟨hb, hnot⟩ | ⟨b, hb, happ, rfl⟩
      · have hne : b₀.id ≠ batch := hid ▸ of_decide_eq_false hnot
        rw [h.rows b₀ hb₀ b' hb hid]
        refine (expectedRow_congr hfollows hmessages (mt (hrefreshes.others _) hne)
          (fun c hc hcbatch => ⟨fun hop => ?_, fun hits hop => ?_⟩)).symm
        · exact hne (hcbatch.symm.trans (howner c hc (.inl hop)))
        · exact hne (hcbatch.symm.trans (howner c hc (.inr ⟨hits, hop⟩)))
      · obtain rfl : b₀.id = batch := hid.symm.trans (of_decide_eq_true happ)
        rw [h.rows b₀ hb₀ b hb hid, Db.expectedRow, Db.expectedRow,
          propext (iff_true_intro (counted_of_refreshes hfollows hmessages hrefreshes))]
        refine recounted_row ?_
        have hactive := @active_eq_zero _ _ _ b₀.id hmessages
          (reached_finish hfollows.reached hfinish)
        have hcount := @counts_messages_eq _ _ _ b₀.id hmessages
        cases op with
        | terminalize chunk =>
          exact endStatus_terminalize hactive
            (terminalized_of_refreshes hfollows hfinish hrefreshes)
        | exclude chunk hits =>
          rw [propext (terminalized_append (by simp))]
          exact endStatus_true hactive hcount (last_of_keepsLast hfollows hclean.2.2 hfinish)
        | _ =>
          rw [propext (terminalized_append (by simp))]
          exact endStatus_true hactive hcount (last_of_keepsLast hfollows hclean hfinish)

theorem follows_of_runWhere (hbatches : s.BatchesFollow done t)
    (h : (finishing book phones).runWhere (EndsCleanly book phones) t ops = some t') :
    s.Follows book phones (done ++ ops) t' ∧ s.BatchesFollow (done ++ ops) t' := by
  induction ops generalizing t done with
  | nil =>
    obtain rfl : t = t' := Option.some.inj h
    rw [append_nil]
    exact ⟨hfollows, hbatches⟩
  | cons op ops ih =>
    obtain ⟨hclean, u, hnext, hrest⟩ := Machine.runWhere_cons_eq_some.mp h
    have hboth := ih (hfollows.step hclean hnext) (hbatches.step hfollows hclean hnext) hrest
    rw [append_assoc] at hboth
    exact hboth

end

/-- The status without a report depends on the set of operations only. -/
theorem outcome_perm (hperm : ops.Perm ops') (m : Message) :
    s.outcome ops m = s.outcome ops' m := by
  simp [Db.outcome, hperm.any_eq]

theorem messages_perm (hperm : ops.Perm ops') (h : s.Follows book phones ops t)
    (h' : s.Follows book phones ops' t') (hswept : t.Swept ops) (hswept' : t'.Swept ops') :
    t.messages = t'.messages := by
  have hevents : ∀ key id, key ∈ t.eventsOf id ↔ key ∈ t'.eventsOf id := by
    intro key id
    rw [h.events, h'.events, hperm.mem_iff]
  have hkeys : t.messages.rows.map Message.id = t'.messages.rows.map Message.id :=
    (h.messages.map_eq (fun _ _ hlater => hlater.id_eq)).trans
      (h'.messages.map_eq (fun _ _ hlater => hlater.id_eq)).symm
  refine eq_of_keys hkeys (fun x hx x' hx' hid => ?_)
  obtain ⟨m, hm, hlater⟩ := h.messages.exists_left hx
  obtain ⟨m', hm', hlater'⟩ := h'.messages.exists_left hx'
  obtain rfl : m = m' := eq_of_key_eq hm hm'
    (by rw [← hlater.id_eq, ← hlater'.id_eq]; exact hid)
  have hprojection : x.projection = x'.projection := by
    by_cases hnone : t.eventsOf x.id = []
    · have hnone' : t'.eventsOf x'.id = [] := by
        refine eq_nil_iff_forall_not_mem.mpr (fun key hk => ?_)
        rw [← hid] at hk
        have hk' := (hevents key x.id).mpr hk
        rw [hnone] at hk'
        cases hk'
      have hstatus := h.outcome_of_swept hswept hm hx hlater.id_eq
        (by rw [← hlater.id_eq]; exact hnone)
      have hstatus' := h'.outcome_of_swept hswept' hm hx' hlater'.id_eq
        (by rw [← hlater'.id_eq]; exact hnone')
      have hblank := (noReportEvidence_iff x).mp (h.reached.projected.of_eventsOf_nil hx hnone)
      have hblank' := (noReportEvidence_iff x').mp
        (h'.reached.projected.of_eventsOf_nil hx' hnone')
      simp [Message.projection, hstatus, hstatus', outcome_perm hperm, hblank, hblank']
    · refine projection_eq_of_events h.reached.projected h'.reached.projected hx hx' hnone ?_
      intro key
      rw [← hid]
      exact hevents key x.id
  simp only [Message.projection, Prod.mk.injEq] at hprojection
  obtain ⟨hstatus, hrs, hdesc, htime, hkey⟩ := hprojection
  cases x
  cases x'
  simp only [Message.mk.injEq]
  exact ⟨hid, hlater.batch_eq.trans hlater'.batch_eq.symm,
    hlater.chunk_eq.trans hlater'.chunk_eq.symm, hlater.phone_eq.trans hlater'.phone_eq.symm,
    hstatus, hrs, hdesc, htime, hkey⟩

theorem batches_perm (hperm : ops.Perm ops') (hmessages : t.messages = t'.messages)
    (h : s.BatchesFollow ops t) (h' : s.BatchesFollow ops' t') : t.batches = t'.batches := by
  refine eq_of_keys (h.keys.trans h'.keys.symm) (fun b hb b' hb' hid => ?_)
  obtain ⟨b₀, hb₀, hid₀, hrow⟩ := h.exists_start hb
  rw [hrow, h'.rows b₀ hb₀ b' hb' (hid.symm.trans hid₀.symm)]
  have hterminalized : Terminalized s ops b₀.id ↔ Terminalized s ops' b₀.id := by
    simp [Terminalized, hperm.mem_iff]
  have hcounted : Counted s t ops b₀.id ↔ Counted s t' ops' b₀.id := by
    simp [Counted, MessagesMoved, hmessages, hperm.mem_iff]
  rw [Db.expectedRow, Db.expectedRow, propext hterminalized, propext hcounted,
    count_congr hmessages]

/-- A run of clean operations whose sweeps leave nothing due. -/
structure CleanRun (book : EventKey → Event) (phones : EventKey → List String) (s : Db)
    (ops : List Finishing) (t : Db) : Prop where
  run : (finishing book phones).runWhere (EndsCleanly book phones) s ops = some t
  swept : t.Swept ops

/-- Two orders of the same finishing operations, each run cleanly, leave the same batches
behind.  If nothing is active in the batch of a chunk that
one of them has ended as unknown, the batch is completed with unknown results. -/
theorem completion_order_independent (hs : s.Reached book) (hperm : ops.Perm ops')
    (hrun : CleanRun book phones s ops t) (hrun' : CleanRun book phones s ops' t') :
    t.batches = t'.batches ∧ ∀ c ∈ t.chunks, c.status = .unknownTerminal →
      (∀ c₀ ∈ s.chunks, c₀.id = c.id → c₀.status ≠ .unknownTerminal) →
      ∀ b ∈ t.batches, b.id = c.batchId → t.count b.id isActive = 0 →
        b.status = .completedUnknown := by
  have hstart : s.Follows book phones [] s := .start hs
  obtain ⟨hfollows, hbatches⟩ := follows_of_runWhere hstart .start hrun.run
  obtain ⟨hfollows', hbatches'⟩ := follows_of_runWhere hstart .start hrun'.run
  constructor
  · exact batches_perm hperm (messages_perm hperm hfollows hfollows' hrun.swept hrun'.swept)
      hbatches hbatches'
  · intro c hc hstatus hnew b hb hbatch hended
    have hdone : .terminalize c.id ∈ ops := by
      rcases hfollows.source c hc hstatus with hdone | ⟨c₀, hc₀, hid, hold⟩
      · exact hdone
      · exact absurd hold (hnew c₀ hc₀ hid)
    obtain ⟨c₀, hc₀, hsame⟩ := hfollows.chunks.exists_left hc
    obtain ⟨hid, hbatch₀, -⟩ := hsame.columns
    obtain ⟨b₀, hb₀, hid₀, hrow⟩ := hbatches.exists_start hb
    have hterminalized : Terminalized s ops b₀.id :=
      ⟨c₀, hc₀, by rw [hid₀, hbatch, hbatch₀], by rw [← hid]; exact hdone⟩
    rw [hrow, Db.expectedRow, endRow_status]
    rw [← hid₀] at hended
    exact endStatus_of_terminalized hterminalized hended

/-- What clean runs of the same operations make of the messages does not depend on their
order. -/
theorem messages_order_independent (hs : s.Reached book) (hperm : ops.Perm ops')
    (hrun : CleanRun book phones s ops t) (hrun' : CleanRun book phones s ops' t') :
    t.messages = t'.messages := by
  obtain ⟨h, -⟩ := follows_of_runWhere (.start hs) .start hrun.run
  obtain ⟨h', -⟩ := follows_of_runWhere (.start hs) .start hrun'.run
  exact messages_perm hperm h h' hrun.swept hrun'.swept

end

/-! ## Examples of runs -/

theorem reached_after {book : EventKey → Event} {as : List Action}
    (h : ((reporting book).runWhere SettlesCurrent World.start as).isSome = true) :
    (World.after book as).db.Reached book := by
  obtain ⟨w, hw⟩ := isSome_iff_exists.mp h
  rw [World.after, Machine.run_of_runWhere hw]
  exact reached_of_reachableWhere ((Machine.ReachableWhere.init rfl).runWhere hw)

/-- Chunks 1 and 4 are uncertain, chunk 2 is submitted and chunk 3 not yet sent. -/
def fourChunks : List Action :=
  [.accept 1 .sending [(1, "a"), (2, "b"), (3, "c"), (4, "d"), (5, "e"), (6, "f"), (7, "g")],
    .plan 1 1 "c1" [1], .plan 2 1 "c2" [2, 3, 7], .plan 3 1 "c3" [4, 5], .plan 4 1 "c4" [6],
    .moveChunk 1 .submitting, .moveChunk 1 .uncertain, .moveChunk 4 .submitting,
    .moveChunk 4 .uncertain, .moveChunk 2 .submitting,
    .route 2 (some primaryVendorId) [primaryVendorId], .markSubmitted 2 10]

/-- A clean run of some operations; the report is for message 2. -/
abbrev CleansFour : List Finishing → Db → Prop :=
  CleanRun deliveredBook (fun _ => ["b"]) (World.after deliveredBook fourChunks).db

/-- The sweep has two pages of one message each. -/
def cleanOrder : List Finishing :=
  [.exclude 3 [4], .fail 3, .report 7, .expire 1 500 100 1, .expire 1 500 100 1,
    .terminalize 1, .terminalize 4]

def otherCleanOrder : List Finishing :=
  [.terminalize 4, .report 7, .expire 1 500 100 1, .exclude 3 [4], .fail 3,
    .expire 1 500 100 1, .terminalize 1]

theorem exists_cleanRun {book : EventKey → Event} {phones : EventKey → List String} {s : Db}
    {ops : List Finishing}
    (h : ((finishing book phones).runWhere (EndsCleanly book phones) s ops).any
      (fun t => decide (t.Swept ops)) = true) : ∃ t, CleanRun book phones s ops t := by
  obtain ⟨t, hrun, hswept⟩ := (any_eq_true _ _).mp h
  exact ⟨t, hrun, of_decide_eq_true hswept⟩

theorem exists_clean_orders : (∃ t, CleansFour cleanOrder t) ∧ ∃ t, CleansFour otherCleanOrder t :=
  ⟨exists_cleanRun (by decide +kernel), exists_cleanRun (by decide +kernel)⟩

theorem completion_order_independent_fourChunks : ∃ t t', CleansFour cleanOrder t ∧
    CleansFour otherCleanOrder t' ∧ t.batches = t'.batches := by
  obtain ⟨⟨t, hrun⟩, t', hrun'⟩ := exists_clean_orders
  exact ⟨t, t', hrun, hrun', (completion_order_independent (reached_after (by decide +kernel))
    (by decide) hrun hrun').1⟩

theorem messages_order_independent_fourChunks : ∃ t t', CleansFour cleanOrder t ∧
    CleansFour otherCleanOrder t' ∧ t.messages = t'.messages := by
  obtain ⟨⟨t, hrun⟩, t', hrun'⟩ := exists_clean_orders
  exact ⟨t, t', hrun, hrun', messages_order_independent (reached_after (by decide +kernel))
    (by decide) hrun hrun'⟩

/-- Chunk 1 is uncertain and chunk 2 submitted. -/
def twoChunks : List Action :=
  [.accept 1 .sending [(1, "a"), (2, "b")], .plan 1 1 "c1" [1], .plan 2 1 "c2" [2],
    .moveChunk 1 .submitting, .moveChunk 1 .uncertain, .moveChunk 2 .submitting,
    .route 2 (some primaryVendorId) [primaryVendorId], .markSubmitted 2 10]

/-- The statuses of the batches and chunks after some operations. -/
def statusesAfter (ops : List Finishing) : Option (List BatchStatus × List ChunkStatus) :=
  ((finishing deliveredBook (fun _ => ["b"])).run
    (World.after deliveredBook twoChunks).db ops).map
    (fun t => (t.batches.rows.map Batch.status, t.chunks.rows.map Chunk.status))

/-- If the last report comes after the end of the uncertain chunk, the batch is plainly
completed. -/
theorem report_after_terminalization :
    (World.after deliveredBook twoChunks).db.Reached deliveredBook ∧
    statusesAfter [.terminalize 1, .report 7] =
      some ([.completed], [.unknownTerminal, .submitted]) ∧
    statusesAfter [.report 7, .terminalize 1] =
      some ([.completedUnknown], [.unknownTerminal, .submitted]) :=
  ⟨reached_after (by decide +kernel), by decide +kernel, by decide +kernel⟩

end SmsPlatform.Report
