import SmsPlatform.Report.Placement

/-!
# Cached counts of a batch

A batch caches how many of its messages are delivered, failed, unknown and still
active.  Reports and the sweep add a difference to the cached counts, all others count
again.  Every writer but one holds the lock of the batch when it reads the messages,
so what it writes is right.  The exception is the settlement of a dispatch decision:
its counts are right if no count has changed since they were read.
-/

namespace SmsPlatform.Report

open Support Schema Vendor Table Update Bool Option

/-! ## Counts -/

/-- The counts a batch caches. -/
def Counts.cached (c : Counts) : ℤ × ℤ × ℤ × ℤ :=
  (c.delivered, c.failed, c.unknown, c.active)

/-- The cached counts of a batch, if they are initialised. -/
def Batch.cached (b : Batch) : Option (ℤ × ℤ × ℤ × ℤ) :=
  b.activeMessageCount.map (fun n => (b.delivered, b.failed, b.unknownCnt, n))

def Db.CountsMatch (db : Db) (b : Batch) : Prop :=
  ∀ cached, b.cached = some cached → cached = (db.counts b.id).cached

def Db.CountersMatch (db : Db) : Prop := ∀ b ∈ db.batches, db.CountsMatch b

section

variable {db db' : Db} {batch : BatchId} {q : Message → Bool}

/-- The cached counts do not tell pending from sent messages. -/
theorem cached_congr (h : ∀ p, p .pending = p .sent → db'.count batch p = db.count batch p) :
    (db'.counts batch).cached = (db.counts batch).cached := by
  simp [Counts.cached, Db.counts, h isDelivered rfl, h isFailed rfl, h isUnknown rfl,
    h isActive rfl]

/-- Messages of another batch do not count, nor do changes that `p` does not tell apart. -/
theorem count_of_statusUpdate {status : MessageStatus} {p : MessageStatus → Bool}
    (hmessages : db'.messages = db.messages.apply (statusUpdate q status))
    (hsame : ∀ m ∈ db.messages, q m = true → m.batchId = batch → p status = p m.status) :
    db'.count batch p = db.count batch p := by
  unfold Db.count
  rw [hmessages]
  refine total_apply_of_eq _ (fun m hm => ?_)
  by_cases hq : q m = true
  · rw [row_of_applies hq]
    refine ite_congr rfl (fun hbatch => ?_) (fun _ => rfl)
    exact congrArg (fun b : Bool => if b then 1 else 0) (hsame m hm hq hbatch)
  · rw [row_of_not_applies (eq_false_iff.mpr hq)]

theorem count_of_project {book : EventKey → Event} {key : EventKey} {m : Message}
    (hm : m ∈ db.messages)
    (hmessages : db'.messages = db.messages.apply (projectUpdate book m.id key))
    (p : MessageStatus → Bool) : db'.count batch p = db.count batch p +
      if m.batchId = batch then indicator p (book key).messageStatus - indicator p m.status
      else 0 := by
  have hrow : (projectUpdate book m.id key).row m = m.project key (book key) :=
    row_of_applies (by simp [projectUpdate])
  unfold Db.count
  rw [hmessages, total_apply_single _ hm (fun s _ hs => by simpa [projectUpdate] using hs),
    hrow]
  by_cases hbatch : m.batchId = batch <;> simp [Message.project, hbatch]

theorem count_of_expired (hmessages : db'.messages = db.messages.apply (statusUpdate q .unknown))
    (hsent : ∀ m ∈ db.messages, q m = true → m.batchId = batch ∧ m.status = .sent)
    (p : MessageStatus → Bool) : db'.count batch p = db.count batch p +
      (indicator p .unknown - indicator p .sent) *
        db.messages.rowcount (statusUpdate q .unknown) := by
  unfold Db.count
  rw [hmessages]
  refine total_apply_const _ _ (fun m hm hq => ?_)
  obtain ⟨hbatch, hstatus⟩ := hsent m hm hq
  simp [statusUpdate, hbatch, hstatus]

end

/-! ## Writers of the counts -/

section

variable {db db' : Db} {batch : BatchId}

theorem Db.CountsMatch.congr {b : Batch} (h : db.CountsMatch b)
    (hcounts : (db'.counts b.id).cached = (db.counts b.id).cached) : db'.CountsMatch b := by
  intro cached hcached
  rw [hcounts]
  exact h cached hcached

theorem Db.CountersMatch.of_batches_eq (h : db.CountersMatch) (hbatches : db'.batches = db.batches)
    (hcounts : ∀ b ∈ db.batches, (db'.counts b.id).cached = (db.counts b.id).cached) :
    db'.CountersMatch := by
  intro b hb
  rw [hbatches] at hb
  exact (h b hb).congr (hcounts b hb)

variable {rule : BatchStatus → Counts → BatchStatus}

/-- After the counts of one batch were written, they match if they are right. -/
theorem countersMatch_writeCounts
    {counts : Counts} (hcounts : counts.cached = (db.counts batch).cached)
    (hothers : ∀ b ∈ db.batches, b.id ≠ batch → db.CountsMatch b) :
    (db.writeCounts rule batch counts).CountersMatch := by
  intro b' hb'
  rcases mem_apply_cases hb' with ⟨hb, hnot⟩ | ⟨b, -, happ, rfl⟩
  · exact hothers b' hb (by simpa [recountUpdate] using hnot)
  · obtain rfl : b.id = batch := by simpa [recountUpdate] using happ
    intro cached hcached
    exact (Option.some.inj hcached).symm.trans hcounts

theorem countersMatch_recount (hothers : ∀ b ∈ db.batches, b.id ≠ batch → db.CountsMatch b) :
    (db.recount rule batch).CountersMatch :=
  countersMatch_writeCounts rfl hothers

/-- The difference between the counts of two states. -/
def Delta.Between (d : Delta) (db db' : Db) (batch : BatchId) : Prop :=
  (db'.counts batch).cached =
    ((db.counts batch).delivered + d.delivered, (db.counts batch).failed + d.failed,
      (db.counts batch).unknown + d.unknown, (db.counts batch).active + d.active)

theorem between_of_project {book : EventKey → Event} {key : EventKey} {m : Message}
    (hm : m ∈ db.messages)
    (hmessages : db'.messages = db.messages.apply (projectUpdate book m.id key)) :
    (statusDelta m.status (book key).messageStatus).Between db db' m.batchId := by
  simp only [Delta.Between, Counts.cached, Db.counts, count_of_project hm hmessages, if_true,
    statusDelta]

variable {q : Message → Bool}

theorem between_of_expired (hmessages : db'.messages = db.messages.apply (statusUpdate q .unknown))
    (hsent : ∀ m ∈ db.messages, q m = true → m.batchId = batch ∧ m.status = .sent) :
    (unknownDelta (db.messages.rowcount (statusUpdate q .unknown))).Between db db' batch := by
  simp only [Delta.Between, Counts.cached, Db.counts, count_of_expired hmessages hsent]
  simp [unknownDelta, indicator, isDelivered, isFailed, isUnknown, isActive]

theorem countersMatch_refreshBatch {delta : Option Delta} (hbatches : db'.batches = db.batches)
    (hdelta : ∀ d, delta = some d → d.Between db db' batch)
    (hold : ∀ b ∈ db.batches, b.id = batch → db.CountsMatch b)
    (hothers : ∀ b ∈ db'.batches, b.id ≠ batch → db'.CountsMatch b) :
    (db'.refreshBatch batch delta).CountersMatch := by
  unfold Db.refreshBatch
  split
  · exact countersMatch_recount hothers
  rename_i d
  split
  · exact countersMatch_recount hothers
  intro b' hb'
  rcases mem_apply_cases hb' with ⟨hb, hnot⟩ | ⟨b, hb, happ, rfl⟩
  · by_cases hid : b'.id = batch
    · -- A batch that the incremental update passes over has no counts to be wrong.
      intro cached hcached
      obtain ⟨n, hn, -⟩ := map_eq_some_iff.mp hcached
      simp [deltaUpdate, hid, hn] at hnot
    · exact hothers b' hb hid
  · simp only [deltaUpdate, and_eq_true, decide_eq_true_eq] at happ
    obtain ⟨rfl, hsome⟩ := happ
    obtain ⟨n, hn⟩ := isSome_iff_exists.mp hsome
    have hcached := hold b (hbatches ▸ hb) rfl (b.delivered, b.failed, b.unknownCnt, n) (by
      simp [Batch.cached, hn])
    intro cached hcached'
    refine .trans ?_ (hdelta d rfl).symm
    simp only [Counts.cached, Prod.mk.injEq] at hcached
    obtain ⟨hdelivered, hfailed, hunknown, hactive⟩ := hcached
    simp only [Batch.cached, deltaUpdate, hn, map_some, Option.some.injEq] at hcached'
    rw [← hcached', hdelivered, hfailed, hunknown, hactive]

/-- Messages of one batch change; the counts of the other batches still match. -/
theorem countsMatch_others {status : MessageStatus}
    (h : db.CountersMatch) (hbatches : db'.batches = db.batches)
    (hmessages : db'.messages = db.messages.apply (statusUpdate q status))
    (hbatch : ∀ m ∈ db.messages, q m = true → m.batchId = batch) :
    ∀ b ∈ db'.batches, b.id ≠ batch → db'.CountsMatch b := by
  intro b hb hne
  rw [hbatches] at hb
  refine (h b hb).congr (cached_congr (fun p _ => ?_))
  refine count_of_statusUpdate hmessages (fun m hm hq heq => ?_)
  exact absurd (heq.symm.trans (hbatch m hm hq)) hne

end

/-! ## Every writer -/

section

variable {book : EventKey → Event} {db db' : Db} {chunk : ChunkId} {batch : BatchId}

theorem countersMatch_accept {status : BatchStatus}
    {recipients : List (MessageId × String)} (h : db.CountersMatch)
    (hdb : db.accept batch status recipients = some db') : db'.CountersMatch := by
  obtain ⟨hnew, rfl⟩ := accept_eq_some hdb
  intro b hb
  rcases (mem_insertNew_iff hnew.1).mp hb with hold | rfl
  · refine (h b hold).congr (cached_congr (fun p _ => ?_))
    have hne : batch ≠ b.id := fun heq => hnew.1 b hold heq.symm
    simp [Db.count, Table.total, newMessage, Function.comp_def, hne]
  · intro cached hcached
    cases hcached

variable {ids : List MessageId}

theorem countersMatch_plan {customId : String}
    (h : db.CountersMatch) (hdb : db.plan chunk batch customId ids = some db') :
    db'.CountersMatch := by
  obtain ⟨-, -, rfl⟩ := plan_eq_some hdb
  refine h.of_batches_eq rfl (fun b _ => cached_congr (fun p _ => ?_))
  refine total_apply_of_eq _ (fun m _ => ?_)
  unfold Update.row
  split <;> rfl

/-- The batch of a message that fails or ends with its chunk. -/
theorem batch_of_chunk (hplaced : db.Placed) {c : Chunk} (hc : c ∈ db.chunks) {m : Message}
    (hm : m ∈ db.messages) (hchunk : m.chunkId = some c.id) : m.batchId = c.batchId := by
  obtain ⟨c', hc', hid, hbatch⟩ := hplaced m hm c.id hchunk
  obtain rfl : c' = c := eq_of_key_eq hc' hc hid
  exact hbatch.symm

theorem countersMatch_failChunk (hplaced : db.Placed) (h : db.CountersMatch)
    (hdb : db.failChunk chunk = some db') : db'.CountersMatch := by
  obtain ⟨c, hc, rfl, -, ⟨hnone, rfl⟩ | ⟨-, rfl⟩⟩ := failChunk_eq_some hdb
  · refine h.of_batches_eq rfl (fun b _ => cached_congr (fun p _ => ?_))
    refine count_of_statusUpdate rfl (fun m hm hq => ?_)
    exact absurd hq (by rw [hnone m hm]; exact false_ne_true)
  · refine countersMatch_recount (countsMatch_others h rfl rfl (fun m hm hq => ?_))
    simp only [Message.failsWith, and_eq_true, decide_eq_true_eq] at hq
    exact batch_of_chunk hplaced hc hm hq.1.1

theorem countersMatch_terminalizeUnknown (hplaced : db.Placed) (h : db.CountersMatch)
    (hdb : db.terminalizeUnknown chunk = some db') : db'.CountersMatch := by
  obtain ⟨c, hc, rfl, -, rfl⟩ := terminalizeUnknown_eq_some hdb
  refine countersMatch_recount (countsMatch_others h rfl rfl (fun m hm hq => ?_))
  simp only [Message.endsWith, and_eq_true, decide_eq_true_eq] at hq
  exact batch_of_chunk hplaced hc hm hq.1

theorem sent_of_expireUpdate {now timeout : ℕ}
    {m : Message} (h : (expireUpdate db batch ids now timeout).applies m = true) :
    m.batchId = batch ∧ m.status = .sent := by
  simp only [expireUpdate, statusUpdate, and_eq_true, decide_eq_true_eq] at h
  exact h.1.1.2

theorem countersMatch_expireBatch (hprojected : db.Projected book) (h : db.CountersMatch)
    (batch : BatchId) (now timeout limit : ℕ) :
    (db.expireBatch book batch now timeout limit).CountersMatch := by
  unfold Db.expireBatch
  dsimp only
  rw [hprojected.repair_eq]
  split
  · exact h
  refine @countersMatch_refreshBatch db _ _ _ rfl ?_ (fun b hb _ => h b hb)
    (countsMatch_others h rfl rfl (fun m _ hq => (sent_of_expireUpdate hq).1))
  rintro d hd
  cases hd
  exact between_of_expired rfl (fun m _ => sent_of_expireUpdate)

theorem countersMatch_projectReport (hprojected : db.Projected book) (h : db.CountersMatch)
    {m : Message} (hm : m ∈ db.messages) (key : EventKey) :
    (db.projectReport book m key).CountersMatch := by
  unfold Db.projectReport
  split
  · dsimp only
    split
    · refine @countersMatch_refreshBatch db _ _ _ rfl ?_ (fun b hb _ => h b hb) ?_
      · intro d hd
        split at hd
        · cases hd
        · cases hd
          exact between_of_project hm rfl
      · intro b hb hne
        refine (h b hb).congr (cached_congr (fun p _ => ?_))
        refine (count_of_project hm rfl p).trans ?_
        rw [if_neg (fun heq => hne heq.symm), add_zero]
    · exact h
  · rw [hprojected.repair_eq]
    exact h

end

/-! ## Settlement of a dispatch decision -/

/-- No count has changed since the dispatch decision counted. -/
def Db.IsCurrent (db : Db) (d : Dispatch) : Prop :=
  d.counts.cached = ((db.exclude d.excluded).counts d.batchId).cached

instance (db : Db) (d : Dispatch) : Decidable (db.IsCurrent d) :=
  inferInstanceAs (Decidable (d.counts.cached = ((db.exclude d.excluded).counts d.batchId).cached))

section

variable {db : Db} {d : Dispatch}

theorem count_congr {u v : Db} (h : v.messages = u.messages) (batch : BatchId) :
    v.counts batch = u.counts batch := by
  simp [Db.counts, Db.count, h]

theorem countersMatch_settleDispatch (h : db.CountersMatch)
    (hexcluded : ∀ id ∈ d.excluded, ∃ m ∈ db.messages, m.id = id ∧ m.batchId = d.batchId)
    (hcurrent : d.settlesOnce = true → db.IsCurrent d) : (db.settleDispatch d).CountersMatch := by
  obtain ⟨excluded, hmessages, -, hbatches, -, heq⟩ := settleDispatch_eq db d
  have hothers : ∀ b ∈ excluded.batches, b.id ≠ d.batchId → excluded.CountsMatch b := by
    refine countsMatch_others h hbatches hmessages (fun m hm hq => ?_)
    rw [Message.isExcluded, decide_eq_true_eq] at hq
    obtain ⟨m', hm', hid, hbatch⟩ := hexcluded m.id hq.1
    rw [← eq_of_key_eq hm' hm hid, hbatch]
  rw [heq]
  split
  · rename_i honce
    refine countersMatch_writeCounts ?_ hothers
    rw [count_congr (u := db.exclude d.excluded) hmessages]
    exact hcurrent honce
  · refine countersMatch_recount (fun b' hb' hne => ?_)
    rcases mem_apply_cases hb' with ⟨hb, -⟩ | ⟨b, -, happ, rfl⟩
    · exact hothers b' hb hne
    · exact absurd (of_decide_eq_true happ) hne

/-- For a batch that is settled once, the condition is necessary. -/
theorem isCurrent_of_countersMatch (honce : d.settlesOnce = true) {b : Batch}
    (hb : b ∈ db.batches) (hid : b.id = d.batchId)
    (h : (db.settleDispatch d).CountersMatch) : db.IsCurrent d := by
  obtain ⟨excluded, hmessages, -, hbatches, -, heq⟩ := settleDispatch_eq db d
  rw [heq, if_pos honce] at h
  have hmem := row_mem_apply (u := recountUpdate settleRule d.batchId d.counts) (hbatches ▸ hb)
  rw [row_of_applies (decide_eq_true hid)] at hmem
  have hmatch := h _ hmem d.counts.cached rfl
  rw [show ((recountUpdate settleRule d.batchId d.counts).change b).id =
    d.batchId from hid] at hmatch
  refine hmatch.trans ?_
  rw [count_congr (u := db.exclude d.excluded)
    (v := excluded.writeCounts settleRule d.batchId d.counts) hmessages]

end

/-! ## Reachable states -/

/-- The dispatch decision of a waiting transaction. -/
def World.waitingDispatch (w : World) (tx : ℕ) : Option Dispatch :=
  match w.body tx with
  | some (.dispatch _ plan) => plan
  | _ => none

theorem waitingDispatch_eq_some {w : World} {tx : ℕ} {d : Dispatch} :
    w.waitingDispatch tx = some d ↔ ∃ chunk, w.body tx = some (.dispatch chunk (some d)) := by
  unfold World.waitingDispatch
  split
  · rename_i chunk plan hbody
    rw [hbody]
    simp
  rename_i hother
  constructor
  · intro h
    cases h
  · rintro ⟨chunk, hbody⟩
    exact absurd hbody (hother chunk (some d))

/-- When a dispatch decision that settles its batch once gets the batch row, no count
has changed since it counted. -/
def SettlesCurrent (w : World) : Action → Prop
  | .commitDispatch tx => ∀ d ∈ w.waitingDispatch tx, d.settlesOnce = true → w.db.IsCurrent d
  | _ => True

instance (w : World) (a : Action) : Decidable (SettlesCurrent w a) := by
  unfold SettlesCurrent
  cases a <;> infer_instance

section

variable {book : EventKey → Event} {w w' : World} {a : Action}

theorem countersMatch_next (hsound : w.Sound book) (h : w.db.CountersMatch)
    (hok : SettlesCurrent w a) (hnext : (reporting book).next w a = some w') :
    w'.db.CountersMatch := by
  have hcommits := (next_spec hnext).1
  generalize w'.db = db' at hcommits
  cases hcommits with
  | idle => exact h
  | accept hdb => exact countersMatch_accept h hdb
  | plan hdb => exact countersMatch_plan h hdb
  | route => exact h.of_batches_eq rfl (fun _ _ => rfl)
  | moveChunk hdb =>
    obtain ⟨-, -, rfl⟩ := moveChunk_eq_some hdb
    exact h.of_batches_eq rfl (fun _ _ => rfl)
  | batchStatus =>
    intro b' hb'
    rcases mem_apply_cases hb' with ⟨hb, -⟩ | ⟨b, hb, -, rfl⟩
    · exact h b' hb
    · exact h b hb
  | legacyWrite =>
    intro b' hb'
    rcases mem_apply_cases hb' with ⟨hb, -⟩ | ⟨b, -, -, rfl⟩
    · exact h b' hb
    · intro cached hcached
      cases hcached
  | markSubmitted hdb =>
    obtain ⟨-, rfl⟩ := casChunk_map_eq_some hdb
    refine h.of_batches_eq rfl (fun b _ => cached_congr (fun p hp => ?_))
    refine count_of_statusUpdate rfl (fun m _ hq _ => ?_)
    simp only [and_eq_true, decide_eq_true_eq] at hq
    rw [hq.1.2, hp]
  | resolveSubmitted hdb =>
    obtain ⟨-, rfl⟩ := casChunk_map_eq_some hdb
    refine h.of_batches_eq rfl (fun b _ => cached_congr (fun p hp => ?_))
    exact count_of_statusUpdate rfl (fun m _ hq _ => by rw [(of_decide_eq_true hq).2, hp])
  | failChunk hdb => exact countersMatch_failChunk hsound.placed h hdb
  | terminalizeUnknown hdb => exact countersMatch_terminalizeUnknown hsound.placed h hdb
  | expireBatch => exact countersMatch_expireBatch hsound.projected h _ _ _ _
  | report _ howned =>
    exact countersMatch_projectReport hsound.projected h (ownedMessage_eq_some howned).1 _
  | dispatch hbody =>
    exact countersMatch_settleDispatch h (hsound.dispatched _ _ _ (body_eq_some hbody))
      (hok _ (waitingDispatch_eq_some.mpr ⟨_, hbody⟩))

theorem countersMatch_of_reachableWhere (h : (reporting book).ReachableWhere SettlesCurrent w) :
    w.Sound book ∧ w.db.CountersMatch := by
  refine h.invariant (I := fun w => w.Sound book ∧ w.db.CountersMatch) ?_ ?_
  · rintro _ rfl
    exact ⟨sound_start, fun b hb => absurd hb (not_mem_empty b)⟩
  · intro w a w' hw hok hnext
    exact ⟨sound_next hw.1 hnext, countersMatch_next hw.1 hw.2 hok hnext⟩

/-- Cached counts match the messages in every state that is reached with current
settlements.  A settlement that is not current and is not followed by a second one
breaks this for the batch it settles. -/
theorem counters_match_of_current_settlements
    (h : (reporting book).ReachableWhere SettlesCurrent w) :
    (∀ b ∈ w.db.batches, ∀ n, b.activeMessageCount = some n →
      b.delivered = w.db.count b.id isDelivered ∧ b.failed = w.db.count b.id isFailed ∧
        b.unknownCnt = w.db.count b.id isUnknown ∧ n = w.db.count b.id isActive) ∧
    ∀ tx d, w.waitingDispatch tx = some d → d.settlesOnce = true →
      (∃ b ∈ w.db.batches, b.id = d.batchId) →
      ∀ w', (reporting book).next w (.commitDispatch tx) = some w' →
        (w'.db.CountersMatch ↔ w.db.IsCurrent d) := by
  obtain ⟨hsound, hmatch⟩ := countersMatch_of_reachableWhere h
  constructor
  · intro b hb n hn
    have hcached := hmatch b hb (b.delivered, b.failed, b.unknownCnt, n)
      (by simp [Batch.cached, hn])
    simpa [Counts.cached, Db.counts] using hcached
  · rintro tx d hwaiting honce ⟨b, hb, hid⟩ w' hnext
    obtain ⟨chunk, hbody⟩ := waitingDispatch_eq_some.mp hwaiting
    have hdb : w'.db = w.db.settleDispatch d := by
      simp only [reporting, World.next, hbody, elim_some, Option.some.injEq] at hnext
      rw [← hnext]
      rfl
    rw [hdb]
    constructor
    · exact isCurrent_of_countersMatch honce hb hid
    · intro hcurrent
      exact countersMatch_settleDispatch hmatch
        (hsound.dispatched _ _ _ (body_eq_some hbody)) (fun _ => hcurrent)

end

/-! ## A report between the count and the batch row -/

/-- A batch with two chunks.  The dispatch decision for chunk 1 excludes one of its two
messages; between its count and its settlement the message of chunk 2 is delivered. -/
def overtakenSettlement : List Action :=
  [.accept 1 .sending [(1, "a"), (2, "b"), (3, "c")], .plan 1 1 "c1" [1, 2],
    .plan 2 1 "c2" [3], .moveChunk 2 .submitting,
    .route 2 (some primaryVendorId) [primaryVendorId], .markSubmitted 2 10,
    .beginDispatch 1 1 [1], .beginReport 2 7 ["c"], .commitReport 2, .commitDispatch 1]

def deliveredBook : EventKey → Event := fun _ => ⟨"c2", primaryVendorId, 1, "ok", 60⟩

/-- The settlement writes that nothing is delivered and two messages are active. -/
theorem settlement_overtaken_by_report :
    (reporting deliveredBook).Reachable (World.after deliveredBook overtakenSettlement) ∧
    (World.after deliveredBook overtakenSettlement).db.batches.rows.map Batch.cached =
      [some (0, 0, 0, 2)] ∧
    ((World.after deliveredBook overtakenSettlement).db.counts 1).cached = (1, 0, 0, 1) :=
  ⟨reachable_after (by decide +kernel), by decide +kernel, by decide +kernel⟩

/-- The same with the report before the count. -/
def currentSettlement : List Action :=
  [.accept 1 .sending [(1, "a"), (2, "b"), (3, "c")], .plan 1 1 "c1" [1, 2],
    .plan 2 1 "c2" [3], .moveChunk 2 .submitting,
    .route 2 (some primaryVendorId) [primaryVendorId], .markSubmitted 2 10,
    .beginReport 2 7 ["c"], .commitReport 2, .beginDispatch 1 1 [1], .commitDispatch 1]

theorem counters_match_currentSettlement :
    ((reporting deliveredBook).runWhere SettlesCurrent World.start
      currentSettlement).isSome = true ∧
    ∀ w, (reporting deliveredBook).runWhere SettlesCurrent World.start currentSettlement =
        some w → ∀ b ∈ w.db.batches, ∀ n, b.activeMessageCount = some n →
      b.delivered = w.db.count b.id isDelivered ∧ b.failed = w.db.count b.id isFailed ∧
        b.unknownCnt = w.db.count b.id isUnknown ∧ n = w.db.count b.id isActive :=
  ⟨by decide +kernel, fun _ hrun => (counters_match_of_current_settlements
    ((Machine.ReachableWhere.init rfl).runWhere hrun)).1⟩

end SmsPlatform.Report
