import SmsPlatform.Report.System

/-!
# What a step commits

One lemma for each writer says what its success leaves behind, and `commits_of_next`
says which writer a step of the system has run.  The invariants are proved from these.
-/

namespace SmsPlatform.Report

open Support Schema Table List

/-! ## Chunks -/

variable {chunk : ChunkId} {db db' : Db} {w : World} {tx : ℕ}

section

variable {expected : ChunkStatus → Bool} {status : ChunkStatus}
  {submittedAt : Option Time → Option Time}

theorem casChunk_eq_some
    (h : db.casChunk chunk expected status submittedAt = some db') :
    (∃ c ∈ db.chunks, c.id = chunk ∧ expected c.status = true) ∧
      db' = { db with
        chunks := db.chunks.apply (chunkUpdate chunk expected status submittedAt) } := by
  unfold Db.casChunk at h
  split at h
  · cases h
  rename_i hcount
  obtain ⟨c, hc, happ⟩ := exists_applies_of_rowcount_pos (Nat.pos_of_ne_zero hcount)
  simp only [chunkUpdate, Bool.and_eq_true, decide_eq_true_eq] at happ
  exact ⟨⟨c, hc, happ⟩, (Option.some.inj h).symm⟩

theorem casChunk_map_eq_some {f : Db → Db}
    (h : (db.casChunk chunk expected status submittedAt).map f = some db') :
    (∃ c ∈ db.chunks, c.id = chunk ∧ expected c.status = true) ∧
      db' = f { db with
        chunks := db.chunks.apply (chunkUpdate chunk expected status submittedAt) } := by
  obtain ⟨db₁, hcas, rfl⟩ := Option.map_eq_some_iff.mp h
  obtain ⟨happ, rfl⟩ := casChunk_eq_some hcas
  exact ⟨happ, rfl⟩

theorem casChunk_bind_eq_some {c : Chunk} {f : Db → Option Db}
    (hfind : db.chunks.find? chunk = some c)
    (h : (db.casChunk chunk expected status submittedAt).bind f = some db') :
    c ∈ db.chunks ∧ c.id = chunk ∧ expected c.status = true ∧ f { db with
      chunks := db.chunks.apply (chunkUpdate chunk expected status submittedAt) } = some db' := by
  obtain ⟨hc, hid⟩ := find?_eq_some_iff.mp hfind
  obtain ⟨db₁, hcas, hrest⟩ := Option.bind_eq_some_iff.mp h
  obtain ⟨⟨c', hc', hid', hexpected⟩, rfl⟩ := casChunk_eq_some hcas
  obtain rfl : c' = c := eq_of_key_eq hc' hc (hid'.trans hid.symm)
  exact ⟨hc, hid, hexpected, hrest⟩

end

theorem moveChunk_eq_some {status : ChunkStatus} (h : db.moveChunk chunk status = some db') :
    (isUnderway status = true ∨ status = .uncertain ∨
      (status = .failed ∧ ∀ m ∈ db.messages, m.chunkId ≠ some chunk)) ∧
    (∃ c ∈ db.chunks, c.id = chunk ∧ isUnderway c.status = true) ∧
    db' = { db with chunks := db.chunks.apply (chunkUpdate chunk isUnderway status id) } := by
  unfold Db.moveChunk at h
  split at h
  · rename_i hstatus
    refine ⟨?_, casChunk_eq_some h⟩
    simpa [mem_rows, or_assoc] using hstatus
  · cases h

/-- What `_fail_unchunked` does to the chunk, if it still has the status that was read
and is not being submitted. -/
def unchunkedUpdate (chunk : ChunkId) (status : ChunkStatus) : Update Chunk.id :=
  chunkUpdate chunk (fun s => decide (s = status ∧ status ≠ .submitting)) .failed id

theorem failUnchunked_eq (db : Db) (chunk : ChunkId) (status : ChunkStatus) :
    db.failUnchunked chunk status =
      { db with chunks := db.chunks.apply (unchunkedUpdate chunk status) } := by
  unfold Db.failUnchunked
  by_cases hstatus : status = .submitting
  · rw [if_pos hstatus, apply_of_rowcount_eq_zero]
    simp [Table.rowcount, unchunkedUpdate, chunkUpdate, hstatus]
  have hupdate : chunkUpdate chunk (fun s => decide (s = status)) .failed id =
      unchunkedUpdate chunk status := by
    simp [unchunkedUpdate, hstatus]
  rw [if_neg hstatus, Db.casChunk, hupdate]
  split
  · rename_i hcount
    rw [apply_of_rowcount_eq_zero hcount]
    rfl
  · rfl

/-! ## Messages -/

/-- The messages a failure of the chunk ends. -/
def Message.failsWith (chunk : ChunkId) (m : Message) : Bool :=
  decide (m.chunkId = some chunk) && isActive m.status && m.noReportEvidence

/-- The messages the end of an uncertain chunk ends. -/
def Message.endsWith (chunk : ChunkId) (m : Message) : Bool :=
  decide (m.chunkId = some chunk) && isActive m.status

/-- The messages of an exclusion. -/
def Message.isExcluded (ids : List MessageId) (m : Message) : Bool :=
  decide (m.id ∈ ids ∧ m.status = .pending)

/-- The database after the chunk has failed, before the batch is counted. -/
def Db.chunkFailed (db : Db) (chunk : ChunkId) : Db :=
  { db with
    chunks := db.chunks.apply (chunkUpdate chunk isPreSend .failed id)
    messages := db.messages.apply (statusUpdate (Message.failsWith chunk) .failed) }

/-- A chunk fails; its batch is counted if that ended a message. -/
theorem failChunk_eq_some (h : db.failChunk chunk = some db') :
    ∃ c ∈ db.chunks, c.id = chunk ∧ isPreSend c.status = true ∧
    (((∀ m ∈ db.messages, m.failsWith chunk = false) ∧ db' = db.chunkFailed chunk) ∨
      ((∃ m ∈ db.messages, m.failsWith chunk = true) ∧
        db' = (db.chunkFailed chunk).recount finalizeRule c.batchId)) := by
  unfold Db.failChunk at h
  split at h
  · cases h
  rename_i c hfind
  obtain ⟨hc, hid, hpre, hfinal⟩ := casChunk_bind_eq_some hfind h
  refine ⟨c, hc, hid, hpre, ?_⟩
  unfold Db.finalizeFailedMessages at hfinal
  dsimp only at hfinal
  split at hfinal
  · rename_i hcount
    refine .inl ⟨fun m hm => ?_, ?_⟩
    · exact Bool.eq_false_iff.mpr (countP_eq_zero.mp hcount m hm)
    · rw [← Option.some.inj hfinal, Db.chunkFailed]
      exact congrArg (fun messages => { db with
        chunks := db.chunks.apply (chunkUpdate chunk isPreSend .failed id)
        messages := messages }) (apply_of_rowcount_eq_zero hcount).symm
  · rename_i hcount
    split at hfinal
    · cases hfinal
    · exact .inr ⟨exists_applies_of_rowcount_pos (Nat.pos_of_ne_zero hcount),
        (Option.some.inj hfinal).symm⟩

/-- The database after an uncertain chunk has ended, before the batch is counted. -/
def Db.chunkEnded (db : Db) (chunk : ChunkId) : Db :=
  { db with
    chunks := db.chunks.apply (chunkUpdate chunk isUncertain .unknownTerminal id)
    messages := db.messages.apply (statusUpdate (Message.endsWith chunk) .unknown) }

theorem terminalizeUnknown_eq_some (h : db.terminalizeUnknown chunk = some db') :
    ∃ c ∈ db.chunks, c.id = chunk ∧ isUncertain c.status = true ∧
    db' = (db.chunkEnded chunk).recount terminalizeRule c.batchId := by
  unfold Db.terminalizeUnknown at h
  split at h
  · cases h
  rename_i c hfind
  obtain ⟨hc, hid, huncertain, hended⟩ := casChunk_bind_eq_some hfind h
  dsimp only at hended
  split at hended
  · cases hended
  · exact ⟨c, hc, hid, huncertain, (Option.some.inj hended).symm⟩

theorem decideDispatch_eq_some {hits : List MessageId} {d : Dispatch}
    (h : db.decideDispatch chunk hits = some d) :
    ∃ c ∈ db.chunks, c.id = chunk ∧ isPreSend c.status = true ∧ d =
      { chunkId := chunk
        batchId := c.batchId
        status := c.status
        excluded := (db.pendingMessages chunk).filter
          (fun id => decide (id ∈ hits ∧ id ∉ db.exclusions))
        emptied := (db.pendingMessages chunk).all (fun id => decide (id ∈ hits))
        counts := (db.exclude ((db.pendingMessages chunk).filter
          (fun id => decide (id ∈ hits ∧ id ∉ db.exclusions)))).counts c.batchId } := by
  unfold Db.decideDispatch at h
  split at h
  · cases h
  rename_i c hfind
  obtain ⟨hc, hid⟩ := find?_eq_some_iff.mp hfind
  dsimp only at h
  split at h
  · cases h
  rename_i hpre
  split at h
  · cases h
  · exact ⟨c, hc, hid, by simpa using hpre, (Option.some.inj h).symm⟩

theorem mem_pendingMessages {id : MessageId} :
    id ∈ db.pendingMessages chunk ↔
      ∃ m ∈ db.messages, m.id = id ∧ m.chunkId = some chunk ∧ m.status = .pending := by
  simp only [Db.pendingMessages, mem_map, mem_filter, decide_eq_true_eq,
    mem_rows]
  exact ⟨fun ⟨m, ⟨hm, hp⟩, hid⟩ => ⟨m, hm, hid, hp⟩,
    fun ⟨m, hm, hid, hp⟩ => ⟨m, ⟨hm, hp⟩, hid⟩⟩

theorem exclude_nil (db : Db) : (db.exclude []).messages = db.messages := by
  refine apply_of_rowcount_eq_zero (u := statusUpdate (Message.isExcluded []) .other) ?_
  simp [Table.rowcount, statusUpdate, Message.isExcluded]

/-- The dispatch decision counts the batch once only. -/
def Dispatch.settlesOnce (d : Dispatch) : Bool :=
  decide (d.excluded = []) || !d.emptied

/-- What a dispatch decision leaves behind, before the batch row is written: the first
settlement writes what was counted earlier, a second one counts again. -/
theorem settleDispatch_eq (db : Db) (d : Dispatch) :
    ∃ excluded : Db, excluded.messages =
        db.messages.apply (statusUpdate (Message.isExcluded d.excluded) .other) ∧
    excluded.projections = db.projections ∧ excluded.batches = db.batches ∧
    (excluded.chunks = db.chunks ∨
      excluded.chunks = db.chunks.apply (unchunkedUpdate d.chunkId d.status)) ∧
    db.settleDispatch d =
      if d.settlesOnce then excluded.writeCounts settleRule d.batchId d.counts
      else (excluded.writeCounts settleRule d.batchId d.counts).recount settleRule
        d.batchId := by
  unfold Db.settleDispatch Dispatch.settlesOnce
  simp only [failUnchunked_eq]
  by_cases hnone : d.excluded = []
  · refine ⟨{ db with chunks := db.chunks.apply (unchunkedUpdate d.chunkId d.status) }, ?_, rfl,
      rfl, .inr rfl, by simp only [hnone, if_true, decide_true, Bool.true_or]⟩
    rw [hnone]
    exact (exclude_nil db).symm
  · by_cases hemptied : d.emptied = true
    · refine ⟨{ db.exclude d.excluded with
        chunks := db.chunks.apply (unchunkedUpdate d.chunkId d.status) }, rfl, rfl, rfl,
          .inr rfl, ?_⟩
      simp only [hnone, if_false, decide_false, hemptied, if_true, Bool.not_true, Bool.or_self,
        Bool.false_eq_true]
      rfl
    · refine ⟨db.exclude d.excluded, rfl, rfl, rfl, .inl rfl, ?_⟩
      simp only [hnone, if_false, hemptied, Bool.false_eq_true, Bool.not_false,
        Bool.or_true, if_true]

/-! ## The environment -/

theorem accept_eq_some {batch : BatchId} {status : BatchStatus}
    {recipients : List (MessageId × String)}
    (h : db.accept batch status recipients = some db') :
    ∃ hnew : (∀ b ∈ db.batches.rows, b.id ≠ batch) ∧
        ((db.messages.rows ++ recipients.map (newMessage batch)).map Message.id).Nodup,
      db' = { db with
        batches := db.batches.insertNew ⟨batch, status, 0, 0, 0, none⟩ hnew.1
        messages := ⟨db.messages.rows ++ recipients.map (newMessage batch), hnew.2⟩ } := by
  unfold Db.accept at h
  split at h
  · rename_i hnew
    exact ⟨hnew, (Option.some.inj h).symm⟩
  · cases h

theorem plan_eq_some {batch : BatchId} {customId : String} {ids : List MessageId}
    (h : db.plan chunk batch customId ids = some db') :
    ∃ hfresh : ∀ c ∈ db.chunks.rows, c.id ≠ chunk,
      (∀ m ∈ db.messages, m.id ∈ ids → m.status ≠ .sent) ∧
      db' = { db with
        chunks := db.chunks.insertNew ⟨chunk, batch, customId, .pending, none, none, []⟩ hfresh
        messages := db.messages.apply (assignUpdate chunk batch ids) } := by
  unfold Db.plan at h
  split at h
  · rename_i hfresh
    split at h
    · rename_i hunsent
      refine ⟨hfresh, fun m hm hid => ?_, (Option.some.inj h).symm⟩
      simpa [hid] using all_eq_true.mp hunsent m hm
    · cases h
  · cases h

/-! ## Steps -/

theorem onChunk_eq_some {w' : World} {result : Option Db} (h : w.onChunk chunk result = some w') :
    w.isLocked chunk = false ∧ ∃ db, result = some db ∧ w' = { w with db := db } := by
  unfold World.onChunk at h
  split at h
  · cases h
  rename_i hlocked
  obtain ⟨db, hdb, rfl⟩ := Option.map_eq_some_iff.mp h
  exact ⟨by simpa using hlocked, db, hdb, rfl⟩

theorem beginTx_eq_some {w' : World} {body : TxBody} (h : w.beginTx tx body = some w') :
    w'.db = w.db ∧ ∀ t ∈ w'.txs, t ∈ w.txs ∨ t = ⟨tx, body⟩ := by
  unfold World.beginTx at h
  split at h
  · rename_i hfresh
    cases h
    exact ⟨rfl, fun t ht => (mem_insertNew_iff hfresh).mp ht⟩
  · cases h

theorem mem_txs_commitTx {t : Tx} (h : t ∈ (w.commitTx tx db).txs) : t ∈ w.txs :=
  (mem_keep_iff.mp h).1

theorem body_eq_some {body : TxBody} (h : w.body tx = some body) : ⟨tx, body⟩ ∈ w.txs := by
  obtain ⟨t, hfind, rfl⟩ := Option.map_eq_some_iff.mp h
  obtain ⟨ht, rfl⟩ := find?_eq_some_iff.mp hfind
  exact ht

theorem ownedMessage_eq_some {book : EventKey → Event} {found : Match} {key : EventKey}
    {m : Message} (h : db.ownedMessage book found key = some m) :
    m ∈ db.messages ∧ m.id = found.messageId ∧ m.batchId = found.batchId := by
  unfold Db.ownedMessage at h
  split at h
  · cases h
  split at h
  · obtain ⟨hfind, hbatch⟩ := Option.filter_eq_some_iff.mp h
    obtain ⟨hm, hid⟩ := find?_eq_some_iff.mp hfind
    exact ⟨hm, hid, of_decide_eq_true hbatch⟩
  · cases h

/-- The database a step commits. -/
inductive Commits (book : EventKey → Event) (w : World) : Action → Db → Prop
  | idle {a : Action} : Commits book w a w.db
  | accept {batch : BatchId} {status : BatchStatus} {recipients : List (MessageId × String)}
      {db : Db} (h : w.db.accept batch status recipients = some db) :
      Commits book w (.accept batch status recipients) db
  | plan {chunk : ChunkId} {batch : BatchId} {customId : String} {ids : List MessageId}
      {db : Db} (h : w.db.plan chunk batch customId ids = some db) :
      Commits book w (.plan chunk batch customId ids) db
  | route {chunk : ChunkId} {selected : Option Vendor.VendorId}
      {irreversible : List Vendor.VendorId} :
      Commits book w (.route chunk selected irreversible)
        { w.db with chunks := w.db.chunks.apply (routeUpdate chunk selected irreversible) }
  | moveChunk {chunk : ChunkId} {status : ChunkStatus} {db : Db}
      (h : w.db.moveChunk chunk status = some db) :
      Commits book w (.moveChunk chunk status) db
  | batchStatus {batch : BatchId} {status : BatchStatus} :
      Commits book w (.batchStatus batch status)
        { w.db with batches := w.db.batches.apply (batchStatusUpdate batch status) }
  | legacyWrite {batch : BatchId} {delivered failed unknown : ℤ} :
      Commits book w (.legacyWrite batch delivered failed unknown)
        { w.db with
          batches := w.db.batches.apply (legacyUpdate batch delivered failed unknown) }
  | markSubmitted {chunk : ChunkId} {now : Time} {db : Db}
      (h : w.db.markSubmitted chunk now = some db) :
      Commits book w (.markSubmitted chunk now) db
  | resolveSubmitted {chunk : ChunkId} {now : Time} {db : Db}
      (h : w.db.resolveSubmitted chunk now = some db) :
      Commits book w (.resolveSubmitted chunk now) db
  | failChunk {chunk : ChunkId} {db : Db} (h : w.db.failChunk chunk = some db) :
      Commits book w (.failChunk chunk) db
  | terminalizeUnknown {chunk : ChunkId} {db : Db}
      (h : w.db.terminalizeUnknown chunk = some db) :
      Commits book w (.terminalizeUnknown chunk) db
  | expireBatch {batch : BatchId} {now timeout limit : ℕ} :
      Commits book w (.expireBatch batch now timeout limit)
        (w.db.expireBatch book batch now timeout limit)
  | report {tx : ℕ} {found : Match} {key : EventKey} {m : Message}
      (hbody : w.body tx = some (.report (some found) key))
      (howned : w.db.ownedMessage book found key = some m) :
      Commits book w (.commitReport tx) (w.db.projectReport book m key)
  | dispatch {tx : ℕ} {chunk : ChunkId} {d : Dispatch}
      (hbody : w.body tx = some (.dispatch chunk (some d))) :
      Commits book w (.commitDispatch tx) (w.db.settleDispatch d)

/-- A transaction that has just read what it waits with. -/
def TxBody.Begun (book : EventKey → Event) (db : Db) : TxBody → Prop
  | .report found key => ∃ phoneHmacs, found = matchReport book db key phoneHmacs
  | .dispatch chunk plan => ∃ hits, plan = db.decideDispatch chunk hits

section

variable {book : EventKey → Event} {w' : World} {a : Action}

/-- A step runs one writer; a transaction that waits afterwards was waiting already or
has just begun. -/
theorem next_spec (h : (reporting book).next w a = some w') :
    Commits book w a w'.db ∧
    ∀ t ∈ w'.txs, t ∈ w.txs ∨ (w'.db = w.db ∧ t.body.Begun book w.db) := by
  cases a with
  | accept batch status recipients =>
    obtain ⟨db, hdb, rfl⟩ := Option.map_eq_some_iff.mp h
    exact ⟨.accept hdb, fun _ => .inl⟩
  | plan chunk batch customId ids =>
    simp only [reporting, World.next] at h
    split at h
    · cases h
    · obtain ⟨db, hdb, rfl⟩ := Option.map_eq_some_iff.mp h
      exact ⟨.plan hdb, fun _ => .inl⟩
  | route chunk selected irreversible =>
    obtain ⟨-, db, hdb, rfl⟩ := onChunk_eq_some h
    cases hdb
    exact ⟨.route, fun _ => .inl⟩
  | moveChunk chunk status =>
    obtain ⟨-, db, hdb, rfl⟩ := onChunk_eq_some h
    exact ⟨.moveChunk hdb, fun _ => .inl⟩
  | batchStatus batch status =>
    simp only [reporting, World.next] at h
    split at h
    · cases h
    · cases h
      exact ⟨.batchStatus, fun _ => .inl⟩
  | legacyWrite batch delivered failed unknown =>
    cases h
    exact ⟨.legacyWrite, fun _ => .inl⟩
  | markSubmitted chunk now =>
    obtain ⟨-, db, hdb, rfl⟩ := onChunk_eq_some h
    exact ⟨.markSubmitted hdb, fun _ => .inl⟩
  | resolveSubmitted chunk now =>
    obtain ⟨-, db, hdb, rfl⟩ := onChunk_eq_some h
    exact ⟨.resolveSubmitted hdb, fun _ => .inl⟩
  | failChunk chunk =>
    obtain ⟨-, db, hdb, rfl⟩ := onChunk_eq_some h
    exact ⟨.failChunk hdb, fun _ => .inl⟩
  | terminalizeUnknown chunk =>
    obtain ⟨-, db, hdb, rfl⟩ := onChunk_eq_some h
    exact ⟨.terminalizeUnknown hdb, fun _ => .inl⟩
  | expireBatch batch now timeout limit =>
    cases h
    exact ⟨.expireBatch, fun _ => .inl⟩
  | beginReport tx key phoneHmacs =>
    obtain ⟨hdb, htxs⟩ := beginTx_eq_some h
    rw [hdb]
    refine ⟨.idle, fun t ht => (htxs t ht).imp_right ?_⟩
    rintro rfl
    exact ⟨rfl, phoneHmacs, rfl⟩
  | commitReport tx =>
    simp only [reporting, World.next] at h
    split at h
    · rename_i found key hbody
      split at h
      · cases h
      cases h
      refine ⟨?_, fun _ ht => .inl (mem_txs_commitTx ht)⟩
      cases found with
      | none => exact .idle
      | some found =>
        cases howned : w.db.ownedMessage book found key with
        | none =>
          simp only [World.commitTx, Db.applyReport, howned]
          exact .idle
        | some m =>
          simp only [World.commitTx, Db.applyReport, howned]
          exact .report hbody howned
    · cases h
  | beginDispatch tx chunk hits =>
    simp only [reporting, World.next] at h
    split at h
    · cases h
    obtain ⟨hdb, htxs⟩ := beginTx_eq_some h
    rw [hdb]
    refine ⟨.idle, fun t ht => (htxs t ht).imp_right ?_⟩
    rintro rfl
    exact ⟨rfl, hits, rfl⟩
  | commitDispatch tx =>
    simp only [reporting, World.next] at h
    split at h
    · rename_i chunk plan hbody
      cases h
      refine ⟨?_, fun _ ht => .inl (mem_txs_commitTx ht)⟩
      cases plan with
      | none => exact .idle
      | some d => exact .dispatch hbody
    · cases h
  | rollback tx =>
    cases h
    exact ⟨.idle, fun _ ht => .inl (mem_txs_commitTx ht)⟩

end

end SmsPlatform.Report
