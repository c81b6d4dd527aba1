import SmsPlatform.Report.Convergence

/-!
# Messages stay in their batch

Chunks belong to the batch of their messages.  This and the soundness of the shown
reports hold in every reachable state, together with the fact that a waiting dispatch
decision only excludes messages of its own batch.
-/

namespace SmsPlatform.Report

open Support Schema Table List

/-! ## Frames -/

def Chunk.SamePlace (c c' : Chunk) : Prop := c'.id = c.id ∧ c'.batchId = c.batchId

def Message.SamePlace (m m' : Message) : Prop :=
  m'.id = m.id ∧ m'.batchId = m.batchId ∧ m'.chunkId = m.chunkId

/-- No message changes its chunk and no chunk its batch. -/
structure Db.Frame (db db' : Db) : Prop where
  chunks : Rel Chunk.SamePlace db.chunks db'.chunks
  messages : Rel Message.SamePlace db.messages db'.messages

/-- The chunk of a message belongs to the batch of the message. -/
def Db.Placed (db : Db) : Prop :=
  ∀ m ∈ db.messages, ∀ chunk, m.chunkId = some chunk →
    ∃ c ∈ db.chunks, c.id = chunk ∧ c.batchId = m.batchId

section

variable {db db' : Db} {book : EventKey → Event}

theorem chunks_same (t : Table Chunk.id) : Rel Chunk.SamePlace t t := .refl (fun _ => ⟨rfl, rfl⟩) t

theorem messages_same (t : Table Message.id) : Rel Message.SamePlace t t :=
  .refl (fun _ => ⟨rfl, rfl, rfl⟩) t

theorem chunks_chunkUpdate {t : Table Chunk.id} {chunk : ChunkId}
    {expected : ChunkStatus → Bool} {status : ChunkStatus}
    {submittedAt : Option Time → Option Time} :
    Rel Chunk.SamePlace t (t.apply (chunkUpdate chunk expected status submittedAt)) :=
  .apply_change (fun _ => ⟨rfl, rfl⟩) (fun _ => ⟨rfl, rfl⟩)

theorem messages_statusUpdate {t : Table Message.id} {p : Message → Bool} {status : MessageStatus} :
    Rel Message.SamePlace t (t.apply (statusUpdate p status)) :=
  .apply_change (fun _ => ⟨rfl, rfl, rfl⟩) (fun _ => ⟨rfl, rfl, rfl⟩)

theorem Db.Placed.frame (h : db.Placed) (hframe : db.Frame db') : db'.Placed := by
  intro m' hm' chunk hchunk
  obtain ⟨m, hm, -, hbatch, hsame⟩ := hframe.messages.exists_left hm'
  obtain ⟨c, hc, hid, hplace⟩ := h m hm chunk (hsame.symm.trans hchunk)
  obtain ⟨c', hc', hid', hbatch'⟩ := hframe.chunks.exists_right hc
  exact ⟨c', hc', hid'.trans hid, by rw [hbatch', hplace, hbatch]⟩

theorem projectReport_chunks (h : db.Projected book) (m : Message) (key : EventKey) :
    (db.projectReport book m key).chunks = db.chunks := by
  rcases projectReport_cases h key with ⟨-, heq⟩ | ⟨-, -, hchunks, -⟩
  · rw [heq]
  · exact hchunks

theorem frame_projectReport (h : db.Projected book) (m : Message) (key : EventKey) :
    db.Frame (db.projectReport book m key) := by
  constructor
  · rw [projectReport_chunks h]
    exact chunks_same db.chunks
  · rcases projectReport_cases h key with ⟨-, heq⟩ | ⟨-, -, -, hmessages⟩
    · rw [heq]
      exact messages_same db.messages
    rw [hmessages]
    split
    · exact .apply_change (fun _ => ⟨rfl, rfl, rfl⟩) (fun _ => ⟨rfl, rfl, rfl⟩)
    · exact messages_same db.messages

theorem frame_expireBatch (h : db.Projected book) (batch : BatchId) (now timeout limit : ℕ) :
    db.Frame (db.expireBatch book batch now timeout limit) := by
  obtain ⟨hmessages, -, hchunks⟩ := expireBatch_same h batch now timeout limit
  constructor
  · rw [hchunks]
    exact chunks_same db.chunks
  · rw [hmessages]
    exact messages_statusUpdate

theorem frame_settleDispatch (db : Db) (d : Dispatch) : db.Frame (db.settleDispatch d) := by
  obtain ⟨excluded, hmessages, -, -, hchunks, heq⟩ := settleDispatch_eq db d
  have hframe : db.Frame excluded := by
    constructor
    · rcases hchunks with hsame | hfailed
      · rw [hsame]
        exact chunks_same db.chunks
      · rw [hfailed]
        exact chunks_chunkUpdate
    · rw [hmessages]
      exact messages_statusUpdate
  rw [heq]
  split <;> exact ⟨hframe.chunks, hframe.messages⟩

theorem placed_accept {batch : BatchId} {status : BatchStatus}
    {recipients : List (MessageId × String)} (h : db.Placed)
    (hdb : db.accept batch status recipients = some db') : db'.Placed := by
  obtain ⟨hnew, rfl⟩ := accept_eq_some hdb
  intro m hm chunk hchunk
  rcases mem_append.mp hm with hold | hnew
  · exact h m hold chunk hchunk
  · obtain ⟨recipient, -, rfl⟩ := mem_map.mp hnew
    cases hchunk

theorem placed_plan {chunk : ChunkId} {batch : BatchId} {customId : String}
    {ids : List MessageId} (h : db.Placed)
    (hdb : db.plan chunk batch customId ids = some db') : db'.Placed := by
  obtain ⟨hfresh, -, rfl⟩ := plan_eq_some hdb
  intro m' hm' chunk' hchunk'
  rcases mem_apply_cases hm' with ⟨hm, -⟩ | ⟨m, hm, happ, rfl⟩
  · obtain ⟨c, hc, hid, hplace⟩ := h m' hm chunk' hchunk'
    exact ⟨c, (mem_insertNew_iff hfresh).mpr (.inl hc), hid, hplace⟩
  · obtain rfl : chunk = chunk' := Option.some.inj hchunk'
    simp only [assignUpdate, decide_eq_true_eq] at happ
    exact ⟨_, (mem_insertNew_iff hfresh).mpr (.inr rfl), rfl, happ.2.symm⟩

theorem placed_commits {w : World} {a : Action} (hprojected : w.db.Projected book)
    (h : w.db.Placed) (hdb : Commits book w a db') : db'.Placed := by
  have hmessages := messages_same w.db.messages
  cases hdb with
  | idle | batchStatus | legacyWrite => exact h
  | accept hdb => exact placed_accept h hdb
  | plan hdb => exact placed_plan h hdb
  | route =>
    exact h.frame ⟨.apply_change (fun _ => ⟨rfl, rfl⟩) (fun _ => ⟨rfl, rfl⟩), hmessages⟩
  | moveChunk hdb =>
    obtain ⟨-, -, rfl⟩ := moveChunk_eq_some hdb
    exact h.frame ⟨chunks_chunkUpdate, hmessages⟩
  | markSubmitted hdb | resolveSubmitted hdb =>
    obtain ⟨-, rfl⟩ := casChunk_map_eq_some hdb
    exact h.frame ⟨chunks_chunkUpdate, messages_statusUpdate⟩
  | failChunk hdb =>
    obtain ⟨c, -, -, -, ⟨-, rfl⟩ | ⟨-, rfl⟩⟩ := failChunk_eq_some hdb <;>
      exact h.frame ⟨chunks_chunkUpdate, messages_statusUpdate⟩
  | terminalizeUnknown hdb =>
    obtain ⟨c, -, -, -, rfl⟩ := terminalizeUnknown_eq_some hdb
    exact h.frame ⟨chunks_chunkUpdate, messages_statusUpdate⟩
  | expireBatch => exact h.frame (frame_expireBatch hprojected _ _ _ _)
  | report => exact h.frame (frame_projectReport hprojected _ _)
  | dispatch => exact h.frame (frame_settleDispatch w.db _)

end

/-! ## Reachable states -/

/-- What holds of every reachable state. -/
structure World.Sound (book : EventKey → Event) (w : World) : Prop where
  projected : w.db.Projected book
  placed : w.db.Placed
  dispatched : ∀ tx chunk d, ⟨tx, .dispatch chunk (some d)⟩ ∈ w.txs →
    ∀ id ∈ d.excluded, ∃ m ∈ w.db.messages, m.id = id ∧ m.batchId = d.batchId

section

variable {book : EventKey → Event} {w w' : World} {a : Action}

/-- The messages a dispatch decision excludes are pending messages of its chunk. -/
theorem decideDispatch_excluded {db : Db} {chunk : ChunkId} {hits : List MessageId}
    {d : Dispatch} (hplaced : db.Placed) (h : db.decideDispatch chunk hits = some d)
    {id : MessageId} (hid : id ∈ d.excluded) :
    ∃ m ∈ db.messages, m.id = id ∧ m.batchId = d.batchId := by
  obtain ⟨c, hc, hchunk, -, rfl⟩ := decideDispatch_eq_some h
  obtain ⟨m, hm, hmid, hmchunk, -⟩ := mem_pendingMessages.mp (mem_filter.mp hid).1
  obtain ⟨c', hc', hid', hbatch⟩ := hplaced m hm chunk hmchunk
  obtain rfl : c' = c := eq_of_key_eq hc' hc (hid'.trans hchunk.symm)
  exact ⟨m, hm, hmid, hbatch.symm⟩

theorem sound_next (h : w.Sound book) (hnext : (reporting book).next w a = some w') :
    w'.Sound book := by
  obtain ⟨hcommits, htxs⟩ := next_spec hnext
  refine ⟨projected_next h.projected hnext, placed_commits h.projected h.placed hcommits, ?_⟩
  intro tx chunk d ht id hid
  rcases htxs _ ht with hold | ⟨hdb, hits, hplan⟩
  · obtain ⟨m, hm, hmid, hbatch⟩ := h.dispatched tx chunk d hold id hid
    obtain ⟨m', hm', hid', hbatch'⟩ := message_kept h.projected hnext hm
    exact ⟨m', hm', hid'.trans hmid, hbatch'.trans hbatch⟩
  · rw [hdb]
    exact decideDispatch_excluded h.placed hplan.symm hid

theorem sound_start : World.start.Sound book := by
  refine ⟨projected_start, ?_, ?_⟩
  · exact fun m hm => absurd hm (not_mem_empty m)
  · exact fun tx chunk d ht => absurd ht (not_mem_empty _)

theorem sound_of_reachable (h : (reporting book).Reachable w) : w.Sound book := by
  refine h.invariant ?_ (fun _ _ _ hw hnext => sound_next hw hnext)
  rintro _ rfl
  exact sound_start

end

end SmsPlatform.Report
