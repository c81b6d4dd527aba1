import SmsPlatform.Spill.Documents
import SmsPlatform.Spill.StreamSteps
import SmsPlatform.Support.Machine
import SmsPlatform.Support.Table

/-!
# Captures

What the vendor client does with a stream.  It announces the response, feeds the bytes as
they arrive and finishes once.  A stream that has refused a chunk is finished as incomplete,
and after an exception only what is left in the buffer is flushed.

Many captures are under way at the same time, and the service encrypts other things besides.
A cipher sees the encryptions of all of them.
-/

namespace SmsPlatform.Spill

open Support RawSpillStream Table Option List

/-! ## One capture -/

inductive Stage
  | opened
  | receiving
  /-- `feed` has returned `False`. -/
  | refused
  /-- Finished, or left after an exception. -/
  | over
  deriving DecidableEq

/-- A stream in the hands of its client; `fed` is a history variable for all bytes that were
given to `feed`. -/
structure Capture where
  stream : RawSpillStream
  stage : Stage
  fed : Bytes

inductive Call
  | announce (httpStatus : ℤ) (contentEncoding : Text) (protocolInvalid : Bool)
  | feed (chunk : Bytes)
  | finish (args : FinishArgs) (renamed : Bool)
  | flush

namespace Capture

def key (c : Capture) : Source × StreamId := (c.stream.source, c.stream.streamId)

section

variable (keys : Keyring) (env : ℕ → FrameIo)

/-- The capture after a call.  The client makes no other calls than these. -/
def next (c : Capture) : Call → Option Capture
  | .announce httpStatus contentEncoding protocolInvalid =>
    if c.stage = .opened then
      match c.stream.announce keys env httpStatus contentEncoding protocolInvalid with
      | (s, .returned _) => some ⟨s, .receiving, c.fed⟩
      | (s, .raised) => some ⟨s, .over, c.fed⟩
    else none
  | .feed chunk =>
    if c.stage = .receiving then
      match c.stream.feed keys env chunk with
      | (s, .returned true) => some ⟨s, .receiving, c.fed ++ chunk⟩
      | (s, .returned false) => some ⟨s, .refused, c.fed ++ chunk⟩
      | (s, .raised) => some ⟨s, .over, c.fed ++ chunk⟩
    else none
  | .finish args renamed =>
    if c.stage = .receiving ∨ (c.stage = .refused ∧ args.complete = false) then
      some ⟨(c.stream.finish keys env args renamed).1, .over, c.fed⟩
    else none
  | .flush => some ⟨(c.stream.flush keys env).1, .over, c.fed⟩

/-- A capture whose stream has just been opened. -/
def start (source : Source) (id : StreamId) (reservedBytes captureBytes : ℕ) : Option Capture :=
  (create source id reservedBytes captureBytes).map (⟨·, .opened, []⟩)

end

/-! ### What holds at each stage -/

/-- Nothing has been written but the header line. -/
structure Opened (c : Capture) : Prop where
  finished_eq : c.stream.finished = false
  seq_eq : c.stream.seq = 0
  keyVersion_eq : c.stream.keyVersion = none
  buffer_eq : c.stream.buffer = []
  log_eq : c.stream.log = []
  fed_eq : c.fed = []
  file_eq : ∃ line,
    encodeDocument (headerDocument c.stream.source c.stream.streamId 0) = some line ∧
    c.stream.file = streamMagic ++ line ++ [newline]

/-- The start of a file: the header line and the announcement. -/
def IsHead (keys : Keyring) (source : Source) (id : StreamId) (v : ℕ) (head : Bytes) : Prop :=
  ∃ line metadata payload record fields,
    encodeDocument (headerDocument source id v) = some line ∧
    fields.kind = kindAnnounce ∧ ControlFields.Plain fields ∧
    encodeDocument fields.document = some metadata ∧
    Seals keys v (controlContext source id 0 fields) metadata payload ∧
    controlRecord controlSentinel metadata payload = some record ∧
    head = streamMagic ++ line ++ [newline] ++ record

/-- The frames hold everything that was fed, except for what is in the buffer. -/
structure Receiving (keys : Keyring) (v : ℕ) (head : Bytes) (frames : List DataFrame)
    (c : Capture) : Prop where
  finished_eq : c.stream.finished = false
  status_ge : 100 ≤ c.stream.httpStatus
  status_le : c.stream.httpStatus ≤ 599
  encoding_ne : c.stream.contentEncoding ≠ []
  isHead : IsHead keys c.stream.source c.stream.streamId v head
  emitted : Emitted keys v head frames c.stream
  content_eq : Emitted.content frames c.stream = c.fed
  buffer_le : c.stream.buffer.length ≤ internalFrameSize

/-- The end was encrypted behind the last frame, and the frames hold all that was fed. -/
structure Completed (c : Capture) (seq : ℕ) (fields : ControlFields) : Prop where
  buffer_eq : c.stream.buffer = []
  httpStatus_eq : c.stream.httpStatus = fields.httpStatus
  contentEncoding_eq : c.stream.contentEncoding = fields.contentEncoding
  captureState_eq : c.stream.captureState = some fields.captureState
  frames : ∃ frames : List DataFrame, frames.length = seq ∧
    frames.flatMap DataFrame.plaintext = c.fed ∧
    ∀ e ∈ c.stream.log, e.context.column = lit "chunk" → ∃ k f, frames[k]? = some f ∧
      e.context = chunkContext c.stream.source c.stream.streamId k ∧ e.plaintext = f.plaintext

/-- An encryption that a stream makes. -/
inductive Own (source : Source) (id : StreamId) (e : Encryption) : Prop
  | chunk (seq : ℕ) (h : e.context = chunkContext source id seq)
  | control (seq : ℕ) (fields : ControlFields)
      (hkind : fields.kind = kindAnnounce ∨ fields.kind = kindTerminal)
      (h : e.context = controlContext source id seq fields)

/-- No end has been encrypted. -/
def NoTerminal (s : RawSpillStream) : Prop := ∀ e ∈ s.log, e.context.column ≠ kindTerminal

structure Sound (keys : Keyring) (c : Capture) : Prop where
  own : ∀ e ∈ c.stream.log, Own c.stream.source c.stream.streamId e
  opened : c.stage = .opened → c.Opened
  receiving : c.stage = .receiving → ∃ v head frames, c.Receiving keys v head frames
  noTerminal : c.stage ≠ .over → NoTerminal c.stream
  /-- An end that says that nothing is missing is that of a completed capture. -/
  terminal : ∀ e ∈ c.stream.log, e.context.column = kindTerminal → ∃ seq fields,
    e.context = controlContext c.stream.source c.stream.streamId seq fields ∧
    (fields.captureState.isComplete = true → c.stage = .over ∧ c.Completed seq fields)

/-! ### One call -/

section

variable {keys : Keyring} {env : ℕ → FrameIo} {c c' : Capture} {s s' : RawSpillStream}

theorem own_of_logsChunks (h : LogsChunks s s') (hown : ∀ e ∈ s.log, Own s.source s.streamId e) :
    ∀ e ∈ s'.log, Own s'.source s'.streamId e := by
  intro e he
  rw [h.source_eq, h.streamId_eq]
  rcases h.mem_or_chunk he with he | ⟨seq, hseq⟩
  · exact hown e he
  · exact .chunk seq hseq

theorem chunk_ne_terminal : lit "chunk" ≠ kindTerminal := by decide

theorem announce_ne_chunk : kindAnnounce ≠ lit "chunk" := by decide

theorem announce_ne_terminal : kindAnnounce ≠ kindTerminal := by decide

theorem noTerminal_of_logsChunks (h : LogsChunks s s') (hno : NoTerminal s) : NoTerminal s' := by
  intro e he
  rcases h.mem_or_chunk he with he | ⟨seq, hseq⟩
  · exact hno e he
  · rw [hseq]
    exact chunk_ne_terminal

theorem sound_of_noTerminal (hown : ∀ e ∈ c.stream.log, Own c.stream.source c.stream.streamId e)
    (hno : NoTerminal c.stream) (hopened : c.stage = .opened → c.Opened)
    (hreceiving : c.stage = .receiving → ∃ v head frames, c.Receiving keys v head frames) :
    c.Sound keys where
  own := hown
  opened := hopened
  receiving := hreceiving
  noTerminal _ := hno
  terminal e he hcolumn := absurd hcolumn (hno e he)

theorem sound_start {source : Source} {id : StreamId} {reservedBytes captureBytes : ℕ}
    (h : start source id reservedBytes captureBytes = some c) : c.Sound keys := by
  obtain ⟨s, hs, rfl⟩ := map_eq_some_iff.mp h
  obtain ⟨line, hline, rfl⟩ := map_eq_some_iff.mp hs
  have hlog : ∀ (P : Encryption → Prop), ∀ e ∈ ([]), P e := by simp
  exact sound_of_noTerminal (hlog _) (hlog _)
    (fun _ => ⟨rfl, rfl, rfl, rfl, rfl, rfl, line, hline, rfl⟩) nofun

theorem orIdentity_ne_nil (encoding : Text) : orIdentity encoding ≠ [] := by
  unfold orIdentity
  split
  · decide
  · assumption

variable {contentEncoding : Text} {protocolInvalid : Bool} {httpStatus : ℤ}

/-- An announcement that was written is the head of the file. -/
theorem receiving_of_announce {ok : Bool} (hopened : c.Opened)
    (h : announceFlushed keys env c.stream httpStatus contentEncoding protocolInvalid =
      (s, .returned ok)) : ∃ v head, Receiving keys v head [] ⟨s, .receiving, c.fed⟩ := by
  unfold announceFlushed at h
  dsimp only at h
  split at h
  · rename_i t answer hwritten
    obtain ⟨rfl, -⟩ := Prod.mk.inj h
    obtain ⟨metadata, payload, v, file, record, hmetadata, hseals, hrecord, hfile, rfl⟩ :=
      writeControlFrame_returned hwritten
    obtain ⟨line, hline, hheader⟩ := hopened.file_eq
    have hrewritten : rewriteHeader (streamMagic ++ line ++ [newline]) v = some file := by
      rcases hfile with ⟨-, hfile⟩ | ⟨hbound, -⟩
      · rw [← hheader]
        exact hfile
      · cases hopened.keyVersion_eq.symm.trans hbound
    obtain ⟨line', hline', rfl⟩ := rewriteHeader_header (Nat.zero_le _) hline hrewritten
    have hstatus := clampHttpStatus_mem httpStatus
    have hencoding := orIdentity_ne_nil contentEncoding
    refine ⟨v, streamMagic ++ line' ++ [newline] ++ record,
      ⟨hopened.finished_eq, hstatus.1, hstatus.2, hencoding,
        ⟨line', metadata, payload, record, _, hline', rfl,
          ⟨.inl rfl, hstatus.1, hstatus.2, hencoding⟩, hmetadata, hseals, hrecord, rfl⟩,
        ⟨rfl, hopened.seq_eq, by simp, by simp, by simp, ?_⟩, ?_, ?_⟩⟩
    · intro e he hcolumn
      have hlog := hopened.log_eq
      simp only [hlog, mem_singleton] at he
      rw [he] at hcolumn
      exact absurd hcolumn announce_ne_chunk
    · simp [Emitted.content, hopened.buffer_eq, hopened.fed_eq]
    · simp [hopened.buffer_eq]
  · cases (Prod.mk.inj h).2

theorem announce_opened (hopened : c.Opened) (httpStatus : ℤ) (contentEncoding : Text)
    (protocolInvalid : Bool) :
    c.stream.announce keys env httpStatus contentEncoding protocolInvalid =
      announceFlushed keys env c.stream httpStatus contentEncoding protocolInvalid := by
  simp [announce, flush, hopened.finished_eq, hopened.buffer_eq]

/-- Nothing but an announcement was encrypted. -/
def Announced (s : RawSpillStream) : Prop :=
  ∀ e ∈ s.log, ∃ fields : ControlFields, fields.kind = kindAnnounce ∧
    e.context = controlContext s.source s.streamId 0 fields

theorem own_of_announced (h : Announced s) : ∀ e ∈ s.log, Own s.source s.streamId e := by
  intro e he
  obtain ⟨fields, hkind, hcontext⟩ := h e he
  exact .control 0 fields (.inl hkind) hcontext

theorem noTerminal_of_announced (h : Announced s) : NoTerminal s := by
  intro e he
  obtain ⟨fields, hkind, hcontext⟩ := h e he
  rw [hcontext, controlContext, hkind]
  exact announce_ne_terminal

theorem announced_announceFlushed (hlog : s.log = []) (httpStatus : ℤ) (contentEncoding : Text)
    (protocolInvalid : Bool) :
    Announced (announceFlushed keys env s httpStatus contentEncoding protocolInvalid).1 := by
  unfold announceFlushed
  dsimp only
  split <;> rename_i hresult
  all_goals
    rcases writeControlFrame_cases hresult with
      rfl | ⟨metadata, payload, v, file, ondisk, bound, rfl⟩
    · simp [Announced, hlog]
    intro e he
    simp only [hlog, mem_singleton] at he
    rw [he]
    exact ⟨_, rfl, rfl⟩

theorem sound_announce (hsound : c.Sound keys)
    (h : c.next keys env (.announce httpStatus contentEncoding protocolInvalid) = some c') :
    c'.Sound keys := by
  obtain ⟨hstage, h⟩ := ite_none_right_eq_some.mp h
  have hopened := hsound.opened hstage
  have hlog := @announced_announceFlushed keys env c.stream hopened.log_eq httpStatus
    contentEncoding
    protocolInvalid
  rw [announce_opened hopened] at h
  split at h <;> rename_i hresult <;> rw [hresult] at hlog <;> cases h <;>
    refine sound_of_noTerminal (own_of_announced hlog) (noTerminal_of_announced hlog) nofun ?_
  · intro _
    obtain ⟨v, head, hreceiving⟩ := receiving_of_announce hopened hresult
    exact ⟨v, head, [], hreceiving⟩
  · exact nofun

/-- Frames that were emitted leave the rest of what holds while receiving alone. -/
theorem Receiving.of_onlyChunks {v : ℕ} {head fed : Bytes} {frames frames' : List DataFrame}
    {stage : Stage} (h : c.Receiving keys v head frames) (hs : OnlyChunks c.stream s)
    (hemitted : Emitted keys v head frames' s) (hcontent : Emitted.content frames' s = fed)
    (hbuffer : s.buffer.length ≤ internalFrameSize) :
    Receiving keys v head frames' ⟨s, stage, fed⟩ := by
  have hfinished : s.finished = c.stream.finished := congrArg Facts.finished hs.facts_eq
  have hstatus : s.httpStatus = c.stream.httpStatus := congrArg Facts.httpStatus hs.facts_eq
  have hencoding : s.contentEncoding = c.stream.contentEncoding :=
    congrArg Facts.contentEncoding hs.facts_eq
  refine ⟨hfinished.trans h.finished_eq, ?_, ?_, ?_, ?_, hemitted, hcontent, hbuffer⟩
  · rw [hstatus]
    exact h.status_ge
  · rw [hstatus]
    exact h.status_le
  · rw [hencoding]
    exact h.encoding_ne
  · dsimp only
    rw [hs.source_eq, hs.streamId_eq]
    exact h.isHead

theorem sound_feed {chunk : Bytes} (hsound : c.Sound keys)
    (h : c.next keys env (.feed chunk) = some c') : c'.Sound keys := by
  obtain ⟨hstage, h⟩ := ite_none_right_eq_some.mp h
  have hfeed := @feed_onlyChunks keys env c.stream chunk
  have hown := own_of_logsChunks hfeed.toLogsChunks hsound.own
  have hno := noTerminal_of_logsChunks hfeed.toLogsChunks
    (hsound.noTerminal (by rw [hstage]; decide))
  split at h <;> rename_i s hresult <;> rw [hresult] at hfeed hown hno <;> cases h <;>
    refine sound_of_noTerminal hown hno nofun ?_
  · intro _
    obtain ⟨v, head, frames, hreceiving⟩ := hsound.receiving hstage
    obtain ⟨frames', hemitted, hcontent, hbuffer⟩ :=
      hreceiving.emitted.feed hreceiving.buffer_le hresult
    rw [hreceiving.content_eq] at hcontent
    exact ⟨v, head, frames', hreceiving.of_onlyChunks hfeed hemitted hcontent hbuffer⟩
  all_goals exact nofun

/-- A flush of a capture that has ended adds nothing. -/
theorem flush_of_completed {seq : ℕ} {fields : ControlFields} (h : c.Completed seq fields) :
    (flush keys env c.stream).1 = c.stream := by
  unfold flush
  split
  · rfl
  · rw [if_pos h.buffer_eq]

theorem sound_flush (hsound : c.Sound keys) (h : c.next keys env .flush = some c') :
    c'.Sound keys := by
  have hflush := @flush_onlyChunks keys env c.stream
  cases h
  refine ⟨own_of_logsChunks hflush.toLogsChunks hsound.own, nofun, nofun,
    fun h => absurd rfl h, ?_⟩
  intro e he hcolumn
  rcases hflush.mem_or_chunk he with he | ⟨seq, hseq⟩
  · obtain ⟨seq, fields, hcontext, hcompleted⟩ := hsound.terminal e he hcolumn
    refine ⟨seq, fields, ?_, ?_⟩
    · dsimp only
      rw [hflush.source_eq, hflush.streamId_eq]
      exact hcontext
    · intro hcomplete
      obtain ⟨-, hdone⟩ := hcompleted hcomplete
      rw [flush_of_completed hdone]
      exact ⟨rfl, hdone.buffer_eq, hdone.httpStatus_eq, hdone.contentEncoding_eq,
        hdone.captureState_eq, hdone.frames⟩
  · rw [hseq] at hcolumn
    exact absurd hcolumn chunk_ne_terminal

/-- An end that says that nothing is missing closes a capture that was receiving. -/
theorem completed_of_ends {t : RawSpillStream} {durable : Bool} {args : FinishArgs} {v : ℕ}
    {head : Bytes} {frames : List DataFrame} (hreceiving : c.Receiving keys v head frames)
    (hflush : flush keys env c.stream = (t, .returned durable)) (hends : Ends t durable args s)
    (hcomplete : (terminalFields s durable args).captureState.isComplete = true) :
    Completed ⟨s, .over, c.fed⟩ t.seq (terminalFields s durable args) := by
  obtain ⟨-, rfl⟩ := isComplete_finalState hcomplete
  obtain ⟨frames', hemitted, hbuffer, hcontent⟩ :=
    hreceiving.emitted.flush hreceiving.buffer_le hflush
  refine ⟨hends.buffer_eq.trans hbuffer, rfl, rfl, hends.captureState_eq,
    frames', hemitted.seq_eq.symm, hcontent.trans hreceiving.content_eq, ?_⟩
  intro e he hcolumn
  obtain ⟨u, metadata, payload, hlog⟩ := hends.log_eq
  rw [hlog] at he
  rw [hends.source_eq, hends.streamId_eq]
  rcases mem_cons.mp he with rfl | he
  · exact absurd hcolumn.symm chunk_ne_terminal
  · exact hemitted.logged e he hcolumn

theorem sound_finish {args : FinishArgs} {renamed : Bool} (hsound : c.Sound keys)
    (h : c.next keys env (.finish args renamed) = some c') : c'.Sound keys := by
  obtain ⟨hstage, h⟩ := ite_none_right_eq_some.mp h
  have hno : NoTerminal c.stream := hsound.noTerminal (by
    rcases hstage with hstage | ⟨hstage, -⟩ <;> rw [hstage] <;> decide)
  cases h
  rcases @finish_cases keys env c.stream args renamed with hchunks | ⟨t, durable, hflush, hends⟩
  · exact sound_of_noTerminal (own_of_logsChunks hchunks hsound.own)
      (noTerminal_of_logsChunks hchunks hno) nofun nofun
  have hchunks : LogsChunks c.stream t := by
    have honly := (@flush_onlyChunks keys env c.stream).toLogsChunks
    rwa [hflush] at honly
  obtain ⟨v, metadata, payload, hlog⟩ := hends.log_eq
  have hcontext : ∀ e ∈ t.log, Own t.source t.streamId e :=
    own_of_logsChunks hchunks hsound.own
  refine ⟨?_, nofun, nofun, fun h => absurd rfl h, ?_⟩
  · intro e he
    rw [hlog] at he
    rw [hends.source_eq, hends.streamId_eq]
    rcases mem_cons.mp he with rfl | he
    · exact .control t.seq _ (.inr rfl) rfl
    · exact hcontext e he
  · intro e he hcolumn
    rw [hlog] at he
    rcases mem_cons.mp he with rfl | he
    · refine ⟨t.seq, _, by rw [hends.source_eq, hends.streamId_eq], ?_⟩
      intro hcomplete
      refine ⟨rfl, ?_⟩
      rcases hstage with hstage | ⟨-, hargs⟩
      · obtain ⟨u, head, frames, hreceiving⟩ := hsound.receiving hstage
        exact completed_of_ends hreceiving hflush hends hcomplete
      · rw [(isComplete_finalState hcomplete).1] at hargs
        cases hargs
    · exact absurd hcolumn (noTerminal_of_logsChunks hchunks hno e he)

theorem sound_next {call : Call} (hsound : c.Sound keys) (h : c.next keys env call = some c') :
    c'.Sound keys := by
  cases call with
  | announce => exact sound_announce hsound h
  | feed => exact sound_feed hsound h
  | finish => exact sound_finish hsound h
  | flush => exact sound_flush hsound h

/-! ### The identity of a capture -/

section

variable {httpStatus : ℤ} {contentEncoding : Text} {protocolInvalid : Bool} {answer : Answer}

theorem identity_announceFlushed
    (h : announceFlushed keys env s httpStatus contentEncoding protocolInvalid = (s', answer)) :
    (s'.source, s'.streamId) = (s.source, s.streamId) := by
  unfold announceFlushed at h
  dsimp only at h
  split at h <;> rename_i hresult <;> obtain ⟨rfl, -⟩ := Prod.mk.inj h
  all_goals
    rcases writeControlFrame_cases hresult with
      rfl | ⟨metadata, payload, v, file, ondisk, bound, rfl⟩ <;> rfl

theorem identity_announce
    (h : announce keys env s httpStatus contentEncoding protocolInvalid = (s', answer)) :
    (s'.source, s'.streamId) = (s.source, s.streamId) := by
  have hflush := (@flush_onlyChunks keys env s).key_eq
  unfold announce at h
  split at h
  · rw [← (Prod.mk.inj h).1]
  split at h <;> rename_i hresult <;> rw [hresult] at hflush
  · exact (identity_announceFlushed h).trans hflush
  · rw [← (Prod.mk.inj h).1]
    exact hflush

end

theorem key_next {call : Call} (h : c.next keys env call = some c') : c'.key = c.key := by
  unfold next at h
  split at h
  · split at h
    · split at h <;> rename_i hresult <;> cases h <;> exact identity_announce hresult
    · cases h
  · rename_i chunk
    have hfeed := (@feed_onlyChunks keys env c.stream chunk).key_eq
    split at h
    · split at h <;> rename_i hresult <;> cases h <;> rw [hresult] at hfeed <;> exact hfeed
    · cases h
  · rename_i args renamed
    have hflush := (@flush_onlyChunks keys env c.stream).key_eq
    split at h
    · cases h
      rcases @finish_cases keys env c.stream args renamed with hchunks | ⟨t, durable, ht, hends⟩
      · exact hchunks.key_eq
      · rw [ht] at hflush
        exact (Prod.ext hends.source_eq hends.streamId_eq).trans hflush
    · cases h
  · have hflush := (@flush_onlyChunks keys env c.stream).key_eq
    cases h
    exact hflush

end

end Capture

/-! ## All captures -/

/-- The captures of a service and what else it has encrypted. -/
structure Recorder where
  captures : Table Capture.key
  others : List Encryption

/-- An encryption of another part of the service: none of them uses the contexts of stream
frames. -/
def Encryption.isForeign (e : Encryption) : Bool :=
  decide (e.context.table ≠ lit "raw_spill") || decide (e.context.column = kindSpill)

inductive RecorderAction
  | openStream (source : Source) (id : StreamId) (reservedBytes captureBytes : ℕ)
  | call (key : Source × StreamId) (env : ℕ → FrameIo) (call : Call)
  | encrypt (e : Encryption)

namespace Recorder

variable (keys : Keyring)

/-- A call on the stream of this identity. -/
def callUpdate (key : Source × StreamId) (env : ℕ → FrameIo) (call : Call) :
    Update Capture.key where
  applies c := decide (c.key = key)
  change c := (c.next keys env call).getD c
  key_change c := by
    cases h : c.next keys env call with
    | none => rfl
    | some c' => exact Capture.key_next h

/-- Identifiers are drawn at random, so a new one is fresh. -/
def next (w : Recorder) : RecorderAction → Option Recorder
  | .openStream source id reservedBytes captureBytes =>
    match Capture.start source id reservedBytes captureBytes with
    | none => none
    | some c =>
      if h : ∀ x ∈ w.captures.rows, x.key ≠ c.key then
        some { w with captures := w.captures.insertNew c h }
      else none
  | .call key env call =>
    if ((w.captures.find? key).bind (·.next keys env call)).isSome then
      some { w with captures := w.captures.apply (callUpdate keys key env call) }
    else none
  | .encrypt e => if e.isForeign then some { w with others := e :: w.others } else none

/-- All encryptions so far. -/
def encryptions (w : Recorder) : List Encryption :=
  w.others ++ w.captures.rows.flatMap (fun c => c.stream.log)

end Recorder

def recorder (keys : Keyring) : Machine Recorder RecorderAction where
  init w := w = ⟨Table.empty Capture.key, []⟩
  next := Recorder.next keys

namespace Recorder

variable {keys : Keyring} {w : Recorder}

structure Sound (keys : Keyring) (w : Recorder) : Prop where
  captures : ∀ c ∈ w.captures, c.Sound keys
  others : ∀ e ∈ w.others, e.isForeign = true

theorem sound_step {w' : Recorder} {a : RecorderAction} (hsound : w.Sound keys)
    (h : w.next keys a = some w') : w'.Sound keys := by
  cases a with
  | openStream source id reservedBytes captureBytes =>
    unfold next at h
    dsimp only at h
    split at h
    · cases h
    rename_i c hstart
    split at h
    · rename_i hfresh
      cases h
      refine ⟨?_, hsound.others⟩
      intro x hx
      rcases (mem_insertNew_iff hfresh).mp hx with hx | rfl
      · exact hsound.captures x hx
      · exact Capture.sound_start hstart
    · cases h
  | call key env call =>
    unfold next at h
    dsimp only at h
    split at h
    · cases h
      refine ⟨?_, hsound.others⟩
      intro x hx
      obtain ⟨c, hc, rfl⟩ := mem_apply_iff.mp hx
      have hold := hsound.captures c hc
      by_cases happlies : (callUpdate keys key env call).applies c = true
      · rw [Update.row_of_applies happlies]
        cases hnext : c.next keys env call with
        | none => simpa [callUpdate, hnext] using hold
        | some c' => simpa [callUpdate, hnext] using Capture.sound_next hold hnext
      · rw [Update.row_of_not_applies (Bool.eq_false_iff.mpr happlies)]
        exact hold
    · cases h
  | encrypt e =>
    unfold next at h
    dsimp only at h
    split at h
    · rename_i hforeign
      cases h
      refine ⟨hsound.captures, ?_⟩
      intro x hx
      rcases mem_cons.mp hx with rfl | hx
      · exact hforeign
      · exact hsound.others x hx
    · cases h

theorem sound_of_reachable (h : (recorder keys).Reachable w) : w.Sound keys := by
  refine Machine.Reachable.invariant ?_ ?_ h
  · rintro _ rfl
    exact ⟨by simp, by simp⟩
  · intro w a w' hsound hnext
    exact sound_step hsound hnext

end Recorder

/-! ## A capture of one byte -/

/-- Every write succeeds. -/
def plainIo : ℕ → FrameIo := fun _ => ⟨zeroNonce, 1, true, .written⟩

def oneByteActions : List RecorderAction :=
  [.openStream .report zeroId 4096 16,
    .call (.report, zeroId) plainIo (.announce 200 (lit "identity") false),
    .call (.report, zeroId) plainIo (.feed [65]),
    .call (.report, zeroId) plainIo (.finish ⟨true, some 200, some (lit "identity"), false, false⟩
      true)]

def oneByteRecorder (keys : Keyring) : Option Recorder :=
  (recorder keys).run ⟨Table.empty Capture.key, []⟩ oneByteActions

end SmsPlatform.Spill
