import SmsPlatform.Spill.Stream

/-!
# What the calls of a stream do

`encryptAndAppend` is the only place where the writer encrypts or touches its file.  What a
call may have done when it failed, and what it has done when it succeeded, follows from the
two lemmas about it.
-/

namespace SmsPlatform.Spill

open List

namespace RawSpillStream

open Support

variable {keys : Keyring} {env : ℕ → FrameIo} {s s' : RawSpillStream}

/-! ## One encryption -/

/-- `file` is the file of `s` once key version `v` stands in its header. -/
abbrev BindsKey (s : RawSpillStream) (v : ℕ) (file : Bytes) : Prop :=
  (s.keyVersion = none ∧ rewriteHeader s.file v = some file) ∨
    (s.keyVersion = some v ∧ file = s.file)

theorem bindKeyVersion_eq_some {io : FrameIo} {v : ℕ} (h : s.bindKeyVersion io v = some s') :
    ∃ file ondisk, s' = { s with file := file, ondiskBytes := ondisk, keyVersion := some v } ∧
      s.BindsKey v file := by
  unfold bindKeyVersion at h
  split at h
  · rename_i hnone
    split at h
    · obtain ⟨file, hfile, rfl⟩ := Option.map_eq_some_iff.mp h
      exact ⟨file, file.length, rfl, .inl ⟨hnone, hfile⟩⟩
    · cases h
  · rename_i bound hbound
    split at h
    · rename_i hsame
      cases h
      subst hsame
      refine ⟨s.file, s.ondiskBytes, ?_, .inr ⟨hbound, rfl⟩⟩
      rw [← hbound]
    · cases h

section

variable {plaintext : Bytes} {context : EncryptionContext} {record : Bytes → Option Bytes}

/-- An encryption adds at most one entry to the log and leaves what the writer knows of its
capture alone. -/
theorem encryptAndAppend_cases {result : Option WriteResult}
    (h : encryptAndAppend keys env s plaintext context record = (s', result)) :
    s' = s ∨ ∃ payload v file ondisk bound,
      s' = { s with
        log := ⟨v, context, plaintext, payload⟩ :: s.log
        file := file
        ondiskBytes := ondisk
        keyVersion := bound } := by
  unfold encryptAndAppend at h
  dsimp only at h
  split at h
  · exact .inl (Prod.mk.inj h).1.symm
  right
  split at h
  · rename_i bound bytes hbind hrecord
    obtain ⟨file, ondisk, rfl, -⟩ := bindKeyVersion_eq_some hbind
    obtain ⟨rfl, -⟩ := Prod.mk.inj h
    unfold append
    split <;> exact ⟨_, _, _, _, _, rfl⟩
  · rename_i bound hbind hrecord
    obtain ⟨file, ondisk, rfl, -⟩ := bindKeyVersion_eq_some hbind
    obtain ⟨rfl, -⟩ := Prod.mk.inj h
    exact ⟨_, _, _, _, _, rfl⟩
  · obtain ⟨rfl, -⟩ := Prod.mk.inj h
    exact ⟨_, _, _, _, _, rfl⟩

/-- The plaintext was encrypted to the payload. -/
def Seals (keys : Keyring) (v : ℕ) (context : EncryptionContext) (plaintext payload : Bytes) :
    Prop :=
  ∃ nonce, encryptBoundBytes keys v nonce plaintext context = .ok ⟨payload, v⟩

theorem encryptAndAppend_written
    (h : encryptAndAppend keys env s plaintext context record = (s', some .written)) :
    ∃ payload v file bytes, Seals keys v context plaintext payload ∧
      record payload = some bytes ∧ s.BindsKey v file ∧
      s' = { s with
        log := ⟨v, context, plaintext, payload⟩ :: s.log
        file := file ++ bytes
        ondiskBytes := (file ++ bytes).length
        keyVersion := some v } := by
  unfold encryptAndAppend at h
  dsimp only at h
  split at h
  · cases (Prod.mk.inj h).2
  rename_i encrypted hencrypted
  obtain ⟨payload, v⟩ := encrypted
  obtain ⟨-, -, hversion, -⟩ := encryptBoundBytes_eq_ok hencrypted
  subst hversion
  split at h
  · rename_i bound bytes hbind hrecord
    obtain ⟨file, ondisk, rfl, hfile⟩ := bindKeyVersion_eq_some hbind
    obtain ⟨hs, hwritten⟩ := Prod.mk.inj h
    refine ⟨payload, _, file, bytes, ⟨_, hencrypted⟩, hrecord, hfile, ?_⟩
    unfold append at hs hwritten
    split at hs
    · exact hs.symm
    · rename_i hfailed
      simp [hfailed] at hwritten
  · cases (Prod.mk.inj h).2
  · cases (Prod.mk.inj h).2

end

/-! ## Emitting data frames -/

/-- What a stream knows of its capture besides its frames. -/
structure Facts where
  source : Source
  streamId : StreamId
  finished : Bool
  httpStatus : ℕ
  contentEncoding : Text
  protocolInvalid : Bool
  captureState : Option CaptureState

def facts (s : RawSpillStream) : Facts :=
  ⟨s.source, s.streamId, s.finished, s.httpStatus, s.contentEncoding, s.protocolInvalid,
    s.captureState⟩

/-- The writer has encrypted data frames of its stream and nothing else. -/
structure LogsChunks (s s' : RawSpillStream) : Prop where
  source_eq : s'.source = s.source
  streamId_eq : s'.streamId = s.streamId
  log_eq : ∃ new, s'.log = new ++ s.log ∧
    ∀ e ∈ new, ∃ seq, e.context = chunkContext s.source s.streamId seq

namespace LogsChunks

theorem key_eq (h : LogsChunks s s') : (s'.source, s'.streamId) = (s.source, s.streamId) :=
  Prod.ext h.source_eq h.streamId_eq

theorem trans {s₁ s₂ s₃ : RawSpillStream} (h : LogsChunks s₁ s₂) (h' : LogsChunks s₂ s₃) :
    LogsChunks s₁ s₃ := by
  obtain ⟨new, hnew, hchunks⟩ := h.log_eq
  obtain ⟨new', hnew', hchunks'⟩ := h'.log_eq
  refine ⟨h'.source_eq.trans h.source_eq, h'.streamId_eq.trans h.streamId_eq, new' ++ new, ?_, ?_⟩
  · rw [hnew', hnew, append_assoc]
  · intro e he
    rcases mem_append.mp he with he | he
    · rw [← h.source_eq, ← h.streamId_eq]
      exact hchunks' e he
    · exact hchunks e he

theorem mem_or_chunk (h : LogsChunks s s') {e : Encryption} (he : e ∈ s'.log) :
    e ∈ s.log ∨ ∃ seq, e.context = chunkContext s.source s.streamId seq := by
  obtain ⟨new, hnew, hchunks⟩ := h.log_eq
  rw [hnew] at he
  rcases mem_append.mp he with he | he
  · exact .inr (hchunks e he)
  · exact .inl he

end LogsChunks

/-- Nothing else has happened to the stream than that frames were emitted, or should have
been. -/
structure OnlyChunks (s s' : RawSpillStream) : Prop extends LogsChunks s s' where
  facts_eq : s'.facts = s.facts

namespace OnlyChunks

theorem of_log_eq (hfacts : s'.facts = s.facts) (hlog : s'.log = s.log) : OnlyChunks s s' :=
  ⟨⟨congrArg Facts.source hfacts, congrArg Facts.streamId hfacts, [], hlog, by simp⟩, hfacts⟩

theorem refl (s : RawSpillStream) : OnlyChunks s s := of_log_eq rfl rfl

theorem trans {s₁ s₂ s₃ : RawSpillStream} (h : OnlyChunks s₁ s₂) (h' : OnlyChunks s₂ s₃) :
    OnlyChunks s₁ s₃ :=
  ⟨h.toLogsChunks.trans h'.toLogsChunks, h'.facts_eq.trans h.facts_eq⟩

/-- What the buffer holds does not matter. -/
theorem after {s₁ s₂ : RawSpillStream} (h : OnlyChunks s₁ s₂) (hfacts : s₁.facts = s.facts)
    (hlog : s₁.log = s.log) : OnlyChunks s s₂ :=
  (of_log_eq hfacts hlog).trans h

end OnlyChunks

theorem emitFrame_onlyChunks (s : RawSpillStream) (payload : Bytes) (clearBuffer : Bool) :
    OnlyChunks s (emitFrame keys env s payload clearBuffer).1 := by
  have hsealed : ∀ {s' result}, encryptAndAppend keys env s payload
      (chunkContext s.source s.streamId s.seq) dataRecord = (s', result) → OnlyChunks s s' := by
    intro s' result hresult
    rcases encryptAndAppend_cases hresult with rfl | ⟨enc, v, file, ondisk, bound, rfl⟩
    · exact .refl s'
    · exact ⟨⟨rfl, rfl, [_], rfl, by simp⟩, rfl⟩
  unfold emitFrame
  split
  · exact .refl s
  split
  · exact .refl s
  split
  · exact .refl s
  split
  · rename_i s' hresult
    exact (hsealed hresult).trans (.of_log_eq rfl rfl)
  all_goals
    rename_i hresult
    exact hsealed hresult

theorem emitFullFrames_onlyChunks (rounds : ℕ) (s : RawSpillStream) :
    OnlyChunks s (emitFullFrames keys env rounds s).1 := by
  induction rounds generalizing s with
  | zero => exact .refl s
  | succ rounds ih =>
    have hemit : OnlyChunks s (emitFrame keys env
        { s with buffer := s.buffer.drop internalFrameSize }
        (s.buffer.take internalFrameSize) false).1 :=
      (emitFrame_onlyChunks _ _ _).after rfl rfl
    unfold emitFullFrames
    split
    · exact .refl s
    dsimp only
    split <;> rename_i hresult <;> rw [hresult] at hemit
    · exact hemit.trans (ih _)
    · exact hemit.trans (.of_log_eq rfl rfl)
    · exact hemit

theorem feedLoop_onlyChunks (rounds : ℕ) (s : RawSpillStream) (chunk : Bytes) :
    OnlyChunks s (feedLoop keys env rounds s chunk).1 := by
  induction rounds generalizing s chunk with
  | zero => exact .refl s
  | succ rounds ih =>
    have hemit : OnlyChunks s (emitFullFrames keys env
        (s.fill chunk (s.room chunk)).buffer.length (s.fill chunk (s.room chunk))).1 :=
      (emitFullFrames_onlyChunks _ _).after rfl rfl
    unfold feedLoop
    split
    · exact .refl s
    split
    · exact .refl s
    dsimp only
    split
    · exact (ih _ _).after rfl rfl
    split <;> rename_i hresult <;> rw [hresult] at hemit
    · exact hemit.trans (ih _ _)
    · exact hemit

theorem feed_onlyChunks (s : RawSpillStream) (chunk : Bytes) :
    OnlyChunks s (feed keys env s chunk).1 := by
  unfold feed
  split
  · exact .refl s
  · exact feedLoop_onlyChunks _ s chunk

theorem flush_onlyChunks (s : RawSpillStream) : OnlyChunks s (flush keys env s).1 := by
  unfold flush
  split
  · exact .refl s
  split
  · exact .refl s
  · exact emitFrame_onlyChunks s _ true

/-! ## Frames that were written -/

/-- A data frame: what it holds and what it was encrypted to. -/
structure DataFrame where
  plaintext : Bytes
  payload : Bytes

def DataFrame.record (f : DataFrame) : Bytes :=
  bigEndian recordHeaderSize f.payload.length ++ f.payload

theorem dataRecord_eq_some {payload bytes : Bytes} (h : dataRecord payload = some bytes) :
    bytes = bigEndian recordHeaderSize payload.length ++ payload := by
  obtain ⟨field, hfield, rfl⟩ := Option.map_eq_some_iff.mp h
  unfold pack at hfield
  split at hfield
  · rw [Option.some.inj hfield]
  · cases hfield

/-- Behind `head` the file holds these frames; nothing else was encrypted as a frame. -/
structure Emitted (keys : Keyring) (v : ℕ) (head : Bytes) (frames : List DataFrame)
    (s : RawSpillStream) : Prop where
  keyVersion_eq : s.keyVersion = some v
  seq_eq : s.seq = frames.length
  file_eq : s.file = head ++ frames.flatMap DataFrame.record
  seals : ∀ k f, frames[k]? = some f →
    Seals keys v (chunkContext s.source s.streamId k) f.plaintext f.payload
  length_le : ∀ f ∈ frames, f.plaintext.length ≤ internalFrameSize
  logged : ∀ e ∈ s.log, e.context.column = lit "chunk" → ∃ k f, frames[k]? = some f ∧
    e.context = chunkContext s.source s.streamId k ∧ e.plaintext = f.plaintext

namespace Emitted

variable {v : ℕ} {head : Bytes} {frames : List DataFrame}

theorem of_buffer (h : Emitted keys v head frames s) (buffer : Bytes) (plaintextBytes : ℕ) :
    Emitted keys v head frames { s with buffer := buffer, plaintextBytes := plaintextBytes } :=
  ⟨h.keyVersion_eq, h.seq_eq, h.file_eq, h.seals, h.length_le, h.logged⟩

/-- A frame that was emitted stands behind the others. -/
theorem emitFrame (h : Emitted keys v head frames s) {payload : Bytes} {clearBuffer : Bool}
    (hnil : payload ≠ []) (hlength : payload.length ≤ internalFrameSize)
    (hemit : s.emitFrame keys env payload clearBuffer = (s', .returned true)) :
    ∃ f, f.plaintext = payload ∧ Emitted keys v head (frames ++ [f]) s' ∧
    s'.buffer = if clearBuffer then [] else s.buffer := by
  unfold RawSpillStream.emitFrame at hemit
  rw [if_neg hnil] at hemit
  split at hemit
  · cases (Prod.mk.inj hemit).2
  split at hemit
  · cases (Prod.mk.inj hemit).2
  split at hemit
  · rename_i t hwritten
    obtain ⟨enc, u, file, bytes, hseals, hrecord, hfile, rfl⟩ := encryptAndAppend_written hwritten
    obtain ⟨rfl, -⟩ := Prod.mk.inj hemit
    obtain ⟨rfl, rfl⟩ : v = u ∧ file = s.file := by
      rcases hfile with ⟨hnone, -⟩ | ⟨hsome, hsame⟩
      · rw [h.keyVersion_eq] at hnone
        cases hnone
      · exact ⟨Option.some.inj (h.keyVersion_eq.symm.trans hsome), hsame⟩
    refine ⟨⟨payload, enc⟩, rfl, ⟨rfl, ?_, ?_, ?_, ?_, ?_⟩, rfl⟩
    · simp [h.seq_eq]
    · simp [h.file_eq, dataRecord_eq_some hrecord, DataFrame.record]
    · intro k f hf
      rcases lt_or_ge k frames.length with hk | hk
      · exact h.seals k f (by rwa [getElem?_append_left hk] at hf)
      rw [getElem?_append_right hk, getElem?_singleton] at hf
      split at hf
      · rename_i hlast
        cases hf
        have hk' : k = s.seq := by rw [h.seq_eq]; omega
        rw [hk']
        exact hseals
      · cases hf
    · intro f hf
      rcases mem_append.mp hf with hf | hf
      · exact h.length_le f hf
      · rw [mem_singleton.mp hf]
        exact hlength
    · intro e he hcolumn
      rcases mem_cons.mp he with rfl | he
      · refine ⟨frames.length, ⟨payload, enc⟩, by simp, ?_, rfl⟩
        rw [← h.seq_eq]
      · obtain ⟨k, f, hf, hcontext, hplain⟩ := h.logged e he hcolumn
        obtain ⟨hk, -⟩ := List.getElem?_eq_some_iff.mp hf
        exact ⟨k, f, by rwa [getElem?_append_left hk], hcontext, hplain⟩
  all_goals cases (Prod.mk.inj hemit).2

/-- What the frames and the buffer hold together. -/
def content (frames : List DataFrame) (s : RawSpillStream) : Bytes :=
  frames.flatMap DataFrame.plaintext ++ s.buffer

theorem emitFullFrames {rounds : ℕ} (h : Emitted keys v head frames s)
    (hemit : s.emitFullFrames keys env rounds = (s', .returned true)) :
    ∃ frames', Emitted keys v head frames' s' ∧ content frames' s' = content frames s ∧
    s'.buffer.length ≤ s.buffer.length := by
  induction rounds generalizing s frames with
  | zero =>
    obtain ⟨rfl, -⟩ := Prod.mk.inj hemit
    exact ⟨frames, h, rfl, le_rfl⟩
  | succ rounds ih =>
    unfold RawSpillStream.emitFullFrames at hemit
    split at hemit
    · obtain ⟨rfl, -⟩ := Prod.mk.inj hemit
      exact ⟨frames, h, rfl, le_rfl⟩
    rename_i hfull
    dsimp only at hemit
    split at hemit
    · rename_i t hframe
      have hnil : s.buffer.take internalFrameSize ≠ [] := by
        intro hnil
        have hlength := congrArg List.length hnil
        rw [length_take_of_le (Nat.le_of_not_lt hfull)] at hlength
        cases hlength
      obtain ⟨f, hplain, hemitted, hbuffer⟩ :=
        (h.of_buffer (s.buffer.drop internalFrameSize) s.plaintextBytes).emitFrame hnil
          (length_take_le _ _) hframe
      rw [if_neg Bool.false_ne_true] at hbuffer
      obtain ⟨frames', hframes', hcontent, hle⟩ := ih hemitted hemit
      refine ⟨frames', hframes', ?_, ?_⟩
      · rw [hcontent]
        simp [content, hbuffer, hplain]
      · rw [hbuffer, length_drop] at hle
        exact hle.trans (Nat.sub_le _ _)
    · cases (Prod.mk.inj hemit).2
    · cases (Prod.mk.inj hemit).2

/-- A round of `feed` does not overfill the buffer. -/
theorem length_fill_le (s : RawSpillStream) (chunk : Bytes)
    (hle : s.buffer.length ≤ internalFrameSize) :
    (s.fill chunk (s.room chunk)).buffer.length ≤ internalFrameSize := by
  have hroom : s.room chunk ≤ internalFrameSize - s.buffer.length :=
    (min_le_right _ _).trans (min_le_right _ _)
  have htake := length_take_le (s.room chunk) chunk
  rw [fill, length_append]
  omega

/-- A chunk that was accepted is in the frames and the buffer. -/
theorem feedLoop {rounds : ℕ} {chunk : Bytes} (h : Emitted keys v head frames s)
    (hbuffer : s.buffer.length ≤ internalFrameSize) (hrounds : chunk.length ≤ rounds)
    (hfeed : s.feedLoop keys env rounds chunk = (s', .returned true)) :
    ∃ frames', Emitted keys v head frames' s' ∧
    content frames' s' = content frames s ++ chunk ∧
    s'.buffer.length ≤ internalFrameSize := by
  induction rounds generalizing s frames chunk with
  | zero =>
    obtain ⟨rfl, -⟩ := Prod.mk.inj hfeed
    obtain rfl : chunk = [] := length_eq_zero_iff.mp (Nat.le_zero.mp hrounds)
    exact ⟨frames, h, (append_nil _).symm, hbuffer⟩
  | succ rounds ih =>
    unfold RawSpillStream.feedLoop at hfeed
    split at hfeed
    · rename_i hnil
      obtain ⟨rfl, -⟩ := Prod.mk.inj hfeed
      subst hnil
      exact ⟨frames, h, (append_nil _).symm, hbuffer⟩
    split at hfeed
    · cases (Prod.mk.inj hfeed).2
    -- Some bytes move from the chunk to the buffer; the rest is what the next round sees.
    have hfilled := h.of_buffer (s.buffer ++ chunk.take (s.room chunk))
      (s.plaintextBytes + s.room chunk)
    have hcontent : content frames (s.fill chunk (s.room chunk)) ++ chunk.drop (s.room chunk) =
        content frames s ++ chunk := by
      simp [content, fill]
    have hlength := length_fill_le s chunk hbuffer
    have hrest : (chunk.drop (s.room chunk)).length ≤ rounds := by
      rw [length_drop]
      omega
    dsimp only at hfeed
    split at hfeed
    · obtain ⟨frames', hframes', hcontent', hle⟩ := ih hfilled hlength hrest hfeed
      exact ⟨frames', hframes', hcontent'.trans hcontent, hle⟩
    split at hfeed
    · rename_i t hemit
      obtain ⟨frames₁, hframes₁, hcontent₁, hle₁⟩ := hfilled.emitFullFrames hemit
      obtain ⟨frames', hframes', hcontent', hle⟩ :=
        ih hframes₁ (hle₁.trans hlength) hrest hfeed
      refine ⟨frames', hframes', ?_, hle⟩
      rw [hcontent', hcontent₁]
      exact hcontent
    · rename_i t answer hne hemit
      cases hfeed
      exact absurd rfl hne

theorem feed {chunk : Bytes} (h : Emitted keys v head frames s)
    (hbuffer : s.buffer.length ≤ internalFrameSize)
    (hfeed : s.feed keys env chunk = (s', .returned true)) :
    ∃ frames', Emitted keys v head frames' s' ∧
    content frames' s' = content frames s ++ chunk ∧
    s'.buffer.length ≤ internalFrameSize := by
  unfold RawSpillStream.feed at hfeed
  split at hfeed
  · cases (Prod.mk.inj hfeed).2
  · exact h.feedLoop hbuffer le_rfl hfeed

/-- After a flush everything is in the frames. -/
theorem flush (h : Emitted keys v head frames s)
    (hbuffer : s.buffer.length ≤ internalFrameSize)
    (hflush : s.flush keys env = (s', .returned true)) :
    ∃ frames', Emitted keys v head frames' s' ∧ s'.buffer = [] ∧
    frames'.flatMap DataFrame.plaintext = content frames s := by
  unfold RawSpillStream.flush at hflush
  split at hflush
  · cases (Prod.mk.inj hflush).2
  split at hflush
  · rename_i hnil
    obtain ⟨rfl, -⟩ := Prod.mk.inj hflush
    exact ⟨frames, h, hnil, by rw [content, hnil, append_nil]⟩
  rename_i hnil
  obtain ⟨f, hplain, hemitted, hempty⟩ := h.emitFrame hnil hbuffer hflush
  refine ⟨frames ++ [f], hemitted, by rw [hempty, if_pos rfl], ?_⟩
  rw [flatMap_append, flatMap_singleton, hplain, content]

end Emitted

/-! ## Control frames -/

section

variable {sentinel seq : ℕ} {fields : ControlFields} {answer : Answer}

theorem writeControlFrame_cases
    (h : writeControlFrame keys env s sentinel seq fields = (s', answer)) :
    s' = s ∨ ∃ metadata payload v file ondisk bound,
      s' = { s with
        log := ⟨v, controlContext s.source s.streamId seq fields, metadata, payload⟩ :: s.log
        file := file
        ondiskBytes := ondisk
        keyVersion := bound } := by
  unfold writeControlFrame at h
  split at h
  · exact .inl (Prod.mk.inj h).1.symm
  rename_i metadata hmetadata
  split at h <;> rename_i hresult <;> obtain ⟨rfl, -⟩ := Prod.mk.inj h
  all_goals
    rcases encryptAndAppend_cases hresult with hsame | ⟨payload, v, file, ondisk, bound, hs⟩
    · exact .inl hsame
    · exact .inr ⟨metadata, payload, v, file, ondisk, bound, hs⟩

theorem writeControlFrame_returned {ok : Bool}
    (h : writeControlFrame keys env s sentinel seq fields = (s', .returned ok)) :
    ∃ metadata payload v file record, encodeDocument fields.document = some metadata ∧
      Seals keys v (controlContext s.source s.streamId seq fields) metadata payload ∧
      controlRecord sentinel metadata payload = some record ∧ s.BindsKey v file ∧
      s' = { s with
        log := ⟨v, controlContext s.source s.streamId seq fields, metadata, payload⟩ :: s.log
        file := file ++ record
        ondiskBytes := (file ++ record).length
        keyVersion := some v } := by
  unfold writeControlFrame at h
  split at h
  · cases (Prod.mk.inj h).2
  rename_i metadata hmetadata
  split at h
  · rename_i t hwritten
    obtain ⟨rfl, -⟩ := Prod.mk.inj h
    obtain ⟨payload, v, file, record, hseals, hrecord, hfile, hs⟩ :=
      encryptAndAppend_written hwritten
    exact ⟨metadata, payload, v, file, record, hmetadata, hseals, hrecord, hfile, hs⟩
  · cases (Prod.mk.inj h).2

end

/-! ## The end -/

theorem isComplete_finalState {protocolInvalid durable : Bool} {args : FinishArgs}
    (h : (finalState protocolInvalid durable args).isComplete = true) :
    args.complete = true ∧ durable = true := by
  unfold finalState at h
  split at h
  · cases h
  split at h
  · rename_i hboth
    exact Bool.and_eq_true_iff.mp hboth
  · cases h

/-- What the end of a stream says. -/
def terminalFields (s : RawSpillStream) (durable : Bool) (args : FinishArgs) : ControlFields where
  kind := kindTerminal
  httpStatus := s.httpStatus
  contentEncoding := s.contentEncoding
  captureState := finalState s.protocolInvalid durable args

/-- The end of the flushed stream `t` was encrypted. -/
structure Ends (t : RawSpillStream) (durable : Bool) (args : FinishArgs) (s' : RawSpillStream) :
    Prop where
  source_eq : s'.source = t.source
  streamId_eq : s'.streamId = t.streamId
  buffer_eq : s'.buffer = t.buffer
  captureState_eq : s'.captureState = some (finalState s'.protocolInvalid durable args)
  log_eq : ∃ v metadata payload, s'.log =
    ⟨v, controlContext t.source t.streamId t.seq (terminalFields s' durable args), metadata,
      payload⟩ :: t.log

theorem finishFlushed_cases (t : RawSpillStream) (durable : Bool) (args : FinishArgs)
    (renamed : Bool) :
    LogsChunks t (finishFlushed keys env t durable args renamed).1 ∨
      Ends t durable args (finishFlushed keys env t durable args renamed).1 := by
  unfold finishFlushed
  dsimp only
  split
  · rename_i s' ok hresult
    rcases writeControlFrame_cases hresult with
      rfl | ⟨metadata, payload, v, file, ondisk, bound, rfl⟩
    · left
      split <;> exact ⟨rfl, rfl, [], rfl, by simp⟩
    · right
      split <;> exact ⟨rfl, rfl, rfl, rfl, v, metadata, payload, rfl⟩
  · rename_i s' hresult
    rcases writeControlFrame_cases hresult with
      rfl | ⟨metadata, payload, v, file, ondisk, bound, rfl⟩
    · exact .inl ⟨rfl, rfl, [], rfl, by simp⟩
    · exact .inr ⟨rfl, rfl, rfl, rfl, v, metadata, payload, rfl⟩

/-- Either no end was encrypted, or it was behind a flush. -/
theorem finish_cases (s : RawSpillStream) (args : FinishArgs) (renamed : Bool) :
    LogsChunks s (finish keys env s args renamed).1 ∨
      ∃ t durable, flush keys env s = (t, .returned durable) ∧
        Ends t durable args (finish keys env s args renamed).1 := by
  have hflush := (@flush_onlyChunks keys env s).toLogsChunks
  unfold finish
  split
  · exact .inl (OnlyChunks.refl s).toLogsChunks
  split <;> rename_i hresult <;> rw [hresult] at hflush
  · rcases @finishFlushed_cases keys env _ _ args renamed with hchunks | hends
    · exact .inl (hflush.trans hchunks)
    · exact .inr ⟨_, _, hresult, hends⟩
  · exact .inl hflush

end RawSpillStream

end SmsPlatform.Spill
