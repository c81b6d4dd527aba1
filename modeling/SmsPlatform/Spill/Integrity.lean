import SmsPlatform.Spill.Capture

/-!
# Integrity of streams

Under an ideal cipher, a file that is read as complete shows a capture that one writer has
completed.  Whatever the bytes of the file are, every frame that is decrypted was encrypted
under the number at which it is read, and the end under the number of frames in front of it.
-/

namespace SmsPlatform.Spill

open Support RawSpillStream List Recorder

/-! ## Contexts of different frames are different -/

theorem separator_not_mem_source (source : Source) : separator ∉ source.text := by
  cases source <;> decide

theorem separator_not_mem_hexText {n : ℕ} {t : Text} (h : isHexText n t = true) :
    separator ∉ t := by
  intro hmem
  rw [isHexText, Bool.and_eq_true, all_eq_true] at h
  exact absurd (h.2 _ hmem) (by decide)

theorem separator_not_mem_digits {t : Text} (h : ∀ c ∈ t, isDigit c = true) : separator ∉ t :=
  fun hmem => absurd (h _ hmem) (by decide)

theorem separator_not_mem_zeroPadded (width n : ℕ) :
    separator ∉ charsText (zeroPadded width n) := by
  refine separator_not_mem_digits fun c hc => ?_
  obtain ⟨d, hd, rfl⟩ := mem_map.mp hc
  exact isDigit_toNat (isDigit_of_mem_zeroPadded hd)

theorem separator_not_mem_natText (n : ℕ) : separator ∉ natText n :=
  separator_not_mem_digits fun _ hc => isDigit_of_mem_natText hc

theorem separator_not_mem_captureState (state : CaptureState) : separator ∉ state.text := by
  cases state <;> decide

theorem CaptureState.text_injective : Function.Injective CaptureState.text := by
  intro a b h
  have hnormal := congrArg normalizeCaptureState h
  rw [normalizeCaptureState_text, normalizeCaptureState_text] at hnormal
  exact Option.some.inj hnormal

theorem StreamId.text_injective : Function.Injective StreamId.text := by
  rintro ⟨t, ht⟩ ⟨t', ht'⟩ h
  obtain rfl : t = t' := h
  rfl

section

variable {source source' : Source} {id id' : StreamId} {seq seq' : ℕ}

/-- The identity of a stream is the start of an object id. -/
theorem identity_of_objectId {rest rest' : Text}
    (h : source.text ++ separator :: (id.text ++ separator :: rest) =
      source'.text ++ separator :: (id'.text ++ separator :: rest')) :
    source = source' ∧ id = id' ∧ rest = rest' := by
  obtain ⟨hsource, htail⟩ := append_cons_inj_of_not_mem (separator_not_mem_source source)
    (separator_not_mem_source source') h
  obtain ⟨hid, hrest⟩ := append_cons_inj_of_not_mem
    (separator_not_mem_hexText id.isHexText_text) (separator_not_mem_hexText id'.isHexText_text)
    htail
  exact ⟨Source.text_injective hsource, StreamId.text_injective hid, hrest⟩

theorem seq_of_zeroPadded (h : charsText (zeroPadded 8 seq) = charsText (zeroPadded 8 seq')) :
    seq = seq' :=
  zeroPadded_injective 8 (charsText_injective h)

theorem chunkContext_injective (h : chunkContext source id seq = chunkContext source' id' seq') :
    source = source' ∧ id = id' ∧ seq = seq' := by
  obtain ⟨hsource, hid, hseq⟩ := identity_of_objectId (congrArg EncryptionContext.objectId h)
  exact ⟨hsource, hid, seq_of_zeroPadded hseq⟩

theorem controlContext_injective {fields fields' : ControlFields}
    (h : controlContext source id seq fields = controlContext source' id' seq' fields') :
    source = source' ∧ id = id' ∧ seq = seq' ∧ fields = fields' := by
  have hkind : fields.kind = fields'.kind := congrArg EncryptionContext.column h
  have hobject := congrArg EncryptionContext.objectId h
  simp only [controlContext, frameObjectId, append_assoc, cons_append] at hobject
  obtain ⟨hsource, hid, htail⟩ := identity_of_objectId hobject
  obtain ⟨hseq, hmeta⟩ := append_cons_inj_of_not_mem (separator_not_mem_zeroPadded 8 seq)
    (separator_not_mem_zeroPadded 8 seq') htail
  rw [hkind, append_cancel_left_eq, List.cons.injEq] at hmeta
  obtain ⟨hstatus, htail⟩ := append_cons_inj_of_not_mem (separator_not_mem_natText _)
    (separator_not_mem_natText _) hmeta.2
  obtain ⟨hencoding, hstate⟩ := append_cons_inj_of_not_mem_right
    (separator_not_mem_captureState _) (separator_not_mem_captureState _) htail
  refine ⟨hsource, hid, seq_of_zeroPadded hseq, ?_⟩
  obtain ⟨kind, status, encoding, state⟩ := fields
  obtain ⟨kind', status', encoding', state'⟩ := fields'
  obtain rfl : kind = kind' := hkind
  obtain rfl : status = status' := natText_injective hstatus
  obtain rfl : encoding = encoding' := hencoding
  obtain rfl : state = state' := CaptureState.text_injective hstate
  rfl

end

/-! ## What a complete stream was assembled from -/

section

variable {py : Json.Interpreter} {keys : Keyring} {header : StreamFileHeader}

/-- Chunks and end of a stream, each decrypted under its number. -/
structure DecryptedFrom (keys : Keyring) (header : StreamFileHeader) (seq : ℕ)
    (chunks : List Bytes) (terminal : ControlFields) : Prop where
  chunk : ∀ k chunk, chunks[k]? = some chunk → ∃ payload,
    decryptBoundBytes keys payload header.keyVersion
      (chunkContext header.source header.streamId (seq + k)) = .ok chunk
  kind_eq : terminal.kind = kindTerminal
  terminal : ∃ metadata ciphertext, decryptBoundBytes keys ciphertext header.keyVersion
    (controlContext header.source header.streamId (seq + chunks.length) terminal) = .ok metadata

theorem DecryptedFrom.cons {seq : ℕ} {chunk payload : Bytes} {chunks : List Bytes}
    {terminal : ControlFields} (h : DecryptedFrom keys header (seq + 1) chunks terminal)
    (hchunk : decryptBoundBytes keys payload header.keyVersion
      (chunkContext header.source header.streamId seq) = .ok chunk) :
    DecryptedFrom keys header seq (chunk :: chunks) terminal where
  chunk k c hk := by
    cases k with
    | zero =>
      cases hk
      exact ⟨payload, hchunk⟩
    | succ k =>
      have hold := h.chunk k c hk
      rwa [show seq + 1 + k = seq + (k + 1) by omega] at hold
  kind_eq := h.kind_eq
  terminal := by
    have hold := h.terminal
    rwa [show seq + 1 + chunks.length = seq + (chunk :: chunks).length by
      rw [length_cons]; omega] at hold

theorem decryptedFrom_of_assembleLoop {fuel seq : ℕ} {bs : Bytes} {a r : AssembledStream}
    (h : assembleLoop py keys header fuel bs seq a = .ok r) {terminal : ControlFields}
    (hterminal : r.terminal = some terminal) (hincomplete : r.incomplete = false)
    (hlegacy : r.legacyTerminal = false) (hstart : a.terminal = none) :
    ∃ chunks, r.plaintext = a.plaintext ++ chunks.flatten ∧
    DecryptedFrom keys header seq chunks terminal := by
  induction fuel generalizing bs seq a with
  | zero =>
    -- Without rounds the loop returns what it was given, and that has no end.
    have hsame : r = a := by
      cases bs with
      | _ => exact (Except.ok.inj h).symm
    rw [hsame, hstart] at hterminal
    cases hterminal
  | succ fuel ih =>
    by_cases hbs : bs = []
    · subst hbs
      obtain rfl : a = r := Except.ok.inj h
      rw [hstart] at hterminal
      cases hterminal
    rcases assembleLoop_cases hbs h with
      rfl | ⟨-, ⟨-, fields, rest, -, hrest⟩ | ⟨-, hend⟩ | ⟨-, -, chunk, hchunk, hrest⟩⟩
    · cases hincomplete
    · obtain ⟨chunks, hplaintext, hdecrypted⟩ := ih hrest hstart
      exact ⟨chunks, hplaintext, hdecrypted⟩
    · rcases readTerminal_cases hend with
        ⟨fields, behind, hframe, hkind, rfl⟩ | ⟨footer, -, rfl⟩ | rfl
      · obtain rfl : fields = terminal := Option.some.inj hterminal
        obtain ⟨metadata, ciphertext, -, -, hplain⟩ := readControlFrame_eq_some.mp hframe
        exact ⟨[], (append_nil _).symm, by simp, hkind, metadata, ciphertext, hplain⟩
      · cases hlegacy
      · cases hincomplete
    · obtain ⟨chunks, hplaintext, hdecrypted⟩ := ih hrest hstart
      refine ⟨chunk :: chunks, ?_, hdecrypted.cons hchunk⟩
      rw [hplaintext, flatten_cons, append_assoc]

end

/-! ## Under an ideal cipher -/

theorem chunk_ne_spill : lit "chunk" ≠ kindSpill := by decide

theorem terminal_ne_spill : kindTerminal ≠ kindSpill := by decide

namespace Recorder

variable {keys : Keyring} {w : Recorder}

/-- What was encrypted as a frame of a stream was encrypted by the capture of this stream. -/
theorem capture_of_context (hsound : w.Sound keys) {e : Encryption} (he : e ∈ w.encryptions)
    (htable : e.context.table = lit "raw_spill") (hcolumn : e.context.column ≠ kindSpill) :
    ∃ c ∈ w.captures, e ∈ c.stream.log ∧ Capture.Own c.stream.source c.stream.streamId e := by
  rcases mem_append.mp he with he | he
  · have hforeign := hsound.others e he
    simp [Encryption.isForeign, htable, hcolumn] at hforeign
  · obtain ⟨c, hc, helog⟩ := mem_flatMap.mp he
    exact ⟨c, hc, helog, (hsound.captures c hc).own e helog⟩

/-- A chunk that is decrypted as a frame of a capture was logged by this capture. -/
theorem chunk_of_decrypt (hsound : w.Sound keys) (hideal : keys.IdealFor w.encryptions)
    {c : Capture} (hc : c ∈ w.captures) {seq : ℕ} {payload chunk : Bytes} {keyVersion : ℤ}
    (h : decryptBoundBytes keys payload keyVersion
      (chunkContext c.stream.source c.stream.streamId seq) = .ok chunk) :
    ∃ e ∈ c.stream.log, e.context = chunkContext c.stream.source c.stream.streamId seq ∧
    e.plaintext = chunk := by
  obtain ⟨e, he, -, hcontext, hplain, -⟩ := decryptBoundBytes_ideal hideal h
  obtain ⟨c', hc', helog, hown⟩ := capture_of_context hsound he (by rw [hcontext]; rfl)
    (by rw [hcontext]; exact chunk_ne_spill)
  cases hown with
  | chunk seq' hseq' =>
    obtain ⟨hsource, hid, -⟩ := chunkContext_injective (hcontext.symm.trans hseq')
    obtain rfl : c = c' := Table.eq_of_key_eq hc hc' (Prod.ext hsource hid)
    exact ⟨e, helog, hcontext, hplain⟩
  | control seq' fields hkind hseq' =>
    have hcolumn : lit "chunk" = fields.kind :=
      congrArg EncryptionContext.column (hcontext.symm.trans hseq')
    rcases hkind with hkind | hkind
    · exact absurd (hcolumn.trans hkind).symm Capture.announce_ne_chunk
    · exact absurd (hcolumn.trans hkind) Capture.chunk_ne_terminal

/-- An end that is decrypted and says that nothing is missing is that of a completed
capture. -/
theorem completed_of_decrypt (hsound : w.Sound keys) (hideal : keys.IdealFor w.encryptions)
    {source : Source} {id : StreamId} {seq : ℕ} {fields : ControlFields}
    (hkind : fields.kind = kindTerminal) (hcomplete : fields.captureState.isComplete = true)
    {ciphertext metadata : Bytes} {keyVersion : ℤ}
    (h : decryptBoundBytes keys ciphertext keyVersion (controlContext source id seq fields) =
      .ok metadata) :
    ∃ c ∈ w.captures, c.stream.source = source ∧ c.stream.streamId = id ∧ c.stage = .over ∧
    c.Completed seq fields := by
  obtain ⟨e, he, -, hcontext, -⟩ := decryptBoundBytes_ideal hideal h
  have hcolumn : e.context.column = kindTerminal := by
    rw [hcontext]
    exact hkind
  obtain ⟨c, hc, helog, -⟩ := capture_of_context hsound he (by rw [hcontext]; rfl)
    (by rw [hcolumn]; exact terminal_ne_spill)
  obtain ⟨seq', fields', hcontext', hcompleted⟩ := (hsound.captures c hc).terminal e helog hcolumn
  obtain ⟨rfl, rfl, rfl, rfl⟩ := controlContext_injective (hcontext.symm.trans hcontext')
  obtain ⟨hstage, hdone⟩ := hcompleted hcomplete
  exact ⟨c, hc, rfl, rfl, hstage, hdone⟩

/-- The chunks in front of the end are the frames of the capture. -/
theorem flatten_eq_fed (hsound : w.Sound keys) (hideal : keys.IdealFor w.encryptions)
    {c : Capture} (hc : c ∈ w.captures) {header : StreamFileHeader} {chunks : List Bytes}
    {terminal : ControlFields} (hsource : c.stream.source = header.source)
    (hid : c.stream.streamId = header.streamId)
    (hdecrypted : DecryptedFrom keys header 0 chunks terminal)
    (hcompleted : c.Completed chunks.length terminal) : chunks.flatten = c.fed := by
  obtain ⟨frames, hlength, hfed, hlogged⟩ := hcompleted.frames
  have hchunks : chunks = frames.map DataFrame.plaintext := by
    refine ext_getElem (by rw [length_map, hlength]) fun k hk hk' => ?_
    obtain ⟨payload, hchunk⟩ := hdecrypted.chunk k _ (getElem?_eq_getElem hk)
    rw [← hsource, ← hid, Nat.zero_add] at hchunk
    obtain ⟨e, he, hcontext, hplain⟩ := chunk_of_decrypt hsound hideal hc hchunk
    obtain ⟨k', f, hf, hcontext', hplain'⟩ := hlogged e he (by rw [hcontext]; rfl)
    obtain ⟨-, -, rfl⟩ := chunkContext_injective (hcontext.symm.trans hcontext')
    obtain ⟨hk'', hframe⟩ := List.getElem?_eq_some_iff.mp hf
    rw [← hplain, hplain', getElem_map, hframe]
  rw [hchunks, ← hfed, flatMap_def]

end Recorder

/-- Whatever bytes are presented as a stream file: if they are read as complete, then the
record shows a capture of this stream that is over, with all that was fed to it and the
status, the encoding and the state that its end was written with. -/
theorem complete_record_is_a_capture (service : Service) (w : Recorder)
    (hw : (recorder service.keys).Reachable w) (hideal : service.keys.IdealFor w.encryptions)
    (nonce : Nonce) (name : Text) (expectedSource : Option Source) (bs : Bytes)
    (record : RawSpillRecord)
    (hread : readStream service nonce name expectedSource bs = .ok (some record))
    (hcomplete : record.captureState.isComplete = true) :
    ∃ c ∈ w.captures, c.stage = .over ∧ c.stream.source = record.source ∧
      some c.stream.streamId = record.streamId ∧
      c.stream.captureState = some record.captureState ∧
      c.stream.httpStatus = record.httpStatus ∧
      c.stream.contentEncoding = record.contentEncoding ∧
      record.Carries service nonce c.fed := by
  have hsound := sound_of_reachable hw
  obtain ⟨header, rest, a, -, hassemble, -, hrecord⟩ := readStream_eq_some hread
  obtain ⟨hsource, hid, hcarries, houtcome⟩ := streamRecord_eq_some hrecord
  obtain ⟨hincomplete, hlegacy, terminal, hterminal, hstate, hstatus, hencoding⟩ :=
    streamOutcome_isComplete houtcome hcomplete
  obtain ⟨chunks, hplaintext, hdecrypted⟩ :=
    decryptedFrom_of_assembleLoop hassemble hterminal hincomplete hlegacy rfl
  obtain ⟨metadata, ciphertext, hend⟩ := hdecrypted.terminal
  rw [Nat.zero_add] at hend
  rw [← hstate] at hcomplete
  obtain ⟨c, hc, hcsource, hcid, hstage, hcompleted⟩ :=
    completed_of_decrypt hsound hideal hdecrypted.kind_eq hcomplete hend
  have hfed := flatten_eq_fed hsound hideal hc hcsource hcid hdecrypted hcompleted
  rw [hplaintext, hfed] at hcarries
  refine ⟨c, hc, hstage, hcsource.trans hsource.symm, ?_, ?_, ?_, ?_, hcarries⟩
  · rw [hid, hcid]
  · rw [hcompleted.captureState_eq, hstate]
  · rw [hcompleted.httpStatus_eq, hstatus]
  · rw [hcompleted.contentEncoding_eq, hencoding]

/-- What is encrypted while one byte is captured. -/
def oneByteLog : List Encryption :=
  ((oneByteRecorder Keyring.plain).map Recorder.encryptions).getD []

/-- A cipher that remembers just that. -/
def oneByteService : Service :=
  { plainService with
    keys := Keyring.remembering oneByteLog
    active_mem := plainService.active_mem }

/-- The file that is left. -/
def oneByteFile : Bytes :=
  ((oneByteRecorder Keyring.plain).map fun w =>
    w.captures.rows.flatMap (fun c => c.stream.file)).getD []

theorem complete_record_is_a_capture_oneByte :
    (oneByteRecorder oneByteService.keys).isSome = true ∧ ∃ record,
      readStream oneByteService zeroNonce (streamPath .report zeroId) none oneByteFile =
        .ok (some record) ∧
      record.captureState = .complete ∧ record.Carries oneByteService zeroNonce [65] := by
  have hrun : (oneByteRecorder oneByteService.keys).map
      (fun w => (w.encryptions, w.captures.rows.map Capture.fed)) = some (oneByteLog, [[65]]) := by
    decide +kernel
  obtain ⟨w, hw, heq⟩ := Option.map_eq_some_iff.mp hrun
  obtain ⟨hlog, hfed⟩ := Prod.mk.inj heq
  have hread : (readStream oneByteService zeroNonce (streamPath .report zeroId) none
      oneByteFile).map (.map RawSpillRecord.captureState) = .ok (some .complete) := by
    decide +kernel
  obtain ⟨record, hok, hstate⟩ : ∃ record, readStream oneByteService zeroNonce
      (streamPath .report zeroId) none oneByteFile = .ok (some record) ∧
        record.captureState = .complete := by
    cases hresult : readStream oneByteService zeroNonce (streamPath .report zeroId) none
        oneByteFile with
    | error e =>
      rw [hresult] at hread
      cases hread
    | ok result =>
      rw [hresult] at hread
      obtain ⟨record, rfl, hstate⟩ := Option.map_eq_some_iff.mp (Except.ok.inj hread)
      exact ⟨record, rfl, hstate⟩
  have hreachable : (recorder oneByteService.keys).Reachable w :=
    (Machine.Reachable.init rfl).run hw
  have hideal : oneByteService.keys.IdealFor w.encryptions := by
    rw [hlog]
    exact Keyring.remembering_idealFor oneByteLog
  obtain ⟨c, hc, -, -, -, -, -, -, hcarries⟩ :=
    complete_record_is_a_capture oneByteService w hreachable hideal zeroNonce
      (streamPath .report zeroId) none oneByteFile record hok (by rw [hstate]; rfl)
  have hsame : c.fed ∈ w.captures.rows.map Capture.fed := mem_map_of_mem hc
  rw [hfed, mem_singleton] at hsame
  rw [hsame] at hcarries
  exact ⟨by rw [hw]; rfl, record, hok, hstate, hcarries⟩

end SmsPlatform.Spill
