import SmsPlatform.Spill.Capture
import SmsPlatform.Spill.Recovery

/-!
# Recovery of a capture

A capture whose calls have all been accepted is recovered as it was written.  A file that
was left behind by a crash, that is any prefix of it, is recovered as a prefix of what was
fed, and never as complete.
-/

namespace SmsPlatform.Spill

open Support RawSpillStream List Option Capture Bool

/-! ## Frames of a stream -/

section

variable {py : Json.Interpreter} {keys : Keyring} {source : Source} {id : StreamId} {v : ℕ}
variable {frames : List DataFrame} {seq : ℕ}

/-- Frames that were written one after another, the first one under number `seq`. -/
structure FramesWritten (keys : Keyring) (source : Source) (id : StreamId) (v seq : ℕ)
    (frames : List DataFrame) : Prop where
  seals : ∀ k f, frames[k]? = some f →
    Seals keys v (chunkContext source id (seq + k)) f.plaintext f.payload
  length_le : ∀ f ∈ frames, f.plaintext.length ≤ internalFrameSize

theorem framesWritten_cons {f : DataFrame} (h : FramesWritten keys source id v seq (f :: frames)) :
    Seals keys v (chunkContext source id seq) f.plaintext f.payload ∧
    f.plaintext.length ≤ internalFrameSize ∧
    FramesWritten keys source id v (seq + 1) frames := by
  refine ⟨h.seals 0 f rfl, h.length_le f mem_cons_self, ?_,
    fun g hg => h.length_le g (mem_cons_of_mem f hg)⟩
  intro k g hg
  have hseals := h.seals (k + 1) g hg
  rwa [show seq + (k + 1) = seq + 1 + k by omega] at hseals

theorem assembleLoop_frames (hkeys : keys.Correct) (h : FramesWritten keys source id v seq frames)
    (fuel : ℕ) (rest : Bytes) (a : AssembledStream) :
    assembleLoop py keys ⟨source, id, v⟩ (fuel + frames.length)
      (frames.flatMap DataFrame.record ++ rest) seq a =
      assembleLoop py keys ⟨source, id, v⟩ fuel rest (seq + frames.length)
        { a with plaintext := a.plaintext ++ frames.flatMap DataFrame.plaintext } := by
  induction frames generalizing seq a with
  | nil => simp
  | cons f frames ih =>
    obtain ⟨hseals, hlength, hrest⟩ := framesWritten_cons h
    rw [flatMap_cons, append_assoc, length_cons, ← add_assoc,
      assembleLoop_data hkeys hseals hlength, ih hrest,
      show seq + 1 + frames.length = seq + (frames.length + 1) by omega]
    simp

theorem assembleLoop_of_stops {header : StreamFileHeader} {q : Bytes} {a : AssembledStream}
    (h : Stops py keys header q seq a) (fuel : ℕ) :
    ∃ r, assembleLoop py keys header fuel q seq a = .ok r ∧ r.terminal = a.terminal ∧
    r.plaintext = a.plaintext := by
  obtain ⟨r, hr, rfl | rfl⟩ := h fuel
  · exact ⟨r, hr, rfl, rfl⟩
  · exact ⟨_, hr, rfl, rfl⟩

theorem assembleLoop_no_rounds (header : StreamFileHeader) (bs : Bytes) (seq : ℕ)
    (a : AssembledStream) : assembleLoop py keys header 0 bs seq a = .ok a := by
  cases bs <;> rfl

/-- A file that ends within the frames, or in what comes behind them: only whole frames
are read. -/
theorem assembleLoop_frames_cut (hkeys : keys.Correct)
    (h : FramesWritten keys source id v seq frames) {tail q : Bytes}
    (hq : q <+: frames.flatMap DataFrame.record ++ tail)
    (htail : ∀ q', q' <+: tail → q = frames.flatMap DataFrame.record ++ q' →
      ∀ a, Stops py keys ⟨source, id, v⟩ q' (seq + frames.length) a) (fuel : ℕ)
    (a : AssembledStream) :
    ∃ r k, assembleLoop py keys ⟨source, id, v⟩ fuel q seq a = .ok r ∧ r.terminal = a.terminal ∧
    r.plaintext = a.plaintext ++ (frames.take k).flatMap DataFrame.plaintext := by
  induction frames generalizing seq q fuel a with
  | nil =>
    obtain ⟨r, hr, hterminal, hplain⟩ := assembleLoop_of_stops (htail q hq rfl a) fuel
    exact ⟨r, 0, hr, hterminal, by simp [hplain]⟩
  | cons f frames ih =>
    obtain ⟨hseals, hlength, hrest⟩ := framesWritten_cons h
    rw [flatMap_cons, append_assoc] at hq
    rcases prefix_append_cases hq with ⟨hq, hshort⟩ | ⟨q', hq', rfl⟩
    · obtain ⟨r, hr, hterminal, hplain⟩ :=
        assembleLoop_of_stops (stops_data hkeys hseals hlength hq hshort a) fuel
      exact ⟨r, 0, hr, hterminal, by simp [hplain]⟩
    cases fuel with
    | zero => exact ⟨a, 0, assembleLoop_no_rounds _ _ _ _, rfl, by simp⟩
    | succ fuel =>
      have htail' : ∀ q'', q'' <+: tail → q' = frames.flatMap DataFrame.record ++ q'' →
          ∀ a, Stops py keys ⟨source, id, v⟩ q'' (seq + 1 + frames.length) a := by
        rintro q'' hq'' rfl a
        have hstops := htail q'' hq'' (by simp) a
        rwa [length_cons, show seq + (frames.length + 1) = seq + 1 + frames.length by
          omega] at hstops
      obtain ⟨r, k, hr, hterminal, hplain⟩ := ih hrest hq' htail' fuel
        { a with plaintext := a.plaintext ++ f.plaintext }
      refine ⟨r, k + 1, ?_, hterminal, ?_⟩
      · rw [assembleLoop_data hkeys hseals hlength]
        exact hr
      · rw [hplain, take_succ_cons, flatMap_cons, append_assoc]

end

/-! ## The record of a stream -/

section

variable {service : Service}

/-- The context of a recovered payload is always valid. -/
theorem rawLogContext_valid (source : Source) {digest : Text} (h : isHexText 64 digest = true) :
    (rawLogContext source digest).valid = true := by
  have hascii : IsAscii (rawLogContext source digest).objectId :=
    source.isAscii_text.append (.cons (by decide) (isAscii_hexText h))
  have hlength : digest.length = 64 := by
    rw [isHexText, and_eq_true, decide_eq_true_eq] at h
    exact h.1
  have hsource : source.text.length ≤ 6 := by cases source <;> decide
  have hbytes : (asciiBytes (rawLogContext source digest).objectId).length ≤ 256 := by
    simp only [asciiBytes, rawLogContext, length_map, length_append, length_cons, hlength]
    omega
  have hne : (rawLogContext source digest).objectId.isEmpty = false := by
    simp [rawLogContext]
  have hcolumns : (contextComponentOk (lit "vendor-raw") &&
      contextComponentOk (lit "raw_vendor_log") &&
      contextComponentOk (lit "payload_enc")) = true := by decide
  rw [EncryptionContext.valid, hne, utf8Encode_ascii hascii, any_some, decide_eq_true hbytes,
    Bool.not_false, Bool.and_true, Bool.and_true]
  exact hcolumns

theorem exists_streamRecord (nonce : Nonce) (name : Text) (header : StreamFileHeader)
    (a : AssembledStream) : ∃ record, streamRecord service nonce name header a = some record := by
  have hvalid := rawLogContext_valid header.source (service.sha256.isHexText_hexdigest a.plaintext)
  have hencrypt : ∃ value, encryptBoundBytes service.keys service.active nonce a.plaintext
      (rawLogContext header.source (service.sha256.hexdigest a.plaintext)) = .ok value := by
    rw [encryptBoundBytes, if_pos service.active_mem, if_pos hvalid]
    exact ⟨_, rfl⟩
  obtain ⟨value, hvalue⟩ := hencrypt
  unfold streamRecord
  dsimp only
  rw [hvalue]
  exact ⟨_, rfl⟩

theorem readStream_of_assembleStream {nonce : Nonce} {name : Text} {expectedSource : Option Source}
    {bs body : Bytes} {header : StreamFileHeader} {a : AssembledStream}
    (hheader : parseStreamHeader service name bs = some (header, body))
    (hexpected : ∀ source ∈ expectedSource, source = header.source)
    (ha : assembleStream service.py service.keys header body = .ok a) :
    readStream service nonce name expectedSource bs =
      .ok (if a.isEmpty then none else streamRecord service nonce name header a) := by
  have hany : expectedSource.any (fun source => decide (header.source ≠ source)) = false := by
    cases expectedSource with
    | none => rfl
    | some source => simp [hexpected source rfl]
  rw [readStream, hheader]
  dsimp only
  rw [hany, if_neg Bool.false_ne_true, ha]

/-- Without an end a stream is never complete. -/
theorem isComplete_streamOutcome {a : AssembledStream} (h : a.terminal = none) :
    (streamOutcome a).1.isComplete = false := by
  unfold streamOutcome
  rw [h]
  dsimp only
  split
  · split <;> rfl
  · rfl

end

/-! ## What recovery makes of a file -/

/-- Nothing is recovered, or a prefix of what was fed that is not marked as complete. -/
def RecoversPrefix (service : Service) (nonce : Nonce) (name : Text)
    (expectedSource : Option Source) (bs fed : Bytes) : Prop :=
  readStream service nonce name expectedSource bs = .ok none ∨
    ∃ record payload, readStream service nonce name expectedSource bs = .ok (some record) ∧
      record.captureState.isComplete = false ∧ payload <+: fed ∧
      record.Carries service nonce payload

section

variable {service : Service} {nonce : Nonce} {name : Text} {expectedSource : Option Source}
  {source : Source} {id : StreamId} {v : ℕ}

theorem recoversPrefix_of_assembleStream {bs body fed : Bytes} {header : StreamFileHeader}
    {a : AssembledStream} (hheader : parseStreamHeader service name bs = some (header, body))
    (hexpected : ∀ source ∈ expectedSource, source = header.source)
    (ha : assembleStream service.py service.keys header body = .ok a)
    (hterminal : a.terminal = none) (hplain : a.plaintext <+: fed) :
    RecoversPrefix service nonce name expectedSource bs fed := by
  have hread := @readStream_of_assembleStream service nonce name expectedSource bs body header a
    hheader hexpected ha
  cases hempty : a.isEmpty with
  | true =>
    left
    rw [hread, hempty, if_pos rfl]
  | false =>
    right
    obtain ⟨record, hrecord⟩ := @exists_streamRecord service nonce name header a
    obtain ⟨-, -, hcarries, houtcome⟩ := streamRecord_eq_some hrecord
    refine ⟨record, a.plaintext, ?_, ?_, hplain, hcarries⟩
    · rw [hread, hempty, if_neg Bool.false_ne_true, hrecord]
    · have hstate : record.captureState = (streamOutcome a).1 := congrArg Prod.fst houtcome
      rw [hstate]
      exact isComplete_streamOutcome hterminal

theorem parseStreamHeader_header (hname : streamNameMatches name source id = true)
    (hv : v ≤ maxKeyVersion) {line : Bytes}
    (hline : encodeDocument (headerDocument source id v) = some line) (body : Bytes) :
    parseStreamHeader service name (streamMagic ++ line ++ [newline] ++ body) =
      some (⟨source, id, v⟩, body) := by
  rw [parseStreamHeader, splitStreamHeader_header (newline_not_mem_encodeDocument hline)]
  dsimp only
  rw [parseStreamIdentity_header service hv hline]
  dsimp only
  rw [if_pos hname]

/-- A file without a whole header line holds nothing. -/
theorem readStream_of_header_cut {line p : Bytes}
    (hline : encodeDocument (headerDocument source id v) = some line)
    (hp : p <+: streamMagic ++ line ++ [newline])
    (hshort : p.length < (streamMagic ++ line ++ [newline]).length) :
    readStream service nonce name expectedSource p = .ok none := by
  rw [readStream, parseStreamHeader,
    splitStreamHeader_cut (newline_not_mem_encodeDocument hline) hp hshort]

theorem controlWritten_ne_nil {keys : Keyring} {seq sentinel : ℕ} {fields : ControlFields}
    {metadata payload record : Bytes}
    (h : ControlWritten keys source id v seq sentinel fields metadata payload record) :
    0 < record.length := by
  obtain ⟨-, -, -, rfl⟩ := controlRecord_eq_some h.record_eq
  simp only [length_append, length_bigEndian, recordHeaderSize]
  omega

theorem version_le_of_seals {keys : Keyring} {context : EncryptionContext}
    {plaintext payload : Bytes} (h : Seals keys v context plaintext payload) :
    v ≤ maxKeyVersion := by
  obtain ⟨nonce, hnonce⟩ := h
  exact keys.version_le v (encryptBoundBytes_eq_ok hnonce).1

theorem length_le_flatMap_record (frames : List DataFrame) :
    frames.length ≤ (frames.flatMap DataFrame.record).length := by
  induction frames with
  | nil => simp
  | cons f frames ih =>
    simp only [flatMap_cons, length_append, length_cons, DataFrame.record,
      length_bigEndian, recordHeaderSize]
    omega

section

variable {head : Bytes} {frames : List DataFrame}

variable (hkeys : service.keys.Correct) (hname : streamNameMatches name source id = true)
  (hexpected : ∀ s ∈ expectedSource, s = source)
  (hhead : Capture.IsHead service.keys source id v head)
  (hframes : FramesWritten service.keys source id v 0 frames)
include hkeys hname hexpected hhead hframes

/-- Any part of a file that breaks off. -/
theorem recoversPrefix_of_cut {tail p fed : Bytes}
    (hp : p <+: head ++ (frames.flatMap DataFrame.record ++ tail))
    (htail : ∀ q, q <+: tail → p = head ++ (frames.flatMap DataFrame.record ++ q) →
      ∀ a, Stops service.py service.keys ⟨source, id, v⟩ q frames.length a)
    (hfed : frames.flatMap DataFrame.plaintext <+: fed) :
    RecoversPrefix service nonce name expectedSource p fed := by
  obtain ⟨line, metadata, payload, record, fields, hline, hkind, hplain, hencode, hseals, hrecord,
    rfl⟩ := hhead
  have hannounce : ControlWritten service.keys source id v 0 controlSentinel fields metadata
      payload record := ⟨hplain, hencode, hseals, hrecord⟩
  have hheader := @parseStreamHeader_header service name source id v hname
    (version_le_of_seals hseals) line hline
  rw [append_assoc (streamMagic ++ line ++ [newline])] at hp
  rcases prefix_append_cases hp with ⟨hp, hshort⟩ | ⟨q, hq, rfl⟩
  · exact .inl (readStream_of_header_cut hline hp hshort)
  rcases prefix_append_cases hq with ⟨hq, hshort⟩ | ⟨q', hq', rfl⟩
  · obtain ⟨r, hr, hterminal, hplaintext⟩ := assembleLoop_of_stops
      (@stops_announce service.py service.keys source id v _ _ _ _ hannounce q hq hshort 0 .start)
      q.length
    refine recoversPrefix_of_assembleStream (hheader q) hexpected hr hterminal ?_
    rw [hplaintext]
    exact nil_prefix
  · obtain ⟨n, hn⟩ : ∃ n, (record ++ q').length = n + 1 := by
      have hpos := controlWritten_ne_nil hannounce
      exact ⟨(record ++ q').length - 1, by rw [length_append]; omega⟩
    have hbehind : ∀ q'', q'' <+: tail → q' = frames.flatMap DataFrame.record ++ q'' →
        ∀ a, Stops service.py service.keys ⟨source, id, v⟩ q'' (0 + frames.length) a := by
      rintro q'' hq'' rfl a
      rw [Nat.zero_add]
      exact htail q'' hq'' (by simp) a
    obtain ⟨r, k, hr, hterminal, hplaintext⟩ := assembleLoop_frames_cut hkeys hframes hq'
      hbehind n { AssembledStream.start with announce := some fields }
    have hassemble : assembleStream service.py service.keys ⟨source, id, v⟩ (record ++ q') =
        .ok r := by
      rw [assembleStream, hn, assembleLoop_announce hkeys hannounce hkind]
      exact hr
    refine recoversPrefix_of_assembleStream (hheader _) hexpected hassemble hterminal ?_
    rw [hplaintext]
    refine .trans ?_ hfed
    exact ⟨(frames.drop k).flatMap DataFrame.plaintext, by
      rw [AssembledStream.start, nil_append, ← flatMap_append, take_append_drop]⟩

theorem readStream_written {fields : ControlFields} {metadata payload record : Bytes}
    (hterminal : ControlWritten service.keys source id v frames.length 0 fields metadata payload
      record)
    (hkind : fields.kind = kindTerminal) :
    ∃ r, readStream service nonce name expectedSource
        (head ++ (frames.flatMap DataFrame.record ++ record)) = .ok (some r) ∧
    r.Carries service nonce (frames.flatMap DataFrame.plaintext) ∧
    r.captureState = fields.captureState ∧ r.httpStatus = fields.httpStatus ∧
    r.contentEncoding = fields.contentEncoding := by
  obtain ⟨line, metadata₀, payload₀, record₀, fields₀, hline, hkind₀, hplain₀, hencode₀, hseals₀,
    hrecord₀, rfl⟩ := hhead
  have hannounce : ControlWritten service.keys source id v 0 controlSentinel fields₀ metadata₀
      payload₀ record₀ := ⟨hplain₀, hencode₀, hseals₀, hrecord₀⟩
  have hheader := @parseStreamHeader_header service name source id v hname
    (version_le_of_seals hseals₀) line hline
  -- There are enough rounds for the announcement, the frames and the end.
  obtain ⟨n, hn⟩ : ∃ n, (record₀ ++ (frames.flatMap DataFrame.record ++ record)).length =
      n + 1 + frames.length + 1 := by
    have hpos := controlWritten_ne_nil hterminal
    have hpos₀ := controlWritten_ne_nil hannounce
    have hle := length_le_flatMap_record frames
    refine ⟨record₀.length + (frames.flatMap DataFrame.record).length + record.length -
      (frames.length + 2), ?_⟩
    rw [length_append, length_append]
    omega
  have hassemble : assembleStream service.py service.keys ⟨source, id, v⟩
      (record₀ ++ (frames.flatMap DataFrame.record ++ record)) =
        .ok ⟨frames.flatMap DataFrame.plaintext, some fields₀, some fields, false, false⟩ := by
    have hend := @assembleLoop_terminal service.py _ _ _ _ _ _ _ _ _ hkeys hterminal hkind n []
      ⟨frames.flatMap DataFrame.plaintext, some fields₀, none, false, false⟩
    rw [append_nil] at hend
    rw [assembleStream, hn, assembleLoop_announce hkeys hannounce hkind₀,
      assembleLoop_frames hkeys hframes, Nat.zero_add]
    exact hend
  obtain ⟨r, hr⟩ := @exists_streamRecord service nonce name ⟨source, id, v⟩
    ⟨frames.flatMap DataFrame.plaintext, some fields₀, some fields, false, false⟩
  obtain ⟨-, -, hcarries, houtcome⟩ := streamRecord_eq_some hr
  have hread := @readStream_of_assembleStream service nonce name expectedSource _ _ _ _
    (hheader (record₀ ++ (frames.flatMap DataFrame.record ++ record))) hexpected hassemble
  refine ⟨r, ?_, hcarries, congrArg Prod.fst houtcome, congrArg (fun o => o.2.1) houtcome,
    congrArg (fun o => o.2.2.1) houtcome⟩
  rw [append_assoc (streamMagic ++ line ++ [newline]), hread, if_neg (by
    simp [AssembledStream.isEmpty]), hr]

end

end

/-! ## Captures -/

/-- The calls on one stream. -/
def capturing (keys : Keyring) : Machine Capture ((ℕ → FrameIo) × Call) where
  init c := ∃ source id reservedBytes captureBytes,
    Capture.start source id reservedBytes captureBytes = some c
  next c a := c.next keys a.1 a.2

namespace Capture

variable {keys : Keyring} {env : ℕ → FrameIo} {c c' : Capture} {s : RawSpillStream}

theorem next_feed_eq_some {chunk : Bytes} (h : c.next keys env (.feed chunk) = some c') :
    c.stage = .receiving ∧ c'.stream = (c.stream.feed keys env chunk).1 ∧
    c'.fed = c.fed ++ chunk := by
  unfold next at h
  dsimp only at h
  split at h
  · rename_i hstage
    split at h <;> rename_i hresult <;> obtain rfl := Option.some.inj h <;> rw [hresult] <;>
      exact ⟨hstage, rfl, rfl⟩
  · cases h

theorem run_feeds (chunks : List ((ℕ → FrameIo) × Bytes)) (hsound : c.Sound keys)
    (h : (capturing keys).run c (chunks.map fun p => (p.1, .feed p.2)) = some c') :
    c'.Sound keys ∧ c'.stream.facts = c.stream.facts ∧ c'.fed = c.fed ++ chunks.flatMap Prod.snd ∧
    (c'.stage = .receiving → c.stage = .receiving) := by
  induction chunks generalizing c with
  | nil =>
    obtain rfl : c = c' := Option.some.inj h
    exact ⟨hsound, rfl, by simp, fun hstage => hstage⟩
  | cons p chunks ih =>
    obtain ⟨c₁, hnext, hrest⟩ := bind_eq_some_iff.mp h
    have hnext : c.next keys p.1 (.feed p.2) = some c₁ := hnext
    obtain ⟨hstage, hstream, hfed⟩ := next_feed_eq_some hnext
    obtain ⟨hsound', hfacts, hfed', -⟩ := ih (sound_next hsound hnext) hrest
    have hfeed : (c.stream.feed keys p.1 p.2).1.facts = c.stream.facts :=
      (feed_onlyChunks c.stream p.2).facts_eq
    refine ⟨hsound', ?_, ?_, fun _ => hstage⟩
    · rw [hfacts, hstream, hfeed]
    · rw [hfed', hfed, flatMap_cons, append_assoc]

variable {contentEncoding : Text} {protocolInvalid : Bool} {httpStatus : ℤ} {ok : Bool}

/-- What an announcement leaves in the stream. -/
theorem facts_announceFlushed {s' : RawSpillStream}
    (h : announceFlushed keys env s httpStatus contentEncoding protocolInvalid =
      (s', .returned ok)) :
    s'.facts = { s.facts with
      httpStatus := clampHttpStatus httpStatus
      contentEncoding := orIdentity contentEncoding
      protocolInvalid := protocolInvalid } := by
  unfold announceFlushed at h
  dsimp only at h
  split at h
  · rename_i t answer hwritten
    obtain ⟨rfl, -⟩ := Prod.mk.inj h
    obtain ⟨metadata, payload, v, file, record, -, -, -, -, rfl⟩ :=
      writeControlFrame_returned hwritten
    rfl
  · cases (Prod.mk.inj h).2

theorem next_announce_receiving
    (hopened : c.Opened)
    (h : c.next keys env (.announce httpStatus contentEncoding protocolInvalid) = some c')
    (hstage : c'.stage = .receiving) :
    c'.fed = [] ∧ c'.stream.facts = { c.stream.facts with
      httpStatus := clampHttpStatus httpStatus
      contentEncoding := orIdentity contentEncoding
      protocolInvalid := protocolInvalid } := by
  unfold next at h
  dsimp only at h
  split at h
  · rw [announce_opened hopened] at h
    split at h <;> rename_i hresult <;> cases h
    · exact ⟨hopened.fed_eq, facts_announceFlushed hresult⟩
    · cases hstage
  · cases h

variable {frames : List DataFrame} {head : Bytes}

theorem Receiving.framesWritten {v : ℕ}
    (h : Emitted keys v head frames s) : FramesWritten keys s.source s.streamId v 0 frames := by
  refine ⟨?_, h.length_le⟩
  intro k f hf
  rw [Nat.zero_add]
  exact h.seals k f hf

/-- A capture that was finished as complete: its frames hold what was fed, and the end stands
behind them. -/
theorem finish_complete {v : ℕ} {args : FinishArgs}
    {renamed : Bool} {state : CaptureState} (hreceiving : c.Receiving keys v head frames)
    (hfinish : c.stream.finish keys env args renamed = (s, .returned ok))
    (hstate : s.captureState = some state) (hcomplete : state.isComplete = true) :
    ∃ frames' fields metadata payload record,
      FramesWritten keys c.stream.source c.stream.streamId v 0 frames' ∧
    frames'.flatMap DataFrame.plaintext = c.fed ∧
    ControlWritten keys c.stream.source c.stream.streamId v frames'.length 0 fields metadata
      payload record ∧
    fields = ⟨kindTerminal, (args.httpStatus.map clampHttpStatus).getD c.stream.httpStatus,
      (args.contentEncoding.map orIdentity).getD c.stream.contentEncoding, state⟩ ∧
    s.file = head ++ (frames'.flatMap DataFrame.record ++ record) := by
  have hflush := @flush_onlyChunks keys env c.stream
  unfold finish at hfinish
  rw [hreceiving.finished_eq, if_neg Bool.false_ne_true] at hfinish
  split at hfinish
  · rename_i t durable hresult
    rw [hresult] at hflush
    unfold finishFlushed at hfinish
    dsimp only at hfinish
    split at hfinish
    · rename_i u answer hwritten
      split at hfinish
      · obtain ⟨rfl, -⟩ := Prod.mk.inj hfinish
        obtain ⟨metadata, payload, v', file, record, hencode, hseals, hrecord, hfile, rfl⟩ :=
          writeControlFrame_returned hwritten
        cases hstate
        obtain ⟨-, rfl⟩ := isComplete_finalState hcomplete
        obtain ⟨frames', hemitted, -, hcontent⟩ :=
          hreceiving.emitted.flush hreceiving.buffer_le hresult
        obtain ⟨rfl, rfl⟩ : v = v' ∧ file = t.file := by
          rcases hfile with ⟨hnone, -⟩ | ⟨hsome, hsame⟩
          · rw [hemitted.keyVersion_eq] at hnone
            cases hnone
          · exact ⟨Option.some.inj (hemitted.keyVersion_eq.symm.trans hsome), hsame⟩
        have hstatus : t.httpStatus = c.stream.httpStatus :=
          congrArg Facts.httpStatus hflush.facts_eq
        have hencoding : t.contentEncoding = c.stream.contentEncoding :=
          congrArg Facts.contentEncoding hflush.facts_eq
        have hframes := Receiving.framesWritten hemitted
        rw [hflush.source_eq, hflush.streamId_eq] at hframes
        rw [hstatus, hencoding, hflush.source_eq, hflush.streamId_eq, hemitted.seq_eq] at hseals
        rw [hstatus, hencoding] at hencode
        refine ⟨frames', _, metadata, payload, record, hframes, ?_,
          ⟨⟨.inr rfl, ?_, ?_, ?_⟩, hencode, hseals, hrecord⟩, rfl, ?_⟩
        · rw [hcontent, hreceiving.content_eq]
        · cases args.httpStatus with
          | none => exact hreceiving.status_ge
          | some status => exact (clampHttpStatus_mem status).1
        · cases args.httpStatus with
          | none => exact hreceiving.status_le
          | some status => exact (clampHttpStatus_mem status).2
        · cases args.contentEncoding with
          | none => exact hreceiving.encoding_ne
          | some encoding => exact orIdentity_ne_nil encoding
        · dsimp only
          rw [hemitted.file_eq, append_assoc]
      · cases (Prod.mk.inj hfinish).2
    · cases (Prod.mk.inj hfinish).2
  · cases (Prod.mk.inj hfinish).2

end Capture

/-- Recovery of a capture whose calls were all accepted.  Once it has been finished as complete,
the file gives back all that was fed, the state and what was said of status and encoding, as
`announce` and `finish` normalize them: a status outside of 100 to 599 is recorded as 200, an
empty encoding as `identity`.  Every proper prefix of that file, every prefix of the file
while the capture is under way and every prefix of the file before the announcement gives
nothing or a prefix of what was fed, and is not complete. -/
theorem recovery_of_capture (service : Service) (hkeys : service.keys.Correct) (nonce : Nonce)
    (name : Text) (expectedSource : Option Source) (source : Source) (id : StreamId)
    (hname : streamNameMatches name source id = true)
    (hexpected : ∀ s ∈ expectedSource, s = source)
    (reservedBytes captureBytes : ℕ) (c₀ c : Capture)
    (hstart : Capture.start source id reservedBytes captureBytes = some c₀)
    (env : ℕ → FrameIo) (httpStatus : ℤ) (contentEncoding : Text) (protocolInvalid : Bool)
    (chunks : List ((ℕ → FrameIo) × Bytes))
    (hrun : (capturing service.keys).run c₀
      ((env, .announce httpStatus contentEncoding protocolInvalid) ::
        chunks.map fun p => (p.1, .feed p.2)) = some c)
    (haccepted : c.stage = .receiving) :
    (∀ env' args renamed s state,
      c.stream.finish service.keys env' args renamed = (s, .returned true) →
      s.captureState = some state → state.isComplete = true →
      (∃ record, readStream service nonce name expectedSource s.file = .ok (some record) ∧
        record.Carries service nonce (chunks.flatMap Prod.snd) ∧ record.captureState = state ∧
        record.httpStatus =
          (args.httpStatus.map clampHttpStatus).getD (clampHttpStatus httpStatus) ∧
        record.contentEncoding =
          (args.contentEncoding.map orIdentity).getD (orIdentity contentEncoding)) ∧
      ∀ p, p <+: s.file → p ≠ s.file →
        RecoversPrefix service nonce name expectedSource p (chunks.flatMap Prod.snd)) ∧
    (∀ p, p <+: c.stream.file →
      RecoversPrefix service nonce name expectedSource p (chunks.flatMap Prod.snd)) ∧
    ∀ p, p <+: c₀.stream.file → RecoversPrefix service nonce name expectedSource p [] := by
  obtain ⟨c₁, hnext, hfeeds⟩ := bind_eq_some_iff.mp hrun
  have hnext : c₀.next service.keys env
      (.announce httpStatus contentEncoding protocolInvalid) = some c₁ := hnext
  have hsound₀ : c₀.Sound service.keys := sound_start hstart
  obtain ⟨s₀, hs₀, rfl⟩ := map_eq_some_iff.mp hstart
  obtain ⟨line, hline, rfl⟩ := map_eq_some_iff.mp hs₀
  obtain ⟨hsound, hfacts, hfed, hstage⟩ := run_feeds chunks (sound_next hsound₀ hnext) hfeeds
  obtain ⟨hfed₁, hfacts₁⟩ := next_announce_receiving (hsound₀.opened rfl) hnext (hstage haccepted)
  rw [hfacts₁] at hfacts
  rw [hfed₁, nil_append] at hfed
  obtain ⟨v, head, frames, hreceiving⟩ := hsound.receiving haccepted
  have hsource : c.stream.source = source := congrArg Facts.source hfacts
  have hid : c.stream.streamId = id := congrArg Facts.streamId hfacts
  have hhead := hreceiving.isHead
  rw [hsource, hid] at hhead
  refine ⟨?_, ?_, ?_⟩
  · intro env' args renamed s state hfinish hstate hcomplete
    obtain ⟨frames', fields, metadata, payload, record, hframes, hcontent, hterminal, rfl,
      hfile⟩ := finish_complete hreceiving hfinish hstate hcomplete
    have hstatus : c.stream.httpStatus = clampHttpStatus httpStatus :=
      congrArg Facts.httpStatus hfacts
    have hencoding : c.stream.contentEncoding = orIdentity contentEncoding :=
      congrArg Facts.contentEncoding hfacts
    rw [hsource, hid] at hframes hterminal
    rw [hfed] at hcontent
    rw [hstatus, hencoding] at hterminal
    rw [hfile]
    constructor
    · obtain ⟨r, hread, hcarries, hrstate, hrstatus, hrencoding⟩ :=
        @readStream_written service nonce name expectedSource source id v head frames' hkeys hname
          hexpected hhead hframes _ metadata payload record hterminal rfl
      rw [hcontent] at hcarries
      exact ⟨r, hread, hcarries, hrstate, hrstatus, hrencoding⟩
    · intro p hp hne
      refine recoversPrefix_of_cut hkeys hname hexpected hhead hframes hp ?_
        (hcontent ▸ prefix_refl _)
      rintro q hq rfl a
      refine stops_terminal hkeys hterminal hq ?_ _ a
      refine lt_of_le_of_ne hq.length_le fun hlength => hne ?_
      rw [hq.eq_of_length hlength]
  · intro p hp
    have hframes := Capture.Receiving.framesWritten hreceiving.emitted
    rw [hsource, hid] at hframes
    rw [hreceiving.emitted.file_eq, ← append_nil (frames.flatMap DataFrame.record)] at hp
    refine recoversPrefix_of_cut hkeys hname hexpected hhead hframes hp ?_ ?_
    · rintro q hq rfl a
      rw [prefix_nil.mp hq]
      exact stops_nil _ _ a
    · rw [← hfed, ← hreceiving.content_eq]
      exact prefix_append _ _
  · intro p hp
    left
    rcases lt_or_ge p.length (streamMagic ++ line ++ [newline]).length with hshort | hge
    · exact readStream_of_header_cut hline hp hshort
    have hwhole : p = streamMagic ++ line ++ [newline] :=
      hp.eq_of_length (le_antisymm hp.length_le hge)
    have hheader := @parseStreamHeader_header service name source id 0 hname (Nat.zero_le _) line
      hline []
    rw [append_nil] at hheader
    rw [hwhole, @readStream_of_assembleStream service nonce name expectedSource _ _ _
      AssembledStream.start hheader hexpected rfl]
    rfl

/-- One byte that arrives with the given status. -/
def oneByteCapture (httpStatus : ℤ) : Option Capture :=
  (Capture.start .report zeroId 4096 16).bind fun c =>
    (capturing Keyring.plain).run c ((plainIo, .announce httpStatus (lit "identity") false) ::
      [(plainIo, [65])].map fun p => (p.1, .feed p.2))

/-- The same capture, finished as complete. -/
def oneByteFinished (httpStatus : ℤ) : Option (RawSpillStream × Answer) :=
  (oneByteCapture httpStatus).map fun c =>
    c.stream.finish Keyring.plain plainIo
      ⟨true, some httpStatus, some (lit "identity"), false, false⟩ true

theorem recovery_of_capture_oneByte : ∃ c s, oneByteCapture 200 = some c ∧
    oneByteFinished 200 = some (s, .returned true) ∧
    (∃ record, readStream plainService zeroNonce (streamPath .report zeroId) none s.file =
        .ok (some record) ∧ record.Carries plainService zeroNonce [65] ∧
      record.captureState = .complete ∧ record.httpStatus = 200) ∧
    ∀ p, p <+: c.stream.file →
      RecoversPrefix plainService zeroNonce (streamPath .report zeroId) none p [65] := by
  have hstages : (oneByteCapture 200).map Capture.stage = some .receiving ∧
      (oneByteFinished 200).map (fun r => (r.2, r.1.captureState)) =
        some (.returned true, some .complete) := by
    constructor <;> decide +kernel
  obtain ⟨c, hc, hstage⟩ := map_eq_some_iff.mp hstages.1
  obtain ⟨⟨s, answer⟩, hs, heq⟩ := map_eq_some_iff.mp hstages.2
  obtain ⟨rfl, hstate⟩ := Prod.mk.inj heq
  have hfinish := hs
  rw [oneByteFinished, hc, map_some, Option.some.injEq] at hfinish
  obtain ⟨c₀, hstart, hrun⟩ := bind_eq_some_iff.mp hc
  obtain ⟨hround, hcut, -⟩ := recovery_of_capture plainService Keyring.plain_correct zeroNonce
    (streamPath .report zeroId) none .report zeroId (by decide +kernel) (by simp) 4096 16 c₀ c
    hstart plainIo 200 (lit "identity") false [(plainIo, [65])] hrun hstage
  obtain ⟨⟨record, hread, hcarries, hrstate, hstatus, -⟩, -⟩ :=
    hround plainIo _ true s .complete hfinish hstate rfl
  exact ⟨c, s, hc, hs, ⟨record, hread, hcarries, hrstate, hstatus⟩, hcut⟩

/-- A response with status 600 is recovered as one with status 200. -/
theorem status_not_recovered : (oneByteFinished 600).map (fun r => (r.2, r.1.captureState)) =
      some (.returned true, some .complete) ∧
    (oneByteFinished 600).map (fun r =>
      (readStream plainService zeroNonce (streamPath .report zeroId) none
        r.1.file).toOption.join.map (fun record => (record.captureState, record.httpStatus))) =
      some (some (.complete, 200)) := by
  constructor <;> decide +kernel

end SmsPlatform.Spill
