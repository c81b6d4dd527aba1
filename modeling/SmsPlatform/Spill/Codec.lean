import SmsPlatform.Spill.Format

/-!
# Headers and frames of spill files

Stateless decoding of control frames, of the header of a secondary spill and of the frames
of an encrypted stream.  A file handle is modelled by the bytes that are left to read.
-/

namespace SmsPlatform.Spill

open Support

/-- An exception that leaves the decoder. -/
inductive ReadError
  /-- `UnknownKeyVersionError`. -/
  | unknownKeyVersion
  /-- `SpillMetadataAuthError`. -/
  | metadataAuth
  /-- Any other exception. -/
  | unexpected
  deriving DecidableEq

/-- A header as written: `json.loads(bs.decode("utf-8"))`, and it is a dictionary. -/
def loadsObject (bs : Bytes) : Option (List (Text × Json)) :=
  match (utf8Decode bs).bind Json.loads with
  | some (.obj fields) => some fields
  | _ => none

section

variable (py : Json.Interpreter)

/-! ## Fields -/

def clampHttpStatus (status : ℤ) : ℕ := if 100 ≤ status ∧ status ≤ 599 then status.toNat else 200

/-- `_normalize_http_status`; a missing field is `None`. -/
def normalizeHttpStatus : Option Json → Option ℕ
  | some (.int n) => some (clampHttpStatus n)
  | some (.bool b) => some (clampHttpStatus (if b then 1 else 0))
  | some (.str s) => (py.intOfText s).map clampHttpStatus
  | _ => some 200

/-- `str(value or "identity")`. -/
def encodingOrIdentity (value : Option Json) : Text :=
  match value with
  | some v => if v.truthy py then v.toStr py else lit "identity"
  | none => lit "identity"

/-- An integer field that has to lie in a range. -/
def requireInRange (low high : ℤ) : Option Json → Option ℕ
  | some (.int n) => if low ≤ n ∧ n ≤ high then some n.toNat else none
  | some (.str s) =>
    (py.intOfText s).bind fun n => if low ≤ n ∧ n ≤ high then some n.toNat else none
  | _ => none

/-- `_require_http_status`. -/
def requireHttpStatus : Option Json → Option ℕ := requireInRange py 100 599

/-- `_require_key_version`. -/
def requireKeyVersion : Option Json → Option ℕ := requireInRange py 1 maxKeyVersion

/-- `_require_content_encoding`. -/
def requireContentEncoding (value : Option Json) : Option Text :=
  match value with
  | some v =>
    let encoding := if v.truthy py then v.toStr py else []
    if encoding = [] ∨ 64 < encoding.length ∨ '/'.toNat ∈ encoding ∨ '\\'.toNat ∈ encoding then none
    else some encoding
  | none => none

/-! ## Control frames -/

/-- The visible part of a control frame. -/
def parseControlMeta (metadata : Bytes) : Option ControlFields :=
  match loadsObject metadata with
  | none => none
  | some fields =>
    match Json.field? fields (lit "kind"),
        normalizeHttpStatus py (Json.field? fields (lit "http_status")),
        normalizeCaptureState
          (((Json.field? fields (lit "capture_state")).getD .null).toStr py) with
    | some kind, some httpStatus, some captureState =>
      some
        { kind := kind.toStr py
          httpStatus := httpStatus
          contentEncoding :=
            encodingOrIdentity py (Json.field? fields (lit "content_encoding"))
          captureState := captureState }
    | _, _, _ => none

/-- The header of a stream file. -/
structure StreamFileHeader where
  source : Source
  streamId : StreamId
  keyVersion : ℤ
  deriving DecidableEq

variable (keys : Keyring)

/-- The visible part and the ciphertext of a frame at the head of `bs`, and what follows the
frame. -/
def splitFrame (bs : Bytes) : Option (Bytes × Bytes × Bytes) :=
  match takeRecord recordHeaderSize bs with
  | none => none
  | some (frame, rest) =>
    (takeRecord metaHeaderSize frame).map fun (metadata, ciphertext) =>
      (metadata, ciphertext, rest)

/-- `read_control_frame`, and with it `read_control_handle`. -/
def readControlFrame (header : StreamFileHeader) (seq : ℕ) (bs : Bytes) :
    Except ReadError (Option (ControlFields × Bytes)) :=
  match splitFrame bs with
  | none => .ok none
  | some (metadata, ciphertext, rest) =>
    match parseControlMeta py metadata with
    | none => .ok none
    | some fields =>
      match decryptBoundBytes keys ciphertext header.keyVersion
          (controlContext header.source header.streamId seq fields) with
      | .ok plaintext => .ok (if plaintext = metadata then some (fields, rest) else none)
      | .error .unknownKeyVersion => .error .unknownKeyVersion
      | .error _ => .ok none

/-- `parse_legacy_footer` on the line after the end mark.  A document that is no dictionary
has no `get`: the exception is not one of those caught here. -/
def parseLegacyFooter (line : Bytes) : Except ReadError (Option ControlFields) :=
  match (utf8Decode (line.takeWhile (fun b => decide (b ≠ newline)))).bind Json.loads with
  | none => .ok none
  | some (.obj fields) =>
    match normalizeHttpStatus py (Json.field? fields (lit "http_status")),
        normalizeCaptureState
          (((Json.field? fields (lit "capture_state")).getD .null).toStr py) with
    | some httpStatus, some captureState =>
      .ok (some
        { kind := kindTerminal
          httpStatus := httpStatus
          contentEncoding :=
            encodingOrIdentity py (Json.field? fields (lit "content_encoding"))
          captureState := captureState })
    | _, _ => .ok none
  | some _ => .error .unexpected

/-! ## Streams -/

/-- `_AssembledStream` without its digest. -/
structure AssembledStream where
  plaintext : Bytes
  announce : Option ControlFields
  terminal : Option ControlFields
  incomplete : Bool
  legacyTerminal : Bool
  deriving DecidableEq

namespace AssembledStream

def start : AssembledStream where
  plaintext := []
  announce := none
  terminal := none
  incomplete := false
  legacyTerminal := false

def isEmpty (a : AssembledStream) : Bool :=
  a.plaintext.isEmpty && a.announce.isNone && a.terminal.isNone

/-- The loop stops at something it cannot use. -/
def cut (a : AssembledStream) : AssembledStream := { a with incomplete := true }

end AssembledStream

/-- What follows the end mark: the terminal control frame, or the plain footer of an
earlier format. -/
def readTerminal (header : StreamFileHeader) (seq : ℕ) (bs : Bytes) (a : AssembledStream) :
    Except ReadError AssembledStream :=
  match readControlFrame py keys header seq bs with
  | .error e => .error e
  | .ok (some (fields, _)) =>
    if fields.kind = kindTerminal then .ok { a with terminal := some fields }
    else readFooter
  | .ok none => readFooter
where
  readFooter : Except ReadError AssembledStream :=
    match parseLegacyFooter py (readLine bs).1 with
    | .error e => .error e
    | .ok none => .ok a.cut
    | .ok (some footer) => .ok { a with terminal := some footer, legacyTerminal := true }

/-- The loop of `assemble_stream_handle`.  Every round uses up a length field. -/
def assembleLoop (header : StreamFileHeader) :
    ℕ → Bytes → ℕ → AssembledStream → Except ReadError AssembledStream
  | _, [], _, a => .ok a
  | 0, _ :: _, _, a => .ok a
  | fuel + 1, b :: bs, seq, a =>
    let length := ofBigEndian ((b :: bs).take recordHeaderSize)
    let rest := (b :: bs).drop recordHeaderSize
    if (b :: bs).length < recordHeaderSize then .ok a.cut
    else if length = controlSentinel then
      match readControlFrame py keys header 0 rest with
      | .error e => .error e
      | .ok none => .ok a.cut
      | .ok (some (fields, rest)) =>
        if fields.kind = kindAnnounce then
          assembleLoop header fuel rest seq { a with announce := some fields }
        else .ok a.cut
    else if length = 0 then readTerminal py keys header seq rest a
    else if rest.length < length then .ok a.cut
    else
      match decryptBoundBytes keys (rest.take length) header.keyVersion
          (chunkContext header.source header.streamId seq) with
      | .ok chunk =>
        assembleLoop header fuel (rest.drop length) (seq + 1)
          { a with plaintext := a.plaintext ++ chunk }
      | .error .unknownKeyVersion => .error .unknownKeyVersion
      | .error _ => .ok a.cut

/-- `assemble_stream_handle`. -/
def assembleStream (header : StreamFileHeader) (bs : Bytes) : Except ReadError AssembledStream :=
  assembleLoop py keys header bs.length bs 0 .start

/-! ## What decoding has seen -/

section

variable {py keys} {header : StreamFileHeader} {bs : Bytes} {seq : ℕ} {rest : Bytes}

/-- A frame that was split is a record. -/
theorem splitFrame_eq_some {metadata ciphertext : Bytes} :
    splitFrame bs = some (metadata, ciphertext, rest) ↔
      ∃ frame, takeRecord recordHeaderSize bs = some (frame, rest) ∧
        takeRecord metaHeaderSize frame = some (metadata, ciphertext) := by
  unfold splitFrame
  constructor
  · intro h
    split at h
    · cases h
    rename_i frame rest' hrecord
    obtain ⟨⟨m, c⟩, hframe, heq⟩ := Option.map_eq_some_iff.mp h
    obtain ⟨rfl, rfl, rfl⟩ : m = metadata ∧ c = ciphertext ∧ rest' = rest := by
      simpa using heq
    exact ⟨frame, hrecord, hframe⟩
  · rintro ⟨frame, hrecord, hframe⟩
    rw [hrecord]
    exact Option.map_eq_some_iff.mpr ⟨_, hframe, rfl⟩

/-- A control frame that was accepted: its ciphertext holds its visible part. -/
theorem readControlFrame_eq_some {fields : ControlFields} :
    readControlFrame py keys header seq bs = .ok (some (fields, rest)) ↔
      ∃ metadata ciphertext, splitFrame bs = some (metadata, ciphertext, rest) ∧
        parseControlMeta py metadata = some fields ∧
        decryptBoundBytes keys ciphertext header.keyVersion
          (controlContext header.source header.streamId seq fields) = .ok metadata := by
  unfold readControlFrame
  constructor
  · intro h
    split at h
    · cases h
    rename_i metadata ciphertext rest' hsplit
    split at h
    · cases h
    rename_i fields' hfields
    split at h
    · rename_i plaintext hplain
      split at h
      · rename_i hsame
        cases h
        subst hsame
        exact ⟨plaintext, ciphertext, hsplit, hfields, hplain⟩
      · cases h
    · cases h
    · cases h
  · rintro ⟨metadata, ciphertext, hsplit, hfields, hplain⟩
    simp [hsplit, hfields, hplain]

/-- No footer of the earlier format begins with a zero byte. -/
theorem parseLegacyFooter_zero {line : Bytes} (h : line = [] ∨ ∃ rest, line = 0 :: rest) :
    parseLegacyFooter py line = .ok none := by
  have hdecode : (utf8Decode (line.takeWhile (fun b => decide (b ≠ newline)))).bind
      Json.loads = none := by
    rcases h with rfl | ⟨rest, rfl⟩
    · rfl
    rw [List.takeWhile_cons_of_pos (by decide), utf8Decode_cons_ascii (by decide)]
    cases utf8Decode (rest.takeWhile (fun b => decide (b ≠ newline))) with
    | none => rfl
    | some t => exact Json.loads_null t
  rw [parseLegacyFooter, hdecode]

/-- The end mark: a control frame, a plain footer, or nothing of use. -/
theorem readTerminal_cases {a a' : AssembledStream}
    (h : readTerminal py keys header seq bs a = .ok a') :
    (∃ fields behind, readControlFrame py keys header seq bs =
        .ok (some (fields, behind)) ∧ fields.kind = kindTerminal ∧
        a' = { a with terminal := some fields }) ∨
      (∃ footer, parseLegacyFooter py (readLine bs).1 = .ok (some footer) ∧
        a' = { a with terminal := some footer, legacyTerminal := true }) ∨ a' = a.cut := by
  have hfooter : readTerminal.readFooter py bs a = .ok a' →
      (∃ footer, parseLegacyFooter py (readLine bs).1 = .ok (some footer) ∧
        a' = { a with terminal := some footer, legacyTerminal := true }) ∨ a' = a.cut := by
    intro h
    unfold readTerminal.readFooter at h
    split at h
    · cases h
    · cases h
      exact .inr rfl
    · rename_i footer hline
      cases h
      exact .inl ⟨footer, hline, rfl⟩
  unfold readTerminal at h
  split at h
  · cases h
  · rename_i fields behind hframe
    split at h
    · rename_i hkind
      cases h
      exact .inl ⟨fields, behind, hframe, hkind, rfl⟩
    · exact .inr (hfooter h)
  · exact .inr (hfooter h)

/-- A round of the loop: it stops, it reads the announcement, the end or a data frame. -/
theorem assembleLoop_cases {fuel : ℕ} {a r : AssembledStream} (hbs : bs ≠ [])
    (h : assembleLoop py keys header (fuel + 1) bs seq a = .ok r) :
    r = a.cut ∨ recordHeaderSize ≤ bs.length ∧
    ((ofBigEndian (bs.take recordHeaderSize) = controlSentinel ∧ ∃ fields rest,
        readControlFrame py keys header 0 (bs.drop recordHeaderSize) = .ok (some (fields, rest)) ∧
        assembleLoop py keys header fuel rest seq { a with announce := some fields } = .ok r) ∨
      (ofBigEndian (bs.take recordHeaderSize) = 0 ∧
        readTerminal py keys header seq (bs.drop recordHeaderSize) a = .ok r) ∨
      (¬ (ofBigEndian (bs.take recordHeaderSize) = controlSentinel ∨
          ofBigEndian (bs.take recordHeaderSize) = 0) ∧
        ofBigEndian (bs.take recordHeaderSize) ≤ (bs.drop recordHeaderSize).length ∧
        ∃ chunk, decryptBoundBytes keys
            ((bs.drop recordHeaderSize).take (ofBigEndian (bs.take recordHeaderSize)))
            header.keyVersion (chunkContext header.source header.streamId seq) = .ok chunk ∧
          assembleLoop py keys header fuel
            ((bs.drop recordHeaderSize).drop (ofBigEndian (bs.take recordHeaderSize)))
            (seq + 1) { a with plaintext := a.plaintext ++ chunk } = .ok r)) := by
  obtain ⟨b, bs, rfl⟩ := List.exists_cons_of_ne_nil hbs
  rw [assembleLoop] at h
  split at h
  · exact .inl (Except.ok.inj h).symm
  rename_i hsize
  have hsize := Nat.le_of_not_lt hsize
  split at h
  · rename_i hmark
    split at h
    · cases h
    · exact .inl (Except.ok.inj h).symm
    · rename_i fields rest hframe
      split at h
      · exact .inr ⟨hsize, .inl ⟨hmark, fields, rest, hframe, h⟩⟩
      · exact .inl (Except.ok.inj h).symm
  rename_i hsentinel
  split at h
  · rename_i hmark
    exact .inr ⟨hsize, .inr (.inl ⟨hmark, h⟩)⟩
  rename_i hzero
  split at h
  · exact .inl (Except.ok.inj h).symm
  rename_i hlength
  have hlength := Nat.le_of_not_lt hlength
  split at h
  · rename_i chunk hchunk
    exact .inr ⟨hsize,
      .inr (.inr ⟨not_or.mpr ⟨hsentinel, hzero⟩, hlength, chunk, hchunk, h⟩)⟩
  · cases h
  · exact .inl (Except.ok.inj h).symm

end

/-! ## Headers of secondary spills -/

/-- The fields of the header of a secondary spill. -/
structure SpillHeader where
  source : Source
  payloadSha256 : Text
  payloadEncSha256 : Text
  keyVersion : ℕ
  httpStatus : ℕ
  contentEncoding : Text
  captureState : CaptureState
  deriving DecidableEq

/-- The dictionary of `canonical_spill_header`. -/
def SpillHeader.document (h : SpillHeader) : List (Text × Json) :=
  [(lit "capture_state", .str h.captureState.text),
    (lit "content_encoding", .str h.contentEncoding),
    (lit "http_status", .int h.httpStatus),
    (lit "key_version", .int h.keyVersion),
    (lit "kind", .str kindSpill),
    (lit "payload_enc_sha256", .str h.payloadEncSha256),
    (lit "payload_sha256", .str h.payloadSha256),
    (lit "source", .str h.source.text)]

/-- `canonical_spill_header`. -/
def SpillHeader.canonical (h : SpillHeader) : Option Bytes :=
  (Json.dumps h.document).bind utf8Encode

/-- The fields that `decrypt_spill_header` reads before it compares. -/
def parseSpillHeader (metadata : Bytes) : Option SpillHeader :=
  match loadsObject metadata with
  | none => none
  | some fields =>
    match (Json.field? fields (lit "source")).bind (fun v => Source.ofText (v.toStr py)),
        (Json.field? fields (lit "payload_sha256")).map (Json.toStr py),
        (Json.field? fields (lit "payload_enc_sha256")).map (Json.toStr py),
        requireKeyVersion py (Json.field? fields (lit "key_version")),
        requireHttpStatus py (Json.field? fields (lit "http_status")),
        requireContentEncoding py (Json.field? fields (lit "content_encoding")),
        (Json.field? fields (lit "capture_state")).bind
          (fun v => normalizeCaptureState (v.toStr py)) with
    | some source, some digest, some encDigest, some version, some status, some encoding,
        some state =>
        if isHexText 64 digest && isHexText 64 encDigest then
          some ⟨source, digest, encDigest, version, status, encoding, state⟩
        else none
    | _, _, _, _, _, _, _ => none

/-- `_spill_header_context`. -/
def spillHeaderContext (h : SpillHeader) : EncryptionContext where
  domain := lit "vendor-raw"
  table := lit "raw_spill"
  column := kindSpill
  objectId := h.source.text ++ separator :: (h.payloadSha256 ++ separator ::
    (h.payloadEncSha256 ++ separator :: (natText h.httpStatus ++ separator ::
      (h.contentEncoding ++ separator :: (h.captureState.text ++ separator ::
        natText h.keyVersion)))))

/-- `parse_spill_header_frame`: the visible header, its ciphertext and what follows. -/
def parseSpillHeaderFrame (bs : Bytes) : Option (Bytes × Bytes × Bytes) :=
  if maxClassifyControl < ofBigEndian (bs.take recordHeaderSize) then none else splitFrame bs

/-- `_crypto_has_version`. -/
def hasVersion (version : ℤ) : Bool :=
  keys.versions.isEmpty || keys.versions.any (fun v : ℕ => decide ((v : ℤ) = version))

/-- `candidate_key_versions`. -/
def candidateKeyVersions (active hint : ℕ) : List ℕ :=
  (hint :: active :: keys.versions).eraseDups

/-- The loop of `decrypt_spill_header`. -/
def authenticateSpillHeader (metadata ciphertext : Bytes) (h : SpillHeader) :
    List ℕ → Except ReadError SpillHeader
  | [] => .error .metadataAuth
  | version :: rest =>
    match decryptBoundBytes keys ciphertext version (spillHeaderContext h) with
    | .ok plaintext => if plaintext = metadata then .ok h else .error .metadataAuth
    | .error .unknownKeyVersion => .error .unknownKeyVersion
    | .error _ => authenticateSpillHeader metadata ciphertext h rest

/-- `decrypt_spill_header`. -/
def decryptSpillHeader (active : ℕ) (metadata ciphertext : Bytes) :
    Except ReadError SpillHeader :=
  match parseSpillHeader py metadata with
  | none => .error .metadataAuth
  | some h =>
    if h.canonical ≠ some metadata then .error .metadataAuth
    else if hasVersion keys h.keyVersion then
      authenticateSpillHeader keys metadata ciphertext h
        (candidateKeyVersions keys active h.keyVersion)
    else .error .unknownKeyVersion

end

end SmsPlatform.Spill
