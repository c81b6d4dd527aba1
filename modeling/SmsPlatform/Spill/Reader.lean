import SmsPlatform.Spill.Codec

/-!
# Reading spill files

`SpillReader`: a file of the spill directory, given by its name and its bytes, becomes a
record that can be stored, or nothing.  Failing input and output is not modelled here; a
file that cannot be opened has no bytes.
-/

namespace SmsPlatform.Spill

open Support

structure RawSpillRecord where
  source : Source
  payloadSha256 : Text
  keyVersion : ℕ
  httpStatus : ℕ
  contentEncoding : Text
  payloadEnc : Bytes
  name : Text
  captureState : CaptureState
  quarantined : Bool
  streamId : Option StreamId
  plaintextBytes : ℕ
  metadataAuthenticated : Bool
  formatLegacy : Bool
  artifactId : Text
  deriving DecidableEq

/-- What the reader computes with. -/
structure Service where
  py : Json.Interpreter
  sha256 : Sha256
  keys : Keyring
  active : ℕ
  active_mem : active ∈ keys.versions

section

variable (service : Service)

/-! ## Streams -/

/-- The file may carry a stream of this identity: under one of the names of the stream, or
in quarantine. -/
def streamNameMatches (name : Text) (source : Source) (id : StreamId) : Bool :=
  [streamTmp source id, streamPath source id, legacyStreamPath source id].contains name ||
    (parseSpillFilename name).any fun (named, _, rest) =>
      decide (named = source) && (lit ".cq").isPrefixOf rest

/-- The identity and the key version in the first line of a stream. -/
def parseStreamIdentity (line : Bytes) : Option StreamFileHeader :=
  match loadsObject line with
  | none => none
  | some fields =>
    match (Json.field? fields (lit "source")).bind
          (fun v => Source.ofText (v.toStr service.py)),
        (Json.field? fields (lit "stream_id")).bind
          (fun v => StreamId.ofText (v.toStr service.py)),
        (Json.field? fields (lit "key_version")).bind (Json.toInt service.py) with
    | some source, some id, some keyVersion => some ⟨source, id, keyVersion⟩
    | _, _, _ => none

/-- The magic and the first line of a stream file, and what follows. -/
def splitStreamHeader (bs : Bytes) : Option (Bytes × Bytes) :=
  if bs.take streamMagic.length = streamMagic then
    let line := readLine (bs.drop streamMagic.length)
    if line.1.getLast? = some newline then some line else none
  else none

/-- `parse_stream_header_handle`. -/
def parseStreamHeader (name : Text) (bs : Bytes) : Option (StreamFileHeader × Bytes) :=
  match splitStreamHeader bs with
  | none => none
  | some (line, rest) =>
    match parseStreamIdentity service line with
    | none => none
    | some header =>
      if streamNameMatches name header.source header.streamId then some (header, rest)
      else none

/-- The state, status and encoding that `read_stream` reports, and whether the stream is
marked for quarantine. -/
def streamOutcome (a : AssembledStream) : CaptureState × ℕ × Text × Bool :=
  match a.terminal, a.incomplete with
  | some terminal, false =>
    (if a.legacyTerminal then .unknownLegacy else terminal.captureState, terminal.httpStatus,
      terminal.contentEncoding, false)
  | _, _ =>
    match a.announce with
    | some announce =>
      (if announce.captureState = .protocolInvalid then .protocolInvalid else .truncated,
        announce.httpStatus, announce.contentEncoding, true)
    | none => (.truncated, 200, lit "identity", true)

/-- The record of an assembled stream. -/
def streamRecord (nonce : Nonce) (name : Text) (header : StreamFileHeader)
    (a : AssembledStream) : Option RawSpillRecord :=
  let payloadSha256 := service.sha256.hexdigest a.plaintext
  match encryptBoundBytes service.keys service.active nonce a.plaintext
      (rawLogContext header.source payloadSha256) with
  | .error _ => none
  | .ok encrypted =>
    let outcome := streamOutcome a
    some
      { source := header.source
        payloadSha256 := payloadSha256
        keyVersion := encrypted.keyVersion
        httpStatus := outcome.2.1
        contentEncoding := outcome.2.2.1
        payloadEnc := encrypted.payload
        name := name
        captureState := outcome.1
        quarantined := outcome.2.2.2
        streamId := some header.streamId
        plaintextBytes := a.plaintext.length
        metadataAuthenticated := !(a.terminal.isSome && !a.incomplete && a.legacyTerminal)
        formatLegacy := a.legacyTerminal
        artifactId := [] }

/-- `read_stream`.  Only a missing key leaves it as an exception. -/
def readStream (nonce : Nonce) (name : Text) (expectedSource : Option Source) (bs : Bytes) :
    Except ReadError (Option RawSpillRecord) :=
  match parseStreamHeader service name bs with
  | none => .ok none
  | some (header, body) =>
    if expectedSource.any (fun source => decide (header.source ≠ source)) then .ok none
    else
      match assembleStream service.py service.keys header body with
      | .error .unknownKeyVersion => .error .unknownKeyVersion
      | .error _ => .ok none
      | .ok a => .ok (if a.isEmpty then none else streamRecord service nonce name header a)

section

variable {service} {name : Text} {header : StreamFileHeader} {bs : Bytes}

theorem parseStreamHeader_eq_some {rest : Bytes}
    (h : parseStreamHeader service name bs = some (header, rest)) :
    ∃ line, splitStreamHeader bs = some (line, rest) ∧
    parseStreamIdentity service line = some header ∧
    streamNameMatches name header.source header.streamId = true := by
  unfold parseStreamHeader at h
  split at h
  · cases h
  rename_i line behind hsplit
  split at h
  · cases h
  rename_i header' hidentity
  split at h
  · rename_i hname
    obtain ⟨rfl, rfl⟩ : header' = header ∧ behind = rest := Prod.mk.inj (Option.some.inj h)
    exact ⟨line, hsplit, hidentity, hname⟩
  · cases h

variable {record : RawSpillRecord} {nonce : Nonce}

/-- A record comes from a stream that was assembled and is not empty. -/
theorem readStream_eq_some {expectedSource : Option Source}
    (h : readStream service nonce name expectedSource bs = .ok (some record)) :
    ∃ header rest a, parseStreamHeader service name bs = some (header, rest) ∧
    assembleStream service.py service.keys header rest = .ok a ∧ a.isEmpty = false ∧
    streamRecord service nonce name header a = some record := by
  unfold readStream at h
  split at h
  · cases h
  rename_i header rest hheader
  split at h
  · cases h
  split at h
  · cases h
  · cases h
  · rename_i a hassemble
    cases hempty : a.isEmpty with
    | true => simp [hempty] at h
    | false =>
      have hrecord : streamRecord service nonce name header a = some record := by
        simpa [hempty] using h
      exact ⟨header, rest, a, hheader, hassemble, hempty, hrecord⟩

/-- The record carries this payload, encrypted for the table of raw payloads. -/
structure RawSpillRecord.Carries (service : Service) (nonce : Nonce) (record : RawSpillRecord)
    (payload : Bytes) : Prop where
  payloadSha256_eq : record.payloadSha256 = service.sha256.hexdigest payload
  plaintextBytes_eq : record.plaintextBytes = payload.length
  encrypt_eq : encryptBoundBytes service.keys service.active nonce payload
    (rawLogContext record.source record.payloadSha256) =
      .ok ⟨record.payloadEnc, record.keyVersion⟩

variable {a : AssembledStream}

theorem streamRecord_eq_some (h : streamRecord service nonce name header a = some record) :
    record.source = header.source ∧ record.streamId = some header.streamId ∧
    record.Carries service nonce a.plaintext ∧
    (record.captureState, record.httpStatus, record.contentEncoding, record.quarantined) =
      streamOutcome a := by
  unfold streamRecord at h
  dsimp only at h
  split at h
  · cases h
  rename_i encrypted hencrypted
  cases h
  exact ⟨rfl, rfl, ⟨rfl, rfl, hencrypted⟩, rfl⟩

/-- Only an end that was authenticated is reported as complete. -/
theorem streamOutcome_isComplete {state : CaptureState} {httpStatus : ℕ}
    {contentEncoding : Text} {quarantined : Bool}
    (h : (state, httpStatus, contentEncoding, quarantined) = streamOutcome a)
    (hcomplete : state.isComplete = true) :
    a.incomplete = false ∧ a.legacyTerminal = false ∧ ∃ terminal, a.terminal = some terminal ∧
    terminal.captureState = state ∧ terminal.httpStatus = httpStatus ∧
    terminal.contentEncoding = contentEncoding := by
  unfold streamOutcome at h
  split at h
  · rename_i terminal hterminal hincomplete
    cases hlegacy : a.legacyTerminal with
    | true =>
      rw [hlegacy, if_pos rfl] at h
      cases h
      cases hcomplete
    | false =>
      rw [hlegacy, if_neg Bool.false_ne_true] at h
      cases h
      exact ⟨hincomplete, rfl, terminal, hterminal, rfl, rfl, rfl⟩
  · split at h
    · split at h <;> cases h <;> cases hcomplete
    · cases h
      cases hcomplete

end

/-! ## Secondary spills -/

variable (name : Text) (expectedSource : Option Source) (bs : Bytes)

/-- `spill_path_matches_identity`. -/
def spillNameMatches (name source payloadSha256 : Text) : Bool :=
  (parseSpillFilename name).any fun (named, token, _) =>
    decide (named.text = source) && (decide (token.length ≠ 64) || decide (token = payloadSha256))

/-- `artifact_id_from_token` of the name. -/
def artifactId : Text :=
  match parseSpillFilename name with
  | some (_, token, _) => if token.length = 32 then token else []
  | none => []

/-- `_read_authenticated_spill` after the magic. -/
def readAuthenticatedSpill : Except ReadError (Option RawSpillRecord) :=
  match parseSpillHeaderFrame bs with
  | none => .ok none
  | some (metadata, ciphertext, payloadEnc) =>
    let visible := loadsObject metadata
    let text := fun key => visible.bind fun fields =>
      (Json.field? fields key).map (Json.toStr service.py)
    match text (lit "source"), text (lit "payload_sha256"), text (lit "payload_enc_sha256") with
    | some source, some payloadSha256, some _ =>
      if expectedSource.any (fun expected => decide (source ≠ expected.text)) then .ok none
      else if spillNameMatches name source payloadSha256 then
        match decryptSpillHeader service.py service.keys service.active metadata
            ciphertext with
        | .error e => .error e
        | .ok h =>
          if payloadEnc = [] then .ok none
          else if service.sha256.hexdigest payloadEnc ≠ h.payloadEncSha256 then
            .error .metadataAuth
          else
            .ok (some
              { source := h.source
                payloadSha256 := h.payloadSha256
                keyVersion := h.keyVersion
                httpStatus := h.httpStatus
                contentEncoding := h.contentEncoding
                payloadEnc := payloadEnc
                name := name
                captureState := h.captureState
                quarantined := false
                streamId := none
                plaintextBytes := payloadEnc.length
                metadataAuthenticated := true
                formatLegacy := false
                artifactId := artifactId name })
      else .error .metadataAuth
    | _, _, _ => .error .metadataAuth

/-- `_read_legacy_spill`: a header in the first line and the ciphertext behind it. -/
def readLegacySpill : Option RawSpillRecord :=
  let line := readLine bs
  match loadsObject line.1 with
  | none => none
  | some fields =>
    match (Json.field? fields (lit "source")).map (Json.toStr service.py),
        (Json.field? fields (lit "payload_sha256")).map (Json.toStr service.py) with
    | some named, some payloadSha256 =>
      match Source.ofText named with
      | none => none
      | some source =>
        if expectedSource.any (fun expected => decide (source ≠ expected)) then none
        else if !spillNameMatches name named payloadSha256 then none
        else if line.2 = [] then none
        else
          some
            { source := source
              payloadSha256 := payloadSha256
              keyVersion :=
                (requireKeyVersion service.py
                  (some ((Json.field? fields (lit "key_version")).getD (.int 1)))).getD 1
              httpStatus :=
                (requireHttpStatus service.py
                  (some ((Json.field? fields (lit "http_status")).getD (.int 200)))).getD 200
              contentEncoding :=
                (requireContentEncoding service.py
                  (some ((Json.field? fields (lit "content_encoding")).getD
                    (.str (lit "identity"))))).getD (lit "identity")
              payloadEnc := line.2
              name := name
              captureState := .unknownLegacy
              quarantined := false
              streamId := none
              plaintextBytes := line.2.length
              metadataAuthenticated := false
              formatLegacy := true
              artifactId := [] }
    | _, _ => none

/-- `read`. -/
def readSpill : Except ReadError (Option RawSpillRecord) :=
  if bs.take spillMagic.length = spillMagic then
    readAuthenticatedSpill service name expectedSource (bs.drop spillMagic.length)
  else .ok (readLegacySpill service name expectedSource bs)

end

/-! ## A service whose cipher only adds tags -/

def plainService : Service where
  py := ⟨fun _ => none, fun _ => none, fun _ => false, fun _ => []⟩
  sha256 := ⟨fun _ => List.replicate 64 '0'.toNat, fun _ => by decide⟩
  keys := Keyring.plain
  active := 1
  active_mem := by simp [Keyring.plain]

def zeroNonce : Nonce := ⟨List.replicate nonceSize 0, rfl⟩

def zeroId : StreamId := ⟨List.replicate 32 '0'.toNat, by decide⟩

end SmsPlatform.Spill
