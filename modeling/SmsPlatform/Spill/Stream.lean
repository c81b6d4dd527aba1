import SmsPlatform.Spill.Codec

/-!
# Writing an encrypted stream

`RawSpillStream`.  What the writer is given is collected into frames of a fixed size; every
frame is encrypted under its number and appended to the file.  A control frame at the start
says what is about to come, one at the end what has come.

Nonces, the active key version and the outcome of every write are not determined by the
writer: they are given for each encryption in turn.  `log` is a history variable: it lists
the encryptions made, the last one first, whether they reached the file or not.
-/

namespace SmsPlatform.Spill

open Support

/-- How an append to the file ends. -/
inductive WriteResult
  | written
  /-- `OSError` after some bytes; `noSpace` is `errno.ENOSPC`. -/
  | failed (kept : ℕ) (noSpace : Bool)
  deriving DecidableEq

/-- What surrounds one encryption. -/
structure FrameIo where
  nonce : Nonce
  activeVersion : ℕ
  /-- `_rewrite_header_key_version` succeeds, should it be called. -/
  headerRewritten : Bool
  write : WriteResult

/-- What a call ends with. -/
inductive Answer
  | returned (ok : Bool)
  | raised
  deriving DecidableEq

structure RawSpillStream where
  source : Source
  streamId : StreamId
  reservedBytes : ℕ
  captureBytes : ℕ
  seq : ℕ
  finished : Bool
  announced : Bool
  keyVersion : Option ℕ
  httpStatus : ℕ
  contentEncoding : Text
  protocolInvalid : Bool
  plaintextBytes : ℕ
  ondiskBytes : ℕ
  buffer : Bytes
  captureState : Option CaptureState
  file : Bytes
  log : List Encryption

/-- `json.dumps(fields, ...).encode("utf-8")`. -/
def encodeDocument (fields : List (Text × Json)) : Option Bytes :=
  (Json.dumps fields).bind utf8Encode

/-- The document in the first line of a stream. -/
def headerDocument (source : Source) (id : StreamId) (keyVersion : ℕ) : List (Text × Json) :=
  [(lit "source", .str source.text), (lit "stream_id", .str id.text),
    (lit "key_version", .int keyVersion)]

/-- The document of a control frame. -/
def ControlFields.document (fields : ControlFields) : List (Text × Json) :=
  [(lit "capture_state", .str fields.captureState.text),
    (lit "content_encoding", .str fields.contentEncoding),
    (lit "http_status", .int fields.httpStatus),
    (lit "kind", .str fields.kind)]

namespace RawSpillStream

/-- A stream that has just been opened. -/
def create (source : Source) (id : StreamId) (reservedBytes captureBytes : ℕ) :
    Option RawSpillStream :=
  (encodeDocument (headerDocument source id 0)).map fun header =>
    { source := source
      streamId := id
      reservedBytes := reservedBytes
      captureBytes := captureBytes
      seq := 0
      finished := false
      announced := false
      keyVersion := none
      httpStatus := 200
      contentEncoding := lit "identity"
      protocolInvalid := false
      plaintextBytes := 0
      ondiskBytes := (streamMagic ++ header ++ [newline]).length
      buffer := []
      captureState := none
      file := streamMagic ++ header ++ [newline]
      log := [] }

/-- The file after `_rewrite_header_key_version`. -/
def rewriteHeader (file : Bytes) (keyVersion : ℕ) : Option Bytes :=
  if streamMagic.isPrefixOf file then
    let rest := file.drop streamMagic.length
    match rest.dropWhile (fun b => decide (b ≠ newline)) with
    | [] => none
    | _ :: body =>
      match loadsObject (rest.takeWhile (fun b => decide (b ≠ newline))) with
      | none => none
      | some fields =>
        (encodeDocument (Json.setField fields (lit "key_version") (.int keyVersion))).map
          fun header => streamMagic ++ header ++ [newline] ++ body
  else none

/-- `_bind_key_version`. -/
def bindKeyVersion (s : RawSpillStream) (io : FrameIo) (keyVersion : ℕ) :
    Option RawSpillStream :=
  match s.keyVersion with
  | none =>
    if io.headerRewritten then
      (rewriteHeader s.file keyVersion).map fun file =>
        { s with file := file, ondiskBytes := file.length, keyVersion := some keyVersion }
    else none
  | some bound => if keyVersion = bound then some s else none

/-- Append a record to the file. -/
def append (s : RawSpillStream) (io : FrameIo) (record : Bytes) : RawSpillStream × WriteResult :=
  match io.write with
  | .written =>
    ({ s with file := s.file ++ record, ondiskBytes := (s.file ++ record).length }, .written)
  | .failed kept noSpace => ({ s with file := s.file ++ record.take kept }, .failed kept noSpace)

section

variable (keys : Keyring) (env : ℕ → FrameIo) (s : RawSpillStream)

/-- Encrypt, bind the key version and append the record made of the ciphertext. -/
def encryptAndAppend (plaintext : Bytes) (context : EncryptionContext)
    (record : Bytes → Option Bytes) : RawSpillStream × Option WriteResult :=
  let io := env s.log.length
  match encryptBoundBytes keys io.activeVersion io.nonce plaintext context with
  | .error _ => (s, none)
  | .ok encrypted =>
    let logged :=
      { s with log := ⟨encrypted.keyVersion, context, plaintext, encrypted.payload⟩ :: s.log }
    match logged.bindKeyVersion io encrypted.keyVersion, record encrypted.payload with
    | some bound, some bytes =>
      let result := bound.append io bytes
      (result.1, some result.2)
    | some bound, none => (bound, none)
    | none, _ => (logged, none)

/-- The record of a data frame. -/
def dataRecord (payload : Bytes) : Option Bytes :=
  (pack recordHeaderSize payload.length).map (· ++ payload)

/-- `_emit_frame`. -/
def emitFrame (payload : Bytes) (clearBuffer : Bool) : RawSpillStream × Answer :=
  if payload = [] then (s, .returned true)
  else if maxInternalFrames s.captureBytes ≤ s.seq then (s, .returned false)
  else if s.reservedBytes < s.ondiskBytes + (payload.length + dataFrameOverhead) then
    (s, .returned false)
  else
    match encryptAndAppend keys env s payload (chunkContext s.source s.streamId s.seq)
      dataRecord with
    | (s, some .written) =>
      ({ s with seq := s.seq + 1, buffer := if clearBuffer then [] else s.buffer },
        .returned true)
    | (s, some (.failed _ true)) => (s, .returned false)
    | (s, some (.failed _ false)) => (s, .raised)
    | (s, none) => (s, .raised)

/-- `_emit_full_frames`; every round shortens the buffer by a frame. -/
def emitFullFrames : ℕ → RawSpillStream → RawSpillStream × Answer
  | 0, s => (s, .returned true)
  | rounds + 1, s =>
    if s.buffer.length < internalFrameSize then (s, .returned true)
    else
      let payload := s.buffer.take internalFrameSize
      match emitFrame keys env { s with buffer := s.buffer.drop internalFrameSize } payload
          false with
      | (s, .returned true) => emitFullFrames rounds s
      | (s, .returned false) => ({ s with buffer := payload ++ s.buffer }, .returned false)
      | (s, .raised) => (s, .raised)

/-- How much of a chunk one round of `feed` takes. -/
def room (chunk : Bytes) : ℕ :=
  min chunk.length (min (s.captureBytes - s.plaintextBytes) (internalFrameSize - s.buffer.length))

/-- The buffer takes the first bytes of a chunk. -/
def fill (chunk : Bytes) (take : ℕ) : RawSpillStream :=
  { s with buffer := s.buffer ++ chunk.take take, plaintextBytes := s.plaintextBytes + take }

/-- The loop of `feed`; every round takes something from the chunk. -/
def feedLoop : ℕ → RawSpillStream → Bytes → RawSpillStream × Answer
  | 0, s, _ => (s, .returned true)
  | rounds + 1, s, chunk =>
    if chunk = [] then (s, .returned true)
    else if s.room chunk = 0 then (s, .returned false)
    else
      let filled := s.fill chunk (s.room chunk)
      if filled.buffer.length < internalFrameSize then
        feedLoop rounds filled (chunk.drop (s.room chunk))
      else
        match emitFullFrames keys env filled.buffer.length filled with
        | (emitted, .returned true) => feedLoop rounds emitted (chunk.drop (s.room chunk))
        | (emitted, answer) => (emitted, answer)

/-- `feed`. -/
def feed (chunk : Bytes) : RawSpillStream × Answer :=
  if s.finished then (s, .returned false) else feedLoop keys env chunk.length s chunk

/-- `flush`. -/
def flush : RawSpillStream × Answer :=
  if s.finished then (s, .returned false)
  else if s.buffer = [] then (s, .returned true)
  else emitFrame keys env s s.buffer true

/-- The record of a control frame. -/
def controlRecord (sentinel : ℕ) (metadata payload : Bytes) : Option Bytes :=
  match pack metaHeaderSize metadata.length, pack recordHeaderSize sentinel with
  | some metaLength, some mark =>
    (pack recordHeaderSize (metaLength ++ (metadata ++ payload)).length).map fun length =>
      mark ++ (length ++ (metaLength ++ (metadata ++ payload)))
  | _, _ => none

/-- `_write_control_frame`. -/
def writeControlFrame (sentinel seq : ℕ) (fields : ControlFields) : RawSpillStream × Answer :=
  match encodeDocument fields.document with
  | none => (s, .raised)
  | some metadata =>
    match encryptAndAppend keys env s metadata (controlContext s.source s.streamId seq fields)
        (controlRecord sentinel metadata) with
    | (s, some .written) => (s, .returned true)
    | (s, _) => (s, .raised)

/-- `content_encoding or "identity"`. -/
def orIdentity (encoding : Text) : Text := if encoding = [] then lit "identity" else encoding

/-- `announce` after the buffer has been flushed. -/
def announceFlushed (httpStatus : ℤ) (contentEncoding : Text) (protocolInvalid : Bool) :
    RawSpillStream × Answer :=
  let s :=
    { s with
      httpStatus := clampHttpStatus httpStatus
      contentEncoding := orIdentity contentEncoding
      protocolInvalid := protocolInvalid }
  match writeControlFrame keys env s controlSentinel 0
      { kind := kindAnnounce
        httpStatus := s.httpStatus
        contentEncoding := s.contentEncoding
        captureState := if protocolInvalid then .protocolInvalid else .complete } with
  | (s, .returned _) => ({ s with announced := true }, .returned true)
  | (s, .raised) => (s, .raised)

/-- `announce`. -/
def announce (httpStatus : ℤ) (contentEncoding : Text) (protocolInvalid : Bool) :
    RawSpillStream × Answer :=
  if s.finished then (s, .returned true)
  else
    match flush keys env s with
    | (s, .returned true) => announceFlushed keys env s httpStatus contentEncoding protocolInvalid
    | (s, _) => (s, .raised)

/-- The arguments of `finish`. -/
structure FinishArgs where
  complete : Bool
  httpStatus : Option ℤ
  contentEncoding : Option Text
  tooLarge : Bool
  protocolInvalid : Bool
  deriving DecidableEq

/-- The state that `finish` records. -/
def finalState (protocolInvalid durable : Bool) (args : FinishArgs) : CaptureState :=
  if protocolInvalid then .protocolInvalid
  else if args.complete && durable then
    if args.tooLarge then .completeTooLarge else .complete
  else .truncated

/-- `finish` after the buffer has been flushed. -/
def finishFlushed (durable : Bool) (args : FinishArgs) (renamed : Bool) : RawSpillStream × Answer :=
  let s :=
    { s with
      httpStatus := (args.httpStatus.map clampHttpStatus).getD s.httpStatus
      contentEncoding := (args.contentEncoding.map orIdentity).getD s.contentEncoding
      protocolInvalid := s.protocolInvalid || args.protocolInvalid }
  let state := finalState s.protocolInvalid durable args
  match writeControlFrame keys env { s with captureState := some state } 0 s.seq
      { kind := kindTerminal
        httpStatus := s.httpStatus
        contentEncoding := s.contentEncoding
        captureState := state } with
  | (s, .returned _) =>
    if renamed then ({ s with finished := true }, .returned true) else (s, .raised)
  | (s, .raised) => (s, .raised)

/-- `finish`; `renamed` says whether the file could be given its final name. -/
def finish (args : FinishArgs) (renamed : Bool) : RawSpillStream × Answer :=
  if s.finished then (s, .returned true)
  else
    match flush keys env s with
    | (s, .returned durable) => finishFlushed keys env s durable args renamed
    | (s, .raised) => (s, .raised)

end

end RawSpillStream

end SmsPlatform.Spill
