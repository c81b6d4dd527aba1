import SmsPlatform.Spill.Reader

/-!
# Fast classification of spill files

The reclaimer does not read whole files.  It looks at the header and the first frame, and
decides from them whether a file stays, is deleted or goes into quarantine, and for which
reason.  What is quarantined as `auth_failed` or `corrupt` may later be evicted.
-/

namespace SmsPlatform.Spill

open Support

/-- The `STREAM_LIFE` values that are assigned. -/
inductive StreamLife
  | legalHeaderOnly
  | partialHeader
  | corruptHeader
  | unauthenticatedPartial
  | hasControl
  | hasAuthenticatedData
  | keyUnavailable
  | transientIo
  | authFailed
  deriving DecidableEq

/-- The `SPILL_LIFE` values. -/
inductive SpillLife
  | valid
  | incomplete
  | corrupt
  | transientIo
  deriving DecidableEq

/-- Why a file is in quarantine. -/
inductive Reason
  | keyUnavailable
  | transientIo
  | authFailed
  | corrupt
  deriving DecidableEq

/-- `CIPHERQ_EVICTABLE_REASONS`; the others are `CIPHERQ_RETAIN_REASONS`. -/
def Reason.isEvictable : Reason → Bool
  | .authFailed | .corrupt => true
  | .keyUnavailable | .transientIo => false

/-- What the reclaimer does with a file that is old enough. -/
inductive Disposition
  | keep
  | delete
  | isolate (reason : Reason)
  deriving DecidableEq

/-- The bytes may be lost without being read again. -/
def Disposition.mayLose : Disposition → Bool
  | .keep => false
  | .delete => true
  | .isolate reason => reason.isEvictable

/-- The branches of `reclaim_idle_locked`. -/
def StreamLife.disposition : StreamLife → Disposition
  | .hasAuthenticatedData | .hasControl | .transientIo => .keep
  | .keyUnavailable => .isolate .keyUnavailable
  | .authFailed => .isolate .authFailed
  | .unauthenticatedPartial | .corruptHeader => .isolate .corrupt
  | .legalHeaderOnly | .partialHeader => .delete

section

variable (service : Service)

/-! ## Streams -/

/-- `classify_first_control`, after the mark. -/
def classifyFirstControl (header : StreamFileHeader) (bs : Bytes) : StreamLife :=
  let frameLen := ofBigEndian (bs.take recordHeaderSize)
  let frame := (bs.drop recordHeaderSize).take frameLen
  if bs.length < recordHeaderSize then .unauthenticatedPartial
  else if frameLen < metaHeaderSize ∨ maxClassifyControl < frameLen then .unauthenticatedPartial
  else if frame.length ≠ frameLen then .unauthenticatedPartial
  else if hasVersion service.keys header.keyVersion then
    match readControlFrame service.py service.keys header 0 (bs.take recordHeaderSize ++ frame) with
    | .error _ => .keyUnavailable
    | .ok (some _) => .hasControl
    | .ok none => .unauthenticatedPartial
  else .keyUnavailable

/-- `classify_first_data`, after the length field. -/
def classifyFirstData (header : StreamFileHeader) (length : ℕ) (bs : Bytes) : StreamLife :=
  let ciphertext := bs.take length
  if length < 1 ∨ maxClassifyDataCipher < length then .unauthenticatedPartial
  else if ciphertext.length ≠ length then .unauthenticatedPartial
  else if hasVersion service.keys header.keyVersion then
    match decryptBoundBytes service.keys ciphertext header.keyVersion
        (chunkContext header.source header.streamId 0) with
    | .ok _ => .hasAuthenticatedData
    | .error .unknownKeyVersion => .keyUnavailable
    | .error .invalidTag => .authFailed
    | .error .invalidValue => .unauthenticatedPartial
  else .keyUnavailable

/-- `classify_stream_header` after the first line. -/
def classifyBody (header : StreamFileHeader) (bs : Bytes) : StreamLife :=
  let length := ofBigEndian (bs.take recordHeaderSize)
  let rest := bs.drop recordHeaderSize
  if bs = [] then .legalHeaderOnly
  else if bs.length < recordHeaderSize then .unauthenticatedPartial
  else if length = controlSentinel ∨ length = 0 then classifyFirstControl service header rest
  else classifyFirstData service header length rest

/-- `classify_stream_header`. -/
def classifyStream (name : Text) (bs : Bytes) : StreamLife :=
  let magic := bs.take streamMagic.length
  if magic = [] ∨ (magic.length < streamMagic.length ∧ magic <+: streamMagic) then .partialHeader
  else if magic ≠ streamMagic then .corruptHeader
  else
    match splitStreamHeader bs with
    | none => .partialHeader
    | some (line, rest) =>
      match parseStreamIdentity service line with
      | none => .corruptHeader
      | some header =>
        if name = streamTmp header.source header.streamId ∨
            name = streamPath header.source header.streamId then
          classifyBody service header rest
        else .corruptHeader

/-! ## Secondary spills -/

/-- `_classify_spill_path`. -/
def classifySpill (name : Text) (content : Option Bytes) : SpillLife :=
  match content with
  | none => .transientIo
  | some bs =>
    if bs.take spillMagic.length = spillMagic then
      let body := bs.drop spillMagic.length
      let frameLen := ofBigEndian (body.take recordHeaderSize)
      let rest := body.drop recordHeaderSize
      if body.length < recordHeaderSize then .incomplete
      else if frameLen < metaHeaderSize ∨ maxClassifyControl < frameLen then .corrupt
      else if rest.length < frameLen then .incomplete
      else if spillFileName name = none then .corrupt
      else if rest.drop frameLen = [] then .incomplete
      else .valid
    else
      let line := readLine bs
      if line.1.getLast? ≠ some newline then .incomplete
      else
        match loadsObject line.1 with
        | none => .corrupt
        | some fields =>
          match (Json.field? fields (lit "source")).bind
                (fun v => Source.ofText (v.toStr service.py)),
              (Json.field? fields (lit "payload_sha256")).map (Json.toStr service.py) with
          | some source, some digest =>
            if isHexText 64 digest = false then .corrupt
            else if name = stem source digest ++ lit ".spill" ∨
                name = stem source digest ++ lit ".spill.tmp" then
              if line.2 = [] then .incomplete else .valid
            else .corrupt
          | _, _ => .corrupt

/-- `inspect_spill_header_auth`; `none` when there is nothing to object to. -/
def inspectSpillHeaderAuth (bs : Bytes) : Option Reason :=
  if bs.take spillMagic.length = spillMagic then
    match parseSpillHeaderFrame (bs.drop spillMagic.length) with
    | none => some .corrupt
    | some (metadata, ciphertext, _) =>
      match (loadsObject metadata).bind fun fields =>
          requireKeyVersion service.py (Json.field? fields (lit "key_version")) with
      | none => some .authFailed
      | some hint =>
        if hasVersion service.keys hint then
          match decryptSpillHeader service.py service.keys service.active metadata ciphertext with
          | .ok _ => none
          | .error .unknownKeyVersion => some .keyUnavailable
          | .error _ => some .authFailed
        else some .keyUnavailable
  else none

/-- The branches of `_reclaim_spills_locked`. -/
def spillDisposition (name : Text) (content : Option Bytes) : Disposition :=
  match classifySpill service name content, content with
  | .transientIo, _ => .keep
  | .valid, some bs =>
    match inspectSpillHeaderAuth service bs with
    | none => .keep
    | some reason => .isolate reason
  | .valid, none => .keep
  | .incomplete, _ | .corrupt, _ => .isolate .corrupt

end

end SmsPlatform.Spill
