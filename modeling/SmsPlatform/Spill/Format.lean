import SmsPlatform.Spill.Crypto
import SmsPlatform.Support.Json

/-!
# The spill file formats

Names, constants and encryption contexts of the spill directory.  A spill file is known
by its name within the directory, so a path is modelled by that name.
-/

namespace SmsPlatform.Spill

open Support

/-! ## Sources and identifiers -/

/-- `SOURCE_PATTERN`. -/
inductive Source
  | report
  | reply
  deriving DecidableEq

namespace Source

def text : Source → Text
  | .report => lit "report"
  | .reply => lit "reply"

def ofText (t : Text) : Option Source :=
  if t = lit "report" then some .report
  else if t = lit "reply" then some .reply
  else none

theorem text_injective : Function.Injective text := by
  intro a b h
  cases a <;> cases b
  · rfl
  · cases h
  · cases h
  · rfl

end Source

/-- `[0-9a-f]`. -/
def isHex (c : ℕ) : Bool := isDigit c || decide ('a'.toNat ≤ c ∧ c ≤ 'f'.toNat)

/-- `[0-9a-f]{n}`. -/
def isHexText (n : ℕ) (t : Text) : Bool := decide (t.length = n) && t.all isHex

/-- `STREAM_ID_PATTERN`; `secrets.token_hex(16)` yields such a text. -/
structure StreamId where
  text : Text
  isHexText_text : isHexText 32 text = true
  deriving DecidableEq

def StreamId.ofText (t : Text) : Option StreamId :=
  if h : isHexText 32 t = true then some ⟨t, h⟩ else none

/-- The texts that `sha256(..).hexdigest()` yields. -/
structure Sha256 where
  hexdigest : Bytes → Text
  isHexText_hexdigest : ∀ bs, isHexText 64 (hexdigest bs) = true

/-! ## Capture states -/

inductive CaptureState
  | complete
  | completeTooLarge
  | truncated
  | protocolInvalid
  | unknownLegacy
  deriving DecidableEq

namespace CaptureState

def text : CaptureState → Text
  | .complete => lit "complete"
  | .completeTooLarge => lit "complete_too_large"
  | .truncated => lit "truncated"
  | .protocolInvalid => lit "protocol_invalid"
  | .unknownLegacy => lit "unknown_legacy"

def all : List CaptureState :=
  [.complete, .completeTooLarge, .truncated, .protocolInvalid, .unknownLegacy]

/-- The state says that nothing of the response is missing. -/
def isComplete : CaptureState → Bool
  | .complete | .completeTooLarge => true
  | .truncated | .protocolInvalid | .unknownLegacy => false

end CaptureState

/-- `normalize_capture_state`: an empty value counts as complete; `none` where the source
raises. -/
def normalizeCaptureState (value : Text) : Option CaptureState :=
  if value = [] then some .complete
  else CaptureState.all.find? (fun state => decide (state.text = value))

/-! ## Constants -/

/-- `STREAM_MAGIC`. -/
def streamMagic : Bytes := asciiBytes (lit "SMSXRS1") ++ [newline]

/-- `SPILL_MAGIC`. -/
def spillMagic : Bytes := asciiBytes (lit "SMSXSP2") ++ [newline]

/-- The width of `STREAM_RECORD_HEADER`. -/
def recordHeaderSize : ℕ := 4

/-- The width of `STREAM_META_HEADER`. -/
def metaHeaderSize : ℕ := 2

/-- `STREAM_CONTROL_SENTINEL`. -/
def controlSentinel : ℕ := 0xFFFFFFFF

def kindAnnounce : Text := lit "announce"
def kindTerminal : Text := lit "terminal"
def kindSpill : Text := lit "spill"

/-- `INTERNAL_FRAME_SIZE`. -/
def internalFrameSize : ℕ := 64 * 1024

/-- `DATA_FRAME_OVERHEAD_BYTES`. -/
def dataFrameOverhead : ℕ :=
  recordHeaderSize + boundEnvelopeMagic.length + nonceSize + tagSize

def controlFrameBudget : ℕ := 256

/-- `MAX_CLASSIFY_DATA_CIPHER_BYTES`. -/
def maxClassifyDataCipher : ℕ := internalFrameSize + dataFrameOverhead + 64

/-- `MAX_CLASSIFY_CONTROL_BYTES`. -/
def maxClassifyControl : ℕ := controlFrameBudget * 4

/-- `max_internal_frames`. -/
def maxInternalFrames (captureBytes : ℕ) : ℕ :=
  (captureBytes + internalFrameSize - 1) / internalFrameSize

/-! ## File names -/

def dash : ℕ := '-'.toNat

/-- The part of a name in front of its suffix. -/
def stem (source : Source) (token : Text) : Text := source.text ++ dash :: token

/-- `stream_tmp`. -/
def streamTmp (source : Source) (id : StreamId) : Text :=
  stem source id.text ++ lit ".stream.tmp"

/-- `stream_path`. -/
def streamPath (source : Source) (id : StreamId) : Text := stem source id.text ++ lit ".stream"

/-- The name under which earlier versions left a finished stream. -/
def legacyStreamPath (source : Source) (id : StreamId) : Text :=
  stem source id.text ++ lit ".stream.stream"

/-- Source, token and suffix of a name: `(report|reply)-[0-9a-f]*` and the rest. -/
def splitName (name : Text) : Option (Source × Text × Text) :=
  match name.dropWhile (fun c => decide (c ≠ dash)) with
  | [] => none
  | _ :: rest =>
    (Source.ofText (name.takeWhile (fun c => decide (c ≠ dash)))).map fun source =>
      (source, rest.takeWhile isHex, rest.dropWhile isHex)

/-- `parse_spill_filename`. -/
def parseSpillFilename (name : Text) : Option (Source × Text × Text) :=
  (splitName name).filter fun (_, token, rest) =>
    decide (token.length = 32 ∨ token.length = 64) &&
      [lit ".spill", lit ".spill.tmp", lit ".cq", lit ".cq.wip"].contains rest

/-- `SPILL_FILE_NAME`: source and token. -/
def spillFileName (name : Text) : Option (Source × Text) :=
  ((splitName name).filter fun (_, token, rest) =>
    decide (token.length = 32 ∨ token.length = 64) &&
      [lit ".spill", lit ".spill.tmp"].contains rest).map fun (source, token, _) =>
        (source, token)

/-! ## Encryption contexts -/

def separator : ℕ := ':'.toNat

/-- The part of an object id that names a frame of a stream. -/
def frameObjectId (source : Source) (id : StreamId) (seq : ℕ) : Text :=
  source.text ++ separator :: (id.text ++ separator :: charsText (zeroPadded 8 seq))

def chunkContext (source : Source) (id : StreamId) (seq : ℕ) : EncryptionContext where
  domain := lit "vendor-raw"
  table := lit "raw_spill"
  column := lit "chunk"
  objectId := frameObjectId source id seq

/-- What a control frame says. -/
structure ControlFields where
  kind : Text
  httpStatus : ℕ
  contentEncoding : Text
  captureState : CaptureState
  deriving DecidableEq

/-- `_control_context`. -/
def controlContext (source : Source) (id : StreamId) (seq : ℕ) (fields : ControlFields) :
    EncryptionContext where
  domain := lit "vendor-raw"
  table := lit "raw_spill"
  column := fields.kind
  objectId := frameObjectId source id seq ++ separator :: (fields.kind ++ separator ::
    (natText fields.httpStatus ++ separator :: (fields.contentEncoding ++ separator ::
      fields.captureState.text)))

/-- The context under which a recovered payload is stored. -/
def rawLogContext (source : Source) (payloadSha256 : Text) : EncryptionContext where
  domain := lit "vendor-raw"
  table := lit "raw_vendor_log"
  column := lit "payload_enc"
  objectId := source.text ++ separator :: payloadSha256

end SmsPlatform.Spill
