import SmsPlatform.Spill.Reader
import SmsPlatform.Spill.Stream

/-!
# Documents that are read back

The header line and the visible part of a control frame are flat documents.  The reader
finds in them what the writer put there.
-/

namespace SmsPlatform.Spill

open Support List Option

/-! ## Encoding -/

variable {bs line : Bytes} {fields : List (Text × Json)} {source : Source} {id : StreamId} {n v : ℕ}

theorem encodeDocument_eq_some (h : encodeDocument fields = some bs) :
    ∃ t, Json.dumps fields = some t ∧ IsPrintable t ∧ bs = asciiBytes t := by
  obtain ⟨t, ht, hencode⟩ := bind_eq_some_iff.mp h
  have hprintable := Json.isPrintable_dumps ht
  rw [utf8Encode_ascii hprintable.isAscii] at hencode
  exact ⟨t, ht, hprintable, (Option.some.inj hencode).symm⟩

theorem newline_not_mem_encodeDocument (h : encodeDocument fields = some bs) : newline ∉ bs := by
  obtain ⟨t, -, hprintable, rfl⟩ := encodeDocument_eq_some h
  exact newline_not_mem_asciiBytes hprintable

theorem isAscii_spaces {spaces : Text} (h : ∀ c ∈ spaces, Json.isSpace c = true) :
    IsAscii spaces := by
  intro c hc
  have hspace := h c hc
  simp only [Json.isSpace, decide_eq_true_eq] at hspace
  omega

theorem loadsObject_encodeDocument (hplain : Json.PlainFields fields)
    (hkeys : (fields.map Prod.fst).Nodup) (h : encodeDocument fields = some bs) (spaces : Text)
    (hspaces : ∀ c ∈ spaces, Json.isSpace c = true) :
    loadsObject (bs ++ asciiBytes spaces) = some (Json.sortFields fields) := by
  obtain ⟨t, ht, hprintable, rfl⟩ := encodeDocument_eq_some h
  have hbytes : asciiBytes t ++ asciiBytes spaces = asciiBytes (t ++ spaces) := (map_append ..).symm
  rw [loadsObject, hbytes, utf8Decode_ascii (hprintable.isAscii.append (isAscii_spaces hspaces)),
    bind_some, Json.loads_dumps hplain hkeys ht hspaces]

theorem isScalarText_of_isAscii {t : Text} (h : IsAscii t) : Json.IsScalarText t :=
  fun c hc => isScalar_of_lt (h c hc)

theorem isAscii_hexText {t : Text} (h : isHexText n t = true) : IsAscii t := by
  intro c hc
  rw [isHexText, Bool.and_eq_true, List.all_eq_true] at h
  have hhex := h.2 c hc
  simp only [isHex, isDigit, Bool.or_eq_true, decide_eq_true_eq] at hhex
  have hnine : '9'.toNat = 57 := rfl
  have hf : 'f'.toNat = 102 := rfl
  omega

theorem Source.isAscii_text (source : Source) : IsAscii source.text := by
  cases source <;> unfold IsAscii <;> decide

theorem CaptureState.isAscii_text (state : CaptureState) : IsAscii state.text := by
  cases state <;> unfold IsAscii <;> decide

theorem plain_int (h : n < 10 ^ 5) : (Json.int n).Plain := by
  have hlength : (natText n).length ≤ 5 := by
    rw [natText, charsText, length_map]
    exact (Nat.length_toDigits_le_iff (by decide) (by decide)).mpr h
  exact hlength.trans (by decide)

theorem plainFields_of (hkeys : ∀ k ∈ fields.map Prod.fst, IsAscii k)
    (hvalues : ∀ v ∈ fields.map Prod.snd, v.Plain) : Json.PlainFields fields :=
  fun f hf => ⟨isScalarText_of_isAscii (hkeys f.1 (mem_map_of_mem hf)),
    hvalues f.2 (mem_map_of_mem hf)⟩

/-! ## The header line -/

theorem plainFields_headerDocument (source : Source) (id : StreamId) (hv : v ≤ maxKeyVersion) :
    Json.PlainFields (headerDocument source id v) := by
  have hid := isScalarText_of_isAscii (isAscii_hexText id.isHexText_text)
  have hsource := isScalarText_of_isAscii source.isAscii_text
  have hversion : (Json.int v).Plain := plain_int (by unfold maxKeyVersion at hv; omega)
  refine plainFields_of ?_ ?_
  · simp [headerDocument]
    unfold IsAscii
    decide
  · simp only [headerDocument, map_cons, map_nil, mem_cons, not_mem_nil, or_false]
    rintro value (rfl | rfl | rfl)
    · exact hsource
    · exact hid
    · exact hversion

theorem loadsObject_headerDocument (hv : v ≤ maxKeyVersion)
    (h : encodeDocument (headerDocument source id v) = some line) (spaces : Text)
    (hspaces : ∀ c ∈ spaces, Json.isSpace c = true) : loadsObject (line ++ asciiBytes spaces) =
      some (Json.sortFields (headerDocument source id v)) := by
  have hkeys : ((headerDocument source id v).map Prod.fst).Nodup := by
    simp only [headerDocument, map_cons, map_nil]
    decide
  exact loadsObject_encodeDocument (plainFields_headerDocument source id hv) hkeys h spaces hspaces

theorem Source.ofText_text (source : Source) : Source.ofText source.text = some source := by
  cases source <;> rfl

theorem StreamId.ofText_text (id : StreamId) : StreamId.ofText id.text = some id :=
  dif_pos id.isHexText_text

theorem parseStreamIdentity_header (service : Service) (hv : v ≤ maxKeyVersion)
    (h : encodeDocument (headerDocument source id v) = some line) :
    parseStreamIdentity service (line ++ [newline]) = some ⟨source, id, v⟩ := by
  have hloads := loadsObject_headerDocument hv h [0x0A] (by decide)
  have hline : asciiBytes [0x0A] = [newline] := rfl
  rw [hline] at hloads
  have hsource : Json.field? (Json.sortFields (headerDocument source id v)) (lit "source") =
      some (.str source.text) := rfl
  have hid : Json.field? (Json.sortFields (headerDocument source id v)) (lit "stream_id") =
      some (.str id.text) := rfl
  have hversion : Json.field? (Json.sortFields (headerDocument source id v)) (lit "key_version") =
      some (.int v) := rfl
  rw [parseStreamIdentity, hloads]
  dsimp only
  rw [hsource, hid, hversion]
  simp [Json.toStr, Json.toInt, Source.ofText_text, StreamId.ofText_text]

/-- Rewriting the header of a stream changes its key version. -/
theorem rewriteHeader_header (hn : n ≤ maxKeyVersion) {file : Bytes}
    (h : encodeDocument (headerDocument source id n) = some line)
    (hfile : RawSpillStream.rewriteHeader (streamMagic ++ line ++ [newline]) v = some file) :
    ∃ line', encodeDocument (headerDocument source id v) = some line' ∧
    file = streamMagic ++ line' ++ [newline] := by
  have hloads := loadsObject_headerDocument hn h [] (by simp)
  have hnil : asciiBytes [] = [] := rfl
  rw [hnil, append_nil] at hloads
  have hnewline := newline_not_mem_encodeDocument h
  unfold RawSpillStream.rewriteHeader at hfile
  rw [append_assoc, if_pos (by simp), drop_left] at hfile
  dsimp only at hfile
  rw [dropWhile_ne_append hnewline, takeWhile_ne_append hnewline, hloads] at hfile
  dsimp only at hfile
  obtain ⟨line', hline', rfl⟩ := map_eq_some_iff.mp hfile
  exact ⟨line', hline', by simp⟩

/-! ## The visible part of a control frame -/

theorem clampHttpStatus_mem (status : ℤ) :
    100 ≤ clampHttpStatus status ∧ clampHttpStatus status ≤ 599 := by
  unfold clampHttpStatus
  split <;> omega

theorem normalizeCaptureState_text (state : CaptureState) :
    normalizeCaptureState state.text = some state := by
  cases state <;> rfl

/-- The fields that the writer puts into a control frame. -/
structure ControlFields.Plain (fields : ControlFields) : Prop where
  kind_eq : fields.kind = kindAnnounce ∨ fields.kind = kindTerminal
  status_ge : 100 ≤ fields.httpStatus
  status_le : fields.httpStatus ≤ 599
  encoding_ne : fields.contentEncoding ≠ []

theorem sortFields_document (fields : ControlFields) :
    Json.sortFields fields.document = fields.document := rfl

theorem parseControlMeta_document (py : Json.Interpreter) {fields : ControlFields}
    (hfields : fields.Plain) (hscalar : Json.IsScalarText fields.contentEncoding)
    {metadata : Bytes} (h : encodeDocument fields.document = some metadata) :
    parseControlMeta py metadata = some fields := by
  have hkind : IsAscii fields.kind := by
    rcases hfields.kind_eq with hkind | hkind <;> rw [hkind] <;> unfold IsAscii <;> decide
  have hstatus : (Json.int fields.httpStatus).Plain :=
    plain_int (by have := hfields.status_le; omega)
  have hplain : Json.PlainFields fields.document := by
    refine plainFields_of ?_ ?_
    · simp [ControlFields.document]
      unfold IsAscii
      decide
    · simp only [ControlFields.document, map_cons, map_nil, mem_cons, not_mem_nil, or_false]
      rintro value (rfl | rfl | rfl | rfl)
      · exact isScalarText_of_isAscii fields.captureState.isAscii_text
      · exact hscalar
      · exact hstatus
      · exact isScalarText_of_isAscii hkind
  have hkeys : (fields.document.map Prod.fst).Nodup := by
    simp only [ControlFields.document, map_cons, map_nil]
    decide
  have hloads := loadsObject_encodeDocument hplain hkeys h [] (by simp)
  have hnil : asciiBytes [] = [] := rfl
  rw [hnil, append_nil, sortFields_document] at hloads
  have hclamp : clampHttpStatus fields.httpStatus = fields.httpStatus := by
    have hge := hfields.status_ge
    have hle := hfields.status_le
    rw [clampHttpStatus, if_pos (by omega), Int.toNat_natCast]
  have hkind? : Json.field? fields.document (lit "kind") = some (.str fields.kind) := rfl
  have hstatus? : Json.field? fields.document (lit "http_status") =
      some (.int fields.httpStatus) := rfl
  have hencoding? : Json.field? fields.document (lit "content_encoding") =
      some (.str fields.contentEncoding) := rfl
  have hstate? : Json.field? fields.document (lit "capture_state") =
      some (.str fields.captureState.text) := rfl
  rw [parseControlMeta, hloads]
  dsimp only
  rw [hkind?, hstatus?, hencoding?, hstate?]
  simp only [normalizeHttpStatus, hclamp, getD_some, Json.toStr,
    normalizeCaptureState_text, encodingOrIdentity, Json.truthy, isEmpty_eq_false_iff.mpr
      hfields.encoding_ne, Bool.not_false, if_true]

end SmsPlatform.Spill
