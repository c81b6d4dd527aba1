import SmsPlatform.Spill.Documents
import SmsPlatform.Spill.StreamSteps

/-!
# Reading what was written

The reader's loop takes back one record of the writer at a time, and a record whose end is
missing stops it.  In particular nothing that begins like the end of a stream is taken for a
footer of the earlier format.
-/

namespace SmsPlatform.Spill

open Support RawSpillStream List Option

/-! ## The header line -/

theorem splitStreamHeader_header {line : Bytes} (h : newline ∉ line) (body : Bytes) :
    splitStreamHeader (streamMagic ++ line ++ [newline] ++ body) =
      some (line ++ [newline], body) := by
  have hbytes : streamMagic ++ line ++ [newline] ++ body =
      streamMagic ++ (line ++ newline :: body) := by simp
  rw [splitStreamHeader, hbytes, take_left, if_pos rfl, drop_left, readLine_append h]
  dsimp only
  rw [getLast?_concat, if_pos rfl]

/-- A header line whose end is missing is not read. -/
theorem splitStreamHeader_cut {line p : Bytes} (h : newline ∉ line)
    (hp : p <+: streamMagic ++ (line ++ [newline]))
    (hlength : p.length < (streamMagic ++ (line ++ [newline])).length) :
    splitStreamHeader p = none := by
  rw [splitStreamHeader]
  rcases prefix_append_cases hp with ⟨hmagic, hshort⟩ | ⟨q, hq, rfl⟩
  · refine if_neg ?_
    rw [take_of_length_le hshort.le]
    rintro rfl
    exact absurd hshort (lt_irrefl _)
  · have hq' : q <+: line := by
      rcases prefix_concat_iff.mp hq with rfl | hq
      · exact absurd hlength (lt_irrefl _)
      · exact hq
    have hnewline : newline ∉ q := fun hmem => h (hq'.subset hmem)
    rw [take_left, if_pos rfl, drop_left, readLine_of_not_mem hnewline]
    refine if_neg ?_
    intro hlast
    exact hnewline (mem_of_getLast? hlast)

/-! ## Records -/

section

variable {py : Json.Interpreter} {keys : Keyring} {source : Source} {id : StreamId} {v : ℕ}
variable {payload : Bytes}

theorem decrypt_of_seals (hkeys : keys.Correct) {context : EncryptionContext} {plaintext : Bytes}
    (h : Seals keys v context plaintext payload) :
    decryptBoundBytes keys payload v context = .ok plaintext := by
  obtain ⟨nonce, hnonce⟩ := h
  exact decryptBoundBytes_encrypt hkeys hnonce

theorem length_of_seals (hkeys : keys.Correct) {context : EncryptionContext} {plaintext : Bytes}
    (h : Seals keys v context plaintext payload) : payload.length = plaintext.length + 32 := by
  obtain ⟨nonce, hnonce⟩ := h
  exact length_payload hkeys hnonce

/-- The loop stops on these bytes and adds nothing. -/
def Stops (py : Json.Interpreter) (keys : Keyring) (header : StreamFileHeader) (bs : Bytes)
    (seq : ℕ) (a : AssembledStream) : Prop :=
  ∀ fuel, ∃ r, assembleLoop py keys header fuel bs seq a = .ok r ∧ (r = a ∨ r = a.cut)

theorem stops_nil (header : StreamFileHeader) (seq : ℕ) (a : AssembledStream) :
    Stops py keys header [] seq a := by
  intro fuel
  cases fuel <;> exact ⟨a, rfl, .inl rfl⟩

/-- A record whose end is missing stops the loop, if it does so behind the length field. -/
theorem stops_of_cut {header : StreamFileHeader} {n seq : ℕ} {content q : Bytes}
    {a : AssembledStream} (hq : q <+: bigEndian recordHeaderSize n ++ content)
    (hbehind : ∀ q', q' <+: content → q = bigEndian recordHeaderSize n ++ q' →
      ∀ fuel, assembleLoop py keys header (fuel + 1) q seq a = .ok a.cut) :
    Stops py keys header q seq a := by
  intro fuel
  cases fuel with
  | zero =>
    cases q with
    | _ => exact ⟨a, rfl, .inl rfl⟩
  | succ fuel =>
    by_cases hnil : q = []
    · rw [hnil]
      exact ⟨a, rfl, .inl rfl⟩
    rcases prefix_append_cases hq with ⟨-, hshort⟩ | ⟨q', hq', hsplit⟩
    · rw [length_bigEndian] at hshort
      refine ⟨a.cut, ?_, .inr rfl⟩
      obtain ⟨b, bs, rfl⟩ := exists_cons_of_ne_nil hnil
      rw [assembleLoop, if_pos hshort]
    · exact ⟨a.cut, hbehind q' hq' hsplit fuel, .inr rfl⟩

section

variable {header : StreamFileHeader} {n : ℕ} {rest : Bytes}

/-- The length field that a round reads. -/
theorem field_append_eq_cons (hn : n < 256 ^ recordHeaderSize) (rest : Bytes) :
    ∃ b bs, bigEndian recordHeaderSize n ++ rest = b :: bs ∧
    ofBigEndian ((b :: bs).take recordHeaderSize) = n ∧
    (b :: bs).drop recordHeaderSize = rest ∧ ¬ (b :: bs).length < recordHeaderSize := by
  have hfield := length_bigEndian recordHeaderSize n
  obtain ⟨b, bs, hcons⟩ := exists_cons_of_ne_nil
    (append_ne_nil_of_left_ne_nil (by rw [← length_pos_iff, hfield]; decide) _)
  refine ⟨b, bs, hcons, ?_⟩
  rw [← hcons, take_left' hfield, drop_left' hfield, ofBigEndian_bigEndian hn]
  exact ⟨rfl, rfl, by simp [hfield]⟩

/-- The announcement behind its mark. -/
theorem assembleLoop_mark {behind : Bytes} {fields : ControlFields}
    (hframe : readControlFrame py keys header 0 rest = .ok (some (fields, behind)))
    (hkind : fields.kind = kindAnnounce) (fuel seq : ℕ) (a : AssembledStream) :
    assembleLoop py keys header (fuel + 1) (bigEndian recordHeaderSize controlSentinel ++ rest)
      seq a = assembleLoop py keys header fuel behind seq { a with announce := some fields } := by
  obtain ⟨b, bs, hcons, hlength, hrest, hlong⟩ :=
    field_append_eq_cons (n := controlSentinel) (by decide) rest
  rw [hcons, assembleLoop, hlength, hrest, if_neg hlong, if_pos rfl, hframe]
  dsimp only
  rw [if_pos hkind]

theorem assembleLoop_mark_none (hframe : readControlFrame py keys header 0 rest = .ok none)
    (fuel seq : ℕ) (a : AssembledStream) :
    assembleLoop py keys header (fuel + 1) (bigEndian recordHeaderSize controlSentinel ++ rest)
      seq a = .ok a.cut := by
  obtain ⟨b, bs, hcons, hlength, hrest, hlong⟩ :=
    field_append_eq_cons (n := controlSentinel) (by decide) rest
  rw [hcons, assembleLoop, hlength, hrest, if_neg hlong, if_pos rfl, hframe]

/-- The end behind its mark. -/
theorem assembleLoop_zero (rest : Bytes) (fuel seq : ℕ) (a : AssembledStream) :
    assembleLoop py keys header (fuel + 1) (bigEndian recordHeaderSize 0 ++ rest) seq a =
      readTerminal py keys header seq rest a := by
  obtain ⟨b, bs, hcons, hlength, hrest, hlong⟩ := field_append_eq_cons (n := 0) (by decide) rest
  rw [hcons, assembleLoop, hlength, hrest, if_neg hlong, if_neg (by decide), if_pos rfl]

end

/-! ### Data frames -/

section

variable {f : DataFrame} {seq : ℕ}

variable (hkeys : keys.Correct)
  (hseals : Seals keys v (chunkContext source id seq) f.plaintext f.payload)
  (hlength : f.plaintext.length ≤ internalFrameSize)
include hkeys hseals hlength

/-- The length of a data frame is neither of the two marks. -/
theorem length_data : f.payload.length < 256 ^ recordHeaderSize ∧
    f.payload.length ≠ controlSentinel ∧ f.payload.length ≠ 0 := by
  have hpayload := length_of_seals hkeys hseals
  simp only [internalFrameSize] at hlength
  simp only [recordHeaderSize, controlSentinel]
  omega

theorem assembleLoop_data (fuel : ℕ) (rest : Bytes) (a : AssembledStream) :
    assembleLoop py keys ⟨source, id, v⟩ (fuel + 1) (f.record ++ rest) seq a =
      assembleLoop py keys ⟨source, id, v⟩ fuel rest (seq + 1)
        { a with plaintext := a.plaintext ++ f.plaintext } := by
  obtain ⟨hfits, hmark, hzero⟩ := length_data hkeys hseals hlength
  obtain ⟨b, bs, hcons, hn, hrest, hlong⟩ := field_append_eq_cons hfits (f.payload ++ rest)
  rw [DataFrame.record, append_assoc, hcons, assembleLoop, hn, hrest, if_neg hlong, if_neg hmark,
    if_neg hzero, if_neg (by simp), take_left, drop_left, decrypt_of_seals hkeys hseals]

theorem stops_data {q : Bytes} (hq : q <+: f.record) (hshort : q.length < f.record.length)
    (a : AssembledStream) : Stops py keys ⟨source, id, v⟩ q seq a := by
  refine stops_of_cut hq ?_
  rintro q' - rfl fuel
  rw [DataFrame.record, length_append, length_append] at hshort
  obtain ⟨hfits, hmark, hzero⟩ := length_data hkeys hseals hlength
  obtain ⟨b, bs, hcons, hn, hrest, hlong⟩ := field_append_eq_cons hfits q'
  rw [hcons, assembleLoop, hn, hrest, if_neg hlong, if_neg hmark, if_neg hzero,
    if_pos (by omega)]

end

/-! ### Control frames -/

/-- The part of a control frame behind its mark. -/
def controlFrame (metadata payload : Bytes) : Bytes :=
  bigEndian metaHeaderSize metadata.length ++ (metadata ++ payload)

theorem controlRecord_eq_some {sentinel : ℕ} {metadata record : Bytes}
    (h : controlRecord sentinel metadata payload = some record) :
    metadata.length < 256 ^ metaHeaderSize ∧ sentinel < 256 ^ recordHeaderSize ∧
    (controlFrame metadata payload).length < 256 ^ recordHeaderSize ∧
    record = bigEndian recordHeaderSize sentinel ++
      (bigEndian recordHeaderSize (controlFrame metadata payload).length ++
        controlFrame metadata payload) := by
  unfold controlRecord at h
  split at h
  · rename_i metaLength mark hmeta hmark
    obtain ⟨length, hlength, rfl⟩ := map_eq_some_iff.mp h
    unfold pack at hmeta hmark hlength
    obtain ⟨hmetaFits, hmeta⟩ := ite_none_right_eq_some.mp hmeta
    obtain ⟨hmarkFits, hmark⟩ := ite_none_right_eq_some.mp hmark
    split at hlength
    · rename_i hlengthFits
      cases hmeta
      cases hmark
      cases hlength
      exact ⟨hmetaFits, hmarkFits, hlengthFits, rfl⟩
    · cases hlength
  · cases h

/-- A control frame that the writer has made. -/
structure ControlWritten (keys : Keyring) (source : Source) (id : StreamId) (v seq sentinel : ℕ)
    (fields : ControlFields) (metadata payload record : Bytes) : Prop where
  plain : fields.Plain
  encode_eq : encodeDocument fields.document = some metadata
  seals : Seals keys v (controlContext source id seq fields) metadata payload
  record_eq : controlRecord sentinel metadata payload = some record

namespace ControlWritten

variable {seq sentinel : ℕ} {fields : ControlFields} {metadata record : Bytes}
variable (h : ControlWritten keys source id v seq sentinel fields metadata payload record)
include h

/-- A content encoding that stands in a context can be written to a document. -/
theorem isScalarText : Json.IsScalarText fields.contentEncoding := by
  obtain ⟨nonce, hnonce⟩ := h.seals
  obtain ⟨-, hvalid, -, -⟩ := encryptBoundBytes_eq_ok hnonce
  intro c hc
  refine EncryptionContext.isScalar_objectId hvalid ?_
  simp [controlContext, hc]

theorem readControlFrame (hkeys : keys.Correct) (rest : Bytes) :
    readControlFrame py keys ⟨source, id, v⟩ seq
      (bigEndian recordHeaderSize (controlFrame metadata payload).length ++
        (controlFrame metadata payload ++ rest)) = .ok (some (fields, rest)) := by
  obtain ⟨hmeta, -, hframe, -⟩ := controlRecord_eq_some h.record_eq
  refine readControlFrame_eq_some.mpr ⟨metadata, payload, splitFrame_eq_some.mpr
    ⟨_, takeRecord_bigEndian hframe rest, takeRecord_bigEndian hmeta payload⟩, ?_, ?_⟩
  · exact parseControlMeta_document py h.plain h.isScalarText h.encode_eq
  · exact decrypt_of_seals hkeys h.seals

/-- A control frame whose end is missing is not read. -/
theorem readControlFrame_cut {q : Bytes}
    (hq : q <+: bigEndian recordHeaderSize (controlFrame metadata payload).length ++
      controlFrame metadata payload)
    (hshort : q.length < recordHeaderSize + (controlFrame metadata payload).length)
    (header : StreamFileHeader) (seq' : ℕ) :
    Spill.readControlFrame py keys header seq' q = .ok none := by
  obtain ⟨-, -, hframe, -⟩ := controlRecord_eq_some h.record_eq
  rw [Spill.readControlFrame, splitFrame, takeRecord_of_cut hframe hq hshort]

/-- The frame behind the mark is so short that its length begins with a zero byte. -/
theorem length_controlFrame (hkeys : keys.Correct) :
    (controlFrame metadata payload).length < 256 ^ 3 := by
  obtain ⟨hmeta, -, -, -⟩ := controlRecord_eq_some h.record_eq
  have hpayload := length_of_seals hkeys h.seals
  simp only [metaHeaderSize] at hmeta
  simp only [controlFrame, length_append, length_bigEndian, metaHeaderSize]
  omega

/-- Missing bytes of the record are missing behind its mark. -/
theorem length_behind {q : Bytes}
    (hshort : (bigEndian recordHeaderSize sentinel ++ q).length < record.length) :
    q.length < recordHeaderSize + (controlFrame metadata payload).length := by
  obtain ⟨-, -, -, rfl⟩ := controlRecord_eq_some h.record_eq
  simp only [length_append, length_bigEndian] at hshort
  omega

end ControlWritten

/-! ### The announcement -/

section

variable {fields : ControlFields} {metadata record : Bytes}

theorem assembleLoop_announce (hkeys : keys.Correct)
    (h : ControlWritten keys source id v 0 controlSentinel fields metadata payload record)
    (hkind : fields.kind = kindAnnounce) (fuel seq : ℕ) (rest : Bytes) (a : AssembledStream) :
    assembleLoop py keys ⟨source, id, v⟩ (fuel + 1) (record ++ rest) seq a =
      assembleLoop py keys ⟨source, id, v⟩ fuel rest seq { a with announce := some fields } := by
  obtain ⟨-, -, -, rfl⟩ := controlRecord_eq_some h.record_eq
  exact assembleLoop_mark (h.readControlFrame hkeys rest) hkind fuel seq a

theorem stops_announce
    (h : ControlWritten keys source id v 0 controlSentinel fields metadata payload record)
    {q : Bytes} (hq : q <+: record) (hshort : q.length < record.length) (seq : ℕ)
    (a : AssembledStream) : Stops py keys ⟨source, id, v⟩ q seq a := by
  obtain ⟨-, -, -, hrecord⟩ := controlRecord_eq_some h.record_eq
  refine stops_of_cut (hrecord ▸ hq) ?_
  rintro q' hq' rfl fuel
  exact assembleLoop_mark_none (h.readControlFrame_cut hq' (h.length_behind hshort) _ 0) fuel seq a

end

/-! ### The end -/

section

variable {seq : ℕ} {fields : ControlFields} {metadata record : Bytes}

theorem assembleLoop_terminal (hkeys : keys.Correct)
    (h : ControlWritten keys source id v seq 0 fields metadata payload record)
    (hkind : fields.kind = kindTerminal) (fuel : ℕ) (rest : Bytes) (a : AssembledStream) :
    assembleLoop py keys ⟨source, id, v⟩ (fuel + 1) (record ++ rest) seq a =
      .ok { a with terminal := some fields } := by
  obtain ⟨-, -, -, rfl⟩ := controlRecord_eq_some h.record_eq
  rw [append_assoc, append_assoc, assembleLoop_zero, readTerminal, h.readControlFrame hkeys rest]
  dsimp only
  rw [if_pos hkind]

/-- What is there of the frame is no footer. -/
theorem readLine_of_controlFrame_cut (hkeys : keys.Correct)
    (h : ControlWritten keys source id v seq 0 fields metadata payload record) {q : Bytes}
    (hq : q <+: bigEndian recordHeaderSize (controlFrame metadata payload).length ++
      controlFrame metadata payload) :
    (readLine q).1 = [] ∨ ∃ rest, (readLine q).1 = 0 :: rest := by
  have hzero : bigEndian recordHeaderSize (controlFrame metadata payload).length =
      0 :: bigEndian 3 (controlFrame metadata payload).length :=
    bigEndian_succ_of_lt (h.length_controlFrame hkeys)
  rw [hzero, cons_append] at hq
  cases q with
  | nil => exact .inl rfl
  | cons b q =>
    obtain ⟨rfl, -⟩ := cons_prefix_cons.mp hq
    right
    unfold readLine
    split
    · exact ⟨q, rfl⟩
    · rw [takeWhile_cons_of_pos (by decide)]
      exact ⟨_, rfl⟩

theorem stops_terminal (hkeys : keys.Correct)
    (h : ControlWritten keys source id v seq 0 fields metadata payload record) {q : Bytes}
    (hq : q <+: record) (hshort : q.length < record.length) (seq' : ℕ) (a : AssembledStream) :
    Stops py keys ⟨source, id, v⟩ q seq' a := by
  obtain ⟨-, -, -, hrecord⟩ := controlRecord_eq_some h.record_eq
  refine stops_of_cut (hrecord ▸ hq) ?_
  rintro q' hq' rfl fuel
  rw [assembleLoop_zero, readTerminal, h.readControlFrame_cut hq' (h.length_behind hshort)]
  rw [readTerminal.readFooter, parseLegacyFooter_zero (readLine_of_controlFrame_cut hkeys h hq')]

end

end

end SmsPlatform.Spill
