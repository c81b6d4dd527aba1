import SmsPlatform.Spill.Inspect

/-!
# The classifier and the reader

A file from which the reader would recover something must not be in a class that lets the
reclaimer delete or evict it.  The two parsers were written separately; they agree on the
files of the current formats, and of the others on those from which nothing is recovered.  They
do not agree on files that only the reader still accepts: streams under their former name,
frames larger than any that is written today, a plain footer without data, and the former spill
format under an artifact name.
-/

namespace SmsPlatform.Spill

open Support List Option

/-! ## The first frame -/

section

variable {service : Service} {header : StreamFileHeader}

/-- What the loop needs to find at the head of a stream that is not empty. -/
inductive FirstFrame (service : Service) (header : StreamFileHeader) (rest : Bytes)
    (length : ℕ) : Prop
  | control {fields : ControlFields} {behind : Bytes}
      (hmark : length = controlSentinel ∨ length = 0)
      (hframe : readControlFrame service.py service.keys header 0 rest =
        .ok (some (fields, behind)))
  | footer {fields : ControlFields} (hmark : length = 0)
      (hfooter : parseLegacyFooter service.py (readLine rest).1 = .ok (some fields))
  | data {chunk : Bytes} (hmark : ¬ (length = controlSentinel ∨ length = 0))
      (hlength : length ≤ rest.length)
      (hchunk : decryptBoundBytes service.keys (rest.take length) header.keyVersion
        (chunkContext header.source header.streamId 0) = .ok chunk)

theorem firstFrame_of_assembleStream {bs : Bytes} {a : AssembledStream}
    (h : assembleStream service.py service.keys header bs = .ok a) (hne : a.isEmpty = false) :
    recordHeaderSize ≤ bs.length ∧ FirstFrame service header (bs.drop recordHeaderSize)
        (ofBigEndian (bs.take recordHeaderSize)) := by
  have hcut : a ≠ AssembledStream.start.cut := by
    rintro rfl
    cases hne
  cases bs with
  | nil =>
    obtain rfl : .start = a := Except.ok.inj h
    cases hne
  | cons b bs =>
    rcases assembleLoop_cases (show b :: bs ≠ [] by simp) h with
      hc | ⟨hsize, ⟨hmark, fields, behind, hframe, -⟩ | ⟨hmark, hterminal⟩ |
        ⟨hmark, hlength, chunk, hchunk, -⟩⟩
    · exact absurd hc hcut
    · exact ⟨hsize, .control (.inl hmark) hframe⟩
    · rcases readTerminal_cases hterminal with
        ⟨fields, behind, hframe, -⟩ | ⟨footer, hfooter, -⟩ | hc
      · exact ⟨hsize, .control (.inr hmark) hframe⟩
      · exact ⟨hsize, .footer hmark hfooter⟩
      · exact absurd hc hcut
    · exact ⟨hsize, .data hmark hlength hchunk⟩

end

/-! ## Streams -/

/-- The frames at the head of a stream are of a size that is written today, and the stream
does not consist of a plain footer. -/
structure CurrentBody (service : Service) (bs : Bytes) : Prop where
  control : ofBigEndian (bs.take recordHeaderSize) = controlSentinel ∨
      ofBigEndian (bs.take recordHeaderSize) = 0 →
    ofBigEndian ((bs.drop recordHeaderSize).take recordHeaderSize) ≤ maxClassifyControl
  data : ¬ (ofBigEndian (bs.take recordHeaderSize) = controlSentinel ∨
      ofBigEndian (bs.take recordHeaderSize) = 0) →
    ofBigEndian (bs.take recordHeaderSize) ≤ maxClassifyDataCipher
  footer : ofBigEndian (bs.take recordHeaderSize) = 0 → ∀ fields,
    parseLegacyFooter service.py (readLine (bs.drop recordHeaderSize)).1 ≠ .ok (some fields)

section

variable {service : Service} {header : StreamFileHeader}
variable {bs : Bytes} {source : Source} {name rest token : Text}

/-- A control frame that the reader accepts. -/
theorem mayLose_classifyFirstControl {behind : Bytes} {fields : ControlFields}
    (h : readControlFrame service.py service.keys header 0 bs = .ok (some (fields, behind)))
    (hsize : ofBigEndian (bs.take recordHeaderSize) ≤ maxClassifyControl) :
    (classifyFirstControl service header bs).disposition.mayLose = false := by
  obtain ⟨metadata, ciphertext, hsplit, hfields, hplain⟩ := readControlFrame_eq_some.mp h
  obtain ⟨frame, hrecord, hmeta⟩ := splitFrame_eq_some.mp hsplit
  obtain ⟨field, hfield, hlength, rfl⟩ := takeRecord_eq_some.mp hrecord
  obtain ⟨metaField, hmetaField, -, hframe⟩ := takeRecord_eq_some.mp hmeta
  have htake : (field ++ (frame ++ behind)).take recordHeaderSize = field := take_left' hfield
  have hdrop : (field ++ (frame ++ behind)).drop recordHeaderSize = frame ++ behind :=
    drop_left' hfield
  have hmin : metaHeaderSize ≤ frame.length := by
    rw [hframe, length_append, hmetaField]
    omega
  have hlong : ¬ (field ++ (frame ++ behind)).length < recordHeaderSize := by
    rw [length_append, hfield]
    omega
  -- The classifier looks at the same frame without the bytes behind it.
  have hagain : readControlFrame service.py service.keys header 0 (field ++ frame) =
      .ok (some (fields, [])) := by
    refine readControlFrame_eq_some.mpr ⟨metadata, ciphertext, ?_, hfields, hplain⟩
    refine splitFrame_eq_some.mpr ⟨frame, ?_, hmeta⟩
    exact takeRecord_eq_some.mpr ⟨field, hfield, hlength, by rw [append_nil]⟩
  rw [htake, hlength] at hsize
  unfold classifyFirstControl
  rw [if_neg hlong, htake, hdrop, hlength, take_left, if_neg (by omega), if_neg (by simp),
    hagain]
  split <;> rfl

/-- A data frame that the reader decrypts. -/
theorem mayLose_classifyFirstData {chunk : Bytes} {length : ℕ} (hpos : length ≠ 0)
    (hlength : length ≤ bs.length) (hsize : length ≤ maxClassifyDataCipher)
    (h : decryptBoundBytes service.keys (bs.take length) header.keyVersion
      (chunkContext header.source header.streamId 0) = .ok chunk) :
    (classifyFirstData service header length bs).disposition.mayLose = false := by
  unfold classifyFirstData
  rw [if_neg (by omega), if_neg (by rw [length_take_of_le hlength]; simp), h]
  split <;> rfl

/-- The body of a stream from which something is recovered. -/
theorem mayLose_classifyBody {a : AssembledStream}
    (h : assembleStream service.py service.keys header bs = .ok a) (hne : a.isEmpty = false)
    (hcurrent : CurrentBody service bs) :
    (classifyBody service header bs).disposition.mayLose = false := by
  obtain ⟨hsize, hfirst⟩ := firstFrame_of_assembleStream h hne
  have hbs : bs ≠ [] := by
    rintro rfl
    cases hsize
  unfold classifyBody
  rw [if_neg hbs, if_neg (by omega)]
  cases hfirst with
  | control hmark hframe =>
    rw [if_pos hmark]
    exact mayLose_classifyFirstControl hframe (hcurrent.control hmark)
  | footer hmark hfooter => exact absurd hfooter (hcurrent.footer hmark _)
  | data hmark hlength hchunk =>
    rw [if_neg hmark]
    exact mayLose_classifyFirstData (not_or.mp hmark).2 hlength (hcurrent.data hmark) hchunk

theorem classifyFirstControl_kept
    (h : (classifyFirstControl service header bs).disposition.mayLose = false) :
    recordHeaderSize ≤ bs.length ∧ ofBigEndian (bs.take recordHeaderSize) ≤ maxClassifyControl := by
  unfold classifyFirstControl at h
  dsimp only at h
  split at h
  · cases h
  split at h
  · cases h
  · omega

theorem classifyFirstData_kept {length : ℕ}
    (h : (classifyFirstData service header length bs).disposition.mayLose = false) :
    length ≤ maxClassifyDataCipher := by
  unfold classifyFirstData at h
  dsimp only at h
  split at h
  · cases h
  · omega

/-- A control frame of a size that is written today begins with a zero byte, so that it is no
footer. -/
theorem footer_of_classifyFirstControl_kept
    (h : (classifyFirstControl service header bs).disposition.mayLose = false) :
    parseLegacyFooter service.py (readLine bs).1 = .ok none := by
  obtain ⟨hlong, hsize⟩ := classifyFirstControl_kept h
  obtain ⟨a, b, c, d, tail, rfl⟩ : ∃ a b c d tail, bs = a :: b :: c :: d :: tail := by
    match bs, hlong with
    | a :: b :: c :: d :: tail, _ => exact ⟨a, b, c, d, tail, rfl⟩
  have hzero : a.toNat = 0 := by
    simp [recordHeaderSize, ofBigEndian, maxClassifyControl, controlFrameBudget] at hsize
    omega
  obtain rfl : a = 0 := UInt8.toNat_inj.mp hzero
  refine parseLegacyFooter_zero (.inr ?_)
  unfold readLine
  rw [dropWhile_cons_of_pos (by decide), takeWhile_cons_of_pos (by decide)]
  split <;> exact ⟨_, rfl⟩

/-- The body of a stream that is not lost. -/
theorem currentBody_of_kept
    (h : (classifyBody service header bs).disposition.mayLose = false) :
    CurrentBody service bs := by
  unfold classifyBody at h
  dsimp only at h
  split at h
  · cases h
  split at h
  · cases h
  split at h
  · rename_i hmark
    exact ⟨fun _ => (classifyFirstControl_kept h).2, fun hdata => absurd hmark hdata,
      fun _ fields hfooter => by
        rw [footer_of_classifyFirstControl_kept h] at hfooter
        cases hfooter⟩
  · rename_i hmark
    exact ⟨fun hcontrol => absurd hcontrol hmark, fun _ => classifyFirstData_kept h,
      fun hzero => absurd (.inr hzero) hmark⟩

/-- The names that `iter_stream_paths` yields. -/
def IsStreamName (name : Text) : Prop := lit ".stream" <:+ name ∨ lit ".stream.tmp" <:+ name

theorem source_of_ofText {t : Text} (h : Source.ofText t = some source) : t = source.text := by
  unfold Source.ofText at h
  split at h
  · rename_i ht
    cases h
    exact ht
  split at h
  · rename_i ht
    cases h
    exact ht
  · cases h

/-- A name that was split is put together from its parts. -/
theorem splitName_eq_some (h : splitName name = some (source, token, rest)) :
    name = stem source token ++ rest ∧ token.all isHex = true := by
  unfold splitName at h
  split at h
  · cases h
  rename_i c behind hdash
  obtain ⟨source', hsource, heq⟩ := map_eq_some_iff.mp h
  obtain ⟨rfl, rfl, rfl⟩ : source' = source ∧ behind.takeWhile isHex = token ∧
      behind.dropWhile isHex = rest := by simpa using heq
  have hc : c = dash := eq_of_dropWhile_ne hdash
  have hname : name.takeWhile (fun c => decide (c ≠ dash)) = source'.text :=
    source_of_ofText hsource
  refine ⟨?_, all_takeWhile⟩
  rw [stem, append_assoc, cons_append, takeWhile_append_dropWhile, ← hc,
    ← hname, ← hdash, takeWhile_append_dropWhile]

/-- A parsed name that ends like neither file of a slot is the name of a spill. -/
theorem rest_of_parseSpillFilename (h : parseSpillFilename name = some (source, token, rest))
    {suffix : Text} (hsuffix : suffix <:+ name)
    (hslot : ∀ r ∈ [lit ".cq", lit ".cq.wip"], ¬ (r <:+ suffix ∨ suffix <:+ r)) :
    rest = lit ".spill" ∨ rest = lit ".spill.tmp" := by
  obtain ⟨hsplit, hkeep⟩ := filter_eq_some_iff.mp h
  rw [Bool.and_eq_true] at hkeep
  have hrest : rest <:+ name := by
    rw [(splitName_eq_some hsplit).1]
    exact suffix_append _ _
  have hclash := suffix_or_suffix_of_suffix hrest hsuffix
  have hmem := contains_iff_mem.mp hkeep.2
  simp only [mem_cons, not_mem_nil, or_false] at hmem
  rcases hmem with rfl | rfl | rfl | rfl
  · exact .inl rfl
  · exact .inr rfl
  · exact absurd hclash (hslot _ mem_cons_self)
  · exact absurd hclash (hslot _ (mem_cons_of_mem _ mem_cons_self))

/-- No name of a stream is a name in quarantine. -/
theorem not_quarantined_of_isStreamName (hname : IsStreamName name)
    (h : parseSpillFilename name = some (source, token, rest)) :
    (lit ".cq").isPrefixOf rest = false := by
  rcases hname with hend | hend
  all_goals rcases rest_of_parseSpillFilename h hend (by decide) with rfl | rfl <;> decide

/-- The stream is in the current format and under a current name. -/
structure CurrentStream (service : Service) (name : Text) (bs : Bytes) : Prop where
  name_ne : ¬ lit ".stream.stream" <:+ name
  body : ∀ line rest, splitStreamHeader bs = some (line, rest) → CurrentBody service rest

theorem streamName_of_matches {id : StreamId} (hname : IsStreamName name)
    (hlegacy : ¬ lit ".stream.stream" <:+ name) (h : streamNameMatches name source id = true) :
    name = streamTmp source id ∨ name = streamPath source id := by
  unfold streamNameMatches at h
  rw [Bool.or_eq_true, contains_iff_mem, Option.any_eq_true] at h
  rcases h with hmem | ⟨⟨named, token, rest⟩, hparsed, hcq⟩
  · simp at hmem
    rcases hmem with htmp | hpath | hold
    · exact .inl htmp
    · exact .inr hpath
    · exact absurd (hold ▸ suffix_append _ _) hlegacy
  · rw [Bool.and_eq_true, not_quarantined_of_isStreamName hname hparsed] at hcq
    exact absurd hcq.2 (by decide)

/-- No current name of a stream ends like a former one. -/
theorem not_legacy_of_streamName {id : StreamId}
    (h : name = streamTmp source id ∨ name = streamPath source id) :
    ¬ lit ".stream.stream" <:+ name := by
  intro hlegacy
  rcases h with rfl | rfl
  · exact absurd (suffix_or_suffix_of_suffix hlegacy (suffix_append _ _)) (by decide)
  · have hends : lit ".stream" ++ lit ".stream" <:+ stem source id.text ++ lit ".stream" := hlegacy
    have hstem := suffix_append_self_iff.mp hends
    have hid := id.isHexText_text
    simp only [isHexText, Bool.and_eq_true, decide_eq_true_eq, List.all_eq_true] at hid
    have hsuffix : lit ".stream" <:+ id.text :=
      suffix_of_suffix_length_le hstem ((suffix_cons _ _).trans (suffix_append _ _))
        (by rw [hid.1]; decide)
    exact absurd (hid.2 '.'.toNat (hsuffix.subset (by decide))) (by decide)

theorem splitStreamHeader_magic {line rest : Bytes} (h : splitStreamHeader bs = some (line, rest)) :
    bs.take streamMagic.length = streamMagic := by
  unfold splitStreamHeader at h
  split at h
  · rename_i hmagic
    exact hmagic
  · cases h

/-- A stream from which something is recovered is lost exactly if it is not current. -/
theorem mayLose_classifyStream {nonce : Nonce} {expectedSource : Option Source}
    {record : RawSpillRecord} (hname : IsStreamName name)
    (h : readStream service nonce name expectedSource bs = .ok (some record)) :
    (classifyStream service name bs).disposition.mayLose = false ↔
      CurrentStream service name bs := by
  obtain ⟨header, rest, a, hheader, hassemble, hne, -⟩ := readStream_eq_some h
  obtain ⟨line, hsplit, hidentity, hmatches⟩ := parseStreamHeader_eq_some hheader
  unfold classifyStream
  rw [splitStreamHeader_magic hsplit, if_neg (by decide), if_neg (by simp), hsplit]
  dsimp only
  rw [hidentity]
  dsimp only
  constructor
  · intro hkept
    split at hkept
    · rename_i hnames
      refine ⟨not_legacy_of_streamName hnames, fun line' rest' hsplit' => ?_⟩
      cases hsplit.symm.trans hsplit'
      exact currentBody_of_kept hkept
    · cases hkept
  · intro hcurrent
    rw [if_pos (streamName_of_matches hname hcurrent.name_ne hmatches)]
    exact mayLose_classifyBody hassemble hne (hcurrent.body line rest hsplit)

end

/-! ## Secondary spills -/

section

variable {service : Service}
variable {bs metadata : Bytes} {expectedSource : Option Source} {record : RawSpillRecord}
  {name : Text}

/-- The names that `_reclaim_spills_locked` looks at. -/
def IsSpillName (name : Text) : Prop := lit ".spill" <:+ name ∨ lit ".spill.tmp" <:+ name

/-- The spill is in the current format, or in the former one under the name of its digest. -/
def CurrentSpill (name : Text) (bs : Bytes) : Prop :=
  bs.take spillMagic.length = spillMagic ∨
    ∀ source token, spillFileName name = some (source, token) → token.length = 64

/-- A name among the spills that can be parsed is the name of a spill. -/
theorem spillFileName_of_parse {token rest : Text} {source : Source} (hname : IsSpillName name)
    (h : parseSpillFilename name = some (source, token, rest)) :
    spillFileName name = some (source, token) ∧
    (rest = lit ".spill" ∨ rest = lit ".spill.tmp") := by
  have hkind : rest = lit ".spill" ∨ rest = lit ".spill.tmp" := by
    rcases hname with hend | hend <;> exact rest_of_parseSpillFilename h hend (by decide)
  obtain ⟨hsplit, hkeep⟩ := filter_eq_some_iff.mp h
  rw [Bool.and_eq_true] at hkeep
  refine ⟨?_, hkind⟩
  refine map_eq_some_iff.mpr ⟨(source, token, rest), ?_, rfl⟩
  refine filter_eq_some_iff.mpr ⟨hsplit, ?_⟩
  rw [Bool.and_eq_true]
  refine ⟨hkeep.1, contains_iff_mem.mpr ?_⟩
  rcases hkind with rfl | rfl <;> simp

variable {h : SpillHeader}

theorem parseSpillHeader_keyVersion {py : Json.Interpreter}
    (hparse : parseSpillHeader py metadata = some h) : ((loadsObject metadata).bind fun fields =>
      requireKeyVersion py (Json.field? fields (lit "key_version"))) = some h.keyVersion := by
  unfold parseSpillHeader at hparse
  split at hparse
  · cases hparse
  rename_i fields hfields
  rw [hfields]
  split at hparse
  · rename_i hversion _ _ _
    split at hparse
    · cases hparse
      exact hversion
    · cases hparse
  · cases hparse

theorem authenticateSpillHeader_eq_ok {keys : Keyring} {ciphertext : Bytes} {h' : SpillHeader}
    {versions : List ℕ}
    (hok : authenticateSpillHeader keys metadata ciphertext h versions = .ok h') : h' = h := by
  induction versions with
  | nil => cases hok
  | cons version rest ih =>
    unfold authenticateSpillHeader at hok
    split at hok
    · split at hok
      · exact (Except.ok.inj hok).symm
      · cases hok
    · cases hok
    · exact ih hok

theorem decryptSpillHeader_eq_ok {py : Json.Interpreter} {keys : Keyring} {active : ℕ}
    {ciphertext : Bytes} (hok : decryptSpillHeader py keys active metadata ciphertext = .ok h) :
    parseSpillHeader py metadata = some h ∧ hasVersion keys h.keyVersion = true := by
  unfold decryptSpillHeader at hok
  split at hok
  · cases hok
  rename_i h' hparse
  split at hok
  · cases hok
  split at hok
  · rename_i hversion
    obtain rfl := authenticateSpillHeader_eq_ok hok
    exact ⟨hparse, hversion⟩
  · cases hok

/-- An authenticated spill that is read: its header was split and accepted, and a payload
follows it. -/
theorem readAuthenticatedSpill_eq_some
    (h : readAuthenticatedSpill service name expectedSource bs = .ok (some record)) :
    ∃ metadata ciphertext payloadEnc header,
      parseSpillHeaderFrame bs = some (metadata, ciphertext, payloadEnc) ∧
    decryptSpillHeader service.py service.keys service.active metadata ciphertext = .ok header ∧
    payloadEnc ≠ [] ∧ parseSpillFilename name ≠ none := by
  unfold readAuthenticatedSpill at h
  split at h
  · cases h
  rename_i metadata ciphertext payloadEnc hframe
  dsimp only at h
  split at h
  · split at h
    · cases h
    split at h
    · rename_i hmatches
      split at h
      · cases h
      rename_i header hdecrypt
      split at h
      · cases h
      rename_i hpayload
      refine ⟨metadata, ciphertext, payloadEnc, header, hframe, hdecrypt, hpayload, ?_⟩
      intro hnone
      simp [spillNameMatches, hnone] at hmatches
    · cases h
  · cases h

theorem keep_of_readAuthenticatedSpill (hname : IsSpillName name)
    (hmagic : bs.take spillMagic.length = spillMagic)
    (h : readAuthenticatedSpill service name expectedSource (bs.drop spillMagic.length) =
      .ok (some record)) : spillDisposition service name (some bs) = .keep := by
  obtain ⟨metadata, ciphertext, payloadEnc, header, hframe, hdecrypt, hpayload, hparsed⟩ :=
    readAuthenticatedSpill_eq_some h
  obtain ⟨hparse, hversion⟩ := decryptSpillHeader_eq_ok hdecrypt
  obtain ⟨⟨source, token, rest⟩, hfile⟩ := ne_none_iff_exists'.mp hparsed
  have hspill := (spillFileName_of_parse hname hfile).1
  have hsmall : ¬ maxClassifyControl <
      ofBigEndian ((bs.drop spillMagic.length).take recordHeaderSize) := by
    intro hlarge
    simp [parseSpillHeaderFrame, hlarge] at hframe
  have hsplit : splitFrame (bs.drop spillMagic.length) =
      some (metadata, ciphertext, payloadEnc) := by
    rwa [parseSpillHeaderFrame, if_neg hsmall] at hframe
  obtain ⟨frame, hrecord, hmeta⟩ := splitFrame_eq_some.mp hsplit
  obtain ⟨metaField, hmetaField, -, hsame⟩ := takeRecord_eq_some.mp hmeta
  have hmin : metaHeaderSize ≤ frame.length := by
    rw [hsame, length_append, hmetaField]
    omega
  have hvalid : classifySpill service name (some bs) = .valid := by
    obtain ⟨field, hfield, hlength, hbody⟩ := takeRecord_eq_some.mp hrecord
    rw [hbody, take_left' hfield, hlength] at hsmall
    unfold classifySpill
    dsimp only
    rw [if_pos hmagic, hbody, take_left' hfield, drop_left' hfield, hlength,
      if_neg (by rw [length_append, hfield]; omega), if_neg (by omega),
      if_neg (by rw [length_append]; omega), hspill, if_neg (by simp), drop_left,
      if_neg hpayload]
  have hauth : inspectSpillHeaderAuth service bs = none := by
    unfold inspectSpillHeaderAuth
    rw [if_pos hmagic, hframe]
    dsimp only
    rw [parseSpillHeader_keyVersion hparse]
    dsimp only
    rw [if_pos hversion, hdecrypt]
  unfold spillDisposition
  rw [hvalid]
  dsimp only
  rw [hauth]

theorem spillNameMatches_iff {source digest : Text} : spillNameMatches name source digest = true ↔
      ∃ named token rest, parseSpillFilename name = some (named, token, rest) ∧
        named.text = source ∧ (token.length ≠ 64 ∨ token = digest) := by
  unfold spillNameMatches
  rw [Option.any_eq_true]
  constructor
  · rintro ⟨⟨named, token, rest⟩, hparsed, hmatch⟩
    exact ⟨named, token, rest, hparsed, by simpa using hmatch⟩
  · rintro ⟨named, token, rest, hparsed, hmatch⟩
    exact ⟨(named, token, rest), hparsed, by simpa using hmatch⟩

/-- A spill of the former format that is read: its first line names it. -/
theorem readLegacySpill_eq_some (h : readLegacySpill service name expectedSource bs = some record) :
    ∃ fields source digest, loadsObject (readLine bs).1 = some fields ∧
    ((Json.field? fields (lit "source")).bind fun v => Source.ofText (v.toStr service.py)) =
      some source ∧
    (Json.field? fields (lit "payload_sha256")).map (Json.toStr service.py) = some digest ∧
    spillNameMatches name source.text digest = true ∧ (readLine bs).2 ≠ [] := by
  unfold readLegacySpill at h
  dsimp only at h
  split at h
  · cases h
  rename_i fields hfields
  split at h
  · rename_i named digest hnamed hdigest
    split at h
    · cases h
    rename_i source hsource
    split at h
    · cases h
    split at h
    · cases h
    rename_i hmatches
    split at h
    · cases h
    rename_i hpayload
    obtain ⟨v, hv, rfl⟩ := map_eq_some_iff.mp hnamed
    refine ⟨fields, source, digest, hfields, ?_, hdigest, ?_, hpayload⟩
    · rw [hv]
      exact hsource
    · rw [← source_of_ofText hsource]
      simpa using hmatches
  · cases h

theorem keep_of_readLegacySpill (hname : IsSpillName name)
    (hmagic : ¬ bs.take spillMagic.length = spillMagic) (hcurrent : CurrentSpill name bs)
    (h : readLegacySpill service name expectedSource bs = some record) :
    spillDisposition service name (some bs) = .keep := by
  obtain ⟨fields, source, digest, hfields, hsource, hdigest, hmatches, hpayload⟩ :=
    readLegacySpill_eq_some h
  obtain ⟨named, token, rest, hparsed, hnamed, htoken⟩ := spillNameMatches_iff.mp hmatches
  obtain rfl : named = source := Source.text_injective hnamed
  obtain ⟨hspill, hrest⟩ := spillFileName_of_parse hname hparsed
  have hlength : token.length = 64 := hcurrent.resolve_left hmagic named token hspill
  obtain rfl : token = digest := htoken.resolve_left (fun hne => hne hlength)
  obtain ⟨hput, hhex⟩ := splitName_eq_some (filter_eq_some_iff.mp hparsed).1
  have hdigestHex : isHexText 64 token = true := by simp [isHexText, hlength, hhex]
  have hexpected : name = stem named token ++ lit ".spill" ∨
      name = stem named token ++ lit ".spill.tmp" := by
    rcases hrest with rfl | rfl
    · exact .inl hput
    · exact .inr hput
  have hvalid : classifySpill service name (some bs) = .valid := by
    unfold classifySpill
    dsimp only
    rw [if_neg hmagic, if_neg (not_not.mpr (getLast?_readLine hpayload)), hfields]
    dsimp only
    rw [hsource, hdigest]
    dsimp only
    rw [hdigestHex, if_neg (by decide), if_pos hexpected, if_neg hpayload]
  unfold spillDisposition
  rw [hvalid]
  dsimp only
  rw [inspectSpillHeaderAuth, if_neg hmagic]

/-- A spill of the former format that is not lost carries its digest as its name. -/
theorem currentSpill_of_kept (hkept : (spillDisposition service name (some bs)).mayLose = false) :
    CurrentSpill name bs := by
  by_cases hmagic : bs.take spillMagic.length = spillMagic
  · exact .inl hmagic
  refine .inr fun source token hspill => ?_
  obtain ⟨⟨named, token', rest⟩, hfile, heq⟩ := map_eq_some_iff.mp hspill
  obtain ⟨rfl, rfl⟩ : named = source ∧ token' = token := by simpa using heq
  obtain ⟨hsplit, hshape⟩ := filter_eq_some_iff.mp hfile
  simp only [Bool.and_eq_true, decide_eq_true_eq, contains_iff_mem, mem_cons, not_mem_nil,
    or_false] at hshape
  have hlife : classifySpill service name (some bs) ≠ .incomplete ∧
      classifySpill service name (some bs) ≠ .corrupt := by
    constructor <;> intro hlife <;> simp [spillDisposition, hlife, Disposition.mayLose,
      Reason.isEvictable] at hkept
  unfold classifySpill at hlife
  dsimp only at hlife
  rw [if_neg hmagic] at hlife
  split at hlife
  · exact absurd rfl hlife.1
  split at hlife
  · exact absurd rfl hlife.2
  split at hlife
  · rename_i other digest _ _
    split at hlife
    · exact absurd rfl hlife.2
    rename_i hhex
    split at hlife
    · rename_i hname
      -- A shorter token would be too short for the name that the digest gives.
      have hdigest : digest.length = 64 := by
        simp only [isHexText, Bool.and_eq_false_iff, decide_eq_false_iff_not, not_or,
          not_not] at hhex
        exact hhex.1
      have hlength := congrArg length (splitName_eq_some hsplit).1
      have hsource : ∀ s : Source, s.text.length = 5 ∨ s.text.length = 6 := by
        rintro (_ | _) <;> decide
      have hspillLength : (lit ".spill").length = 6 ∧ (lit ".spill.tmp").length = 10 := by decide
      have hnamed := hsource named
      have hother := hsource other
      rcases hshape.2 with rfl | rfl <;> rcases hname with rfl | rfl <;>
        simp only [stem, length_append, length_cons, hdigest] at hlength <;> omega
    · exact absurd rfl hlife.2
  · exact absurd rfl hlife.2

/-- A spill from which something is recovered is lost exactly if it is not current. -/
theorem mayLose_spillDisposition (hname : IsSpillName name)
    (h : readSpill service name expectedSource bs = .ok (some record)) :
    (spillDisposition service name (some bs)).mayLose = false ↔ CurrentSpill name bs := by
  refine ⟨currentSpill_of_kept, fun hcurrent => ?_⟩
  unfold readSpill at h
  split at h
  · rename_i hmagic
    rw [keep_of_readAuthenticatedSpill hname hmagic h]
    rfl
  · rename_i hmagic
    rw [keep_of_readLegacySpill hname hmagic hcurrent (Except.ok.inj h)]
    rfl

end

/-! ## Agreement -/

/-- A file is lost to the reclaimer only after its bytes have been quarantined for a reason
that keeps them. -/
def Disposition.Retains (d : Disposition) : Prop :=
  d = .keep ∨ ∃ reason, d = .isolate reason ∧ reason.isEvictable = false

theorem retains_iff {d : Disposition} : d.Retains ↔ d.mayLose = false := by
  cases d <;> simp [Disposition.Retains, Disposition.mayLose]

/-- Nothing is recovered from a file that may be deleted or evicted, and a file from which
something is recovered is kept, or quarantined for a reason that does not allow eviction. -/
def Disposition.Agrees (d : Disposition) (read : Except ReadError (Option RawSpillRecord)) : Prop :=
  (d.mayLose = true → ∀ record, read ≠ .ok (some record)) ∧
    ∀ record, read = .ok (some record) → d.Retains

theorem agrees_iff {d : Disposition} {read : Except ReadError (Option RawSpillRecord)} {P : Prop}
    (h : ∀ record, read = .ok (some record) → (d.mayLose = false ↔ P)) :
    d.Agrees read ↔ ∀ record, read = .ok (some record) → P := by
  constructor
  · exact fun hagrees record hread => (h record hread).mp (retains_iff.mp (hagrees.2 record hread))
  · intro hcurrent
    have hkept := fun record hread => (h record hread).mpr (hcurrent record hread)
    refine ⟨fun hlose record hread => ?_, fun record hread => retains_iff.mpr (hkept record hread)⟩
    rw [hkept record hread] at hlose
    cases hlose

/-- The classifier agrees with the reader on a file exactly if the reader recovers nothing
from it or it is of a current format. -/
theorem classifier_agrees_with_reader (service : Service) (nonce : Nonce) (name : Text)
    (expectedSource : Option Source) (bs : Bytes) :
    (IsStreamName name →
      ((classifyStream service name bs).disposition.Agrees
          (readStream service nonce name expectedSource bs) ↔
        ∀ record, readStream service nonce name expectedSource bs = .ok (some record) →
          CurrentStream service name bs)) ∧
    (IsSpillName name →
      ((spillDisposition service name (some bs)).Agrees
          (readSpill service name expectedSource bs) ↔
        ∀ record, readSpill service name expectedSource bs = .ok (some record) →
          CurrentSpill name bs)) :=
  ⟨fun hname => agrees_iff fun _ => mayLose_classifyStream hname,
    fun hname => agrees_iff fun _ => mayLose_spillDisposition hname⟩

/-! ## Files that only the reader accepts -/

/-- A stream with one data frame that holds one byte. -/
def oneByteStream : Bytes :=
  streamMagic ++
    asciiBytes (lit "\x7b\"key_version\":1,\"source\":\"report\",\"stream_id\":\"" ++ zeroId.text ++
      lit "\"\x7d") ++ [newline] ++
    (bigEndian recordHeaderSize 33 ++ (boundEnvelopeMagic ++ zeroNonce.bytes ++
      (65 :: List.replicate tagSize 0)))

theorem classifier_agrees_with_reader_oneByteStream :
    (readStream plainService zeroNonce (streamPath .report zeroId) none
      oneByteStream).toOption.join.isSome = true ∧
    (classifyStream plainService (streamPath .report zeroId) oneByteStream).disposition.Agrees
      (readStream plainService zeroNonce (streamPath .report zeroId) none oneByteStream) := by
  refine ⟨by decide +kernel, ?_⟩
  have hbody : (splitStreamHeader oneByteStream).map (fun r => r.2) =
      some (bigEndian recordHeaderSize 33 ++ (boundEnvelopeMagic ++ zeroNonce.bytes ++
        (65 :: .replicate tagSize 0))) := by decide +kernel
  refine ((classifier_agrees_with_reader plainService zeroNonce (streamPath .report zeroId) none
    oneByteStream).1 (by unfold IsStreamName; decide)).mpr fun _ _ => ⟨by decide, ?_⟩
  intro line rest hsplit
  rw [hsplit, map_some, Option.some.injEq] at hbody
  subst hbody
  exact ⟨by decide, by decide, fun hzero => absurd hzero (by decide)⟩

/-- Under the former name of a stream the same bytes are recovered by the reader and
quarantined as corrupt by the reclaimer. -/
theorem legacy_name_evictable :
    (readStream plainService zeroNonce (legacyStreamPath .report zeroId) none
      oneByteStream).toOption.join.isSome = true ∧
    classifyStream plainService (legacyStreamPath .report zeroId) oneByteStream = .corruptHeader ∧
    (classifyStream plainService (legacyStreamPath .report zeroId)
      oneByteStream).disposition.mayLose = true := by
  refine ⟨by decide +kernel, by decide +kernel, by decide +kernel⟩

end SmsPlatform.Spill
