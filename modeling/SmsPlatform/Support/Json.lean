import Mathlib.Data.List.Lex
import Mathlib.Data.List.Sort
import Mathlib.Data.List.TakeWhile
import SmsPlatform.Support.Text

/-!
# JSON documents

`json.loads`, and `json.dumps` of flat documents with compact separators, sorted keys
and escaped non-ASCII text.  A document that was written so is read back unchanged.
-/

namespace SmsPlatform.Support

open List Option

inductive Json
  | null
  | bool (b : Bool)
  | int (n : ℤ)
  /-- A number with a fraction or an exponent, or one of the words for no number. -/
  | float (token : Text)
  | str (s : Text)
  | arr (items : List Json)
  | obj (fields : List (Text × Json))

namespace Json

def quote : ℕ := 0x22
def comma : ℕ := 0x2C
def colon : ℕ := 0x3A
def openBracket : ℕ := 0x5B
def backslash : ℕ := 0x5C
def closeBracket : ℕ := 0x5D
def openBrace : ℕ := 0x7B
def closeBrace : ℕ := 0x7D

def isSpace (c : ℕ) : Bool := decide (c = 0x20 ∨ c = 0x09 ∨ c = 0x0A ∨ c = 0x0D)

def skipSpace (t : Text) : Text := t.dropWhile isSpace

/-! ## Strings -/

def hexValue (c : ℕ) : Option ℕ :=
  if isDigit c then some (c - '0'.toNat)
  else if 'a'.toNat ≤ c ∧ c ≤ 'f'.toNat then some (c - 'a'.toNat + 10)
  else if 'A'.toNat ≤ c ∧ c ≤ 'F'.toNat then some (c - 'A'.toNat + 10)
  else none

def unicodeEscape (a b c d : ℕ) : Option ℕ :=
  match hexValue a, hexValue b, hexValue c, hexValue d with
  | some a, some b, some c, some d => some (((a * 16 + b) * 16 + c) * 16 + d)
  | _, _, _, _ => none

def joinSurrogates (high low : ℕ) : ℕ := 0x10000 + (high - 0xD800) * 1024 + (low - 0xDC00)

/-- An escaped unit before the rest of a string.  Two halves of a pair are joined. -/
def consUnit (u : ℕ) : Text → Text
  | [] => [u]
  | l :: s =>
    if isHighSurrogate u && isLowSurrogate l then joinSurrogates u l :: s else u :: l :: s

def simpleEscape (e : ℕ) : Option ℕ :=
  if e = quote ∨ e = backslash ∨ e = '/'.toNat then some e
  else if e = 'b'.toNat then some 0x08
  else if e = 'f'.toNat then some 0x0C
  else if e = 'n'.toNat then some 0x0A
  else if e = 'r'.toNat then some 0x0D
  else if e = 't'.toNat then some 0x09
  else none

/-- A string after its opening quote, and what follows it. -/
def scanString : Text → Option (Text × Text)
  | [] => none
  | c :: rest =>
    if c = quote then some ([], rest)
    else if c = backslash then
      match rest with
      | [] => none
      | e :: rest =>
        if e = 'u'.toNat then
          match rest with
          | a :: b :: c :: d :: rest =>
            match unicodeEscape a b c d with
            | none => none
            | some u => (scanString rest).map (fun r => (consUnit u r.1, r.2))
          | _ => none
        else
          match simpleEscape e with
          | none => none
          | some v => (scanString rest).map (fun r => (v :: r.1, r.2))
    else if c < 0x20 then none
    else (scanString rest).map (fun r => (c :: r.1, r.2))

/-! ## Numbers -/

def scanInteger : Text → Option (Text × Text)
  | [] => none
  | c :: rest =>
    if c = '0'.toNat then some ([c], rest)
    else if isDigit c then some (c :: rest.takeWhile isDigit, rest.dropWhile isDigit)
    else none

def scanFraction : Text → Text × Text
  | [] => ([], [])
  | c :: rest =>
    if c = '.'.toNat ∧ rest.takeWhile isDigit ≠ [] then
      (c :: rest.takeWhile isDigit, rest.dropWhile isDigit)
    else ([], c :: rest)

def scanSign : Text → Text × Text
  | [] => ([], [])
  | c :: rest => if c = '+'.toNat ∨ c = '-'.toNat then ([c], rest) else ([], c :: rest)

def scanExponent : Text → Text × Text
  | [] => ([], [])
  | c :: rest =>
    if (c = 'e'.toNat ∨ c = 'E'.toNat) ∧ (scanSign rest).2.takeWhile isDigit ≠ [] then
      (c :: (scanSign rest).1 ++ (scanSign rest).2.takeWhile isDigit,
        (scanSign rest).2.dropWhile isDigit)
    else ([], c :: rest)

/-- An integer may not have more digits than `int` converts. -/
def maxDigits : ℕ := 4300

def scanNumber (negative : Bool) (t : Text) : Option (Json × Text) :=
  match scanInteger t with
  | none => none
  | some (digits, rest) =>
    match scanFraction rest with
    | (fraction, rest) =>
      match scanExponent rest with
      | (exponent, rest) =>
        if fraction = [] ∧ exponent = [] then
          if digits.length ≤ maxDigits then
            some (.int (if negative then -digitsValue digits else digitsValue digits), rest)
          else none
        else
          some (.float ((if negative then ['-'.toNat] else []) ++ digits ++ fraction ++
            exponent), rest)

def scanWord (word : Text) (v : Json) (t : Text) : Option (Json × Text) :=
  if word.isPrefixOf t then some (v, t.drop word.length) else none

/-- What starts with neither a quote nor a bracket. -/
def scanLiteral : Text → Option (Json × Text)
  | [] => none
  | c :: rest =>
    if c = 'n'.toNat then scanWord (lit "null") .null (c :: rest)
    else if c = 't'.toNat then scanWord (lit "true") (.bool true) (c :: rest)
    else if c = 'f'.toNat then scanWord (lit "false") (.bool false) (c :: rest)
    else if c = 'N'.toNat then scanWord (lit "NaN") (.float (lit "NaN")) (c :: rest)
    else if c = 'I'.toNat then scanWord (lit "Infinity") (.float (lit "Infinity")) (c :: rest)
    else if c = '-'.toNat then
      (scanNumber true rest).or
        (scanWord (lit "-Infinity") (.float (lit "-Infinity")) (c :: rest))
    else scanNumber false (c :: rest)

/-! ## Documents -/

/-- An assignment to a dictionary. -/
def setField (fields : List (Text × Json)) (key : Text) (v : Json) : List (Text × Json) :=
  if fields.any (fun f => f.1 = key) then
    fields.map (fun f => if f.1 = key then (key, v) else f)
  else fields ++ [(key, v)]

def toDict (pairs : List (Text × Json)) : List (Text × Json) :=
  pairs.foldl (fun fields p => setField fields p.1 p.2) []

def field? (fields : List (Text × Json)) (key : Text) : Option Json :=
  (fields.find? (fun f => f.1 = key)).map Prod.snd

mutual

/-- A value at the head of a text.  Every call uses up a code point. -/
def value : ℕ → Text → Option (Json × Text)
  | 0, _ => none
  | _ + 1, [] => none
  | n + 1, c :: rest =>
    if c = quote then (scanString rest).map (fun r => (.str r.1, r.2))
    else if c = openBrace then
      match skipSpace rest with
      | [] => none
      | d :: rest =>
        if d = closeBrace then some (.obj [], rest)
        else (members n (d :: rest)).map (fun r => (.obj (toDict r.1), r.2))
    else if c = openBracket then
      match skipSpace rest with
      | [] => none
      | d :: rest =>
        if d = closeBracket then some (.arr [], rest)
        else (elements n (d :: rest)).map (fun r => (.arr r.1, r.2))
    else scanLiteral (c :: rest)

def members : ℕ → Text → Option (List (Text × Json) × Text)
  | 0, _ => none
  | _ + 1, [] => none
  | n + 1, c :: rest =>
    if c = quote then
      match scanString rest with
      | none => none
      | some (key, rest) =>
        match skipSpace rest with
        | [] => none
        | d :: rest =>
          if d = colon then
            match value n (skipSpace rest) with
            | none => none
            | some (v, rest) =>
              match skipSpace rest with
              | [] => none
              | d :: rest =>
                if d = comma then
                  (members n (skipSpace rest)).map (fun r => ((key, v) :: r.1, r.2))
                else if d = closeBrace then some ([(key, v)], rest)
                else none
          else none
    else none

def elements : ℕ → Text → Option (List Json × Text)
  | 0, _ => none
  | n + 1, t =>
    match value n t with
    | none => none
    | some (v, rest) =>
      match skipSpace rest with
      | [] => none
      | d :: rest =>
        if d = comma then (elements n (skipSpace rest)).map (fun r => (v :: r.1, r.2))
        else if d = closeBracket then some ([v], rest)
        else none

end

/-- `json.loads`. -/
def loads (t : Text) : Option Json :=
  match value (2 * t.length + 1) (skipSpace t) with
  | none => none
  | some (v, rest) => if skipSpace rest = [] then some v else none

/-! ## Conversions -/

/-- What the interpreter makes of texts and numbers that no document written by `dumps`
below holds. -/
structure Interpreter where
  intOfText : Text → Option ℤ
  intOfFloat : Text → Option ℤ
  floatIsZero : Text → Bool
  repr : Json → Text

def renderInt (n : ℤ) : Text :=
  if n < 0 then '-'.toNat :: natText n.natAbs else natText n.natAbs

/-- `str(value)`. -/
def toStr (py : Interpreter) : Json → Text
  | .null => lit "None"
  | .bool b => if b then lit "True" else lit "False"
  | .int n => renderInt n
  | .str s => s
  | v => py.repr v

/-- `int(value)`. -/
def toInt (py : Interpreter) : Json → Option ℤ
  | .bool b => some (if b then 1 else 0)
  | .int n => some n
  | .str s => py.intOfText s
  | .float token => py.intOfFloat token
  | _ => none

/-- `bool(value)`. -/
def truthy (py : Interpreter) : Json → Bool
  | .null => false
  | .bool b => b
  | .int n => decide (n ≠ 0)
  | .float token => !py.floatIsZero token
  | .str s => !s.isEmpty
  | .arr items => !items.isEmpty
  | .obj fields => !fields.isEmpty

/-! ## Writing -/

def hexDigit (d : ℕ) : ℕ := if d < 10 then '0'.toNat + d else 'a'.toNat + (d - 10)

def unicodeText (u : ℕ) : Text :=
  [backslash, 'u'.toNat, hexDigit (u / 4096 % 16), hexDigit (u / 256 % 16),
    hexDigit (u / 16 % 16), hexDigit (u % 16)]

def escapeChar (c : ℕ) : Text :=
  if c = quote ∨ c = backslash then [backslash, c]
  else if c = 0x0A then [backslash, 'n'.toNat]
  else if c = 0x0D then [backslash, 'r'.toNat]
  else if c = 0x09 then [backslash, 't'.toNat]
  else if c = 0x0C then [backslash, 'f'.toNat]
  else if c = 0x08 then [backslash, 'b'.toNat]
  else if 0x20 ≤ c ∧ c ≤ 0x7E then [c]
  else if c < 0x10000 then unicodeText c
  else
    unicodeText (0xD800 + (c - 0x10000) / 1024) ++ unicodeText (0xDC00 + (c - 0x10000) % 1024)

def renderStr (s : Text) : Text := quote :: (s.flatMap escapeChar ++ [quote])

/-- Values of flat documents. -/
def renderScalar : Json → Option Text
  | .null => some (lit "null")
  | .bool true => some (lit "true")
  | .bool false => some (lit "false")
  | .int n => some (renderInt n)
  | .str s => some (renderStr s)
  | _ => none

def renderField (f : Text × Json) : Option Text :=
  (renderScalar f.2).map (fun t => renderStr f.1 ++ colon :: t)

def renderFields (f : Text × Json) : List (Text × Json) → Option Text
  | [] => renderField f
  | g :: rest =>
    match renderField f, renderFields g rest with
    | some t, some ts => some (t ++ comma :: ts)
    | _, _ => none

def sortFields (fields : List (Text × Json)) : List (Text × Json) :=
  fields.insertionSort (fun f g => f.1 ≤ g.1)

/-- `json.dumps(fields, separators=(",", ":"), sort_keys=True)` of a flat document. -/
def dumps (fields : List (Text × Json)) : Option Text :=
  match sortFields fields with
  | [] => some [openBrace, closeBrace]
  | f :: rest => (renderFields f rest).map (fun t => openBrace :: (t ++ [closeBrace]))

/-! ## Reading back -/

variable {v : Json} {fields : List (Text × Json)} {rest t : Text} {f : Text × Json} {c d u : ℕ}

theorem hexValue_hexDigit (h : d < 16) : hexValue (hexDigit d) = some d := by
  revert d
  decide

theorem unicodeEscape_hexDigits (h : u < 0x10000) :
    unicodeEscape (hexDigit (u / 4096 % 16)) (hexDigit (u / 256 % 16)) (hexDigit (u / 16 % 16))
      (hexDigit (u % 16)) = some u := by
  rw [unicodeEscape, hexValue_hexDigit (by omega), hexValue_hexDigit (by omega),
    hexValue_hexDigit (by omega), hexValue_hexDigit (by omega)]
  dsimp only
  congr 1
  omega

theorem scanString_quote (rest : Text) : scanString (quote :: rest) = some ([], rest) := by
  rw [scanString.eq_def]
  exact if_pos rfl

theorem scanString_simple {e v : ℕ} (he : simpleEscape e = some v) (rest : Text) :
    scanString (backslash :: e :: rest) = (scanString rest).map (fun r => (v :: r.1, r.2)) := by
  have hu : e ≠ 'u'.toNat := by
    rintro rfl
    cases he
  rw [scanString.eq_def]
  dsimp only
  rw [if_neg (by decide), if_pos rfl, if_neg hu, he]

theorem scanString_unicode (h : u < 0x10000) (rest : Text) : scanString (unicodeText u ++ rest) =
      (scanString rest).map (fun r => (consUnit u r.1, r.2)) := by
  rw [unicodeText, scanString.eq_def]
  simp [show backslash ≠ quote by decide, unicodeEscape_hexDigits h]

theorem scanString_plain (hquote : c ≠ quote) (hbackslash : c ≠ backslash) (h : 0x20 ≤ c)
    (rest : Text) : scanString (c :: rest) = (scanString rest).map (fun r => (c :: r.1, r.2)) := by
  rw [scanString.eq_def]
  simp [hquote, hbackslash, not_lt.mpr h]

theorem consUnit_of_not_high (h : isHighSurrogate u = false) (s : Text) :
    consUnit u s = u :: s := by
  cases s with
  | nil => rfl
  | cons l s => simp [consUnit, h]

theorem consUnit_pair (h : 0x10000 ≤ c) (h' : c < 0x110000) (s : Text) :
    consUnit (0xD800 + (c - 0x10000) / 1024) (consUnit (0xDC00 + (c - 0x10000) % 1024) s) =
      c :: s := by
  have hlow : isHighSurrogate (0xDC00 + (c - 0x10000) % 1024) = false := by
    simp [isHighSurrogate]
  have hpair : isHighSurrogate (0xD800 + (c - 0x10000) / 1024) = true ∧
      isLowSurrogate (0xDC00 + (c - 0x10000) % 1024) = true := by
    simp only [isHighSurrogate, isLowSurrogate, decide_eq_true_eq]
    omega
  have hjoin : joinSurrogates (0xD800 + (c - 0x10000) / 1024) (0xDC00 + (c - 0x10000) % 1024) =
      c := by
    unfold joinSurrogates
    omega
  rw [consUnit_of_not_high hlow, consUnit, if_pos (by simp [hpair]), hjoin]

/-- An escaped code point is read as the code point. -/
theorem scanString_escapeChar (hc : isScalar c = true) (rest : Text) :
    scanString (escapeChar c ++ rest) = (scanString rest).map (fun r => (c :: r.1, r.2)) := by
  simp only [isScalar, Bool.and_eq_true, decide_eq_true_eq, Bool.not_eq_true'] at hc
  obtain ⟨⟨hmax, hhigh⟩, -⟩ := hc
  unfold escapeChar
  split
  · rename_i h
    refine scanString_simple ?_ rest
    rcases h with rfl | rfl <;> decide
  rename_i h
  rw [not_or] at h
  iterate 5
    split
    · subst c
      exact scanString_simple (by decide) rest
  split
  · rename_i hplain
    exact scanString_plain h.1 h.2 hplain.1 rest
  split
  · rename_i hsmall
    rw [scanString_unicode hsmall]
    simp [consUnit_of_not_high hhigh]
  rw [append_assoc, scanString_unicode (by omega), scanString_unicode (by omega),
    Option.map_map]
  congr 1
  funext r
  exact Prod.ext (consUnit_pair (by omega) hmax r.1) rfl

/-- Text that can be encoded. -/
def IsScalarText (s : Text) : Prop := ∀ c ∈ s, isScalar c = true

theorem scanString_renderStr {s : Text} (hs : IsScalarText s) (rest : Text) :
    scanString (s.flatMap escapeChar ++ quote :: rest) = some (s, rest) := by
  induction s with
  | nil => exact scanString_quote rest
  | cons c s ih =>
    rw [flatMap_cons, append_assoc, scanString_escapeChar (hs c mem_cons_self),
      ih (fun d hd => hs d (mem_cons_of_mem c hd))]
    rfl

/-- A text that does not go on with a number. -/
def EndsNumber (t : Text) : Prop :=
  ∀ c rest, t = c :: rest → isDigit c = false ∧ c ≠ '.'.toNat ∧ c ≠ 'e'.toNat ∧ c ≠ 'E'.toNat

theorem takeWhile_isDigit {ds : Text} (hds : ∀ c ∈ ds, isDigit c = true) (hrest : EndsNumber rest) :
    (ds ++ rest).takeWhile isDigit = ds ∧ (ds ++ rest).dropWhile isDigit = rest := by
  rw [takeWhile_append_of_pos hds, dropWhile_append_of_pos hds]
  cases rest with
  | nil => simp
  | cons c rest => simp [(hrest c rest rfl).1]

theorem scanInteger_natText (n : ℕ) (hrest : EndsNumber rest) :
    scanInteger (natText n ++ rest) = some (natText n, rest) := by
  have hdigits : ∀ c ∈ natText n, isDigit c = true := fun c => isDigit_of_mem_natText
  rcases natText_cons n with hzero | ⟨d, ds, heq, hd⟩
  · rw [hzero]
    rfl
  rw [heq] at hdigits ⊢
  obtain ⟨htake, hdrop⟩ := takeWhile_isDigit (fun c hc => hdigits c (mem_cons_of_mem d hc))
    hrest
  rw [cons_append, scanInteger, if_neg hd, if_pos (hdigits d mem_cons_self), htake,
    hdrop]

theorem scanFraction_of_ends (h : EndsNumber t) : scanFraction t = ([], t) := by
  cases t with
  | nil => rfl
  | cons c rest => exact if_neg (fun hc => (h c rest rfl).2.1 hc.1)

theorem scanExponent_of_ends (h : EndsNumber t) : scanExponent t = ([], t) := by
  cases t with
  | nil => rfl
  | cons c rest =>
    obtain ⟨-, -, he, hE⟩ := h c rest rfl
    exact if_neg (fun hc => hc.1.elim he hE)

theorem scanNumber_natText (negative : Bool) {n : ℕ} (hn : (natText n).length ≤ maxDigits)
    (hrest : EndsNumber rest) :
    scanNumber negative (natText n ++ rest) = some (.int (if negative then -n else n), rest) := by
  simp [scanNumber, scanInteger_natText n hrest, scanFraction_of_ends hrest,
    scanExponent_of_ends hrest, hn, digitsValue_natText]

/-- Values that are read back: texts that can be encoded and numbers of a sane size. -/
def Plain : Json → Prop
  | .str s => IsScalarText s
  | .int n => (natText n.natAbs).length ≤ maxDigits
  | _ => False

theorem scanLiteral_of_isDigit (hc : isDigit c = true) (rest : Text) :
    scanLiteral (c :: rest) = scanNumber false (c :: rest) := by
  simp only [isDigit, decide_eq_true_eq] at hc
  have hne : ∀ d : Char, '9'.toNat < d.toNat ∨ d.toNat < '0'.toNat → c ≠ d.toNat := by
    rintro d hd rfl
    omega
  rw [scanLiteral, if_neg (hne 'n' (by decide)), if_neg (hne 't' (by decide)),
    if_neg (hne 'f' (by decide)), if_neg (hne 'N' (by decide)), if_neg (hne 'I' (by decide)),
    if_neg (hne '-' (by decide))]

theorem scanLiteral_renderInt {n : ℤ} (hn : (natText n.natAbs).length ≤ maxDigits)
    (hrest : EndsNumber rest) : scanLiteral (renderInt n ++ rest) = some (.int n, rest) := by
  unfold renderInt
  split
  · rename_i hneg
    have habs : (-(n.natAbs : ℤ)) = n := by omega
    rw [cons_append, scanLiteral, if_neg (by decide), if_neg (by decide), if_neg (by decide),
      if_neg (by decide), if_neg (by decide), if_pos rfl, scanNumber_natText true hn hrest]
    simp only [if_true, habs, some_or]
  · rename_i hpos
    have habs : n.natAbs = n := by omega
    have hnumber := scanNumber_natText false hn hrest
    obtain ⟨d, ds, heq⟩ := exists_cons_of_ne_nil (l := natText n.natAbs)
      (by simp [natText, charsText])
    have hd : isDigit d = true := isDigit_of_mem_natText (heq ▸ mem_cons_self)
    rw [heq, cons_append] at hnumber ⊢
    rw [scanLiteral_of_isDigit hd, hnumber]
    simp only [Bool.false_eq_true, if_false, habs]

theorem renderInt_head (n : ℤ) :
    ∃ c cs, renderInt n = c :: cs ∧ (c = '-'.toNat ∨ isDigit c = true) := by
  unfold renderInt
  split
  · exact ⟨_, _, rfl, .inl rfl⟩
  obtain ⟨d, ds, heq⟩ := exists_cons_of_ne_nil (l := natText n.natAbs)
    (by simp [natText, charsText])
  exact ⟨d, ds, heq, .inr (isDigit_of_mem_natText (heq ▸ mem_cons_self))⟩

theorem value_renderScalar (hv : v.Plain) (ht : renderScalar v = some t) (n : ℕ)
    (hrest : EndsNumber rest) : value (n + 1) (t ++ rest) = some (v, rest) := by
  cases v with
  | str s =>
    cases ht
    rw [renderStr, cons_append, append_assoc, value, if_pos rfl, cons_append,
      nil_append, scanString_renderStr hv]
    rfl
  | int k =>
    cases ht
    have hliteral := scanLiteral_renderInt hv hrest
    obtain ⟨c, cs, heq, hc⟩ := renderInt_head k
    rw [heq, cons_append] at hliteral ⊢
    have hne : c ≠ quote ∧ c ≠ openBrace ∧ c ≠ openBracket := by
      rcases hc with rfl | hc
      · decide
      · simp [isDigit] at hc
        refine ⟨?_, ?_, ?_⟩ <;> rintro rfl <;> revert hc <;> decide
    rw [value, if_neg hne.1, if_neg hne.2.1, if_neg hne.2.2, hliteral]
  | _ => exact absurd hv id

theorem skipSpace_of_not_space (h : isSpace c = false) (rest : Text) :
    skipSpace (c :: rest) = c :: rest := by
  rw [skipSpace, dropWhile_cons, h]
  rfl

theorem skipSpace_renderScalar (hv : v.Plain) (ht : renderScalar v = some t) (rest : Text) :
    skipSpace (t ++ rest) = t ++ rest := by
  cases v with
  | str s =>
    cases ht
    exact skipSpace_of_not_space (by decide) _
  | int k =>
    cases ht
    obtain ⟨c, cs, heq, hc⟩ := renderInt_head k
    rw [heq]
    refine skipSpace_of_not_space ?_ _
    rcases hc with rfl | hc
    · decide
    · simp [isDigit] at hc
      simp only [isSpace, decide_eq_false_iff_not]
      rintro (rfl | rfl | rfl | rfl) <;> revert hc <;> decide
  | _ => exact absurd hv id

theorem endsNumber_comma (rest : Text) : EndsNumber (comma :: rest) := by
  rintro _ _ ⟨⟩
  decide

theorem endsNumber_closeBrace (rest : Text) : EndsNumber (closeBrace :: rest) := by
  rintro _ _ ⟨⟩
  decide

/-- Fields that are read back. -/
def PlainFields (fields : List (Text × Json)) : Prop :=
  ∀ f ∈ fields, IsScalarText f.1 ∧ f.2.Plain

theorem members_renderField (hf : IsScalarText f.1 ∧ f.2.Plain) (ht : renderField f = some t)
    (n : ℕ) (hd : isSpace d = false) (hrest : EndsNumber (d :: rest)) :
    members (n + 2) (t ++ d :: rest) = if d = comma then
        (members (n + 1) (skipSpace rest)).map (fun r => (f :: r.1, r.2))
      else if d = closeBrace then some ([f], rest) else none := by
  obtain ⟨key, v⟩ := f
  obtain ⟨vt, hvt, rfl⟩ := map_eq_some_iff.mp ht
  have hkey : renderStr key ++ colon :: vt ++ d :: rest =
      quote :: (key.flatMap escapeChar ++ quote :: colon :: (vt ++ d :: rest)) := by
    simp [renderStr]
  rw [hkey, members, if_pos rfl, scanString_renderStr hf.1]
  dsimp only
  rw [skipSpace_of_not_space (by decide)]
  dsimp only
  rw [if_pos rfl, skipSpace_renderScalar hf.2 hvt, value_renderScalar hf.2 hvt n hrest]
  dsimp only
  rw [skipSpace_of_not_space hd]

theorem renderField_head (ht : renderField f = some t) : ∃ cs, t = quote :: cs := by
  obtain ⟨vt, -, rfl⟩ := map_eq_some_iff.mp ht
  exact ⟨_, rfl⟩

theorem renderFields_head (ht : renderFields f fields = some t) :
    (∃ cs, t = quote :: cs) ∧ fields.length < t.length := by
  induction fields generalizing f t with
  | nil =>
    obtain ⟨cs, rfl⟩ := renderField_head ht
    exact ⟨⟨cs, rfl⟩, by simp⟩
  | cons g fields ih =>
    unfold renderFields at ht
    split at ht
    · rename_i ft gt hft hgt
      cases ht
      obtain ⟨cs, rfl⟩ := renderField_head hft
      have hlength := (ih hgt).2
      refine ⟨⟨_, rfl⟩, ?_⟩
      simp only [length_cons, length_append]
      omega
    · cases ht

theorem members_renderFields (hplain : PlainFields (f :: fields))
    (ht : renderFields f fields = some t) {n : ℕ} (hn : fields.length + 1 < n) (rest : Text) :
    members n (t ++ closeBrace :: rest) = some (f :: fields, rest) := by
  induction fields generalizing f t n with
  | nil =>
    obtain ⟨m, rfl⟩ : ∃ m, n = m + 2 := ⟨n - 2, by simp at hn; omega⟩
    rw [members_renderField (hplain f mem_cons_self) ht m (by decide)
      (endsNumber_closeBrace rest), if_neg (by decide), if_pos rfl]
  | cons g fields ih =>
    obtain ⟨m, rfl⟩ : ∃ m, n = m + 2 := ⟨n - 2, by simp at hn; omega⟩
    unfold renderFields at ht
    split at ht
    · rename_i ft gt hft hgt
      cases ht
      have hg := ih (fun h hh => hplain h (mem_cons_of_mem f hh)) hgt
        (show fields.length + 1 < m + 1 by simp at hn; omega)
      obtain ⟨cs, rfl⟩ := (renderFields_head hgt).1
      rw [append_assoc, cons_append,
        members_renderField (hplain f mem_cons_self) hft m (by decide)
          (endsNumber_comma _), if_pos rfl, cons_append,
        skipSpace_of_not_space (by decide), ← cons_append, hg]
      rfl
    · cases ht

/-- A list of pairs with different keys is a dictionary. -/
theorem toDict_of_nodup (h : (fields.map Prod.fst).Nodup) : toDict fields = fields := by
  suffices hacc : ∀ acc : List (Text × Json), ((acc ++ fields).map Prod.fst).Nodup →
      fields.foldl (fun fields p => setField fields p.1 p.2) acc = acc ++ fields by
    exact hacc [] h
  induction fields with
  | nil => simp
  | cons f fields ih =>
    intro acc hacc
    have hnew : acc.any (fun g => decide (g.1 = f.1)) = false := by
      rw [map_append, nodup_append] at hacc
      rw [List.any_eq_false]
      intro g hg heq
      rw [decide_eq_true_eq] at heq
      exact hacc.2.2 g.1 (mem_map_of_mem hg) f.1 (by simp) heq
    rw [foldl_cons, setField, hnew, if_neg (by decide),
      ih (nodup_cons.mp h).2 (acc ++ [f]) (by simpa using hacc)]
    simp

theorem sortFields_perm (fields : List (Text × Json)) : (sortFields fields).Perm fields :=
  perm_insertionSort _ fields

theorem skipSpace_spaces {spaces : Text} (h : ∀ c ∈ spaces, isSpace c = true) :
    skipSpace spaces = [] := by
  exact dropWhile_eq_nil_iff.mpr h

/-- A flat document is read back as it was written, white space after it or not. -/
theorem loads_dumps (hplain : PlainFields fields) (hkeys : (fields.map Prod.fst).Nodup)
    (ht : dumps fields = some t) {spaces : Text} (hspaces : ∀ c ∈ spaces, isSpace c = true) :
    loads (t ++ spaces) = some (.obj (sortFields fields)) := by
  have hperm := sortFields_perm fields
  have hdict : toDict (sortFields fields) = sortFields fields :=
    toDict_of_nodup ((hperm.map Prod.fst).nodup_iff.mpr hkeys)
  have hplain' : PlainFields (sortFields fields) :=
    fun f hf => hplain f (hperm.mem_iff.mp hf)
  unfold dumps at ht
  split at ht
  · rename_i hnil
    cases ht
    rw [hnil, loads, cons_append, skipSpace_of_not_space (by decide), value,
      if_neg (by decide), if_pos rfl, cons_append, skipSpace_of_not_space (by decide)]
    simp [skipSpace_spaces hspaces]
  · rename_i f rest hsorted
    obtain ⟨ft, hft, rfl⟩ := map_eq_some_iff.mp ht
    rw [hsorted] at hplain' hdict ⊢
    obtain ⟨⟨cs, hcs⟩, hlength⟩ := renderFields_head hft
    have hmembers := members_renderFields hplain' hft
      (n := 2 * (openBrace :: (ft ++ closeBrace :: spaces)).length)
      (by simp only [length_cons, length_append]; omega) spaces
    have htext : openBrace :: (ft ++ [closeBrace]) ++ spaces =
        openBrace :: (ft ++ closeBrace :: spaces) := by simp
    rw [loads, htext, skipSpace_of_not_space (by decide), value, if_neg (by decide),
      if_pos rfl, hcs,
      cons_append, skipSpace_of_not_space (by decide)]
    dsimp only
    rw [if_neg (by decide), ← cons_append, ← hcs, hmembers]
    simp [skipSpace_spaces hspaces, hdict]

/-! ## Only printable characters are written -/

theorem hexDigit_printable (h : d < 16) : 0x20 ≤ hexDigit d ∧ hexDigit d < 0x7F := by
  revert d
  decide

theorem isPrintable_unicodeText (u : ℕ) : IsPrintable (unicodeText u) := by
  intro c hc
  simp only [unicodeText, mem_cons, not_mem_nil, or_false] at hc
  rcases hc with rfl | rfl | rfl | rfl | rfl | rfl
  · decide
  · decide
  all_goals exact hexDigit_printable (by omega)

theorem isPrintable_escapeChar (c : ℕ) : IsPrintable (escapeChar c) := by
  have hpair : ∀ {a b : ℕ}, (0x20 ≤ a ∧ a < 0x7F) → (0x20 ≤ b ∧ b < 0x7F) → IsPrintable [a, b] :=
    fun ha hb => .cons ha (.cons hb .nil)
  unfold escapeChar
  split
  · rename_i h
    exact hpair (by decide) (by rcases h with rfl | rfl <;> decide)
  iterate 5
    split
    · exact hpair (by decide) (by decide)
  split
  · exact .cons (by omega) .nil
  split
  · exact isPrintable_unicodeText c
  · exact (isPrintable_unicodeText _).append (isPrintable_unicodeText _)

theorem isPrintable_renderStr (s : Text) : IsPrintable (renderStr s) := by
  refine .cons (by decide) (.append ?_ (.cons (by decide) .nil))
  intro c hc
  obtain ⟨d, -, hd⟩ := mem_flatMap.mp hc
  exact isPrintable_escapeChar d c hd

theorem isPrintable_renderScalar (ht : renderScalar v = some t) : IsPrintable t := by
  unfold renderScalar at ht
  split at ht <;> cases ht
  · unfold IsPrintable
    decide
  · unfold IsPrintable
    decide
  · unfold IsPrintable
    decide
  · unfold renderInt
    split
    · exact .cons (by decide) (isPrintable_natText _)
    · exact isPrintable_natText _
  · exact isPrintable_renderStr _

theorem isPrintable_renderField (ht : renderField f = some t) : IsPrintable t := by
  obtain ⟨vt, hvt, rfl⟩ := map_eq_some_iff.mp ht
  exact (isPrintable_renderStr f.1).append (.cons (by decide) (isPrintable_renderScalar hvt))

theorem isPrintable_renderFields (ht : renderFields f fields = some t) : IsPrintable t := by
  induction fields generalizing f t with
  | nil => exact isPrintable_renderField ht
  | cons g fields ih =>
    unfold renderFields at ht
    split at ht
    · rename_i ft gt hft hgt
      cases ht
      exact (isPrintable_renderField hft).append (.cons (by decide) (ih hgt))
    · cases ht

theorem isPrintable_dumps (ht : dumps fields = some t) : IsPrintable t := by
  unfold dumps at ht
  split at ht
  · cases ht
    unfold IsPrintable
    decide
  · obtain ⟨ft, hft, rfl⟩ := map_eq_some_iff.mp ht
    exact .cons (by decide) ((isPrintable_renderFields hft).append
      (.cons (by decide) .nil))

/-! ## Texts that are no documents -/

/-- No document starts with a null character. -/
theorem loads_null (rest : Text) : loads (0 :: rest) = none := by
  have hvalue : value (2 * (0 :: rest).length + 1) (skipSpace (0 :: rest)) = none := by
    rw [skipSpace_of_not_space (by decide), value, if_neg (by decide), if_neg (by decide),
      if_neg (by decide), scanLiteral, if_neg (by decide), if_neg (by decide),
      if_neg (by decide), if_neg (by decide), if_neg (by decide), if_neg (by decide)]
    rfl
  rw [loads, hvalue]

end Json

end SmsPlatform.Support
