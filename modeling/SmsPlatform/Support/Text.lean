import Mathlib.Data.List.Basic
import SmsPlatform.Support.Decimal

/-!
# Text and UTF-8

A text is a list of code points.  Unpaired surrogates are allowed in it, as they are in
a Python string, but have no encoding.
-/

namespace SmsPlatform.Support

open List

abbrev Bytes := List UInt8

abbrev Text := List ℕ

/-- The code points of a literal. -/
def lit (s : String) : Text := s.toList.map Char.toNat

def isHighSurrogate (c : ℕ) : Bool := decide (0xD800 ≤ c ∧ c < 0xDC00)

def isLowSurrogate (c : ℕ) : Bool := decide (0xDC00 ≤ c ∧ c < 0xE000)

/-- A code point that has an encoding. -/
def isScalar (c : ℕ) : Bool := decide (c < 0x110000) && !isHighSurrogate c && !isLowSurrogate c

/-! ## Encoding -/

def utf8EncodeChar (c : ℕ) : Option Bytes :=
  if isScalar c = false then none
  else if c < 0x80 then some [.ofNat c]
  else if c < 0x800 then some [.ofNat (0xC0 + c / 64), .ofNat (0x80 + c % 64)]
  else if c < 0x10000 then
    some [.ofNat (0xE0 + c / 4096), .ofNat (0x80 + c / 64 % 64), .ofNat (0x80 + c % 64)]
  else
    some [.ofNat (0xF0 + c / 262144), .ofNat (0x80 + c / 4096 % 64),
      .ofNat (0x80 + c / 64 % 64), .ofNat (0x80 + c % 64)]

/-- `str.encode("utf-8")`. -/
def utf8Encode : Text → Option Bytes
  | [] => some []
  | c :: rest =>
    match utf8EncodeChar c, utf8Encode rest with
    | some bs, some encoded => some (bs ++ encoded)
    | _, _ => none

variable {t : Text} {c : ℕ}

theorem isScalar_of_mem_utf8Encode {bs : Bytes} (h : utf8Encode t = some bs) (hc : c ∈ t) :
    isScalar c = true := by
  induction t generalizing bs with
  | nil => exact absurd hc not_mem_nil
  | cons d rest ih =>
    unfold utf8Encode at h
    split at h
    · rename_i first encoded hfirst hrest
      rcases mem_cons.mp hc with rfl | hc
      · cases hscalar : isScalar c with
        | true => rfl
        | false => simp [utf8EncodeChar, hscalar] at hfirst
      · exact ih hrest hc
    · cases h

/-! ## Decoding -/

/-- The number of continuation bytes a first byte asks for, its own bits, and the least
code point that needs so many. -/
def utf8Lead (b : ℕ) : Option (ℕ × ℕ × ℕ) :=
  if b < 0x80 then some (0, b, 0)
  else if b < 0xC2 then none
  else if b < 0xE0 then some (1, b - 0xC0, 0x80)
  else if b < 0xF0 then some (2, b - 0xE0, 0x800)
  else if b < 0xF5 then some (3, b - 0xF0, 0x10000)
  else none

def utf8Continue : ℕ → ℕ → Bytes → Option (ℕ × Bytes)
  | 0, c, rest => some (c, rest)
  | _ + 1, _, [] => none
  | k + 1, c, b :: rest =>
    if 0x80 ≤ b.toNat ∧ b.toNat < 0xC0 then utf8Continue k (c * 64 + (b.toNat - 0x80)) rest
    else none

def utf8DecodeChar (b : UInt8) (rest : Bytes) : Option (ℕ × Bytes) :=
  match utf8Lead b.toNat with
  | none => none
  | some (k, bits, least) =>
    match utf8Continue k bits rest with
    | none => none
    | some (c, rest) => if least ≤ c && isScalar c then some (c, rest) else none

def utf8DecodeLoop : ℕ → Bytes → Option Text
  | _, [] => some []
  | 0, _ :: _ => none
  | n + 1, b :: rest =>
    match utf8DecodeChar b rest with
    | none => none
    | some (c, rest) => (utf8DecodeLoop n rest).map (c :: ·)

/-- `bytes.decode("utf-8")`.  Every round uses up a byte. -/
def utf8Decode (bs : Bytes) : Option Text := utf8DecodeLoop bs.length bs

theorem isScalar_of_lt (h : c < 0x80) : isScalar c = true := by
  simp only [isScalar, isHighSurrogate, isLowSurrogate, Bool.and_eq_true, decide_eq_true_eq,
    Bool.not_eq_true', decide_eq_false_iff_not]
  omega

theorem utf8Decode_cons_ascii {b : UInt8} (hb : b.toNat < 0x80) (rest : Bytes) :
    utf8Decode (b :: rest) = (utf8Decode rest).map (b.toNat :: ·) := by
  have hchar : utf8DecodeChar b rest = some (b.toNat, rest) := by
    simp [utf8DecodeChar, utf8Lead, hb, utf8Continue, isScalar_of_lt hb]
  simp [utf8Decode, utf8DecodeLoop, hchar]

/-! ## Plain text -/

def IsAscii (t : Text) : Prop := ∀ c ∈ t, c < 0x80

/-- The bytes of a plain text. -/
def asciiBytes (t : Text) : Bytes := t.map UInt8.ofNat

theorem IsAscii.cons (hc : c < 0x80) (ht : IsAscii t) : IsAscii (c :: t) :=
  fun d hd => (mem_cons.mp hd).elim (fun h => h ▸ hc) (ht d)

theorem IsAscii.append {s : Text} (hs : IsAscii s) (ht : IsAscii t) : IsAscii (s ++ t) :=
  fun c hc => (mem_append.mp hc).elim (hs c) (ht c)

theorem IsAscii.tail (h : IsAscii (c :: t)) : IsAscii t := fun d hd => h d (mem_cons_of_mem c hd)

def IsPrintable (t : Text) : Prop := ∀ c ∈ t, 0x20 ≤ c ∧ c < 0x7F

theorem IsPrintable.nil : IsPrintable [] := fun _ h => absurd h not_mem_nil

theorem IsPrintable.cons (hc : 0x20 ≤ c ∧ c < 0x7F) (ht : IsPrintable t) : IsPrintable (c :: t) :=
  fun d hd => (mem_cons.mp hd).elim (fun h => h ▸ hc) (ht d)

theorem IsPrintable.append {s : Text} (hs : IsPrintable s) (ht : IsPrintable t) :
    IsPrintable (s ++ t) :=
  fun c hc => (mem_append.mp hc).elim (hs c) (ht c)

theorem IsPrintable.isAscii (h : IsPrintable t) : IsAscii t :=
  fun c hc => lt_trans (h c hc).2 (by decide)

theorem utf8Encode_ascii (h : IsAscii t) : utf8Encode t = some (asciiBytes t) := by
  induction t with
  | nil => rfl
  | cons c rest ih =>
    have hc : c < 0x80 := h c mem_cons_self
    rw [utf8Encode, ih h.tail, utf8EncodeChar, if_neg (by simp [isScalar_of_lt hc]), if_pos hc]
    rfl

theorem utf8Decode_ascii (h : IsAscii t) : utf8Decode (asciiBytes t) = some t := by
  induction t with
  | nil => rfl
  | cons c rest ih =>
    have hc : c < 0x80 := h c mem_cons_self
    have hbyte : (UInt8.ofNat c).toNat = c := by
      rw [UInt8.toNat_ofNat']
      omega
    have hrest := ih h.tail
    rw [asciiBytes, map_cons, utf8Decode_cons_ascii (by rw [hbyte]; exact hc)]
    rw [asciiBytes] at hrest
    rw [hrest, hbyte]
    rfl

/-! ## Numerals -/

/-- The text of a list of characters. -/
def charsText (cs : List Char) : Text := cs.map Char.toNat

def natText (n : ℕ) : Text := charsText (Nat.toDigits 10 n)

def isDigit (c : ℕ) : Bool := decide ('0'.toNat ≤ c ∧ c ≤ '9'.toNat)

def digitsValue (ds : Text) : ℕ := ds.foldl (fun n d => 10 * n + (d - '0'.toNat)) 0

theorem charsText_injective : Function.Injective charsText :=
  map_injective_iff.mpr (fun _ _ h => Char.toNat_inj.mp h)

theorem isDigit_toNat {c : Char} (h : c.isDigit = true) : isDigit c.toNat = true := by
  rw [Char.isDigit_iff_toNat] at h
  simpa [isDigit] using h

theorem isDigit_of_mem_natText {n : ℕ} (h : c ∈ natText n) : isDigit c = true := by
  obtain ⟨d, hd, rfl⟩ := mem_map.mp h
  exact isDigit_toNat (Nat.isDigit_of_mem_toDigits (by decide) (by decide) hd)

theorem digitsValue_natText (n : ℕ) : digitsValue (natText n) = n := by
  rw [digitsValue, natText, charsText, foldl_map]
  exact Nat.ofDigitChars_ten_toDigits

theorem natText_injective : Function.Injective natText := by
  intro m n h
  rw [← digitsValue_natText m, h, digitsValue_natText]

/-- The first digit of a numeral is zero only in the numeral of zero. -/
theorem natText_cons (n : ℕ) :
    natText n = ['0'.toNat] ∨ ∃ d ds, natText n = d :: ds ∧ d ≠ '0'.toNat := by
  induction n using Nat.strong_induction_on with
  | _ n ih =>
    by_cases hn : n < 10
    · rw [natText, Nat.toDigits_of_lt_base hn]
      rcases eq_or_ne n.digitChar.toNat '0'.toNat with hzero | hne
      · exact .inl (by rw [charsText, map_singleton, hzero])
      · exact .inr ⟨_, [], rfl, hne⟩
    · have hsplit : natText n = natText (n / 10) ++ charsText [(n % 10).digitChar] := by
        rw [natText, Nat.toDigits_of_base_le (by decide) (by omega), charsText, map_append]
        rfl
      rcases ih (n / 10) (by omega) with hzero | ⟨d, ds, heq, hd⟩
      · have : n / 10 = 0 := natText_injective (hzero.trans rfl)
        omega
      · exact .inr ⟨d, ds ++ charsText [(n % 10).digitChar], by rw [hsplit, heq]; rfl, hd⟩

theorem isPrintable_natText (n : ℕ) : IsPrintable (natText n) := by
  intro c hc
  have hdigit := isDigit_of_mem_natText hc
  simp only [isDigit, decide_eq_true_eq] at hdigit
  have hzero : '0'.toNat = 48 := rfl
  have hnine : '9'.toNat = 57 := rfl
  omega

end SmsPlatform.Support
