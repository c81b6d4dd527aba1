import Mathlib.Data.List.TakeWhile
import SmsPlatform.Support.Text

/-!
# Numbers, records and lines in byte strings

Big-endian numbers of a fixed width, as `struct` packs them, records behind a length field,
and reading a line.
-/

namespace SmsPlatform.Support

open List

/-! ## Big-endian numbers -/

def bigEndian : ℕ → ℕ → Bytes
  | 0, _ => []
  | width + 1, n => bigEndian width (n / 256) ++ [.ofNat n]

def ofBigEndian (bs : Bytes) : ℕ := bs.foldl (fun n b => n * 256 + b.toNat) 0

variable {bs payload : Bytes} {width : ℕ}

theorem length_bigEndian (width n : ℕ) : (bigEndian width n).length = width := by
  induction width generalizing n with
  | zero => rfl
  | succ width ih => rw [bigEndian, length_append, ih, length_singleton]

theorem ofBigEndian_bigEndian {n : ℕ} (h : n < 256 ^ width) :
    ofBigEndian (bigEndian width n) = n := by
  induction width generalizing n with
  | zero =>
    have hzero : n = 0 := by simpa using h
    rw [hzero]
    rfl
  | succ width ih =>
    have hquotient : n / 256 < 256 ^ width := by
      exact Nat.div_lt_of_lt_mul (Nat.mul_comm _ _ ▸ h)
    have hprefix := ih hquotient
    rw [ofBigEndian] at hprefix ⊢
    rw [bigEndian, foldl_append, hprefix, foldl_cons, foldl_nil, UInt8.toNat_ofNat']
    omega

/-- A number that leaves the first byte free. -/
theorem bigEndian_succ_of_lt {n : ℕ} (h : n < 256 ^ width) :
    bigEndian (width + 1) n = 0 :: bigEndian width n := by
  induction width generalizing n with
  | zero =>
    have hzero : n = 0 := by simpa using h
    rw [hzero]
    rfl
  | succ width ih =>
    have hquotient : n / 256 < 256 ^ width := by
      exact Nat.div_lt_of_lt_mul (Nat.mul_comm _ _ ▸ h)
    rw [bigEndian, ih hquotient]
    rfl

/-- `struct.pack`, which refuses numbers that do not fit. -/
def pack (width n : ℕ) : Option Bytes := if n < 256 ^ width then some (bigEndian width n) else none

/-! ## Records -/

/-- A record behind a length field of the given width, and what is left. -/
def takeRecord (width : ℕ) (bs : Bytes) : Option (Bytes × Bytes) :=
  let length := ofBigEndian (bs.take width)
  let rest := bs.drop width
  if width ≤ bs.length ∧ length ≤ rest.length then some (rest.take length, rest.drop length)
  else none

theorem takeRecord_append {field : Bytes} (hfield : field.length = width)
    (hlength : ofBigEndian field = payload.length) (rest : Bytes) :
    takeRecord width (field ++ (payload ++ rest)) = some (payload, rest) := by
  unfold takeRecord
  dsimp only
  rw [take_left' hfield, drop_left' hfield, hlength, take_left, drop_left,
    if_pos (by simp only [length_append]; omega)]

/-- A record that was read is there in full. -/
theorem takeRecord_eq_some {rest : Bytes} : takeRecord width bs = some (payload, rest) ↔
      ∃ field, field.length = width ∧ ofBigEndian field = payload.length ∧
        bs = field ++ (payload ++ rest) := by
  constructor
  · intro h
    unfold takeRecord at h
    dsimp only at h
    split at h
    · rename_i hbounds
      obtain ⟨rfl, rfl⟩ : _ = payload ∧ _ = rest := Prod.mk.inj (Option.some.inj h)
      refine ⟨bs.take width, length_take_of_le hbounds.1, ?_, ?_⟩
      · rw [length_take_of_le hbounds.2]
      · rw [take_append_drop, take_append_drop]
    · cases h
  · rintro ⟨field, hfield, hlength, rfl⟩
    exact takeRecord_append hfield hlength rest

theorem takeRecord_bigEndian (h : payload.length < 256 ^ width) (rest : Bytes) :
    takeRecord width (bigEndian width payload.length ++ (payload ++ rest)) = some (payload, rest) :=
  takeRecord_append (length_bigEndian width _) (ofBigEndian_bigEndian h) rest

/-- A record that was not written to its end. -/
theorem takeRecord_eq_none (h : bs.length < width + ofBigEndian (bs.take width)) :
    takeRecord width bs = none := by
  refine if_neg ?_
  rw [length_drop]
  omega

/-! ## Prefixes -/

/-- A prefix of two pieces ends in the first one or behind it. -/
theorem prefix_append_cases {α : Type*} {p l r : List α} (h : p <+: l ++ r) :
    (p <+: l ∧ p.length < l.length) ∨ ∃ q, q <+: r ∧ p = l ++ q := by
  rcases lt_or_ge p.length l.length with hlt | hge
  · exact .inl ⟨prefix_of_prefix_length_le h (prefix_append l r) hlt.le, hlt⟩
  · obtain ⟨q, rfl⟩ := prefix_of_prefix_length_le (prefix_append l r) h hge
    rw [prefix_append_right_inj] at h
    exact .inr ⟨q, h, rfl⟩

/-- A record whose end is missing is not read. -/
theorem takeRecord_of_cut {q : Bytes} (h : payload.length < 256 ^ width)
    (hq : q <+: bigEndian width payload.length ++ payload)
    (hlength : q.length < width + payload.length) : takeRecord width q = none := by
  apply takeRecord_eq_none
  rcases prefix_append_cases hq with ⟨-, hshort⟩ | ⟨q', -, rfl⟩
  · rw [length_bigEndian] at hshort
    omega
  · rw [take_left' (length_bigEndian _ _), ofBigEndian_bigEndian h]
    exact hlength

/-! ## Lines -/

/-- The first element that ends a search. -/
theorem eq_of_dropWhile_ne {α : Type*} [DecidableEq α] {a c : α} {l t : List α}
    (h : l.dropWhile (fun x => decide (x ≠ a)) = c :: t) : c = a := by
  have hhead := head?_dropWhile_not (fun x => decide (x ≠ a)) l
  rw [h] at hhead
  simpa using hhead

section

variable {α : Type*} [DecidableEq α] {a : α} {l : List α}

theorem forall_ne_of_not_mem (h : a ∉ l) : ∀ x ∈ l, decide (x ≠ a) = true := by
  intro x hx
  rw [decide_eq_true_eq]
  rintro rfl
  exact h hx

theorem takeWhile_ne_append (h : a ∉ l) (r : List α) :
    (l ++ a :: r).takeWhile (fun x => decide (x ≠ a)) = l := by
  rw [takeWhile_append_of_pos (forall_ne_of_not_mem h)]
  simp

theorem dropWhile_ne_append (h : a ∉ l) (r : List α) :
    (l ++ a :: r).dropWhile (fun x => decide (x ≠ a)) = a :: r := by
  rw [dropWhile_append_of_pos (forall_ne_of_not_mem h)]
  simp

/-- The first separator splits a list. -/
theorem append_cons_inj_of_not_mem {l' r r' : List α} (h : a ∉ l) (h' : a ∉ l')
    (heq : l ++ a :: r = l' ++ a :: r') : l = l' ∧ r = r' := by
  have htake := congrArg (List.takeWhile (fun x => decide (x ≠ a))) heq
  have hdrop := congrArg (List.dropWhile (fun x => decide (x ≠ a))) heq
  rw [takeWhile_ne_append h, takeWhile_ne_append h'] at htake
  rw [dropWhile_ne_append h, dropWhile_ne_append h'] at hdrop
  exact ⟨htake, (List.cons.inj hdrop).2⟩

/-- So does the last one. -/
theorem append_cons_inj_of_not_mem_right {l' r r' : List α} (h : a ∉ r) (h' : a ∉ r')
    (heq : l ++ a :: r = l' ++ a :: r') : l = l' ∧ r = r' := by
  have hreverse := congrArg List.reverse heq
  simp only [reverse_append, reverse_cons, append_assoc, singleton_append] at hreverse
  obtain ⟨hr, hl⟩ := append_cons_inj_of_not_mem (by simpa using h) (by simpa using h') hreverse
  exact ⟨reverse_injective hl, reverse_injective hr⟩

end

def newline : UInt8 := 0x0A

/-- `handle.readline()`: the line with its end, and what is left. -/
def readLine (bs : Bytes) : Bytes × Bytes :=
  match bs.dropWhile (fun b => decide (b ≠ newline)) with
  | [] => (bs, [])
  | b :: rest => (bs.takeWhile (fun b => decide (b ≠ newline)) ++ [b], rest)

theorem readLine_append {line : Bytes} (h : newline ∉ line) (rest : Bytes) :
    readLine (line ++ newline :: rest) = (line ++ [newline], rest) := by
  rw [readLine, dropWhile_ne_append h, takeWhile_ne_append h]

/-- A line with something behind it has its end. -/
theorem getLast?_readLine (h : (readLine bs).2 ≠ []) : (readLine bs).1.getLast? = some newline := by
  cases hline : bs.dropWhile (fun b => decide (b ≠ newline)) with
  | nil =>
    rw [readLine, hline] at h
    exact absurd rfl h
  | cons b rest =>
    rw [readLine, hline]
    rw [getLast?_append, eq_of_dropWhile_ne hline]
    rfl

theorem readLine_of_not_mem {line : Bytes} (h : newline ∉ line) : readLine line = (line, []) := by
  have hdrop : line.dropWhile (fun b => decide (b ≠ newline)) = [] :=
    dropWhile_eq_nil_iff.mpr (forall_ne_of_not_mem h)
  rw [readLine, hdrop]

theorem newline_not_mem_asciiBytes {t : Text} (h : IsPrintable t) : newline ∉ asciiBytes t := by
  intro hmem
  obtain ⟨c, hc, heq⟩ := mem_map.mp hmem
  have hrange := h c hc
  have hvalue := congrArg UInt8.toNat heq
  rw [UInt8.toNat_ofNat'] at hvalue
  have hten : newline.toNat = 10 := rfl
  omega

end SmsPlatform.Support
