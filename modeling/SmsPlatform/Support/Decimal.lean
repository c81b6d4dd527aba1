import Mathlib.Algebra.Ring.Nat
import Mathlib.Logic.Function.Basic

/-!
# Zero-padded decimal numerals

The text of a natural number with leading zeros up to a fixed width.  A number
that needs more digits is written in full, so that no two numbers ever share
their text.
-/

namespace SmsPlatform.Support

/-- The decimal digits of `n`, filled up with zeros on the left. -/
def zeroPadded (width n : ℕ) : List Char :=
  List.replicate (width - (Nat.toDigits 10 n).length) '0' ++ Nat.toDigits 10 n

theorem ofDigitChars_zeroPadded (width n : ℕ) : Nat.ofDigitChars 10 (zeroPadded width n) 0 = n := by
  rw [zeroPadded, Nat.ofDigitChars_append, Nat.ofDigitChars_replicate_zero, Nat.mul_zero]
  exact Nat.ofDigitChars_ten_toDigits

theorem zeroPadded_injective (width : ℕ) : Function.Injective (zeroPadded width) := by
  intro m n h
  rw [← ofDigitChars_zeroPadded width m, h, ofDigitChars_zeroPadded]

theorem isDigit_of_mem_zeroPadded {width n : ℕ} {c : Char}
    (h : c ∈ zeroPadded width n) : c.isDigit = true := by
  rcases List.mem_append.mp h with h | h
  · rw [List.eq_of_mem_replicate h]
    rfl
  · exact Nat.isDigit_of_mem_toDigits (by decide) (by decide) h

end SmsPlatform.Support
