import Mathlib.Data.Nat.Notation
import Mathlib.Data.Option.Basic

/-!
# Values that expire

A store may attach a deadline to a value.  Every access carries a clock reading;
an access that finds the deadline passed removes the value, and the removal is
final even when a later reading is smaller.
-/

namespace SmsPlatform.Support

/-- A stored value and the last clock reading at which it can be found. -/
structure Expiring (α : Type*) where
  value : α
  deadline : ℕ

namespace Expiring

variable {α : Type*} {key : Option (Expiring α)} {k : Expiring α} {now : ℕ}

/-- What an access at `now` finds. -/
def alive (now : ℕ) (key : Option (Expiring α)) : Option (Expiring α) :=
  key.filter (fun k => decide (now ≤ k.deadline))

@[simp] theorem alive_none (now : ℕ) : alive now (none : Option (Expiring α)) = none := rfl

theorem alive_eq_some_iff : alive now key = some k ↔ key = some k ∧ now ≤ k.deadline := by
  simp [alive]

theorem alive_eq_none (hkey : key = some k) (hpast : k.deadline < now) : alive now key = none := by
  simpa [alive, hkey] using hpast

end Expiring

end SmsPlatform.Support
