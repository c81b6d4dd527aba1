import Mathlib.Algebra.Order.BigOperators.Group.Finset
import Mathlib.Order.Interval.Finset.Nat

/-!
# Counting by classes and by distance

A list whose classes under a map are small is short when the map takes few
values, and naturals that keep a distance from one another are few in an
interval.
-/

namespace SmsPlatform.Support

open Finset

variable {α β : Type*} [DecidableEq β]

/-- A list is at most as long as its largest class times the number of
classes. -/
theorem length_le_mul_card_image {f : α → β} {l : List α} {n : ℕ} (h : ∀ b, (l.map f).count b ≤ n) :
    l.length ≤ n * (l.map f).toFinset.card := by
  calc l.length = ∑ b ∈ (l.map f).toFinset, (l.map f).count b := by
        rw [List.sum_toFinset_count_eq_length, List.length_map]
    _ ≤ ∑ _b ∈ (l.map f).toFinset, n := sum_le_sum (fun b _ => h b)
    _ = (l.map f).toFinset.card * n := sum_const_nat (fun _ _ => rfl)
    _ = n * (l.map f).toFinset.card := Nat.mul_comm _ _

/-- Naturals of an interval that are at least `d` apart number at most one
more than the length of the interval divided by `d`. -/
theorem card_le_of_spaced {s : Finset ℕ} {lo hi d : ℕ} (hd : 0 < d)
    (hlo : ∀ a ∈ s, lo ≤ a) (hhi : ∀ a ∈ s, a ≤ hi)
    (hspaced : ∀ a ∈ s, ∀ b ∈ s, a < b → a + d ≤ b) : s.card ≤ (hi - lo) / d + 1 := by
  -- dividing the distance from `lo` by `d` separates the members of `s`
  have hmaps : ∀ a ∈ s, (a - lo) / d ∈ Finset.range ((hi - lo) / d + 1) := by
    intro a ha
    rw [mem_range, Nat.lt_succ_iff]
    exact Nat.div_le_div_right (Nat.sub_le_sub_right (hhi a ha) lo)
  have hlt : ∀ a ∈ s, ∀ b ∈ s, a < b → (a - lo) / d < (b - lo) / d := by
    intro a ha b hb hab
    have hdist : a - lo + d ≤ b - lo := by
      have hgap := hspaced a ha b hb hab
      have hla := hlo a ha
      omega
    calc (a - lo) / d < (a - lo) / d + 1 := Nat.lt_succ_self _
      _ = (a - lo + d) / d := (Nat.add_div_right (a - lo) hd).symm
      _ ≤ (b - lo) / d := Nat.div_le_div_right hdist
  have hinj : Set.InjOn (fun a => (a - lo) / d) s := by
    intro a ha b hb heq
    rcases Nat.lt_trichotomy a b with hab | hab | hab
    · exact absurd heq (ne_of_lt (hlt a ha b hb hab))
    · exact hab
    · exact absurd heq.symm (ne_of_lt (hlt b hb a ha hab))
  calc s.card ≤ (Finset.range ((hi - lo) / d + 1)).card := card_le_card_of_injOn _ hmaps hinj
    _ = (hi - lo) / d + 1 := card_range _

end SmsPlatform.Support
