import Mathlib.Algebra.Order.Group.Nat
import Mathlib.Tactic.Common

/-!
# Windowed counters

Amounts are kept for every window, but a counter stores one window and its amount only.  The
counter tracks the amounts if what it stores is right and no later window has an amount.  An
amount that is added in an earlier window than the stored one cannot be tracked.
-/

namespace SmsPlatform.Support

/-- The stored window has the right amount, and no later window has any. -/
structure Tracks (amounts : ℕ → ℕ) (counter : Option (ℕ × ℕ)) : Prop where
  value : ∀ w v, counter = some (w, v) → v = amounts w
  window : ∀ w, 0 < amounts w → ∃ w' v, counter = some (w', v) ∧ w ≤ w'

namespace Tracks

variable {amounts amounts' : ℕ → ℕ} {counter counter' : Option (ℕ × ℕ)} {w : ℕ}

theorem congr (h : Tracks amounts counter) (hamounts : ∀ w, amounts' w = amounts w)
    (hcounter : counter' = counter) : Tracks amounts' counter' := by
  obtain rfl : amounts' = amounts := funext hamounts
  rw [hcounter]
  exact h

theorem of_zero (h : ∀ w, amounts w = 0) : Tracks amounts none where
  value := by
    intro w v hnone
    cases hnone
  window := by
    intro w hpos
    exact absurd (h w) hpos.ne'

/-- Nothing has been added in windows after the stored one. -/
theorem eq_zero_of_lt (h : Tracks amounts counter)
    (hlater : ∀ w' v, counter = some (w', v) → w' < w) : amounts w = 0 := by
  refine Nat.eq_zero_of_not_pos (fun hpos => ?_)
  obtain ⟨w', v, hcounter, hle⟩ := h.window w hpos
  exact absurd (hlater w' v hcounter) (not_lt.mpr hle)

/-- An amount is added in the stored window or in a later one, which then is stored. -/
theorem add (h : Tracks amounts counter) {d : ℕ} (hlater : ∀ w' v, counter = some (w', v) → w' ≤ w)
    (hamounts : ∀ u, amounts' u = amounts u + if u = w then d else 0)
    (hsame : ∀ v, counter = some (w, v) → counter' = some (w, v + d))
    (hreset : (∀ v, counter ≠ some (w, v)) → counter' = some (w, d)) :
    Tracks amounts' counter' := by
  have hstored : counter' = some (w, amounts' w) := by
    rw [hamounts, if_pos rfl]
    by_cases hv : ∃ v, counter = some (w, v)
    · obtain ⟨v, hv⟩ := hv
      rw [hsame v hv, h.value w v hv]
    have hne : ∀ v, counter ≠ some (w, v) := fun v heq => hv ⟨v, heq⟩
    rw [hreset hne, h.eq_zero_of_lt, Nat.zero_add]
    intro w' v hcounter
    exact lt_of_le_of_ne (hlater w' v hcounter) (fun heq => hne v (heq ▸ hcounter))
  constructor
  · intro u v hcounter
    rw [hstored] at hcounter
    cases hcounter
    rfl
  · intro u hpos
    refine ⟨w, _, hstored, ?_⟩
    by_cases hu : u = w
    · exact hu.le
    · rw [hamounts, if_neg hu, Nat.add_zero] at hpos
      obtain ⟨w', v, hcounter, hle⟩ := h.window u hpos
      exact hle.trans (hlater w' v hcounter)

/-- Amounts become smaller, and the counter stays at its window. -/
theorem lower (h : Tracks amounts counter) (hle : ∀ w, amounts' w ≤ amounts w)
    (hcounter : counter' = counter.map fun c => (c.1, amounts' c.1)) :
    Tracks amounts' counter' := by
  subst hcounter
  constructor
  · intro w v hsome
    obtain ⟨c, -, ⟨⟩⟩ := Option.map_eq_some_iff.mp hsome
    rfl
  · intro w hpos
    obtain ⟨w', v, hstored, hw⟩ := h.window w (hpos.trans_le (hle w))
    exact ⟨w', amounts' w', by rw [hstored]; rfl, hw⟩

/-- A window from which on nothing is missing may be stored anew. -/
theorem store (hlast : ∀ u, 0 < amounts u → u ≤ w) : Tracks amounts (some (w, amounts w)) where
  value := by
    rintro u v heq
    cases heq
    rfl
  window := fun u hpos => ⟨w, _, rfl, hlast u hpos⟩

end Tracks

end SmsPlatform.Support
