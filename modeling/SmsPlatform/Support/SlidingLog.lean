import Mathlib.Algebra.BigOperators.Group.Finset.Piecewise
import Mathlib.Algebra.Order.BigOperators.Group.Finset
import Mathlib.Data.Nat.ModEq

/-!
# Sliding windows over a log, and the ring that counts them

The exact notion is a log of timed entries and the sum of the entries whose time
lies in the last `n` instants.  A ring keeps `n` slots; the slot of an instant is
its remainder modulo `n`, and each slot remembers the instant it counts.  As long
as instants do not decrease, the ring total is the window sum of the log.
-/

namespace SmsPlatform.Support

open Finset List

variable {α : Type*} {time weight extra limit : α → ℕ} {n now : ℕ} {log : List α}

/-- The instant `t` lies in the window of length `n` that ends with `now`. -/
def InWindow (n now t : ℕ) : Prop :=
  t ≤ now ∧ now < t + n

instance (n now t : ℕ) : Decidable (InWindow n now t) :=
  inferInstanceAs (Decidable (_ ∧ _))

/-- The weight of the entries whose time is in the window that ends with
`now`. -/
def windowSum (time weight : α → ℕ) (n now : ℕ) (log : List α) : ℕ :=
  ((log.filter (fun a => decide (InWindow n now (time a)))).map weight).sum

theorem windowSum_cons (a : α) (log : List α) : windowSum time weight n now (a :: log) =
      (if InWindow n now (time a) then weight a else 0) + windowSum time weight n now log := by
  by_cases h : InWindow n now (time a) <;> simp [windowSum, h]

theorem windowSum_add (log : List α) : windowSum time (fun a => weight a + extra a) n now log =
      windowSum time weight n now log + windowSum time extra n now log := by
  induction log with
  | nil => rfl
  | cons a log ih =>
    rw [windowSum_cons, windowSum_cons, windowSum_cons, ih]
    split <;> omega

/-- Entries that are all `n` instants old do not count. -/
theorem windowSum_eq_zero (h : ∀ a ∈ log, time a + n ≤ now) :
    windowSum time weight n now log = 0 := by
  have hnone : log.filter (fun a => decide (InWindow n now (time a))) = [] := by
    rw [filter_eq_nil_iff]
    intro a ha hwindow
    have hlt := (of_decide_eq_true hwindow).2
    exact absurd (h a ha) (Nat.not_le_of_lt hlt)
  rw [windowSum, hnone]
  rfl

/-- When no entry is later than `t`, windows that end at `t` or later lose
entries and win none. -/
theorem windowSum_anti {t : ℕ} (hle : ∀ a ∈ log, time a ≤ t) (hnow : t ≤ now) :
    windowSum time weight n now log ≤ windowSum time weight n t log := by
  induction log with
  | nil => exact le_rfl
  | cons a log ih =>
    have hrest := ih (fun b hb => hle b (mem_cons_of_mem _ hb))
    have ha := hle a mem_cons_self
    rw [windowSum_cons, windowSum_cons]
    by_cases hin : InWindow n now (time a)
    · have hin' : InWindow n t (time a) := ⟨ha, lt_of_le_of_lt hnow hin.2⟩
      rw [if_pos hin, if_pos hin']
      omega
    · rw [if_neg hin]
      omega

/-- A log, latest entry first, in which no entry is earlier than the ones
before it and the window that ends with an entry keeps within its limit. -/
def Admitted (time weight limit : α → ℕ) (n : ℕ) : List α → Prop
  | [] => True
  | a :: log => (∀ b ∈ log, time b ≤ time a) ∧
      windowSum time weight n (time a) (a :: log) ≤ limit a ∧
      Admitted time weight limit n log

/-- Limits that hold for the windows ending with an entry hold for all
windows. -/
theorem Admitted.windowSum_le (h : Admitted time weight limit n log) {bound : ℕ}
    (hbound : ∀ a ∈ log, InWindow n now (time a) → limit a ≤ bound) :
    windowSum time weight n now log ≤ bound := by
  induction log with
  | nil => exact Nat.zero_le _
  | cons a log ih =>
    obtain ⟨hlate, hlimit, hrest⟩ := h
    by_cases hin : InWindow n now (time a)
    · have hle : ∀ b ∈ a :: log, time b ≤ time a := by
        intro b hb
        rcases mem_cons.mp hb with rfl | hb
        · exact le_rfl
        · exact hlate b hb
      calc windowSum time weight n now (a :: log)
          ≤ windowSum time weight n (time a) (a :: log) := windowSum_anti hle hin.1
        _ ≤ limit a := hlimit
        _ ≤ bound := hbound a mem_cons_self hin
    · rw [windowSum_cons, if_neg hin, Nat.zero_add]
      exact ih hrest (fun b hb => hbound b (mem_cons_of_mem _ hb))

/-! ## The ring -/

/-- Slots with the instant each one counts and the weight counted; a field may
be missing. -/
structure SlotRing where
  epoch : ℕ → Option ℕ
  weight : ℕ → Option ℕ

namespace SlotRing

variable {ring : SlotRing} {last later w : ℕ}

def empty : SlotRing := ⟨fun _ => none, fun _ => none⟩

/-- What a slot counts for the window that ends with `now`. -/
def slotWeight (n now : ℕ) (ring : SlotRing) (slot : ℕ) : ℕ :=
  match ring.epoch slot with
  | some e => if InWindow n now e then (ring.weight slot).getD 0 else 0
  | none => 0

def total (n now : ℕ) (ring : SlotRing) : ℕ :=
  ∑ slot ∈ Finset.range n, ring.slotWeight n now slot

/-- Count `w` at `now`: the slot is taken over unless it counts `now` already. -/
def add (n now w : ℕ) (ring : SlotRing) : SlotRing :=
  let slot := now % n
  if ring.epoch slot ≠ some now then
    { epoch := Function.update ring.epoch slot (some now)
      weight := Function.update ring.weight slot (some w) }
  else
    { ring with
      weight := Function.update ring.weight slot (some ((ring.weight slot).getD 0 + w)) }

/-- Each slot counts an instant of its residue class, none later than `last`. -/
def Placed (n last : ℕ) (ring : SlotRing) : Prop :=
  ∀ slot e, ring.epoch slot = some e → e % n = slot ∧ e ≤ last

theorem placed_empty (last : ℕ) : empty.Placed n last := by
  intro slot e h
  exact absurd h (by simp [empty])

@[simp] theorem total_empty : empty.total n now = 0 := by
  exact sum_eq_zero (fun _ _ => rfl)

theorem Placed.mono {last' : ℕ} (h : ring.Placed n last) (hle : last ≤ last') :
    ring.Placed n last' :=
  fun slot e he => ⟨(h slot e he).1, le_trans (h slot e he).2 hle⟩

theorem add_epoch (w slot : ℕ) : (ring.add n now w).epoch slot =
    if slot = now % n then some now else ring.epoch slot := by
  unfold add
  by_cases howned : ring.epoch (now % n) ≠ some now
  · simp [howned, Function.update_apply]
  rw [not_not] at howned
  by_cases hslot : slot = now % n <;> simp [howned, hslot]

theorem Placed.add (h : ring.Placed n now) : (ring.add n now w).Placed n now := by
  intro slot e he
  rw [add_epoch] at he
  by_cases hslot : slot = now % n
  · rw [if_pos hslot, Option.some.injEq] at he
    subst he
    exact ⟨hslot.symm, le_rfl⟩
  · rw [if_neg hslot] at he
    exact h slot e he

/-- Two instants of one residue class that are less than `n` apart are equal:
the slot of `now` counts nothing else that is still in the window. -/
theorem Placed.eq_of_inWindow {e : ℕ} (h : ring.Placed n now)
    (he : ring.epoch (now % n) = some e) (hlive : now < e + n) : e = now := by
  obtain ⟨hmod, hle⟩ := h _ _ he
  obtain ⟨d, rfl⟩ := Nat.exists_eq_add_of_le hle
  have hzero : 0 ≡ d [MOD n] := .add_left_cancel' e hmod
  have hd : d < n := by omega
  rw [Nat.ModEq, Nat.mod_eq_of_lt hd, Nat.zero_mod] at hzero
  omega

/-- A slot whose instant is in the window keeps it; the weight grows if the
instant is `now`. -/
theorem Placed.add_of_inWindow {slot e : ℕ} (h : ring.Placed n now)
    (he : ring.epoch slot = some e) (hlive : InWindow n now e) :
    (ring.add n now w).epoch slot = some e ∧ ((ring.add n now w).weight slot).getD 0 =
        (ring.weight slot).getD 0 + if e = now then w else 0 := by
  by_cases hslot : slot = now % n
  · subst hslot
    obtain rfl : e = now := h.eq_of_inWindow he hlive.2
    simp [SlotRing.add, he]
  have hne : e ≠ now := by
    rintro rfl
    exact hslot (h slot e he).1.symm
  refine ⟨by rw [add_epoch, if_neg hslot, he], ?_⟩
  by_cases howned : ring.epoch (now % n) = some now <;> simp [SlotRing.add, howned, hslot, hne]

/-- Adding changes what the slot of `now` counts by the weight added. -/
theorem slotWeight_add_self (h : ring.Placed n now) (hlater : now ≤ later) :
    (ring.add n now w).slotWeight n later (now % n) =
      ring.slotWeight n later (now % n) + if InWindow n later now then w else 0 := by
  by_cases howned : ring.epoch (now % n) = some now
  · by_cases hin : InWindow n later now <;> simp [slotWeight, add, howned, hin]
  -- the instant counted so far has left the window that ends with `now`
  have hgone : ring.slotWeight n later (now % n) = 0 := by
    cases he : ring.epoch (now % n) with
    | none => simp [slotWeight, he]
    | some e =>
      have hout : ¬ InWindow n later e := by
        intro hin
        have heq := h.eq_of_inWindow he (lt_of_le_of_lt hlater hin.2)
        exact howned (by rw [he, heq])
      simp [slotWeight, he, hout]
  rw [hgone, Nat.zero_add]
  simp [slotWeight, add, howned]

theorem slotWeight_add_of_ne {slot : ℕ} (hslot : slot ≠ now % n) :
    (ring.add n now w).slotWeight n later slot = ring.slotWeight n later slot := by
  by_cases howned : ring.epoch (now % n) = some now <;> simp [slotWeight, add, howned, hslot]

/-- Adding raises the total of every later window that contains `now` by the
weight added. -/
theorem total_add (hn : 0 < n) (h : ring.Placed n now) (hlater : now ≤ later) :
    (ring.add n now w).total n later =
      ring.total n later + if InWindow n later now then w else 0 := by
  have hslot : now % n ∈ Finset.range n := Finset.mem_range.mpr (Nat.mod_lt _ hn)
  rw [total, total, ← add_sum_erase _ _ hslot, ← add_sum_erase _ _ hslot,
    slotWeight_add_self h hlater]
  have hrest : ∑ slot ∈ (Finset.range n).erase (now % n),
        (ring.add n now w).slotWeight n later slot =
      ∑ slot ∈ (Finset.range n).erase (now % n), ring.slotWeight n later slot :=
    sum_congr rfl (fun slot hmem => slotWeight_add_of_ne (ne_of_mem_erase hmem))
  omega

/-- The ring counts the log: its total is the window sum for every window that
ends at `last` or later. -/
structure Counts (time weight : α → ℕ) (n last : ℕ) (log : List α) (ring : SlotRing) :
    Prop where
  placed : ring.Placed n last
  total_eq : ∀ now, last ≤ now → ring.total n now = windowSum time weight n now log

/-- An empty ring counts a log whose entries have all left the window. -/
theorem counts_empty (h : ∀ a ∈ log, time a + n ≤ last) : Counts time weight n last log empty where
  placed := placed_empty last
  total_eq := by
    intro now hnow
    rw [total_empty, windowSum_eq_zero (fun a ha => le_trans (h a ha) hnow)]

theorem Counts.mono {last' : ℕ} (h : Counts time weight n last log ring) (hle : last ≤ last') :
    Counts time weight n last' log ring where
  placed := h.placed.mono hle
  total_eq := fun now hnow => h.total_eq now (le_trans hle hnow)

/-- Adding the weight of a new entry at its time keeps the count. -/
theorem Counts.add {a : α} (hn : 0 < n) (h : Counts time weight n last log ring)
    (hlast : last ≤ time a) :
    Counts time weight n (time a) (a :: log) (ring.add n (time a) (weight a)) where
  placed := (h.placed.mono hlast).add
  total_eq := by
    intro now hnow
    rw [total_add hn (h.placed.mono hlast) hnow, windowSum_cons,
      h.total_eq now (le_trans hlast hnow), add_comm]

end SlotRing

end SmsPlatform.Support
