import SmsPlatform.Support.Windowed
import SmsPlatform.Usage.Repository

/-!
# Amounts and projections

What the live reservations have put on a key, window by window, and how the rows follow when
they are raised or lowered by changes.  The amounts are balances of postings, so that a
transaction is described by what it does to the postings, to the set of live reservations and to
the rows.
-/

namespace SmsPlatform.Usage

open Support List Option

/-! ## Changes as postings -/

def ProjectionChange.posting (c : ProjectionChange) : Posting Unit (DimensionKey × ℕ) :=
  ⟨(), (c.key, c.windowKey), c.delta.natAbs⟩

/-- By how much changes move a key in a window. -/
def moved (cs : List ProjectionChange) (account : DimensionKey × ℕ) : ℕ :=
  balance (fun _ => true) account (cs.map ProjectionChange.posting)

section

variable {cs : List ProjectionChange}

theorem moved_of_not_mem {k : DimensionKey} (h : ∀ c ∈ cs, c.key ≠ k) (w : ℕ) :
    moved cs (k, w) = 0 := by
  refine balance_eq_zero (fun p hp _ hk => ?_)
  obtain ⟨c, hc, rfl⟩ := mem_map.mp hp
  exact absurd (congrArg Prod.fst hk) (h c hc)

theorem moved_cons (c : ProjectionChange) (account : DimensionKey × ℕ) : moved (c :: cs) account =
      (if (c.key, c.windowKey) = account then c.delta.natAbs else 0) + moved cs account := by
  unfold moved
  rw [map_cons, balance_cons]
  simp [ProjectionChange.posting]

theorem moved_of_mem (hnodup : (cs.map ProjectionChange.key).Nodup) {c : ProjectionChange}
    (hc : c ∈ cs) (w : ℕ) :
    moved cs (c.key, w) = if w = c.windowKey then c.delta.natAbs else 0 := by
  induction cs with
  | nil => cases hc
  | cons d cs ih =>
    rw [map_cons, nodup_cons] at hnodup
    rw [moved_cons]
    rcases mem_cons.mp hc with rfl | hc
    · have hrest : moved cs (c.key, w) = 0 := by
        refine moved_of_not_mem (fun e he heq => hnodup.1 ?_) w
        exact heq ▸ mem_map_of_mem he
      rw [hrest, Nat.add_zero]
      by_cases hw : w = c.windowKey
      · simp [hw]
      · simp [hw, Ne.symm hw]
    · have hne : d.key ≠ c.key := by
        intro heq
        exact hnodup.1 (heq ▸ mem_map_of_mem hc)
      rw [if_neg (fun heq => hne (congrArg Prod.fst heq)), Nat.zero_add]
      exact ih hnodup.2 hc

end

/-! ## Rows that follow -/

section

variable {ps qs : Projections} {cs : List ProjectionChange} {k : DimensionKey} {f f' : ℕ → ℕ}

/-- Rows that are raised follow, unless the row is ahead of the change. -/
theorem tracks_raised (hcs : ps.Raised qs cs) (h : Tracks f (ps.counter k))
    (hwindow : ∀ c ∈ cs, c.key = k → ∀ w v, ps.counter k = some (w, v) → w ≤ c.windowKey)
    (hf : ∀ w, f' w = f w + moved cs (k, w)) : Tracks f' (qs.counter k) := by
  by_cases hk : ∃ c ∈ cs, c.key = k
  · obtain ⟨c, hc, rfl⟩ := hk
    have hdelta := hcs.delta_nonneg c hc
    refine h.add (d := c.delta.natAbs) (hwindow c hc rfl) (fun w => ?_) (fun v hv => ?_)
      (fun hv => ?_)
    · rw [hf, moved_of_mem hcs.nodup hc]
    · rw [hcs.same c hc v hv]
      congr 2
      omega
    · rw [hcs.reset c hc hv]
      congr 2
      omega
  · have hk : ∀ c ∈ cs, c.key ≠ k := fun c hc heq => hk ⟨c, hc, heq⟩
    refine h.congr (fun w => ?_) (hcs.other k hk)
    rw [hf, moved_of_not_mem hk, Nat.add_zero]

theorem tracks_lowered (hcs : ps.Lowered qs cs) (h : Tracks f (ps.counter k))
    (hf : ∀ w, f' w + moved cs (k, w) = f w) : Tracks f' (qs.counter k) := by
  by_cases hk : ∃ c ∈ cs, c.key = k
  · obtain ⟨c, hc, rfl⟩ := hk
    have hdelta := hcs.delta_nonpos c hc
    refine h.lower (fun w => ?_) ?_
    · rw [← hf w]
      exact Nat.le_add_right _ _
    · rw [hcs.lowered c hc]
      refine map_congr (fun s hs => ?_)
      have hvalue := h.value s.1 s.2 hs
      have hmoved := hf s.1
      rw [moved_of_mem hcs.nodup hc] at hmoved
      congr 1
      split
      · rename_i hw
        rw [if_pos hw] at hmoved
        omega
      · rename_i hw
        rw [if_neg hw] at hmoved
        omega
  · have hk : ∀ c ∈ cs, c.key ≠ k := fun c hc heq => hk ⟨c, hc, heq⟩
    refine h.congr (fun w => ?_) (hcs.other k hk)
    rw [← hf w, moved_of_not_mem hk, Nat.add_zero]

end

/-! ## The amounts of live reservations -/

namespace Db

/-- What the live reservations have put on a key in a window. -/
def liveAmount (db : Db) (k : DimensionKey) (w : ℕ) : ℕ := balance db.isLive (k, w) db.postings

/-- The row of the key tracks the amounts. -/
def Exact (db : Db) (k : DimensionKey) : Prop :=
  Tracks (db.liveAmount k) (db.projections.counter k)

/-- What an active reservation has put on a key has a row. -/
def Rowed (db : Db) : Prop :=
  ∀ p ∈ db.postings, db.isActive p.owner = true → 0 < p.amount →
    (db.projections.counter p.account.1).isSome = true

/-- Every posting is one of a reservation that exists. -/
def Owned (db : Db) : Prop :=
  ∀ p ∈ db.postings, (db.reservations.find? p.owner).isSome = true

variable {db : Db} {id : ℕ}

theorem isLive_iff :
    db.isLive id = true ↔ ∃ r, db.reservations.find? id = some r ∧ r.state.isLive = true :=
  any_eq_true _ _

theorem isActive_iff :
    db.isActive id = true ↔ ∃ r, db.reservations.find? id = some r ∧ r.state.isActive = true :=
  any_eq_true _ _

theorem isActive_of_isLive (h : db.isLive id = true) : db.isActive id = true := by
  obtain ⟨r, hr, hlive⟩ := isLive_iff.mp h
  refine isActive_iff.mpr ⟨r, hr, ?_⟩
  cases hstate : r.state <;>
    simp [hstate, ReservationState.isLive, ReservationState.isActive] at hlive ⊢

theorem mem_postings {p : Posting ℕ (DimensionKey × ℕ)} : p ∈ db.postings ↔
      (∃ e ∈ db.quotaEntries, e.fact.posting = p) ∨
        (∃ e ∈ db.frequencyEntries, e.fact.posting = p) := by
  unfold postings facts
  simp [Table.mem_rows]

end Db

end SmsPlatform.Usage
