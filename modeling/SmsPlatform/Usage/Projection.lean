import SmsPlatform.Usage.Schema

/-!
# Projections

A row of `usage_projection` stores the amount of one key in one window.  All writers go through
`_change_projections`, which either raises rows, starting afresh where the window is another
one, or lowers rows, leaving alone those whose window is another one.  A row that is written
gets the next number of the version sequence.
-/

namespace SmsPlatform.Usage

open Support Table List

/-- A row of `usage_projection`; `kind` is that of the key. -/
structure Projection where
  key : DimensionKey
  windowKey : ℕ
  value : ℕ
  version : ℕ
  expiresAt : ℕ
  deriving DecidableEq

/-- `_ProjectionChange`. -/
structure ProjectionChange where
  key : DimensionKey
  windowKey : ℕ
  delta : ℤ
  expiresAt : ℕ
  resetOnWindowChange : Bool
  deriving DecidableEq

/-- The table together with `usage_projection_version_seq`. -/
structure Projections where
  rows : Table Projection.key
  nextVersion : ℕ

namespace Projections

/-- Write a row under the next version. -/
def write (ps : Projections) (p : Projection) : Projections where
  rows := ps.rows.put { p with version := ps.nextVersion }
  nextVersion := ps.nextVersion + 1

/-- `INSERT ... ON CONFLICT DO UPDATE` for one change. -/
def raise (ps : Projections) (c : ProjectionChange) : Projections :=
  match ps.rows.find? c.key with
  | none =>
    ps.write
      { key := c.key
        windowKey := c.windowKey
        value := c.delta.toNat
        version := 0
        expiresAt := c.expiresAt }
  | some p =>
    ps.write
      { p with
        windowKey := c.windowKey
        value := if p.windowKey = c.windowKey then (p.value + c.delta).toNat else c.delta.toNat
        expiresAt := if p.windowKey = c.windowKey then max p.expiresAt c.expiresAt
          else c.expiresAt }

/-- `UPDATE ... FROM incoming` for one change. -/
def lower (ps : Projections) (c : ProjectionChange) : Projections :=
  match ps.rows.find? c.key with
  | none => ps
  | some p =>
    ps.write
      { p with
        value := if p.windowKey = c.windowKey then (max 0 (p.value + c.delta)).toNat else p.value
        expiresAt := if p.windowKey = c.windowKey then max p.expiresAt c.expiresAt
          else p.expiresAt }

/-- `_change_projections`. -/
def change (ps : Projections) (cs : List ProjectionChange) : Except UsageError Projections :=
  if cs.isEmpty then .ok ps
  else if ¬ (cs.map ProjectionChange.key).Nodup then .error .duplicateDimensions
  else if cs.all (fun c => decide (0 ≤ c.delta) && c.resetOnWindowChange) then
    .ok (cs.foldl raise ps)
  else if cs.all (fun c => decide (c.delta ≤ 0) && !c.resetOnWindowChange) then
    if cs.all (fun c => (ps.rows.find? c.key).isSome) then .ok (cs.foldl lower ps)
    else .error .projectionConflict
  else .error .mixedDirections

/-- The stored window of a key and its value. -/
def counter (ps : Projections) (k : DimensionKey) : Option (ℕ × ℕ) :=
  (ps.rows.find? k).map fun p => (p.windowKey, p.value)

/-! ## Writing one row -/

section

variable {ps : Projections} {k : DimensionKey} {c : ProjectionChange}

theorem find?_write_self (p : Projection) :
    (ps.write p).rows.find? p.key = some { p with version := ps.nextVersion } :=
  find?_put_self ps.rows { p with version := ps.nextVersion }

theorem find?_write_of_ne {p : Projection} (h : k ≠ p.key) :
    (ps.write p).rows.find? k = ps.rows.find? k :=
  find?_put_of_ne h

theorem find?_raise_of_ne (h : k ≠ c.key) : (ps.raise c).rows.find? k = ps.rows.find? k := by
  unfold raise
  cases hfind : ps.rows.find? c.key with
  | none => exact find?_write_of_ne h
  | some p => exact find?_write_of_ne (h.trans_eq (find?_eq_some_iff.mp hfind).2.symm)

theorem find?_lower_of_ne (h : k ≠ c.key) : (ps.lower c).rows.find? k = ps.rows.find? k := by
  unfold lower
  cases hfind : ps.rows.find? c.key with
  | none => rfl
  | some p => exact find?_write_of_ne (h.trans_eq (find?_eq_some_iff.mp hfind).2.symm)

theorem counter_raise_same {v : ℕ} (h : ps.counter c.key = some (c.windowKey, v)) :
    (ps.raise c).counter c.key = some (c.windowKey, (v + c.delta).toNat) := by
  obtain ⟨p, hp, hpair⟩ := Option.map_eq_some_iff.mp h
  obtain ⟨hwindow, rfl⟩ := Prod.mk.inj hpair
  have hkey := (find?_eq_some_iff.mp hp).2
  unfold counter raise
  rw [hp]
  rw [← hkey, find?_write_self]
  simp [hwindow]

theorem counter_raise_reset (h : ∀ v, ps.counter c.key ≠ some (c.windowKey, v)) :
    (ps.raise c).counter c.key = some (c.windowKey, c.delta.toNat) := by
  unfold counter raise
  cases hfind : ps.rows.find? c.key with
  | none =>
    rw [find?_write_self]
    rfl
  | some p =>
    have hwindow : p.windowKey ≠ c.windowKey := by
      intro heq
      refine h p.value ?_
      rw [counter, hfind, ← heq]
      rfl
    have hkey := (find?_eq_some_iff.mp hfind).2
    rw [← hkey, find?_write_self]
    simp [hwindow]

theorem counter_lower (c : ProjectionChange) :
    (ps.lower c).counter c.key = (ps.counter c.key).map fun s =>
      (s.1, if s.1 = c.windowKey then (max 0 (s.2 + c.delta)).toNat else s.2) := by
  unfold counter lower
  cases hfind : ps.rows.find? c.key with
  | none =>
    rw [hfind]
    rfl
  | some p =>
    have hkey := (find?_eq_some_iff.mp hfind).2
    rw [← hkey, find?_write_self]
    rfl

end

/-! ## Writing one row after the other -/

section

variable {step : Projections → ProjectionChange → Projections}
  (hother : ∀ ps c k, k ≠ c.key → (step ps c).rows.find? k = ps.rows.find? k)

include hother

variable {cs : List ProjectionChange}

theorem find?_foldl_of_not_mem {k : DimensionKey} (h : ∀ c ∈ cs, c.key ≠ k) (ps : Projections) :
    (cs.foldl step ps).rows.find? k = ps.rows.find? k := by
  induction cs generalizing ps with
  | nil => rfl
  | cons c cs ih =>
    rw [foldl_cons, ih (fun d hd => h d (mem_cons_of_mem c hd))]
    exact hother ps c k (h c mem_cons_self).symm

/-- The row of a change is written by that change alone. -/
theorem find?_foldl_of_mem
    (hnodup : (cs.map ProjectionChange.key).Nodup) {c : ProjectionChange} (hc : c ∈ cs)
    (ps : Projections) : ∃ qs : Projections, qs.rows.find? c.key = ps.rows.find? c.key ∧
    (cs.foldl step ps).rows.find? c.key = (step qs c).rows.find? c.key := by
  induction cs generalizing ps with
  | nil => cases hc
  | cons d cs ih =>
    rw [map_cons, nodup_cons] at hnodup
    have hne : ∀ e ∈ cs, e.key ≠ d.key := by
      intro e he heq
      exact hnodup.1 (heq ▸ mem_map_of_mem he)
    rcases mem_cons.mp hc with rfl | hc
    · exact ⟨ps, rfl, find?_foldl_of_not_mem hother hne _⟩
    · obtain ⟨qs, hbefore, hafter⟩ := ih hnodup.2 hc (step ps d)
      exact ⟨qs, hbefore.trans (hother ps d c.key (hne c hc)), hafter⟩

end

/-! ## What a change does -/

/-- The rows have been raised by the changes. -/
structure Raised (ps qs : Projections) (cs : List ProjectionChange) : Prop where
  nodup : (cs.map ProjectionChange.key).Nodup
  delta_nonneg : ∀ c ∈ cs, 0 ≤ c.delta
  other : ∀ k, (∀ c ∈ cs, c.key ≠ k) → qs.counter k = ps.counter k
  same : ∀ c ∈ cs, ∀ v, ps.counter c.key = some (c.windowKey, v) →
    qs.counter c.key = some (c.windowKey, (v + c.delta).toNat)
  reset : ∀ c ∈ cs, (∀ v, ps.counter c.key ≠ some (c.windowKey, v)) →
    qs.counter c.key = some (c.windowKey, c.delta.toNat)

/-- The rows have been lowered by the changes. -/
structure Lowered (ps qs : Projections) (cs : List ProjectionChange) : Prop where
  nodup : (cs.map ProjectionChange.key).Nodup
  delta_nonpos : ∀ c ∈ cs, c.delta ≤ 0
  other : ∀ k, (∀ c ∈ cs, c.key ≠ k) → qs.counter k = ps.counter k
  exists_row : ∀ c ∈ cs, (ps.counter c.key).isSome
  lowered : ∀ c ∈ cs, qs.counter c.key = (ps.counter c.key).map fun s =>
    (s.1, if s.1 = c.windowKey then (max 0 (s.2 + c.delta)).toNat else s.2)

section

variable {ps qs : Projections} {cs : List ProjectionChange}

theorem counter_congr {k : DimensionKey} (h : qs.rows.find? k = ps.rows.find? k) :
    qs.counter k = ps.counter k := by
  unfold counter
  rw [h]

theorem raised_foldl (hnodup : (cs.map ProjectionChange.key).Nodup)
    (hdelta : ∀ c ∈ cs, 0 ≤ c.delta) (ps : Projections) : Raised ps (cs.foldl raise ps) cs where
  nodup := hnodup
  delta_nonneg := hdelta
  other := fun k hk =>
    counter_congr (find?_foldl_of_not_mem (fun _ _ _ => find?_raise_of_ne) hk ps)
  same := by
    intro c hc v hv
    obtain ⟨qs, hbefore, hafter⟩ :=
      find?_foldl_of_mem (fun _ _ _ => find?_raise_of_ne) hnodup hc ps
    rw [counter_congr hafter]
    exact counter_raise_same ((counter_congr hbefore).trans hv)
  reset := by
    intro c hc hv
    obtain ⟨qs, hbefore, hafter⟩ :=
      find?_foldl_of_mem (fun _ _ _ => find?_raise_of_ne) hnodup hc ps
    rw [counter_congr hafter]
    refine counter_raise_reset (fun v => ?_)
    rw [counter_congr hbefore]
    exact hv v

theorem lowered_foldl (hnodup : (cs.map ProjectionChange.key).Nodup)
    (hdelta : ∀ c ∈ cs, c.delta ≤ 0) (hrows : ∀ c ∈ cs, (ps.counter c.key).isSome) :
    Lowered ps (cs.foldl lower ps) cs where
  nodup := hnodup
  delta_nonpos := hdelta
  other := fun k hk =>
    counter_congr (find?_foldl_of_not_mem (fun _ _ _ => find?_lower_of_ne) hk ps)
  exists_row := hrows
  lowered := by
    intro c hc
    obtain ⟨qs, hbefore, hafter⟩ :=
      find?_foldl_of_mem (fun _ _ _ => find?_lower_of_ne) hnodup hc ps
    rw [counter_congr hafter, ← counter_congr hbefore]
    exact counter_lower c

/-- Changes of distinct keys have raised the rows or lowered them; without changes the rows
count as raised. -/
theorem change_eq_ok (h : ps.change cs = .ok qs) : (cs.map ProjectionChange.key).Nodup ∧
    (((∀ c ∈ cs, 0 ≤ c.delta ∧ c.resetOnWindowChange = true) ∧ qs = cs.foldl raise ps) ∨
      ((∀ c ∈ cs, c.delta ≤ 0 ∧ c.resetOnWindowChange = false) ∧
        (∀ c ∈ cs, (ps.rows.find? c.key).isSome = true) ∧ qs = cs.foldl lower ps)) := by
  unfold change at h
  split at h
  · rename_i hempty
    cases h
    obtain rfl := isEmpty_iff.mp hempty
    exact ⟨nodup_nil, .inl ⟨by simp, rfl⟩⟩
  · split at h
    · cases h
    rename_i hnodup
    refine ⟨not_not.mp hnodup, ?_⟩
    split at h
    · rename_i hraise
      cases h
      exact .inl ⟨by simpa using hraise, rfl⟩
    split at h
    · rename_i hlower
      split at h
      · rename_i hrows
        cases h
        exact .inr ⟨by simpa using hlower, all_eq_true.mp hrows, rfl⟩
      · cases h
    · cases h

/-- Changes that may start a window afresh raise the rows. -/
theorem raised_of_change (h : ps.change cs = .ok qs)
    (hreset : ∀ c ∈ cs, c.resetOnWindowChange = true) :
    Raised ps qs cs := by
  obtain ⟨hnodup, ⟨hcs, rfl⟩ | ⟨hcs, -, rfl⟩⟩ := change_eq_ok h
  · exact raised_foldl hnodup (fun c hc => (hcs c hc).1) ps
  · cases cs with
    | nil => exact raised_foldl hnodup (by simp) ps
    | cons c cs => simp [hcs c mem_cons_self] at hreset

/-- Changes that leave other windows alone lower the rows. -/
theorem lowered_of_change (h : ps.change cs = .ok qs)
    (hreset : ∀ c ∈ cs, c.resetOnWindowChange = false) : Lowered ps qs cs := by
  obtain ⟨hnodup, ⟨hcs, rfl⟩ | ⟨hcs, hrows, rfl⟩⟩ := change_eq_ok h
  · cases cs with
    | nil => exact lowered_foldl hnodup (by simp) (by simp)
    | cons c cs => simp [hcs c mem_cons_self] at hreset
  · refine lowered_foldl hnodup (fun c hc => (hcs c hc).1) (fun c hc => ?_)
    rw [counter, Option.isSome_map]
    exact hrows c hc

end

end Projections

end SmsPlatform.Usage
