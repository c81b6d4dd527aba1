import SmsPlatform.Usage.Resolution

/-!
# Well-formed databases

The facts about the tables that every transaction keeps: entries have their reservation and
their recipient, the digest of an entry is the one of its recipient, no two recipients share a
digest, rows have the window or the expiry that their key asks for, and what an active
reservation has counted has a row.
-/

namespace SmsPlatform.Usage

open Support Table

/-- The window of a quota row is its day; a frequency row expires with its window. -/
def DimensionKey.Shaped (windowKey expiresAt : ℕ) : DimensionKey → Prop
  | .quota key => windowKey = key.date
  | .frequency key => expiresAt = key.scope.expiresAt windowKey

abbrev Projection.Shaped (p : Projection) : Prop := p.key.Shaped p.windowKey p.expiresAt

abbrev ProjectionChange.Shaped (c : ProjectionChange) : Prop := c.key.Shaped c.windowKey c.expiresAt

structure WellFormed (db : Db) : Prop where
  owned : db.Owned
  fresh : db.Fresh
  hmac_inj : ∀ s ∈ db.subjects, ∀ t ∈ db.subjects, s.projectionHmac = t.projectionHmac → s = t
  entry_subject : ∀ e ∈ db.frequencyEntries, ∃ s ∈ db.subjects,
    s.id = e.subjectId ∧ s.projectionHmac = e.key.hmac
  shaped : ∀ p ∈ db.projections.rows, p.Shaped
  rowed : db.Rowed

/-! ## Shapes -/

section

variable {ps qs : Projections}

theorem shaped_write (h : ∀ p ∈ ps.rows, p.Shaped) {q : Projection} (hq : q.Shaped) :
    ∀ p ∈ (ps.write q).rows, p.Shaped :=
  forall_mem_put h hq

variable {c : ProjectionChange}

theorem DimensionKey.Shaped.max {k : DimensionKey} {w e e' : ℕ} (h : k.Shaped w e)
    (h' : k.Shaped w e') : k.Shaped w (max e e') := by
  cases k with
  | quota key => exact h
  | frequency key =>
    obtain rfl : e = e' := Eq.trans h h'.symm
    rwa [max_self]

theorem shaped_raise (h : ∀ p ∈ ps.rows, p.Shaped) (hc : c.Shaped) :
    ∀ p ∈ (ps.raise c).rows, p.Shaped := by
  unfold Projections.raise
  split
  · exact shaped_write h hc
  rename_i q hq
  obtain ⟨hmem, hkey⟩ := find?_eq_some_iff.mp hq
  have hshape := h q hmem
  refine shaped_write h ?_
  rw [ProjectionChange.Shaped, ← hkey] at hc
  by_cases hw : q.windowKey = c.windowKey
  · rw [Projection.Shaped, hw] at hshape
    simpa [hw] using hshape.max hc
  · simpa [hw] using hc

theorem shaped_lower (h : ∀ p ∈ ps.rows, p.Shaped) (hc : c.Shaped) :
    ∀ p ∈ (ps.lower c).rows, p.Shaped := by
  unfold Projections.lower
  split
  · exact h
  rename_i q hq
  obtain ⟨hmem, hkey⟩ := find?_eq_some_iff.mp hq
  have hshape := h q hmem
  refine shaped_write h ?_
  by_cases hw : q.windowKey = c.windowKey
  · rw [ProjectionChange.Shaped, ← hkey, ← hw] at hc
    simpa [hw] using hshape.max hc
  · simpa [hw] using hshape

variable {cs : List ProjectionChange}

theorem shaped_foldl {step : Projections → ProjectionChange → Projections}
    (hstep : ∀ ps c, (∀ p ∈ ps.rows, Projection.Shaped p) → ProjectionChange.Shaped c →
      ∀ p ∈ (step ps c).rows, p.Shaped) (hcs : ∀ c ∈ cs, c.Shaped) (h : ∀ p ∈ ps.rows, p.Shaped) :
    ∀ p ∈ (cs.foldl step ps).rows, p.Shaped := by
  induction cs generalizing ps with
  | nil => exact h
  | cons c cs ih =>
    exact ih (fun d hd => hcs d (List.mem_cons_of_mem c hd))
      (hstep ps c h (hcs c List.mem_cons_self))

theorem shaped_change (hcs : ∀ c ∈ cs, c.Shaped)
    (h : ∀ p ∈ ps.rows, p.Shaped) (hchange : ps.change cs = .ok qs) : ∀ p ∈ qs.rows, p.Shaped := by
  obtain ⟨-, ⟨-, rfl⟩ | ⟨-, -, rfl⟩⟩ := Projections.change_eq_ok hchange
  · exact shaped_foldl (fun _ _ h hc => shaped_raise h hc) hcs h
  · exact shaped_foldl (fun _ _ h hc => shaped_lower h hc) hcs h

end

end SmsPlatform.Usage
