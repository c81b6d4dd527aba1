import Mathlib.Data.List.Lex
import Mathlib.Data.List.Sort
import SmsPlatform.Support.Text

/-!
# The rotation of the reclaim

A round of the reclaim inspects as many spill files as its budget allows and leaves the
name of the last one as a cursor.  The next round begins with the files whose names come
after the cursor.

If the listing is in the order of names, each round takes up where the last one stopped.
But the temporary files are listed behind all others, whatever their names: a temporary
file whose name comes before the last of the others can be passed over in every round.
-/

namespace SmsPlatform.Spill

open Support List

/-! ## Rounds -/

/-- The files of a directory in the order in which the reclaim lists them. -/
def reclaimPaths (names : List Text) : List Text :=
  (names.filter fun name => (lit ".spill").isSuffixOf name).insertionSort (· ≤ ·) ++
    (names.filter fun name => (lit ".spill.tmp").isSuffixOf name).insertionSort (· ≤ ·)

/-- `_read_reclaim_cursor_locked`: a name that cannot be a cursor counts as none. -/
def readReclaimCursor (after : Text) : Option Text :=
  if after.isEmpty || after.contains '/'.toNat || after.contains '\\'.toNat ||
    after.head? == some '.'.toNat then none else some after

/-- The files after the cursor come first. -/
def rotatedPaths (paths : List Text) (after : Text) : List Text :=
  match readReclaimCursor after with
  | none => paths
  | some after => paths.filter (after < ·) ++ paths.filter (· ≤ after)

/-- `_write_reclaim_cursor_locked`: a name that may not be written leaves the old cursor. -/
def writeReclaimCursor (old name : Text) : Text :=
  if name.isEmpty || name.contains '/'.toNat || name.contains '\\'.toNat then old else name

/-- The files that `_reclaim_spills_locked` inspects before its budget is exhausted, if
all of them are retained, and the cursor it leaves. -/
def reclaimRound (paths : List Text) (after : Text) (budget : ℕ) : List Text × Text :=
  let inspected := (rotatedPaths paths after).take budget
  (inspected, writeReclaimCursor after (inspected.getLastD after))

/-- The files inspected in a number of rounds, each with its own budget. -/
def reclaimRounds (paths : List Text) : Text → List ℕ → List Text
  | _, [] => []
  | after, budget :: budgets =>
    (reclaimRound paths after budget).1 ++
      reclaimRounds paths (reclaimRound paths after budget).2 budgets

/-! ## Listings in the order of names -/

section

variable {paths : List Text} {after name : Text} {budget : ℕ} {budgets : List ℕ}

theorem writeReclaimCursor_eq (old : Text) (hname : readReclaimCursor name = some name) :
    writeReclaimCursor old name = name := by
  unfold readReclaimCursor at hname
  unfold writeReclaimCursor
  split at hname <;> simp_all

theorem rotatedPaths_perm (paths : List Text) (after : Text) :
    (rotatedPaths paths after).Perm paths := by
  unfold rotatedPaths
  split
  · exact .refl _
  · rename_i after _
    simp only [← not_le, decide_not]
    exact perm_append_comm.trans (filter_append_perm (· ≤ after) paths)

section

variable (hsorted : paths.Pairwise (· < ·))
include hsorted

theorem rotatedPaths_of_split (hname : readReclaimCursor name = some name) (left right : List Text)
    (hpaths : paths = left ++ name :: right) :
    rotatedPaths paths name = right ++ (left ++ [name]) := by
  subst hpaths
  rw [pairwise_append, pairwise_cons] at hsorted
  obtain ⟨-, ⟨hright, -⟩, hleft⟩ := hsorted
  have hbefore : ∀ x ∈ left, x < name := fun x hx => hleft x hx name mem_cons_self
  simp only [rotatedPaths, hname, filter_append, filter_cons, lt_irrefl, le_refl]
  rw [filter_eq_nil_iff.mpr fun x hx => by simpa using (hbefore x hx).le,
    filter_eq_self.mpr fun x hx => by simpa using hright x hx,
    filter_eq_self.mpr fun x hx => by simpa using (hbefore x hx).le,
    filter_eq_nil_iff.mpr fun x hx => by simpa using hright x hx]
  simp

theorem rotatedPaths_eq (after : Text) :
    ∃ left right, paths = left ++ right ∧ rotatedPaths paths after = right ++ left := by
  unfold rotatedPaths
  split
  · exact ⟨[], paths, rfl, (append_nil _).symm⟩
  · rename_i after _
    refine ⟨paths.filter (· ≤ after), paths.filter (after < ·), ?_, rfl⟩
    induction paths with
    | nil => rfl
    | cons x paths ih =>
      obtain ⟨hx, hpaths⟩ := pairwise_cons.mp hsorted
      by_cases hle : x ≤ after
      · simp [hle, not_lt.mpr hle, ← ih hpaths]
      · have hlt : ∀ y ∈ x :: paths, after < y :=
          forall_mem_cons.mpr ⟨not_le.mp hle, fun y hy => (not_le.mp hle).trans (hx y hy)⟩
        rw [filter_eq_nil_iff.mpr fun y hy => by simpa using hlt y hy,
          filter_eq_self.mpr fun y hy => by simpa using hlt y hy, nil_append]

/-- A round takes up where the last one stopped. -/
theorem rotatedPaths_reclaimRound
    (hcursors : ∀ name ∈ paths, readReclaimCursor name = some name) (hbudget : 1 ≤ budget) :
    rotatedPaths paths (reclaimRound paths after budget).2 =
      (rotatedPaths paths after).drop budget ++ (rotatedPaths paths after).take budget := by
  obtain ⟨left, right, rfl, hrotated⟩ := rotatedPaths_eq hsorted after
  simp only [reclaimRound, hrotated]
  have hsplit := take_append_drop budget (right ++ left)
  rcases eq_nil_or_concat' ((right ++ left).take budget) with hnil | ⟨inspected, name, hlast⟩
  · have hempty : right ++ left = [] := (take_eq_nil_iff.mp hnil).resolve_left (by omega)
    obtain ⟨rfl, rfl⟩ := append_eq_nil_iff.mp hempty
    simpa [writeReclaimCursor] using hrotated
  rw [hlast] at hsplit ⊢
  generalize (right ++ left).drop budget = rest at hsplit ⊢
  have hmem : name ∈ right ++ left := hsplit ▸ by simp
  have hname : readReclaimCursor name = some name := hcursors name (by simpa [or_comm] using hmem)
  rw [getLastD_concat, writeReclaimCursor_eq after hname]
  -- the last file is in the part that was listed second or in the one listed first
  rcases append_eq_append_iff.mp hsplit with ⟨more, rfl, rfl⟩ | ⟨more, hjoin, rfl⟩
  · rw [rotatedPaths_of_split hsorted hname (left ++ inspected) more (by simp)]
    simp
  rcases eq_nil_or_concat' more with rfl | ⟨more, name', rfl⟩
  · obtain rfl : right = inspected ++ [name] := by simpa using hjoin.symm
    rw [rotatedPaths_of_split hsorted hname (rest ++ inspected) [] (by simp)]
    simp
  · rw [← append_assoc] at hjoin
    obtain ⟨rfl, ⟨⟩⟩ := append_inj' hjoin rfl
    rw [rotatedPaths_of_split hsorted hname more (rest ++ right) (by simp)]
    simp

theorem mem_reclaimRounds
    (hcursors : ∀ name ∈ paths, readReclaimCursor name = some name)
    (hbudgets : ∀ budget ∈ budgets, 1 ≤ budget)
    (h : name ∈ (rotatedPaths paths after).take budgets.length) :
    name ∈ reclaimRounds paths after budgets := by
  induction budgets generalizing after with
  | nil => exact absurd h (by simp)
  | cons budget budgets ih =>
    obtain ⟨hbudget, hrest⟩ := forall_mem_cons.mp hbudgets
    by_cases hnow : name ∈ (rotatedPaths paths after).take budget
    · exact mem_append_left _ hnow
    refine mem_append_right _ (ih hrest ?_)
    rw [rotatedPaths_reclaimRound hsorted hcursors hbudget, take_append]
    rw [← take_append_drop budget (rotatedPaths paths after), take_append] at h
    rcases mem_append.mp h with h | h
    · exact absurd (mem_of_mem_take h) hnow
    have hlength : budget < (rotatedPaths paths after).length := by
      by_contra hlt
      simp [drop_eq_nil_of_le (not_lt.mp hlt)] at h
    refine mem_append_left _ (take_subset_take_left _ ?_ h)
    simp only [length_cons, length_take]
    omega

end

/-! ## Other listings -/

theorem mem_reclaimRounds_of_covers (hbudget : budget ∈ budgets)
    (hcovers : paths.length ≤ budget) (hname : name ∈ paths) :
    name ∈ reclaimRounds paths after budgets := by
  induction budgets generalizing after with
  | nil => cases hbudget
  | cons budget' budgets ih =>
    rcases mem_cons.mp hbudget with rfl | hbudget
    · have hperm := rotatedPaths_perm paths after
      refine mem_append_left _ ?_
      rw [reclaimRound, take_of_length_le (hperm.length_eq.trans_le hcovers)]
      exact hperm.mem_iff.mpr hname
    · exact mem_append_right _ (ih hbudget)

/-- The first file of a rotated listing has a name that comes after all those listed before it. -/
theorem before_of_rotatedPaths {rest : List Text} (h : rotatedPaths paths after = name :: rest) :
    ∃ left right, paths = left ++ name :: right ∧ ∀ x ∈ left, x < name := by
  unfold rotatedPaths at h
  split at h
  · exact ⟨[], rest, h, by simp⟩
  rename_i after _
  cases hlater : paths.filter (after < ·) with
  | nil =>
    have hall : ∀ x ∈ paths, x ≤ after := by simpa using hlater
    rw [hlater, nil_append, filter_eq_self.mpr (by simpa using hall)] at h
    exact ⟨[], rest, h, by simp⟩
  | cons first later =>
    rw [hlater] at h
    obtain ⟨rfl, -⟩ := cons.inj h
    obtain ⟨left, right, hpaths, hleft, hfirst, -⟩ := filter_eq_cons_iff.mp hlater
    refine ⟨left, right, hpaths, fun x hx => ?_⟩
    exact (not_lt.mp (by simpa using hleft x hx)).trans_lt (by simpa using hfirst)

theorem before_of_mem_reclaimRounds {rounds : ℕ}
    (h : name ∈ reclaimRounds paths after (replicate rounds 1)) :
    ∃ left right, paths = left ++ name :: right ∧ ∀ x ∈ left, x < name := by
  induction rounds generalizing after with
  | zero => simp [reclaimRounds] at h
  | succ rounds ih =>
    rcases mem_append.mp h with h | h
    · cases hrotated : rotatedPaths paths after with
      | nil => simp [reclaimRound, hrotated] at h
      | cons first rest =>
        obtain rfl : name = first := by simpa [reclaimRound, hrotated] using h
        exact before_of_rotatedPaths hrotated
    · exact ih h

end

/-- As many rounds as there are files inspect them all, from any cursor, if the listing is
in the order of names and each of them can be a cursor, or if the budget of a round covers
the listing.  With a budget of one no number of rounds inspects a file that is listed behind
a later name. -/
theorem reclaim_rotation_fair (names : List Text) (after : Text) (budgets : List ℕ)
    (hbudgets : ∀ budget ∈ budgets, 1 ≤ budget)
    (hrounds : (reclaimPaths names).length ≤ budgets.length)
    (hlisting : ((reclaimPaths names).Pairwise (· < ·) ∧
        ∀ name ∈ reclaimPaths names, readReclaimCursor name = some name) ∨
      ∃ budget ∈ budgets, (reclaimPaths names).length ≤ budget) :
    (∀ name ∈ reclaimPaths names, name ∈ reclaimRounds (reclaimPaths names) after budgets) ∧
      ∀ rounds, ∀ name ∈ reclaimRounds (reclaimPaths names) after (replicate rounds 1),
        ∃ left right, reclaimPaths names = left ++ name :: right ∧ ∀ x ∈ left, x < name := by
  refine ⟨fun name hname => ?_, fun rounds name => before_of_mem_reclaimRounds⟩
  rcases hlisting with ⟨hsorted, hcursors⟩ | ⟨budget, hbudget, hcovers⟩
  · have hperm := rotatedPaths_perm (reclaimPaths names) after
    refine mem_reclaimRounds hsorted hcursors hbudgets ?_
    rw [take_of_length_le (hperm.length_eq.trans_le hrounds)]
    exact hperm.mem_iff.mpr hname
  · exact mem_reclaimRounds_of_covers hbudget hcovers hname

/-- A spill file of the reports. -/
def sampleSpill (digit : Char) (suffix : String) : Text :=
  lit "report-" ++ replicate 32 digit.toNat ++ lit suffix

theorem reclaim_rotation_fair_spills : sampleSpill '1' ".spill" ∈ reclaimRounds
      (reclaimPaths [sampleSpill '1' ".spill", sampleSpill '0' ".spill"]) [] [1, 1] :=
  (reclaim_rotation_fair _ _ _ (by decide) (by decide +kernel)
    (.inl ⟨by decide +kernel, by decide +kernel⟩)).1 _ (by decide +kernel)

/-- Three files and a budget of one: the rounds take the first and the third in turn and
never the second, which is temporary. -/
theorem temporary_passed_over :
    let first := sampleSpill '0' ".spill"
    let second := sampleSpill '1' ".spill.tmp"
    let third := sampleSpill '2' ".spill"
    let paths := reclaimPaths [first, second, third]
    second ∈ paths ∧ second ∉ reclaimRounds paths [] [1, 1, 1] ∧
      reclaimRound paths first 1 = ([third], third) ∧
      reclaimRound paths third 1 = ([first], first) := by
  decide +kernel

end SmsPlatform.Spill
