import Mathlib.Algebra.Order.BigOperators.Group.List
import Mathlib.Data.List.Sort
import Mathlib.Tactic.Ring

/-!
# Keyed tables

A table is a finite list of rows no two of which share their primary key.  The
uniqueness proof is a field, so that every update has to keep it and later
arguments can use it without an invariant of their own.

The operations are those of a relational store: lookup by key, conditional
update of all rows meeting a predicate, and insertion of a row with a fresh
key.
-/

namespace SmsPlatform.Support

open List Option

/-- A finite list of rows with pairwise distinct keys. -/
structure Table {ρ κ : Type*} (key : ρ → κ) where
  rows : List ρ
  nodup : (rows.map key).Nodup

namespace Table

variable {ρ κ : Type*} {key : ρ → κ} {t : Table key} {r : ρ}

instance : Membership ρ (Table key) := ⟨fun t r => r ∈ t.rows⟩

theorem mem_rows : r ∈ t.rows ↔ r ∈ t := .rfl

@[ext] theorem ext {u : Table key} (h : t.rows = u.rows) : t = u := by
  cases t
  cases u
  cases h
  rfl

/-- The table without rows. -/
def empty (key : ρ → κ) : Table key := ⟨[], by simp⟩

@[simp] theorem rows_empty : (empty key).rows = [] := rfl

@[simp] theorem not_mem_empty (r : ρ) : ¬ r ∈ empty key := by
  simp [← mem_rows]

/-- Rows with equal keys are equal. -/
theorem eq_of_key_eq {r' : ρ} (hr : r ∈ t) (hr' : r' ∈ t) (h : key r = key r') : r = r' :=
  inj_on_of_nodup_map t.nodup hr hr' h

/-! ## Lookup -/

section

variable [DecidableEq κ]

/-- The row with the given key. -/
def find? (t : Table key) (k : κ) : Option ρ :=
  t.rows.find? (fun r => decide (key r = k))

theorem find?_eq_some_iff {k : κ} : t.find? k = some r ↔ r ∈ t ∧ key r = k := by
  constructor
  · intro h
    exact ⟨mem_of_find?_eq_some h, by simpa using find?_some h⟩
  · rintro ⟨hr, rfl⟩
    cases h : t.find? (key r) with
    | none =>
      have hnone := find?_eq_none.mp h r hr
      simp at hnone
    | some r' =>
      have hr' : r' ∈ t := mem_of_find?_eq_some h
      have hkey : key r' = key r := by simpa using find?_some h
      rw [eq_of_key_eq hr' hr hkey]

theorem find?_eq_none_iff {k : κ} : t.find? k = none ↔ ∀ r ∈ t, key r ≠ k := by
  simp [find?, mem_rows]

end

/-! ## Conditional update -/

/-- An `UPDATE ... SET ... WHERE`: which rows it touches and what it makes of
them.  The primary key is never rewritten. -/
structure Update {ρ κ : Type*} (key : ρ → κ) where
  applies : ρ → Bool
  change : ρ → ρ
  key_change : ∀ r, key (change r) = key r

/-- The effect of an update on one row. -/
def Update.row (u : Update key) (r : ρ) : ρ :=
  if u.applies r then u.change r else r

variable {u : Update key}

theorem Update.row_of_applies (h : u.applies r = true) : u.row r = u.change r := by
  simp [Update.row, h]

theorem Update.row_of_not_applies (h : u.applies r = false) : u.row r = r := by
  simp [Update.row, h]

theorem Update.key_row (u : Update key) (r : ρ) : key (u.row r) = key r := by
  by_cases h : u.applies r = true <;> simp [Update.row, h, u.key_change]

/-- Execute an update. -/
def apply (t : Table key) (u : Update key) : Table key where
  rows := t.rows.map u.row
  nodup := by
    have hkeys : (t.rows.map u.row).map key = t.rows.map key := by
      rw [List.map_map]
      exact List.map_congr_left (fun r _ => u.key_row r)
    rw [hkeys]
    exact t.nodup

/-- The number of rows an update touches. -/
def rowcount (t : Table key) (u : Update key) : ℕ :=
  t.rows.countP u.applies

@[simp] theorem rows_apply (t : Table key) (u : Update key) :
    (t.apply u).rows = t.rows.map u.row := rfl

theorem mem_apply_iff : r ∈ t.apply u ↔ ∃ r₀ ∈ t, u.row r₀ = r := by
  simp [← mem_rows]

theorem row_mem_apply (hr : r ∈ t) : u.row r ∈ t.apply u := mem_apply_iff.mpr ⟨r, hr, rfl⟩

theorem mem_apply_cases (h : r ∈ t.apply u) :
    r ∈ t ∧ u.applies r = false ∨ ∃ r₀ ∈ t, u.applies r₀ = true ∧ r = u.change r₀ := by
  obtain ⟨r₀, hr₀, rfl⟩ := mem_apply_iff.mp h
  cases happ : u.applies r₀ with
  | true => exact .inr ⟨r₀, hr₀, happ, Update.row_of_applies happ⟩
  | false =>
    rw [Update.row_of_not_applies happ]
    exact .inl ⟨hr₀, happ⟩

/-- A row is followed through an update by its image. -/
theorem eq_row_of_mem_apply {r' : ρ} (hr : r ∈ t) (hr' : r' ∈ t.apply u) (hkey : key r' = key r) :
    r' = u.row r := by
  have hrow : u.row r ∈ t.apply u := row_mem_apply hr
  exact eq_of_key_eq hr' hrow (hkey.trans (u.key_row r).symm)

/-- Case analysis of an update on one row. -/
theorem Update.row_cases {P : ρ → Prop} (hsame : P r) (happ : u.applies r = true → P (u.change r)) :
    P (u.row r) := by
  cases h : u.applies r with
  | true =>
    rw [row_of_applies h]
    exact happ h
  | false =>
    rw [row_of_not_applies h]
    exact hsame

/-- An update that reports a row has found one that meets its predicate. -/
theorem exists_applies_of_rowcount_pos (h : 0 < t.rowcount u) : ∃ r ∈ t, u.applies r = true := by
  simpa [rowcount, mem_rows] using h

theorem apply_congr {v : Update key} (h : ∀ r ∈ t, u.row r = v.row r) : t.apply u = t.apply v :=
  ext (map_congr_left h)

/-- An update that finds no row changes nothing. -/
theorem apply_of_rowcount_eq_zero (h : t.rowcount u = 0) : t.apply u = t := by
  refine ext ?_
  have hsame : ∀ r ∈ t.rows, u.row r = r := by
    intro r hr
    exact Update.row_of_not_applies (by simpa using countP_eq_zero.mp h r hr)
  rw [rows_apply, map_congr_left hsame, List.map_id']

/-! ## Insertion -/

/-- `INSERT` of a row whose key is not yet in the table. -/
def insertNew (t : Table key) (r : ρ) (h : ∀ x ∈ t.rows, key x ≠ key r) :
    Table key where
  rows := t.rows ++ [r]
  nodup := by
    rw [List.map_append, List.nodup_append]
    refine ⟨t.nodup, by simp, ?_⟩
    intro k hk k' hk'
    obtain ⟨x, hx, rfl⟩ := List.mem_map.mp hk
    have hk'' : k' = key r := by simpa using hk'
    rw [hk'']
    exact h x hx

@[simp] theorem mem_insertNew_iff {x : ρ} (h : ∀ x ∈ t.rows, key x ≠ key r) :
    x ∈ t.insertNew r h ↔ x ∈ t ∨ x = r := by
  simp [← mem_rows, insertNew]

/-! ## Deletion -/

/-- `DELETE` of every row that fails the predicate. -/
def keep (t : Table key) (p : ρ → Bool) : Table key where
  rows := t.rows.filter p
  nodup := t.nodup.sublist ((List.filter_sublist).map key)

variable {p : ρ → Bool}

@[simp] theorem mem_keep_iff : r ∈ t.keep p ↔ r ∈ t ∧ p r = true := by
  simp [← mem_rows, keep]

/-- Write a row over the one that has its key, if there is one. -/
def put [DecidableEq κ] (t : Table key) (r : ρ) : Table key :=
  (t.keep fun x => decide (key x ≠ key r)).insertNew r (by
    intro x hx
    simpa using (mem_keep_iff.mp hx).2)

theorem mem_put_iff [DecidableEq κ] {x : ρ} : x ∈ t.put r ↔ (x ∈ t ∧ key x ≠ key r) ∨ x = r := by
  simp [put]

theorem forall_mem_put [DecidableEq κ] {P : ρ → Prop} (hold : ∀ x ∈ t, P x) (hnew : P r) :
    ∀ x ∈ t.put r, P x := by
  intro x hx
  rcases mem_put_iff.mp hx with ⟨hx, -⟩ | rfl
  · exact hold x hx
  · exact hnew

/-- A row replaced by one related to no other row leaves related rows equal. -/
theorem eq_of_mem_put [DecidableEq κ] {R : ρ → ρ → Prop} (hsymm : ∀ x y, R x y → R y x)
    (hold : ∀ x ∈ t, ∀ y ∈ t, R x y → x = y) (hnew : ∀ x ∈ t, key x ≠ key r → ¬ R x r) :
    ∀ x ∈ t.put r, ∀ y ∈ t.put r, R x y → x = y := by
  intro x hx y hy hrel
  rcases mem_put_iff.mp hx with ⟨hx, hne⟩ | hx
  · rcases mem_put_iff.mp hy with ⟨hy, -⟩ | hy
    · exact hold x hx y hy hrel
    · exact absurd (hy ▸ hrel) (hnew x hx hne)
  · rcases mem_put_iff.mp hy with ⟨hy, hne⟩ | hy
    · exact absurd (hx ▸ hsymm _ _ hrel) (hnew y hy hne)
    · rw [hx, hy]

section

variable [DecidableEq κ] {k : κ}

theorem isSome_find?_iff : (t.find? k).isSome = true ↔ ∃ r ∈ t, key r = k := by
  rw [isSome_iff_exists]
  simp [find?_eq_some_iff]

/-- A row is found in every table that contains it. -/
theorem find?_of_subset {u : Table key} (h : ∀ r, r ∈ t → r ∈ u) (hr : t.find? k = some r) :
    u.find? k = some r := by
  obtain ⟨hmem, hkey⟩ := find?_eq_some_iff.mp hr
  exact find?_eq_some_iff.mpr ⟨h r hmem, hkey⟩

/-- Lookups in tables with the same row for a key agree on it. -/
theorem find?_congr {u : Table key} (h : ∀ r, key r = k → (r ∈ t ↔ r ∈ u)) :
    t.find? k = u.find? k := by
  refine Option.ext (fun r => ?_)
  rw [find?_eq_some_iff, find?_eq_some_iff]
  exact ⟨fun hr => ⟨(h r hr.2).mp hr.1, hr.2⟩, fun hr => ⟨(h r hr.2).mpr hr.1, hr.2⟩⟩

theorem find?_put_self (t : Table key) (r : ρ) : (t.put r).find? (key r) = some r :=
  find?_eq_some_iff.mpr ⟨mem_put_iff.mpr (.inr rfl), rfl⟩

theorem find?_put_of_ne (h : k ≠ key r) : (t.put r).find? k = t.find? k := by
  refine find?_congr (fun x hx => ?_)
  rw [mem_put_iff]
  constructor
  · rintro (hx' | rfl)
    · exact hx'.1
    · exact absurd hx.symm h
  · exact fun hx' => .inl ⟨hx', hx.trans_ne h⟩

theorem find?_apply : (t.apply u).find? k = (t.find? k).map u.row := by
  refine Option.ext (fun r => ?_)
  rw [find?_eq_some_iff, mem_apply_iff, map_eq_some_iff]
  constructor
  · rintro ⟨⟨r₀, hr₀, rfl⟩, hkey⟩
    exact ⟨r₀, find?_eq_some_iff.mpr ⟨hr₀, (u.key_row r₀).symm.trans hkey⟩, rfl⟩
  · rintro ⟨r₀, hr₀, rfl⟩
    obtain ⟨hmem, hkey⟩ := find?_eq_some_iff.mp hr₀
    exact ⟨⟨r₀, hmem, rfl⟩, (u.key_row r₀).trans hkey⟩

theorem find?_keep_of_true (h : ∀ r, key r = k → p r = true) : (t.keep p).find? k = t.find? k := by
  refine find?_congr (fun r hr => ?_)
  rw [mem_keep_iff]
  exact and_iff_left (h r hr)

theorem find?_keep_of_false (h : ∀ r, key r = k → p r = false) : (t.keep p).find? k = none := by
  refine find?_eq_none_iff.mpr (fun r hr hkey => ?_)
  have htrue := (mem_keep_iff.mp hr).2
  rw [h r hkey] at htrue
  cases htrue

end

/-! ## Insertion of several rows -/

section

variable [DecidableEq κ] {u : Table key}

/-- `INSERT` of several rows; `none` where a key is already taken. -/
def insertAll? (t : Table key) (rs : List ρ) : Option (Table key) :=
  if h : ((t.rows ++ rs).map key).Nodup then some ⟨t.rows ++ rs, h⟩ else none

theorem rows_of_insertAll? {rs : List ρ} (h : t.insertAll? rs = some u) :
    u.rows = t.rows ++ rs := by
  unfold insertAll? at h
  split at h
  · cases h
    rfl
  · cases h

/-- `UPDATE` that may rewrite keys; `none` where two rows would share one. -/
def map? (t : Table key) (f : ρ → ρ) : Option (Table key) :=
  if h : ((t.rows.map f).map key).Nodup then some ⟨t.rows.map f, h⟩ else none

theorem rows_of_map? {f : ρ → ρ} (h : t.map? f = some u) : u.rows = t.rows.map f := by
  unfold map? at h
  split at h
  · cases h
    rfl
  · cases h

end

/-! ## Ordered selection -/

/-- `SELECT ... WHERE ... ORDER BY ... LIMIT`, again as a table. -/
def select (t : Table key) (p : ρ → Bool) (le : ρ → ρ → Prop) [DecidableRel le]
    (limit : ℕ) : Table key where
  rows := ((t.rows.filter p).insertionSort le).take limit
  nodup := by
    have hfilter : ((t.rows.filter p).map key).Nodup :=
      t.nodup.sublist ((List.filter_sublist).map key)
    have hsorted : (((t.rows.filter p).insertionSort le).map key).Nodup :=
      ((List.perm_insertionSort le _).map key).nodup_iff.mpr hfilter
    exact hsorted.sublist ((List.take_sublist _ _).map key)

theorem mem_of_mem_select {le : ρ → ρ → Prop} [DecidableRel le] {limit : ℕ}
    (h : r ∈ t.select p le limit) : r ∈ t ∧ p r = true := by
  have hsorted := mem_of_mem_take (mem_rows.mpr h)
  rw [mem_insertionSort, mem_filter] at hsorted
  exact hsorted

/-! ## Versions of a table -/

section

variable {R S : ρ → ρ → Prop} {u v : Table key}

/-- Row by row, `u` is a later version of `t`. -/
def Rel (R : ρ → ρ → Prop) (t u : Table key) : Prop :=
  List.Forall₂ R t.rows u.rows

theorem Rel.refl (hR : ∀ r, R r r) (t : Table key) : Rel R t t := forall₂_same.mpr (fun r _ => hR r)

theorem Rel.trans (hR : ∀ a b c, R a b → R b c → R a c)
    (h : Rel R t u) (h' : Rel R u v) : Rel R t v := by
  have hlists : ∀ {xs ys zs : List ρ}, List.Forall₂ R xs ys → List.Forall₂ R ys zs →
      List.Forall₂ R xs zs := by
    intro xs ys zs hxy
    induction hxy generalizing zs with
    | nil => exact fun hyz => hyz
    | cons hab _ ih =>
      intro hyz
      cases hyz with
      | cons hbc htail => exact .cons (hR _ _ _ hab hbc) (ih htail)
  exact hlists h h'

theorem Rel.apply {w : Update key} (h : ∀ r ∈ t, R r (w.row r)) : Rel R t (t.apply w) := by
  unfold Rel
  rw [rows_apply, forall₂_map_right_iff]
  exact forall₂_same.mpr h

theorem Rel.apply_change {w : Update key} (hR : ∀ r, R r r) (h : ∀ r, R r (w.change r)) :
    Rel R t (t.apply w) := .apply (fun r _ => Update.row_cases (hR r) (fun _ => h r))

theorem Rel.exists_right (h : Rel R t u) (hr : r ∈ t) : ∃ r' ∈ u, R r r' := by
  obtain ⟨i, hi, rfl⟩ := getElem_of_mem (mem_rows.mpr hr)
  obtain ⟨hlength, hget⟩ := forall₂_iff_get.mp h
  exact ⟨u.rows[i], getElem_mem _, hget i hi (hlength ▸ hi)⟩

theorem Rel.exists_left (h : Rel R t u) {r' : ρ} (hr : r' ∈ u) : ∃ r ∈ t, R r r' := by
  obtain ⟨i, hi, rfl⟩ := getElem_of_mem (mem_rows.mpr hr)
  obtain ⟨hlength, hget⟩ := forall₂_iff_get.mp h
  exact ⟨t.rows[i], getElem_mem _, hget i (hlength ▸ hi) hi⟩

variable {β : Type*} {f : ρ → β}

/-- A query that only reads what the versions share has the same answer. -/
theorem Rel.filter_map_eq (h : Rel R t u) {q : ρ → Bool}
    (hpq : ∀ a b, R a b → p a = q b ∧ f a = f b) :
    (t.rows.filter p).map f = (u.rows.filter q).map f := by
  unfold Rel at h
  generalize t.rows = xs at h
  generalize u.rows = ys at h
  induction h with
  | nil => rfl
  | cons hab _ ih =>
    obtain ⟨hp, hf⟩ := hpq _ _ hab
    rw [filter_cons, filter_cons, hp]
    split
    · rw [map_cons, map_cons, hf, ih]
    · exact ih

/-- A lookup that only reads what the versions share has the same answer. -/
theorem Rel.find?_any_eq [DecidableEq κ] (h : Rel R t u)
    (hR : ∀ a b, R a b → key b = key a ∧ p b = p a) (k : κ) :
    (u.find? k).any p = (t.find? k).any p := by
  cases hfind : t.find? k with
  | none =>
    have hnone : u.find? k = none := by
      refine find?_eq_none_iff.mpr (fun r' hr' heq => ?_)
      obtain ⟨r, hr, hrr⟩ := h.exists_left hr'
      exact find?_eq_none_iff.mp hfind r hr ((hR r r' hrr).1.symm.trans heq)
    rw [hnone]
  | some r =>
    obtain ⟨hr, hkey⟩ := find?_eq_some_iff.mp hfind
    obtain ⟨r', hr', hrr⟩ := h.exists_right hr
    obtain ⟨hkey', hf⟩ := hR r r' hrr
    rw [find?_eq_some_iff.mpr ⟨hr', hkey'.trans hkey⟩]
    exact hf

theorem Rel.mono (hRS : ∀ a b, R a b → S a b) (h : Rel R t u) : Rel S t u := .imp hRS h

theorem Rel.with_mem (h : Rel R t u) : Rel (fun a b => R a b ∧ a ∈ t ∧ b ∈ u) t u := by
  obtain ⟨hlength, hget⟩ := forall₂_iff_get.mp h
  exact forall₂_iff_get.mpr ⟨hlength, fun i hi hi' =>
    ⟨hget i hi hi', get_mem _ _, get_mem _ _⟩⟩

theorem Rel.map_eq (h : Rel R t u) (hf : ∀ a b, R a b → f b = f a) :
    u.rows.map f = t.rows.map f := by
  unfold Rel at h
  generalize t.rows = xs at h
  generalize u.rows = ys at h
  induction h with
  | nil => rfl
  | cons hab _ ih => rw [map_cons, map_cons, hf _ _ hab, ih]

/-- Tables that list the same keys and agree on the row of each are equal. -/
theorem eq_of_keys (hkeys : t.rows.map key = u.rows.map key)
    (hrows : ∀ r ∈ t, ∀ r' ∈ u, key r = key r' → r = r') : t = u := by
  refine ext (ext_getElem? (fun i => ?_))
  have hget : t.rows[i]?.map key = u.rows[i]?.map key := by
    rw [← getElem?_map, ← getElem?_map, hkeys]
  cases ht : t.rows[i]? with
  | none =>
    rw [ht] at hget
    exact (map_eq_none_iff.mp hget.symm).symm
  | some r =>
    rw [ht] at hget
    obtain ⟨r', hr', hkey⟩ := map_eq_some_iff.mp hget.symm
    rw [hr', hrows r (mem_of_getElem? ht) r' (mem_of_getElem? hr') hkey.symm]

end

/-! ## Sums over the rows -/

section

variable (f : ρ → ℤ) {t : Table key}

/-- The sum of a column. -/
def total (t : Table key) : ℤ := (t.rows.map f).sum

@[simp] theorem total_empty : (empty key).total f = 0 := rfl

theorem total_insertNew (t : Table key) (r : ρ) (h : ∀ x ∈ t.rows, key x ≠ key r) :
    (t.insertNew r h).total f = t.total f + f r := by
  simp [total, insertNew]

/-- An update that leaves the column alone leaves its sum alone. -/
theorem total_apply_of_eq (h : ∀ r ∈ t, f (u.row r) = f r) : (t.apply u).total f = t.total f := by
  unfold total
  rw [rows_apply, List.map_map]
  exact congrArg List.sum (map_congr_left h)

/-- The other rows of the table have other keys. -/
theorem exists_split (hr : r ∈ t) : ∃ before after, t.rows = before ++ r :: after ∧
    ∀ s ∈ before ++ after, s ∈ t ∧ key s ≠ key r := by
  obtain ⟨before, after, hsplit⟩ := append_of_mem (mem_rows.mpr hr)
  refine ⟨before, after, hsplit, ?_⟩
  intro s hs
  constructor
  · rw [← mem_rows, hsplit]
    rcases mem_append.mp hs with hs | hs
    · exact mem_append_left _ hs
    · exact mem_append_right _ (mem_cons_of_mem _ hs)
  · have hnodup := t.nodup
    rw [hsplit, map_append, map_cons, nodup_middle, nodup_cons, ← map_append] at hnodup
    intro heq
    exact hnodup.1 (heq ▸ mem_map_of_mem hs)

/-- An update of a single row moves the sum by the change of that row. -/
theorem total_apply_single (hr : r ∈ t) (honly : ∀ s ∈ t, u.applies s = true → key s = key r) :
    (t.apply u).total f = t.total f + (f (u.row r) - f r) := by
  obtain ⟨before, after, hsplit, hothers⟩ := exists_split hr
  have hrest : ∀ s ∈ before ++ after, u.row s = s := by
    intro s hs
    obtain ⟨hmem, hne⟩ := hothers s hs
    refine Update.row_of_not_applies ?_
    cases happ : u.applies s with
    | true => exact absurd (honly s hmem happ) hne
    | false => rfl
  have hbefore : before.map (f ∘ u.row) = before.map f := by
    refine map_congr_left (fun s hs => ?_)
    rw [Function.comp_apply, hrest s (mem_append_left _ hs)]
  have hafter : after.map (f ∘ u.row) = after.map f := by
    refine map_congr_left (fun s hs => ?_)
    rw [Function.comp_apply, hrest s (mem_append_right _ hs)]
  simp only [total, rows_apply, hsplit, List.map_map, map_append, map_cons,
    hbefore, hafter, sum_append, sum_cons]
  ring

/-- An update that moves the column of every row it finds by the same amount. -/
theorem total_apply_const (d : ℤ) (h : ∀ r ∈ t, u.applies r = true → f (u.change r) = f r + d) :
    (t.apply u).total f = t.total f + d * t.rowcount u := by
  have hlist : ∀ rows : List ρ, (∀ r ∈ rows, u.applies r = true → f (u.change r) = f r + d) →
      ((rows.map u.row).map f).sum = (rows.map f).sum + d * (rows.countP u.applies) := by
    intro rows
    induction rows with
    | nil => simp
    | cons r rows ih =>
      intro hrows
      have hrest := ih (fun s hs => hrows s (mem_cons_of_mem r hs))
      by_cases happ : u.applies r = true
      · have hrow := hrows r mem_cons_self happ
        simp only [map_cons, sum_cons, Update.row_of_applies happ,
          countP_cons_of_pos happ, hrest, hrow, Nat.cast_add, Nat.cast_one]
        ring
      · have hnot : u.applies r = false := by simpa using happ
        simp only [map_cons, sum_cons, Update.row_of_not_applies hnot,
          countP_cons_of_neg happ, hrest]
        ring
  exact hlist t.rows h

theorem total_nonneg (hf : ∀ r ∈ t, 0 ≤ f r) : 0 ≤ t.total f := by
  refine sum_nonneg (fun v hv => ?_)
  obtain ⟨r, hr, rfl⟩ := mem_map.mp hv
  exact hf r hr

theorem total_eq_zero_iff (hf : ∀ r ∈ t, 0 ≤ f r) : t.total f = 0 ↔ ∀ r ∈ t, f r = 0 := by
  have hlist : ∀ rows : List ρ, (∀ r ∈ rows, 0 ≤ f r) →
      ((rows.map f).sum = 0 ↔ ∀ r ∈ rows, f r = 0) := by
    intro rows
    induction rows with
    | nil => simp
    | cons r rows ih =>
      intro hrows
      have hrest : ∀ s ∈ rows, 0 ≤ f s := fun s hs => hrows s (mem_cons_of_mem r hs)
      have hsum : 0 ≤ (rows.map f).sum := by
        refine sum_nonneg (fun v hv => ?_)
        obtain ⟨s, hs, rfl⟩ := mem_map.mp hv
        exact hrest s hs
      have hhead := hrows r mem_cons_self
      rw [map_cons, sum_cons, forall_mem_cons, ← ih hrest]
      omega
  exact hlist t.rows hf

/-- A column that vanishes on all rows but one sums to its value there. -/
theorem total_eq_of_others_zero (hr : r ∈ t) (hzero : ∀ s ∈ t, key s ≠ key r → f s = 0) :
    t.total f = f r := by
  obtain ⟨before, after, hsplit, hothers⟩ := exists_split hr
  have hsum : ∀ xs : List ρ, (∀ s ∈ xs, s ∈ before ++ after) → (xs.map f).sum = 0 := by
    intro xs hxs
    refine sum_eq_zero (fun v hv => ?_)
    obtain ⟨s, hs, rfl⟩ := mem_map.mp hv
    obtain ⟨hmem, hne⟩ := hothers s (hxs s hs)
    exact hzero s hmem hne
  have hbefore := hsum before (fun s hs => mem_append_left _ hs)
  have hafter := hsum after (fun s hs => mem_append_right _ hs)
  simp [total, hsplit, hbefore, hafter]

end

end Table

end SmsPlatform.Support
