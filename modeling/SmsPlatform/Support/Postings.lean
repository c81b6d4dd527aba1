import Mathlib.Algebra.Order.BigOperators.Group.List
import Mathlib.Tactic.Ring

/-!
# Postings and balances

A posting is an amount that an owner has put on an account.  The balance of an account is the
sum of the postings whose owners count.  A store that keeps balances beside the postings has to
follow four kinds of change: postings are added, an owner ceases to count, postings become
smaller, and accounts are merged.
-/

namespace SmsPlatform.Support

open List

/-- An amount that an owner has put on an account. -/
structure Posting (ι κ : Type*) where
  owner : ι
  account : κ
  amount : ℕ

variable {ι κ : Type*} [DecidableEq κ]

/-- What the owners that count have put on an account. -/
def balance (counts : ι → Bool) (k : κ) (ps : List (Posting ι κ)) : ℕ :=
  (ps.map fun p => if counts p.owner = true ∧ p.account = k then p.amount else 0).sum

section

variable {counts counts' : ι → Bool} {k : κ} {ps qs : List (Posting ι κ)}

@[simp] theorem balance_nil : balance counts k ([] : List (Posting ι κ)) = 0 := rfl

theorem balance_cons (p : Posting ι κ) : balance counts k (p :: ps) =
      (if counts p.owner = true ∧ p.account = k then p.amount else 0) + balance counts k ps :=
  sum_cons

theorem balance_append :
    balance counts k (ps ++ qs) = balance counts k ps + balance counts k qs := by
  simp [balance]

theorem balance_perm (h : ps.Perm qs) : balance counts k ps = balance counts k qs :=
  (h.map _).sum_eq

theorem balance_congr (h : ∀ p ∈ ps, p.account = k → counts p.owner = counts' p.owner) :
    balance counts k ps = balance counts' k ps := by
  refine congrArg List.sum (map_congr_left (fun p hp => ?_))
  by_cases hk : p.account = k
  · rw [h p hp hk]
  · simp [hk]

theorem balance_pos_iff : 0 < balance counts k ps ↔
      ∃ p ∈ ps, counts p.owner = true ∧ p.account = k ∧ 0 < p.amount := by
  induction ps with
  | nil => simp
  | cons p ps ih =>
    rw [balance_cons, Nat.add_pos_iff_pos_or_pos, ih, exists_mem_cons_iff]
    refine or_congr ?_ .rfl
    by_cases hp : counts p.owner = true ∧ p.account = k
    · rw [if_pos hp]
      exact ⟨fun h => ⟨hp.1, hp.2, h⟩, fun h => h.2.2⟩
    · rw [if_neg hp]
      exact ⟨fun h => absurd h (lt_irrefl 0), fun h => absurd ⟨h.1, h.2.1⟩ hp⟩

theorem balance_eq_zero (h : ∀ p ∈ ps, counts p.owner = true → p.account = k → p.amount = 0) :
    balance counts k ps = 0 := by
  refine Nat.eq_zero_of_not_pos (fun hpos => ?_)
  obtain ⟨p, hp, hcounts, hk, hamount⟩ := balance_pos_iff.mp hpos
  exact hamount.ne' (h p hp hcounts hk)

/-- An owner that ceases to count takes its own postings out of the balance. -/
theorem balance_without [DecidableEq ι] {o : ι} (ho : counts o = true) : balance counts k ps =
      balance (fun i => counts i && !decide (i = o)) k ps +
        balance (fun i => decide (i = o)) k ps := by
  induction ps with
  | nil => rfl
  | cons p ps ih =>
    rw [balance_cons, balance_cons, balance_cons, ih]
    by_cases hk : p.account = k
    · by_cases hp : p.owner = o
      · simp only [hp, ho, hk, decide_true, Bool.not_true, Bool.and_false, Bool.false_eq_true,
          if_true, if_false, and_true]
        ring
      · simp only [hp, hk, decide_false, Bool.not_false, Bool.and_true, Bool.false_eq_true,
          and_true, if_false]
        ring
    · simp [hk]

variable {α : Type*} {xs : List α} {f : α → Posting ι κ} {ι' : Type*}

/-- Postings that differ in their owners only, all of which count. -/
theorem balance_map_congr {g : α → Posting ι' κ}
    {counts' : ι' → Bool} (hcounts : ∀ x ∈ xs, counts (f x).owner = counts' (g x).owner)
    (haccount : ∀ x ∈ xs, (f x).account = (g x).account)
    (hamount : ∀ x ∈ xs, (f x).amount = (g x).amount) :
    balance counts k (xs.map f) = balance counts' k (xs.map g) := by
  unfold balance
  rw [map_map, map_map]
  refine congrArg List.sum (map_congr_left (fun x hx => ?_))
  simp [hcounts x hx, haccount x hx, hamount x hx]

theorem balance_flatMap {f : α → List (Posting ι κ)} :
    balance counts k (xs.flatMap f) = (xs.map fun x => balance counts k (f x)).sum := by
  induction xs with
  | nil => rfl
  | cons x xs ih => rw [flatMap_cons, balance_append, ih, map_cons, sum_cons]

/-- The posting `q` puts no more on the account than `p`. -/
def Posting.Shrinks (p q : Posting ι κ) : Prop :=
  p.owner = q.owner ∧ p.account = q.account ∧ q.amount ≤ p.amount

/-- Postings become smaller by what is taken off some of them. -/
theorem balance_lower {g : α → Posting ι κ} {taken : α → Posting ι' κ} {p : α → Bool}
    (hshrinks : ∀ x, (f x).Shrinks (g x))
    (hrest : ∀ x ∈ xs, p x = false → (g x).amount = (f x).amount)
    (htaken : ∀ x ∈ xs, p x = true → counts (f x).owner = true ∧
      (taken x).account = (f x).account ∧ (g x).amount + (taken x).amount = (f x).amount) :
    balance counts k (xs.map g) + balance (fun _ => true) k ((xs.filter p).map taken) =
      balance counts k (xs.map f) := by
  induction xs with
  | nil => rfl
  | cons x xs ih =>
    have ih := ih (fun y hy => hrest y (mem_cons_of_mem x hy))
      (fun y hy => htaken y (mem_cons_of_mem x hy))
    obtain ⟨howner, haccount, -⟩ := hshrinks x
    rw [map_cons, map_cons, balance_cons, balance_cons, ← howner, ← haccount, filter_cons]
    cases hx : p x with
    | false => rw [if_neg Bool.false_ne_true, hrest x mem_cons_self hx, Nat.add_assoc, ih]
    | true =>
      obtain ⟨hcounts, hsame, hamount⟩ := htaken x mem_cons_self hx
      rw [if_pos rfl, map_cons, balance_cons, hsame]
      simp only [hcounts, true_and]
      split <;> omega

/-- In a list without repetitions an account stands once. -/
theorem sum_map_single {accounts : List κ} (hnodup : accounts.Nodup) (b : κ) (n : ℕ) :
    (accounts.map fun a => if b = a then n else 0).sum = if b ∈ accounts then n else 0 := by
  induction accounts with
  | nil => rfl
  | cons a accounts ih =>
    obtain ⟨hnot, hrest⟩ := nodup_cons.mp hnodup
    rw [map_cons, sum_cons, ih hrest]
    by_cases hb : b = a
    · subst hb
      simp [hnot]
    · simp [hb]

/-- Balances of accounts that become one add up. -/
theorem balance_rename {f : κ → κ} {accounts : List κ} (hnodup : accounts.Nodup)
    (haccounts : ∀ p ∈ ps, f p.account = k ↔ p.account ∈ accounts) :
    balance counts k (ps.map fun p => { p with account := f p.account }) =
      (accounts.map fun a => balance counts a ps).sum := by
  induction ps with
  | nil => simp
  | cons p ps ih =>
    have hrest := ih (fun q hq => haccounts q (mem_cons_of_mem p hq))
    have hhead := haccounts p mem_cons_self
    have hsplit : (accounts.map fun a => balance counts a (p :: ps)).sum =
        (accounts.map fun a =>
          if counts p.owner = true ∧ p.account = a then p.amount else 0).sum +
        (accounts.map fun a => balance counts a ps).sum := by
      rw [← sum_map_add]
      rfl
    rw [map_cons, balance_cons, hrest, hsplit]
    congr 1
    by_cases hcounts : counts p.owner = true
    · simp [hcounts, hhead, sum_map_single hnodup]
    · simp [hcounts]

end

end SmsPlatform.Support
