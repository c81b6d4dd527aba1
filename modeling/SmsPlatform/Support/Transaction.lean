import Mathlib.Data.List.Forall2

/-!
# Transactions

A transaction yields a new state or fails; a failure leaves nothing behind.  The lemmas take a
successful transaction apart into its steps.
-/

namespace SmsPlatform.Support

open List

variable {ε α β : Type} {f : α → Except ε β} {b : β} {e : ε} {x : Except ε α} {p : Prop}

/-- Go on only under a condition. -/
def require (p : Prop) [Decidable p] (e : ε) : Except ε Unit :=
  if p then .ok () else .error e

/-- Go on only with a value. -/
def orFail (e : ε) : Option α → Except ε α
  | some a => .ok a
  | none => .error e

theorem bind_eq_ok : x >>= f = .ok b ↔ ∃ a, x = .ok a ∧ f a = .ok b := by
  cases x with
  | error e =>
    constructor
    · intro h
      cases h
    · rintro ⟨a, h, -⟩
      cases h
  | ok a =>
    constructor
    · exact fun h => ⟨a, rfl, h⟩
    · rintro ⟨a', h, hf⟩
      cases h
      exact hf

theorem require_eq_ok [Decidable p] {u : Unit} : require p e = .ok u ↔ p := by
  unfold require
  by_cases h : p <;> simp

theorem orFail_eq_ok {o : Option α} {a : α} : orFail e o = .ok a ↔ o = some a := by
  cases o <;> simp [orFail]

/-- What a step that runs a transaction has done. -/
theorem map_toOption_eq_some {g : α → β} :
    x.toOption.map g = some b ↔ ∃ a, x = .ok a ∧ g a = b := by
  cases x <;> simp [Except.toOption]

/-- After a condition the rest of the transaction runs. -/
theorem require_bind_eq_ok [Decidable p] {f : Unit → Except ε β} :
    (require p e >>= f) = .ok b ↔ p ∧ f () = .ok b := by
  rw [bind_eq_ok]
  constructor
  · rintro ⟨u, hu, hf⟩
    exact ⟨require_eq_ok.mp hu, hf⟩
  · rintro ⟨hp, hf⟩
    exact ⟨(), require_eq_ok.mpr hp, hf⟩

theorem orFail_bind_eq_ok {o : Option α} :
    (orFail e o >>= f) = .ok b ↔ ∃ a, o = some a ∧ f a = .ok b := by
  rw [bind_eq_ok]
  simp [orFail_eq_ok]

/-- A relation that every step of a loop keeps holds between the ends of the loop. -/
theorem foldlM_induction {σ : Type} {f : σ → α → Except ε σ} {P : σ → Prop} {xs : List α}
    (hstep : ∀ s x t, x ∈ xs → P s → f s x = .ok t → P t) {s t : σ} (hs : P s)
    (h : xs.foldlM f s = .ok t) : P t := by
  induction xs generalizing s with
  | nil =>
    cases h
    exact hs
  | cons x xs ih =>
    obtain ⟨u, hu, hrest⟩ := bind_eq_ok.mp h
    have hPu : P u := hstep s x u mem_cons_self hs hu
    exact ih (fun s y t hy => hstep s y t (mem_cons_of_mem x hy)) hPu hrest

/-- A loop that collects a result for every element. -/
theorem forall₂_of_mapM {xs : List α} {ys : List β} (h : xs.mapM f = .ok ys) :
    List.Forall₂ (fun x y => f x = .ok y) xs ys := by
  induction xs generalizing ys with
  | nil =>
    cases h
    exact .nil
  | cons x xs ih =>
    rw [mapM_cons] at h
    obtain ⟨y, hy, h⟩ := bind_eq_ok.mp h
    obtain ⟨ys', hys, ⟨⟩⟩ := bind_eq_ok.mp h
    exact .cons hy (ih hys)

end SmsPlatform.Support
