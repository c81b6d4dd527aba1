import Mathlib.Data.Option.Basic

/-!
# Labelled machines, runs and reachability

A machine is a set of initial states together with a partial successor
function on states and labels.  A label carries everything that the machine
itself does not determine: which party moves, what a remote call answered and
the value of the clock.

The module packages the two inductions that every safety argument uses: an
invariant of all reachable states, and a relation between the two ends of a
run.  Both are available for runs whose steps are restricted by a side
condition.
-/

namespace SmsPlatform.Support

open Option

/-- A set of initial states and a partial successor function. -/
structure Machine (σ : Type*) (ℓ : Type*) where
  init : σ → Prop
  next : σ → ℓ → Option σ

namespace Machine

variable {σ : Type*} {ℓ : Type*} {M : Machine σ ℓ} {as : List ℓ} {s t : σ} {ok : σ → ℓ → Prop}

/-- Execute a list of labels in order. -/
def run (M : Machine σ ℓ) : σ → List ℓ → Option σ
  | s, [] => some s
  | s, a :: as => (M.next s a).bind (fun t => run M t as)

/-- States reached by steps that all meet the side condition `ok`. -/
inductive ReachableWhere (M : Machine σ ℓ) (ok : σ → ℓ → Prop) : σ → Prop
  | init {s : σ} (h : M.init s) : ReachableWhere M ok s
  | step {s t : σ} {a : ℓ} (hs : ReachableWhere M ok s) (hok : ok s a)
      (h : M.next s a = some t) : ReachableWhere M ok t

/-- States reached by any steps of the machine. -/
def Reachable (M : Machine σ ℓ) : σ → Prop :=
  ReachableWhere M (fun _ _ => True)

theorem Reachable.init (h : M.init s) : M.Reachable s := ReachableWhere.init h

theorem Reachable.step {a : ℓ} (hs : M.Reachable s) (h : M.next s a = some t) : M.Reachable t :=
  ReachableWhere.step hs trivial h

theorem ReachableWhere.mono {ok' : σ → ℓ → Prop} (hok : ∀ s a, ok s a → ok' s a)
    (h : M.ReachableWhere ok s) : M.ReachableWhere ok' s := by
  induction h with
  | init h => exact .init h
  | step _ hs h ih => exact ih.step (hok _ _ hs) h

theorem ReachableWhere.reachable (h : M.ReachableWhere ok s) : M.Reachable s :=
  h.mono (fun _ _ _ => trivial)

/-- An inductive invariant holds in every state reached under `ok`. -/
theorem ReachableWhere.invariant {I : σ → Prop} (hinit : ∀ s, M.init s → I s)
    (hstep : ∀ s a t, I s → ok s a → M.next s a = some t → I t) (h : M.ReachableWhere ok s) :
    I s := by
  induction h with
  | init h => exact hinit _ h
  | step _ hok h ih => exact hstep _ _ _ ih hok h

/-- An inductive invariant holds in every reachable state. -/
theorem Reachable.invariant {I : σ → Prop} (hinit : ∀ s, M.init s → I s)
    (hstep : ∀ s a t, I s → M.next s a = some t → I t) (h : M.Reachable s) : I s :=
  ReachableWhere.invariant hinit (fun s a t hs _ h => hstep s a t hs h) h

@[simp] theorem run_nil (s : σ) : M.run s [] = some s := rfl

@[simp] theorem run_cons (s : σ) (a : ℓ) (as : List ℓ) :
    M.run s (a :: as) = (M.next s a).bind (fun t => M.run t as) := rfl

theorem run_append (s : σ) (as bs : List ℓ) :
    M.run s (as ++ bs) = (M.run s as).bind (fun t => M.run t bs) := by
  induction as generalizing s with
  | nil => rfl
  | cons a as ih => simp [ih, bind_assoc]

/-- A property of states that every step meeting `ok` preserves is preserved
by every run all of whose labels meet `ok`. -/
theorem run_preserves (ok : ℓ → Prop) (P : σ → Prop)
    (hstep : ∀ s a t, P s → ok a → M.next s a = some t → P t) (hs : P s) (hok : ∀ a ∈ as, ok a)
    (h : M.run s as = some t) : P t := by
  induction as generalizing s with
  | nil =>
    obtain rfl : s = t := by simpa using h
    exact hs
  | cons a as ih =>
    obtain ⟨u, hu, hrest⟩ := bind_eq_some_iff.mp h
    have hPu : P u := hstep s a u hs (hok a (by simp)) hu
    exact ih hPu (fun b hb => hok b (by simp [hb])) hrest

/-- A run whose labels meet the side condition in every state stays within the
states reached under it. -/
theorem ReachableWhere.run (hs : M.ReachableWhere ok s) (hok : ∀ a ∈ as, ∀ u, ok u a)
    (h : M.run s as = some t) : M.ReachableWhere ok t :=
  run_preserves (fun a => ∀ u, ok u a) (M.ReachableWhere ok)
    (fun s _ _ hs hok hnext => hs.step (hok s) hnext) hs hok h

/-- A run that starts in a reachable state ends in one. -/
theorem Reachable.run (hs : M.Reachable s) (h : M.run s as = some t) : M.Reachable t :=
  ReachableWhere.run hs (fun _ _ _ => trivial) h

/-- Execute a list of labels as long as every step meets the side condition. -/
def runWhere (M : Machine σ ℓ) (ok : σ → ℓ → Prop) [∀ s a, Decidable (ok s a)] :
    σ → List ℓ → Option σ
  | s, [] => some s
  | s, a :: as => if ok s a then (M.next s a).bind (fun t => runWhere M ok t as) else none

section

variable [∀ s a, Decidable (ok s a)] {s : σ}

theorem runWhere_cons_eq_some {a : ℓ} : M.runWhere ok s (a :: as) = some t ↔
      ok s a ∧ ∃ u, M.next s a = some u ∧ M.runWhere ok u as = some t := by
  have heq : M.runWhere ok s (a :: as) =
      if ok s a then (M.next s a).bind (fun t => M.runWhere ok t as) else none := rfl
  rw [heq]
  by_cases hok : ok s a
  · rw [if_pos hok, bind_eq_some_iff]
    exact (and_iff_right hok).symm
  · rw [if_neg hok]
    exact ⟨fun h => absurd h (by simp), fun h => absurd h.1 hok⟩

theorem ReachableWhere.runWhere (hs : M.ReachableWhere ok s) (h : M.runWhere ok s as = some t) :
    M.ReachableWhere ok t := by
  induction as generalizing s with
  | nil =>
    obtain rfl : s = t := Option.some.inj h
    exact hs
  | cons a as ih =>
    obtain ⟨hok, u, hu, hrest⟩ := runWhere_cons_eq_some.mp h
    exact ih (hs.step hok hu) hrest

theorem run_of_runWhere (h : M.runWhere ok s as = some t) : M.run s as = some t := by
  induction as generalizing s with
  | nil => exact h
  | cons a as ih =>
    obtain ⟨-, u, hu, hrest⟩ := runWhere_cons_eq_some.mp h
    rw [run_cons, hu]
    exact ih hrest

end

end Machine

end SmsPlatform.Support
