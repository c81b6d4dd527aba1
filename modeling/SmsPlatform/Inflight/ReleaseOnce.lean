import SmsPlatform.Inflight.Commits

/-!
# A reservation is released once

A release gives back what the locked row holds, raises its generation and leaves
all other rows alone.  A transaction releases rows before it does anything else;
whatever it does then keeps the generation of every row and keeps active rows
active.  A row is changed only by a transaction that presents its generation, and
only the repair makes a released row active.
-/

namespace SmsPlatform.Inflight

open Support Table List Bool Option

/-- The identity and the generation under which a row is presented. -/
def Reservation.key (r : Reservation) : ReservationId × ℕ := (r.id, r.generation)

/-- The row is given back: the balance of its application loses what the row holds,
and a released row of the next generation takes its place. -/
structure Frees (l : Ledger) (r : Reservation) (l' : Ledger) : Prop where
  active : r.state.isActive = true
  released : ∃ r', Replaces l l' r r' ∧ r'.state = .released ∧ r'.generation = r.generation + 1
  balance : l.Moves l' r.appId (-r.reservedChunks)

/-- Rows are given back one after the other. -/
inductive FreesAll : Ledger → List Reservation → Ledger → Prop
  | nil {l l' : Ledger} (h : l.Same l') : FreesAll l [] l'
  | cons {l l₁ l' : Ledger} {r : Reservation} {rs : List Reservation} (h : Frees l r l₁)
      (hrest : FreesAll l₁ rs l') : FreesAll l (r :: rs) l'

variable {a : Action} {changed : Bool} {q : DeltaRequest} {l l₁ l' : Ledger}
  {rs rs' rows : List Reservation} {app : Option AppId} {r r' : Reservation} {id : ReservationId}
  {now : Time} {w w' : World} {generation tx : ℕ} {reason : String}

theorem Frees.of_same (hsame : l.Same l₁) (h : Frees l₁ r l') : Frees l r l' := by
  obtain ⟨r', hrows, hreleased⟩ := h.released
  refine ⟨h.active, ⟨r', ⟨hsame.rows ▸ hrows.mem, hrows.id_eq, hrows.appId_eq, ?_⟩, hreleased⟩, ?_⟩
  · rw [← hsame.rows]
    exact hrows.mem_iff
  · intro app
    rw [← hsame.balance]
    exact h.balance app

theorem FreesAll.append (h : FreesAll l rs l₁) (h' : FreesAll l₁ rs' l') :
    FreesAll l (rs ++ rs') l' := by
  induction h with
  | nil hsame =>
    cases h' with
    | nil hsame' => exact .nil (hsame.trans hsame')
    | cons hr hrest => exact .cons (hr.of_same hsame) hrest
  | cons hr _ ih => exact .cons hr (ih h')

/-- The rows that are left when one has been given back. -/
theorem Frees.mem_iff (h : Frees l r l') {s : Reservation} (hs : s.state.isActive = true) :
    s ∈ l'.reservations ↔ s ∈ l.reservations ∧ s.id ≠ r.id := by
  obtain ⟨r', hrows, hreleased, -⟩ := h.released
  rw [hrows.mem_iff, or_iff_right]
  rintro rfl
  rw [hreleased] at hs
  cases hs

/-- The rows that are given back are active rows of the ledger, each once. -/
theorem FreesAll.nodup (h : FreesAll l rs l') : (rs.map Reservation.id).Nodup ∧
    ∀ r ∈ rs, r ∈ l.reservations ∧ r.state.isActive = true := by
  induction h with
  | nil => exact ⟨nodup_nil, by simp⟩
  | @cons l l₁ l' r rs hr _ ih =>
    obtain ⟨hnodup, hmem⟩ := ih
    have hkept : ∀ s ∈ rs, s ∈ l.reservations ∧ s.id ≠ r.id :=
      fun s hs => (hr.mem_iff (hmem s hs).2).mp (hmem s hs).1
    obtain ⟨r', hrows, -⟩ := hr.released
    refine ⟨nodup_cons.mpr ⟨?_, hnodup⟩, fun s hs => ?_⟩
    · intro hin
      obtain ⟨s, hs, hid⟩ := mem_map.mp hin
      exact (hkept s hs).2 hid
    · rcases mem_cons.mp hs with rfl | hs
      · exact ⟨hrows.mem, hr.active⟩
      · exact ⟨(hkept s hs).1, (hmem s hs).2⟩

/-- Every balance loses what the rows of its application hold. -/
theorem FreesAll.balance (h : FreesAll l rs l') (app : AppId) :
    l'.balanceOf app = l.balanceOf app - (rs.map (Reservation.weight app)).sum := by
  induction h with
  | nil hsame => simpa using hsame.balance app
  | cons hr _ ih =>
    have hweight : Reservation.weight app _ = if _ = app then _ else 0 :=
      if_congr (and_iff_left hr.active) rfl rfl
    rw [ih, hr.balance app, map_cons, sum_cons, hweight]
    split <;> omega

/-- A row stays unless it is given back, and is then released. -/
theorem FreesAll.row (h : FreesAll l rs l') (hr : r ∈ l.reservations) :
    (r ∉ rs → r ∈ l'.reservations) ∧ (r ∈ rs → ∃ r' ∈ l'.reservations,
      r'.id = r.id ∧ r'.state = .released ∧ r'.generation = r.generation + 1) := by
  induction h generalizing r with
  | nil hsame => exact ⟨fun _ => hsame.rows ▸ hr, by simp⟩
  | @cons l l₁ l' s rs hs hrest ih =>
    obtain ⟨s', hrows, hreleased, hgeneration⟩ := hs.released
    by_cases hid : r.id = s.id
    · obtain rfl : r = s := eq_of_key_eq hr hrows.mem hid
      have hs' : s' ∉ rs := by
        intro hin
        have hactive := (hrest.nodup.2 s' hin).2
        rw [hreleased] at hactive
        cases hactive
      refine ⟨fun hnot => absurd mem_cons_self hnot, fun _ => ⟨s', ?_, hrows.id_eq, ?_⟩⟩
      · exact (ih ((hrows.mem_iff s').mpr (.inl rfl))).1 hs'
      · exact ⟨hreleased, hgeneration⟩
    · have hkept := ih ((hrows.mem_iff r).mpr (.inr ⟨hr, hid⟩))
      have hne : r ≠ s := fun heq => hid (congrArg Reservation.id heq)
      simpa [hne] using hkept

/-! ## Rows that are kept -/

/-- No row is given back: generations stay, active rows stay active, a released row
becomes active by a repair only, and rows that are not presented do not change. -/
structure Keeps (ps : List (ReservationId × ℕ)) (repaired : Prop) (l l' : Ledger) : Prop where
  row : ∀ r ∈ l.reservations, ∃ r' ∈ l'.reservations, r'.id = r.id ∧
    r'.generation = r.generation ∧ (r.state.isActive = true → r'.state.isActive = true) ∧
    (r'.state.isActive = true → r.state.isActive = true ∨ repaired)
  other : ∀ r ∈ l.reservations, r.key ∉ ps → r ∈ l'.reservations

variable {ps : List (ReservationId × ℕ)} {repaired : Prop}

theorem Keeps.of_rows (h : ∀ r ∈ l.reservations, r ∈ l'.reservations) : Keeps ps repaired l l' :=
  ⟨fun r hr => ⟨r, h r hr, rfl, rfl, fun h => h, .inl⟩, fun r hr _ => h r hr⟩

theorem Keeps.of_same (h : l.Same l') : Keeps ps repaired l l' :=
  .of_rows (fun _ hr => h.rows ▸ hr)

theorem Keeps.refl (l : Ledger) : Keeps ps repaired l l := .of_rows (fun _ hr => hr)

theorem Keeps.trans (h : Keeps ps repaired l l₁) (h' : Keeps ps repaired l₁ l') :
    Keeps ps repaired l l' := by
  refine ⟨fun r hr => ?_, fun r hr hkey => h'.other r (h.other r hr hkey) hkey⟩
  obtain ⟨r₁, hr₁, hid₁, hgen₁, hactive₁, hback₁⟩ := h.row r hr
  obtain ⟨r₂, hr₂, hid₂, hgen₂, hactive₂, hback₂⟩ := h'.row r₁ hr₁
  refine ⟨r₂, hr₂, hid₂.trans hid₁, hgen₂.trans hgen₁, hactive₂ ∘ hactive₁, fun hr₂ => ?_⟩
  exact (hback₂ hr₂).elim hback₁ .inr

theorem Keeps.of_replaces (h : Replaces l l' r r') (hkey : r.key ∈ ps)
    (hgeneration : r'.generation = r.generation) (hactive : r'.state.isActive = true)
    (hbefore : r.state.isActive = true ∨ repaired) : Keeps ps repaired l l' := by
  refine ⟨fun s hs => ?_, fun s hs hs' => (h.mem_iff s).mpr (.inr ⟨hs, fun hid => ?_⟩)⟩
  · by_cases hid : s.id = r.id
    · obtain rfl : s = r := eq_of_key_eq hs h.mem hid
      exact ⟨r', (h.mem_iff r').mpr (.inl rfl), h.id_eq, hgeneration, fun _ => hactive,
        fun _ => hbefore⟩
    · exact ⟨s, (h.mem_iff s).mpr (.inr ⟨hs, hid⟩), rfl, rfl, fun h => h, .inl⟩
  · rw [eq_of_key_eq hs h.mem hid] at hs'
    exact hs' hkey

/-! ## The operations -/

/-- Rows presented by `ps` are given back. -/
def FreesSome (ps : List (ReservationId × ℕ)) (l l' : Ledger) : Prop :=
  ∃ rs, FreesAll l rs l' ∧ ∀ r ∈ rs, r.key ∈ ps

theorem FreesSome.trans (h : FreesSome ps l l₁) (h' : FreesSome ps l₁ l') : FreesSome ps l l' := by
  obtain ⟨rs, hrs, hps⟩ := h
  obtain ⟨rs', hrs', hps'⟩ := h'
  refine ⟨rs ++ rs', hrs.append hrs', fun r hr => ?_⟩
  exact (mem_append.mp hr).elim (hps r) (hps' r)

theorem FreesSome.of_same (h : l.Same l') : FreesSome ps l l' := ⟨[], .nil h, by simp⟩

/-- A request that leaves its row active. -/
theorem keeps_request (h : applyReservationDelta l q now = .ok (l', changed))
    (hps : (q.reservationId, q.generation) ∈ ps)
    (hbefore : ∀ s ∈ q.expectedStates, s.isActive = true ∨ repaired)
    (hafter : ∀ s ∈ q.expectedStates, (q.nextState.getD s).isActive = true) :
    Keeps ps repaired l l' := by
  rcases applyReservationDelta_ok h with ⟨-, hsame⟩ | ⟨-, r, -, hid, -, hacc, hrows, -⟩
  · exact .of_same hsame
  have hstate := state_of_accepts hacc
  have hactive := hafter _ hstate
  refine .of_replaces hrows ?_ ?_ hactive (hbefore _ hstate)
  · rwa [Reservation.key, hid, generation_of_accepts hacc]
  · have hkeep : q.nextState ≠ some .released := by
      intro hnext
      rw [hnext] at hactive
      cases hactive
    simp [DeltaRequest.after, DeltaRequest.update, hkeep]

variable {current : Option Reservation} {limit : ℕ}

theorem keeps_split (h : expandInFlightForSplit l current 1 limit now = .ok (l', changed)) :
    Keeps (current.toList.map Reservation.key) repaired l l' := by
  obtain ⟨r, rfl, happly⟩ := expandInFlightForSplit_ok h
  exact keeps_request happly (by simp [Reservation.key, splitRequest])
    (by simp [splitRequest, ReservationState.isActive])
    (by simp [splitRequest, ReservationState.isActive])

variable {h : Host}

/-- What a transaction does: it gives rows back that it presents, if it releases at
all, then keeps the others, and takes from a balance after that only to settle it. -/
def Transacts (ps : List (ReservationId × ℕ)) (repaired frees : Prop) (l l' : Ledger) : Prop :=
  ∃ freed l₁, FreesAll l freed l₁ ∧ (∀ r ∈ freed, r.key ∈ ps ∧ frees) ∧
    Keeps ps repaired l₁ l' ∧ (frees → ∀ app,
      l₁.balanceOf app ≤ l'.balanceOf app ∨ l'.balanceOf app = l'.activeSum app)

variable {frees : Prop}

theorem Transacts.refl (l : Ledger) : Transacts ps repaired frees l l :=
  ⟨[], l, .nil (.refl l), by simp, .refl l, fun _ _ => .inl le_rfl⟩

def World.remembered (w : World) (tx : ℕ) : List (ReservationId × ℕ) :=
  (w.rowsRead tx).map Reservation.key

/-- The release that a step asks for: the row, the reason and the time. -/
def Action.asked : Action → Option ((ReservationId × ℕ) × String × Time)
  | .release id generation reason _ now => some ((id, generation), reason, now)
  | .releaseUnbound id generation _ now => some ((id, generation), "acceptance-failed", now)
  | _ => none

/-- The steps that release: those that ask for it, and the reconciliation. -/
def Action.releases : Action → Bool
  | .commitReconcile _ _ => true
  | a => a.asked.isSome

variable {result : Except LedgerError Ledger}

end SmsPlatform.Inflight
