import SmsPlatform.Inflight.System

/-!
# Conservation of in-flight capacity

Every operation of the ledger is judged by what it does to the gap between an
application's balance and the sum over its active reservations.  The primitive
`applyReservationDelta` keeps the gap exactly when the amount it books equals
the change of the reservation's weight; the operations differ only in how they
come by that amount.

A release books what the locked row holds.  Materialisation books a difference
to a value read earlier, which the batch lock keeps current.  Split expansion
and the repair of split drift do the same without such a lock: they keep the gap
when, and only when, the value they have read is still the current one.
-/

namespace SmsPlatform.Inflight

open Support Table Update List

/-! ## Balance rows -/

variable {app : AppId} {changed : Bool} {q : DeltaRequest} {l l' : Ledger} {r row : Reservation}
  {id : ReservationId} {now : Time} {generation : ℕ}

variable {reason : String}

theorem balanceOf_addBalance (l : Ledger) (app app' : AppId) :
    (l.addBalance app).balanceOf app' = l.balanceOf app' := by
  unfold Ledger.addBalance
  split
  · rename_i h
    simp [Ledger.balanceOf, total_insertNew]
  · rfl

theorem reservations_addBalance (l : Ledger) (app : AppId) :
    (l.addBalance app).reservations = l.reservations := by
  unfold Ledger.addBalance
  split <;> rfl

/-- Neither an amount nor a reservation has changed. -/
structure Ledger.Same (l l' : Ledger) : Prop where
  balance : ∀ app, l'.balanceOf app = l.balanceOf app
  rows : l'.reservations = l.reservations

theorem Ledger.Same.refl (l : Ledger) : l.Same l := ⟨fun _ => rfl, rfl⟩

theorem Ledger.Same.trans {l₁ : Ledger} (h : l.Same l₁) (h' : l₁.Same l') : l.Same l' :=
  ⟨fun app => (h'.balance app).trans (h.balance app), h'.rows.trans h.rows⟩

theorem Ledger.Same.gap (h : l.Same l') (app : AppId) : l'.gap app = l.gap app := by
  unfold Ledger.gap Ledger.activeSum
  rw [h.balance, h.rows]

theorem same_addBalance (l : Ledger) (app : AppId) : l.Same (l.addBalance app) :=
  ⟨balanceOf_addBalance l app, reservations_addBalance l app⟩

variable {operation : Operation} {stored : ℕ}

/-- Locking a balance changes neither side of the ledger. -/
theorem lockBalance_ok {allowCreate : Bool}
    (h : lockBalance l app operation allowCreate = .ok (l', stored)) : l.Same l' := by
  unfold lockBalance at h
  dsimp only at h
  split at h
  · cases h
  split at h
  · cases h
  cases h
  split
  · exact same_addBalance l app
  · exact .refl l

/-- The balance of one application moves by `delta`, all others stay. -/
def Ledger.Moves (l l' : Ledger) (app : AppId) (delta : ℤ) : Prop :=
  ∀ app', l'.balanceOf app' = l.balanceOf app' + if app = app' then delta else 0

/-- `after` takes the place of the row `before`; all other rows stay. -/
structure Replaces (l l' : Ledger) (before after : Reservation) : Prop where
  mem : before ∈ l.reservations
  id_eq : after.id = before.id
  appId_eq : after.appId = before.appId
  mem_iff : ∀ r, r ∈ l'.reservations ↔ r = after ∨ (r ∈ l.reservations ∧ r.id ≠ before.id)

/-- An update that applies to a single row replaces it. -/
theorem replaces_of_update {u : Update Reservation.id} (hr : r ∈ l.reservations)
    (happ : u.applies r = true) (honly : ∀ s ∈ l.reservations, u.applies s = true → s.id = r.id)
    (happId : (u.change r).appId = r.appId) (hrows : l'.reservations = l.reservations.apply u) :
    Replaces l l' r (u.change r) where
  mem := hr
  id_eq := u.key_change r
  appId_eq := happId
  mem_iff := by
    intro s
    rw [hrows, mem_apply_iff]
    constructor
    · rintro ⟨x, hx, rfl⟩
      cases hxapp : u.applies x with
      | true =>
        left
        rw [eq_of_key_eq hx hr (honly x hx hxapp), row_of_applies happ]
      | false =>
        right
        rw [row_of_not_applies hxapp]
        refine ⟨hx, fun hid => ?_⟩
        rw [eq_of_key_eq hx hr hid, happ] at hxapp
        cases hxapp
    · rintro (rfl | ⟨hs, hne⟩)
      · exact ⟨r, hr, (row_of_applies happ)⟩
      · refine ⟨s, hs, row_of_not_applies ?_⟩
        cases hsapp : u.applies s with
        | true => exact absurd (honly s hs hsapp) hne
        | false => rfl

/-- A successful adjustment moves one balance by the requested amount. -/
theorem adjustLockedBalance_ok {delta : ℤ} {limit : Option ℕ}
    (h : adjustLockedBalance l app stored delta operation limit = .ok l') :
    l'.reservations = l.reservations ∧ l.Moves l' app delta := by
  unfold adjustLockedBalance at h
  split at h
  · rename_i hzero
    cases h
    exact ⟨rfl, fun app' => by simp [hzero]⟩
  dsimp only at h
  split at h
  · cases h
  split at h
  · cases h
  split at h
  · cases h
  rename_i hcount
  cases h
  refine ⟨rfl, fun app' => ?_⟩
  obtain ⟨b, hb, happ⟩ := exists_applies_of_rowcount_pos (Nat.pos_of_ne_zero hcount)
  have hrow : b.appId = app ∧ b.reservedChunks = stored := by
    simpa [setBalance] using happ
  have honly : ∀ c ∈ l.balances, (setBalance app stored
      (stored + delta).toNat).applies c = true → c.appId = b.appId := by
    intro c _ hc
    have hc' : c.appId = app ∧ c.reservedChunks = stored := by
      simpa [setBalance] using hc
    rw [hc'.1, hrow.1]
  have hsum := total_apply_single
    (fun c => if c.appId = app' then c.reservedChunks else 0) hb honly
  unfold Ledger.balanceOf
  rw [hsum, row_of_applies happ]
  by_cases heq : app = app'
  · simp only [setBalance, hrow.1, heq, if_true, hrow.2]
    omega
  · simp [setBalance, hrow.1, heq]

/-! ## Reservations -/

/-- What a request would make of the row. -/
def DeltaRequest.after (q : DeltaRequest) (r : Reservation) : Reservation :=
  (q.update (q.nextReservedChunks.getD r.reservedChunks)).change r

/-- The request books as much as the row's weight changes. -/
def DeltaRequest.Exact (q : DeltaRequest) (r : Reservation) : Prop :=
  q.amount r = (q.after r).weight q.appId - r.weight q.appId

theorem weight_of_other_app (h : r.appId ≠ app) : r.weight app = 0 := by
  simp [Reservation.weight, h]

theorem generation_of_accepts (h : q.accepts now r = true) : r.generation = q.generation := by
  simp only [DeltaRequest.accepts, Bool.and_eq_true, decide_eq_true_eq] at h
  exact h.1.1.1.1

theorem state_of_accepts (h : q.accepts now r = true) : r.state ∈ q.expectedStates := by
  simp only [DeltaRequest.accepts, Bool.and_eq_true, contains_eq_mem, decide_eq_true_eq] at h
  exact h.1.1.1.2

/-- The outcomes of `applyReservationDelta`: the row is refused and nothing
changes, or it is replaced and the balance moves by the amount. -/
theorem applyReservationDelta_ok (h : applyReservationDelta l q now = .ok (l', changed)) :
    ((changed = false ∧ ∀ r ∈ l.reservations, r.id = q.reservationId → q.accepts now r = false) ∧
      l.Same l') ∨ (changed = true ∧ ∃ r ∈ l.reservations,
      r.id = q.reservationId ∧ r.appId = q.appId ∧ q.accepts now r = true ∧
      Replaces l l' r (q.after r) ∧ l.Moves l' r.appId (q.amount r) ∧
      ∀ app, l'.gap app = l.gap app + ((if q.appId = app then q.amount r else 0) -
          ((q.after r).weight app - r.weight app))) := by
  unfold applyReservationDelta at h
  split at h
  · cases h
  rename_i l₁ stored hlock
  have hsame := lockBalance_ok hlock
  split at h
  · rename_i hfind
    cases h
    rw [hsame.rows, find?_eq_none_iff] at hfind
    exact .inl ⟨⟨rfl, fun r hr hid => absurd hid (hfind r hr)⟩, hsame⟩
  rename_i r hfind
  rw [hsame.rows, find?_eq_some_iff] at hfind
  obtain ⟨hr, hid⟩ := hfind
  split at h
  · cases h
  rename_i happ
  split at h
  · rename_i hrefused
    cases h
    refine .inl ⟨⟨rfl, fun s hs hsid => ?_⟩, hsame⟩
    rw [eq_of_key_eq hs hr (hsid.trans hid.symm)]
    simpa using hrefused
  rename_i haccepts
  dsimp only at h
  split at h
  · cases h
  split at h
  · cases h
  rename_i l₂ hadjust
  cases h
  obtain ⟨hres₂, hadjusted⟩ := adjustLockedBalance_ok hadjust
  have hrows : l₂.reservations = l.reservations := hres₂.trans hsame.rows
  have hacc : q.accepts now r = true := by simpa using haccepts
  have happlies : (q.update (q.nextReservedChunks.getD r.reservedChunks)).applies r = true := by
    simp [DeltaRequest.update, hid, generation_of_accepts hacc]
  have honly : ∀ s ∈ l.reservations, (q.update (q.nextReservedChunks.getD
      r.reservedChunks)).applies s = true → s.id = r.id := by
    intro s _ hs
    simp only [DeltaRequest.update, decide_eq_true_eq] at hs
    exact hs.1.trans hid.symm
  have hmoves : ∀ app, l₂.balanceOf app =
      l.balanceOf app + if r.appId = app then q.amount r else 0 := by
    intro app
    rw [hadjusted app, hsame.balance, not_not.mp happ]
  refine .inr ⟨rfl, r, hr, hid, not_not.mp happ, hacc,
    replaces_of_update hr happlies honly rfl (by rw [hrows]), hmoves, fun app => ?_⟩
  have hsum := total_apply_single (Reservation.weight app) hr honly
  rw [row_of_applies happlies] at hsum
  simp only [Ledger.gap, Ledger.activeSum, hrows, DeltaRequest.after]
  change l₂.balanceOf app - _ = _
  rw [hsum, hmoves app, not_not.mp happ]
  omega

/-- A request that books exactly keeps every gap. -/
theorem gap_applyReservationDelta (h : applyReservationDelta l q now = .ok (l', changed))
    (hexact : ∀ r ∈ l.reservations, r.id = q.reservationId → r.appId = q.appId →
      q.accepts now r = true → q.Exact r) : ∀ app, l'.gap app = l.gap app := by
  rcases applyReservationDelta_ok h with ⟨-, hsame⟩ | ⟨-, r, hr, hid, happ, hacc, -, -, hgap⟩
  · exact hsame.gap
  intro app
  rw [hgap app]
  by_cases heq : q.appId = app
  · have hr := hexact r hr hid happ hacc
    unfold DeltaRequest.Exact at hr
    subst heq
    simp only [if_true]
    omega
  · have hother : r.appId ≠ app := by rw [happ]; exact heq
    rw [weight_of_other_app hother, weight_of_other_app (show (q.after r).appId ≠ app from hother)]
    simp [heq]

/-! ## Exactness of the requests -/

/-- A release of an active row books exactly what the row holds. -/
theorem exact_of_release (hop : q.operation = .release) (hnext : q.nextState = some .released)
    (happ : r.appId = q.appId) (hactive : r.state.isActive = true) : q.Exact r := by
  have hafter : (q.after r).state = .released := by
    simp [DeltaRequest.after, DeltaRequest.update, hnext]
  have hreleased : ReservationState.released.isActive = false := rfl
  simp [DeltaRequest.Exact, DeltaRequest.amount, hop, Reservation.weight, hafter, happ,
    hactive, hreleased]

/-- An update of an active row to an active state books exactly when the
requested amount is the difference to the current value. -/
theorem exact_iff_of_active {occupancy : ℕ} (hop : q.operation ≠ .release)
    (hnext : q.nextReservedChunks = some occupancy)
    (hstate : (q.nextState.getD r.state).isActive = true) (happ : r.appId = q.appId)
    (hactive : r.state.isActive = true) :
    q.Exact r ↔ q.delta = (occupancy : ℤ) - r.reservedChunks := by
  have hafter : (q.after r).weight q.appId = occupancy := by
    simp [DeltaRequest.after, DeltaRequest.update, Reservation.weight, hnext, happ, hstate]
  have hbefore : r.weight q.appId = r.reservedChunks := by
    simp [Reservation.weight, happ, hactive]
  simp only [DeltaRequest.Exact, DeltaRequest.amount, hop, if_false, hafter, hbefore]

variable {current : Reservation}

theorem exact_materializeRequest_iff {actualChunks limit : ℕ}
    (happ : r.appId = current.appId) (hactive : r.state.isActive = true) :
    (materializeRequest current actualChunks limit).Exact r ↔
      r.reservedChunks = current.reservedChunks := by
  rw [exact_iff_of_active (by simp [materializeRequest]) rfl rfl happ hactive]
  simp only [materializeRequest]
  omega

theorem exact_splitRequest_iff {delta limit : ℕ}
    (happ : r.appId = current.appId) (hactive : r.state.isActive = true) :
    (splitRequest current delta limit).Exact r ↔ r.reservedChunks = current.reservedChunks := by
  rw [exact_iff_of_active (q := splitRequest current delta limit)
    (by simp [splitRequest]) rfl hactive happ hactive]
  simp only [splitRequest]
  omega

theorem exact_driftRequest_iff {gap : ℕ} (happ : r.appId = row.appId)
    (hactive : r.state.isActive = true) :
    (driftRequest row gap).Exact r ↔ r.reservedChunks = row.reservedChunks := by
  rw [exact_iff_of_active (q := driftRequest row gap)
    (by simp [driftRequest]) rfl hactive happ hactive]
  simp only [driftRequest]
  omega

/-- Restoring a released row books the value it is given. -/
theorem exact_restoreRequest (happ : r.appId = row.appId) (hstate : r.state = .released) :
    (restoreRequest row).Exact r := by
  simp [DeltaRequest.Exact, DeltaRequest.amount, restoreRequest, DeltaRequest.after,
    DeltaRequest.update, Reservation.weight, happ, hstate, ReservationState.isActive]

/-! ## Operations that keep every gap -/

theorem applyReserve_ok {estimated : ℕ} {limit : Option ℕ}
    (h : applyReserve l app estimated limit id now = .ok l') : (∀ r ∈ l.reservations, r.id ≠ id) ∧
    (∀ r, r ∈ l'.reservations ↔ r ∈ l.reservations ∨ r = newReservation id app estimated now) ∧
    l.Moves l' app estimated ∧ ∀ app', l'.gap app' = l.gap app' := by
  unfold applyReserve at h
  split at h
  · cases h
  split at h
  · cases h
  rename_i l₁ stored hlock
  split at h
  · cases h
  rename_i l₂ hadjust
  split at h
  · rename_i hfresh
    cases h
    have hsame := lockBalance_ok hlock
    obtain ⟨hres₂, hadjusted⟩ := adjustLockedBalance_ok hadjust
    have hrows : l₂.reservations = l.reservations := hres₂.trans hsame.rows
    have hmoves : ∀ app', l₂.balanceOf app' =
        l.balanceOf app' + if app = app' then (estimated : ℤ) else 0 := by
      intro app'
      rw [hadjusted app', hsame.balance]
    refine ⟨fun r hr => hfresh r (by rw [hrows]; exact hr), fun r => ?_, hmoves,
      fun app' => ?_⟩
    · rw [← hrows]
      exact mem_insertNew_iff hfresh
    · have hsum : (l₂.reservations.insertNew (newReservation id app estimated now)
          hfresh).total (Reservation.weight app') = l₂.reservations.total
            (Reservation.weight app') + (newReservation id app estimated now).weight app' :=
        total_insertNew _ _ _ hfresh
      have hweight : (newReservation id app estimated now).weight app' =
          if app = app' then (estimated : ℤ) else 0 := by
        simp [Reservation.weight, newReservation, ReservationState.isActive]
      unfold Ledger.gap Ledger.activeSum
      change l₂.balanceOf app' - _ = _
      rw [hsum, hweight, hmoves app', hrows]
      omega
  · cases h

/-- A releasing request. -/
structure DeltaRequest.IsRelease (q : DeltaRequest) : Prop where
  operation : q.operation = .release
  nextState : q.nextState = some .released
  unbound : q.reason = some "acceptance-failed" → q.unboundOnly = true

/-- A release changes nothing or applies a releasing request. -/
theorem releaseInFlightReservation_ok {app : Option AppId}
    (h : releaseInFlightReservation l id generation reason app now = .ok (l', changed)) :
    l' = l ∨ ∃ q : DeltaRequest, q.IsRelease ∧ (∀ s ∈ q.expectedStates, s.isActive = true) ∧
    q.reservationId = id ∧ q.generation = generation ∧
    applyReservationDelta l q now = .ok (l', changed) := by
  have hactive : ∀ s ∈ [ReservationState.reserved, .batchBound, .materialized],
      s.isActive = true := by decide
  unfold releaseInFlightReservation releaseUnboundAcceptanceReservation at h
  split at h
  · split at h
    · cases h
      exact .inl rfl
    · refine .inr ⟨_, ⟨rfl, rfl, fun _ => rfl⟩, fun s hs => ?_, rfl, rfl, h⟩
      exact hactive s (mem_cons.mpr (.inl (mem_singleton.mp hs)))
  · rename_i hreason
    split at h
    · cases h
      exact .inl rfl
    · exact .inr ⟨_, ⟨rfl, rfl, fun hq => absurd (Option.some.inj hq) hreason⟩, hactive,
        rfl, rfl, h⟩

/-- The release after a failed acceptance is a release with that reason. -/
theorem release_of_unbound {app : Option AppId}
    (h : releaseUnboundAcceptanceReservation l id generation app now = .ok (l', changed)) :
    releaseInFlightReservation l id generation "acceptance-failed" app now = .ok (l', changed) := by
  rw [releaseInFlightReservation, if_pos rfl, h]

theorem gap_release {app : Option AppId}
    (h : releaseInFlightReservation l id generation reason app now = .ok (l', changed)) :
    ∀ app', l'.gap app' = l.gap app' := by
  rcases releaseInFlightReservation_ok h with rfl | ⟨q, hq, hactive, -, -, happly⟩
  · exact fun _ => rfl
  · refine gap_applyReservationDelta happly (fun r _ _ happ hacc => ?_)
    exact exact_of_release hq.operation hq.nextState happ (hactive _ (state_of_accepts hacc))

variable {h : Host}

/-- Binding gives a reserved row its batch and changes no amount. -/
theorem bindInFlightReservation_ok {h' : Host} {batch : BatchId}
    (hbind : bindInFlightReservation l h id generation batch app now = .ok (l', h')) :
    ∃ r, r.id = id ∧ r.generation = generation ∧ r.state = .reserved ∧ r.batchId = none ∧
    Replaces l l' r { r with batchId := some batch, state := .batchBound } ∧
    (∀ app', l'.balanceOf app' = l.balanceOf app') ∧ ∀ app', l'.gap app' = l.gap app' := by
  unfold bindInFlightReservation at hbind
  split at hbind
  · cases hbind
  rename_i l₁ stored hlock
  have hsame := lockBalance_ok hlock
  dsimp only at hbind
  split at hbind
  · cases hbind
  rename_i hcount
  have hl' : l' = { l₁ with
      reservations := l₁.reservations.apply (bindUpdate id generation batch app now) } := by
    split at hbind
    · cases hbind
      rfl
    split at hbind
    · cases hbind
      rfl
    · cases hbind
  subst hl'
  obtain ⟨r, hr, happ⟩ := exists_applies_of_rowcount_pos (Nat.pos_of_ne_zero hcount)
  have hmatch := happ
  simp only [bindUpdate, decide_eq_true_eq] at hmatch
  obtain ⟨hid, hgen, -, hstate, hnone, -⟩ := hmatch
  rw [hsame.rows] at hr
  have honly : ∀ s ∈ l.reservations,
      (bindUpdate id generation batch app now).applies s = true → s.id = r.id := by
    intro s _ hs
    simp only [bindUpdate, decide_eq_true_eq] at hs
    rw [hs.1, hid]
  refine ⟨r, hid, hgen, hstate, hnone, replaces_of_update hr happ honly rfl
    (by rw [hsame.rows]), hsame.balance, fun app' => ?_⟩
  rw [← hsame.gap app']
  unfold Ledger.gap Ledger.activeSum
  rw [total_apply_single _ (hsame.rows ▸ hr) (hsame.rows ▸ honly), row_of_applies happ]
  simp [Reservation.weight, bindUpdate, hstate, ReservationState.isActive]
  rfl

/-! ## Loops over a snapshot -/

/-- A row after the operation was there before, or replaces an accepted row. -/
theorem mem_of_applyReservationDelta (h : applyReservationDelta l q now = .ok (l', changed))
    {r' : Reservation} (hr' : r' ∈ l'.reservations) : r' ∈ l.reservations ∨ ∃ r ∈ l.reservations,
      r.id = q.reservationId ∧ q.accepts now r = true ∧ r' = q.after r := by
  rcases applyReservationDelta_ok h with ⟨-, hsame⟩ | ⟨-, r, hr, hid, -, hacc, hreplaces, -⟩
  · exact .inl (hsame.rows ▸ hr')
  · rcases (hreplaces.mem_iff r').mp hr' with rfl | ⟨hold, -⟩
    · exact .inr ⟨r, hr, hid, hacc, rfl⟩
    · exact .inl hold

theorem forRows_preserves {α : Type} {f : Ledger → α → Except LedgerError Ledger}
    (P : Ledger → Prop) {xs : List α} (hstep : ∀ x ∈ xs, ∀ l l', P l → f l x = .ok l' → P l')
    (hl : P l) (h : forRows f l xs = .ok l') : P l' := by
  induction xs generalizing l with
  | nil =>
    cases h
    exact hl
  | cons x xs ih =>
    rw [forRows] at h
    split at h
    · cases h
    rename_i l₁ hx
    have hl₁ : P l₁ := hstep x (by simp) l l₁ hl hx
    exact ih (fun y hy => hstep y (by simp [hy])) hl₁ h

theorem same_lockBalances (l : Ledger) (apps : List AppId) : l.Same (lockBalances l apps) := by
  induction apps generalizing l with
  | nil => exact .refl l
  | cons a apps ih => exact (same_addBalance l a).trans (ih (l.addBalance a))

/-- The rows read for the drift repair are still current where it matters. -/
def DriftCurrent (l : Ledger) (rows : List Reservation) : Prop :=
  ∀ row ∈ rows, ∀ r ∈ l.reservations, r.id = row.id →
    r.generation = row.generation → r.state = .materialized →
    r.reservedChunks = row.reservedChunks

theorem repairDrift_ok (hrun : repairDrift h now l row = .ok l') : l' = l ∨ ∃ gap changed,
      applyReservationDelta l (driftRequest row gap) now = .ok (l', changed) := by
  unfold repairDrift at hrun
  split at hrun
  · cases hrun
    exact .inl rfl
  split at hrun
  · cases hrun
    exact .inl rfl
  split at hrun
  · cases hrun
  rename_i l₁ changed happly
  cases hrun
  exact .inr ⟨_, changed, happly⟩

theorem gap_repairDrift (hrun : repairDrift h now l row = .ok l')
    (hcurrent : DriftCurrent l [row]) : ∀ app, l'.gap app = l.gap app := by
  rcases repairDrift_ok hrun with rfl | ⟨gap, changed, happly⟩
  · exact fun _ => rfl
  refine gap_applyReservationDelta happly ?_
  intro r hr hid happ hacc
  have hstate : r.state = .materialized := mem_singleton.mp (state_of_accepts hacc)
  refine (exact_driftRequest_iff happ (by rw [hstate]; rfl)).mpr ?_
  exact hcurrent row (by simp) r hr hid (generation_of_accepts hacc) hstate

variable {rows : List Reservation}

/-- A loop over current rows with distinct ids keeps every gap: a round only
touches its own row, so the remaining rows stay current. -/
theorem gap_forRows_repairDrift (hnodup : (rows.map Reservation.id).Nodup)
    (hrun : forRows (repairDrift h now) l rows = .ok l') (hcurrent : DriftCurrent l rows) :
    ∀ app, l'.gap app = l.gap app := by
  induction rows generalizing l with
  | nil =>
    cases hrun
    exact fun _ => rfl
  | cons row rows ih =>
    rw [forRows] at hrun
    split at hrun
    · cases hrun
    rename_i l₁ hround
    rw [map_cons, nodup_cons] at hnodup
    have hgap₁ := gap_repairDrift hround (fun x hx => hcurrent x (by simp [mem_singleton.mp hx]))
    have hcurrent₁ : DriftCurrent l₁ rows := by
      intro x hx r' hr' hid
      have hne : r'.id ≠ row.id := by
        intro heq
        exact hnodup.1 (heq ▸ hid ▸ mem_map_of_mem hx)
      have hr : r' ∈ l.reservations := by
        rcases repairDrift_ok hround with rfl | ⟨gap, changed, happly⟩
        · exact hr'
        rcases mem_of_applyReservationDelta happly hr' with
          hmem | ⟨r, -, hrid, -, rfl⟩
        · exact hmem
        · exact absurd hrid hne
      exact hcurrent x (by simp [hx]) r' hr hid
    intro app
    rw [ih hnodup.2 hrun hcurrent₁ app, hgap₁ app]

theorem gap_reconcileSplitOccupancyDrift {rows : Table Reservation.id}
    (hrun : reconcileSplitOccupancyDrift l h rows.rows now = .ok l')
    (hcurrent : DriftCurrent l rows.rows) : ∀ app, l'.gap app = l.gap app := by
  have hsame := same_lockBalances l (rows.rows.map Reservation.appId)
  have hcurrent' : DriftCurrent (lockBalances l (rows.rows.map Reservation.appId))
      rows.rows := by
    intro row hrow r hr
    rw [hsame.rows] at hr
    exact hcurrent row hrow r hr
  intro app
  rw [gap_forRows_repairDrift rows.nodup hrun hcurrent' app, hsame.gap app]

theorem restoreMisreleased_ok (hrun : restoreMisreleased h now l row = .ok l') :
    l' = l ∨ ∃ changed, applyReservationDelta l (restoreRequest row) now = .ok (l', changed) := by
  unfold restoreMisreleased at hrun
  split at hrun
  · cases hrun
    exact .inl rfl
  split at hrun
  · cases hrun
    exact .inl rfl
  split at hrun
  · cases hrun
    exact .inl rfl
  split at hrun
  · cases hrun
  rename_i l₁ changed happly
  cases hrun
  exact .inr ⟨changed, happly⟩

variable {s : ReconcileSnapshot}

theorem reconcileInFlightReservations_ok
    (hrun : reconcileInFlightReservations l h s now = .ok l') : ∃ l₀ l₁ l₂ l₃, l.Same l₀ ∧
    forRows (releaseQuietly "orphan-expired" now) l₀ s.orphans.rows = .ok l₁ ∧
    forRows (fun l t => releaseQuietly t.2 now l t.1) l₁ s.terminals = .ok l₂ ∧
    reconcileSplitOccupancyDrift l₂ h s.driftRows.rows now = .ok l₃ ∧
    l' = s.conservationApps.foldl reconcileSendInflightApp l₃ := by
  unfold reconcileInFlightReservations at hrun
  dsimp only at hrun
  split at hrun
  · cases hrun
  rename_i l₁ horphans
  split at hrun
  · cases hrun
  rename_i l₂ hterminals
  split at hrun
  · cases hrun
  rename_i l₃ hdrift
  cases hrun
  exact ⟨_, l₁, l₂, l₃, same_lockBalances l _, horphans, hterminals, hdrift, rfl⟩

theorem releaseQuietly_ok (h : releaseQuietly reason now l row = .ok l') :
    ∃ changed, releaseInFlightReservation l row.id row.generation reason none now =
      .ok (l', changed) := by
  unfold releaseQuietly at h
  split at h
  · cases h
  rename_i l₁ changed hrelease
  cases h
  exact ⟨changed, hrelease⟩

/-! ## What holds of every round of a loop -/

/-- The rows a reconciliation has read. -/
def ReconcileSnapshot.remembered (s : ReconcileSnapshot) : List Reservation :=
  s.orphans.rows ++ s.terminals.map Prod.fst ++ s.driftRows.rows

section

variable {R : Ledger → Ledger → Prop} {rows : List Reservation}
  (htrans : ∀ {k k' k''}, R k k' → R k' k'' → R k k'') (hsame : ∀ {k k'}, Ledger.Same k k' → R k k')
include htrans hsame

theorem rel_forRows {α : Type} {f : Ledger → α → Except LedgerError Ledger} {xs : List α}
    (hround : ∀ x ∈ xs, ∀ {k k'}, f k x = .ok k' → R k k') (hrun : forRows f l xs = .ok l') :
    R l l' :=
  forRows_preserves (R l) (fun x hx _ _ hk hx' => htrans hk (hround x hx hx'))
    (hsame (.refl l)) hrun

theorem rel_drift (hround : ∀ row ∈ rows, ∀ {k k' gap changed},
      applyReservationDelta k (driftRequest row gap) now = .ok (k', changed) → R k k')
    (hrun : reconcileSplitOccupancyDrift l h rows now = .ok l') : R l l' := by
  refine htrans (hsame (same_lockBalances l _)) (rel_forRows htrans hsame ?_ hrun)
  intro row hrow k k' hone
  rcases repairDrift_ok hone with rfl | ⟨gap, changed, happly⟩
  · exact hsame (.refl _)
  · exact hround row hrow happly

theorem rel_repair (hround : ∀ row ∈ rows, ∀ {k k' changed},
      applyReservationDelta k (restoreRequest row) now = .ok (k', changed) → R k k')
    (hrun : repairMisreleasedBoundReservations l h rows now = .ok l') : R l l' := by
  refine htrans (hsame (same_lockBalances l _)) (rel_forRows htrans hsame ?_ hrun)
  intro row hrow k k' hone
  rcases restoreMisreleased_ok hone with rfl | ⟨changed, happly⟩
  · exact hsame (.refl _)
  · exact hround row hrow happly

theorem rel_reconcile (hrelease : ∀ row ∈ s.remembered, ∀ {reason k k' changed},
      releaseInFlightReservation k row.id row.generation reason none now =
        .ok (k', changed) → R k k')
    (hdrift : ∀ row ∈ s.remembered, ∀ {k k' gap changed},
      applyReservationDelta k (driftRequest row gap) now = .ok (k', changed) → R k k')
    (hsettle : ∀ k app, R k (reconcileSendInflightApp k app))
    (hrun : reconcileInFlightReservations l h s now = .ok l') : R l l' := by
  have hquietly : ∀ row ∈ s.remembered, ∀ {reason k k'},
      releaseQuietly reason now k row = .ok k' → R k k' := by
    intro row hrow reason k k' hone
    obtain ⟨changed, hone⟩ := releaseQuietly_ok hone
    exact hrelease row hrow hone
  obtain ⟨l₀, l₁, l₂, l₃, hlocked, horphans, hterminals, hrepaired, rfl⟩ :=
    reconcileInFlightReservations_ok hrun
  have h₁ := rel_forRows (R := R) htrans hsame (fun row hrow => hquietly row
    (mem_append_left _ (mem_append_left _ hrow))) horphans
  have h₂ := rel_forRows (R := R) htrans hsame (fun t ht => hquietly t.1
    (mem_append_left _ (mem_append_right _ (mem_map_of_mem ht)))) hterminals
  have h₃ := rel_drift (R := R) htrans hsame
    (fun row hrow => hdrift row (mem_append_right _ hrow)) hrepaired
  refine htrans (htrans (htrans (htrans (hsame hlocked) h₁) h₂) h₃) ?_
  exact foldlRecOn _ _ (hsame (.refl l₃)) (fun k hk app _ => htrans hk (hsettle k app))

end

theorem gap_repairMisreleased
    (hrun : repairMisreleasedBoundReservations l h rows now = .ok l') (app : AppId) :
    l'.gap app = l.gap app := by
  refine rel_repair (fun h₁ h₂ => h₂.trans h₁)
    (fun hsame => hsame.gap app) (fun row _ k k' changed happly => ?_) hrun
  refine gap_applyReservationDelta happly (fun r _ _ happ hacc => ?_) app
  exact exact_restoreRequest happ (mem_singleton.mp (state_of_accepts hacc))

end SmsPlatform.Inflight
