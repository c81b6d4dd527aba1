import SmsPlatform.Inflight.Conservation

/-!
# Conservation at every commit

The ledger is conserved along every run in which split expansion and drift
repair find, once they hold the balance lock, the reservation as they had read
it.  Materialisation needs no such condition: the batch lock keeps other
writers of the reservation away, and a release raises the generation.

Without the condition a commit can move a balance and the sum it stands for by
different amounts; the last section gives the run.
-/

namespace SmsPlatform.Inflight

open Support Table List Option Update

/-! ## Reconciliation -/

variable {batch : BatchId} {changed : Bool} {q : DeltaRequest} {l l' : Ledger}
  {rows : List Reservation} {app : Option AppId} {current : Reservation} {id : ReservationId}
  {reason : String} {now : Time} {t : Tx} {body : TxBody} {w w' : World} {generation limit : ℕ}

variable {r r' : Reservation}

theorem balanceOf_eq_of_mem {b : Balance} (hb : b ∈ l.balances) :
    l.balanceOf b.appId = b.reservedChunks := by
  have hzero : ∀ c ∈ l.balances, c.appId ≠ b.appId →
      (if c.appId = b.appId then (c.reservedChunks : ℤ) else 0) = 0 := by
    intro c _ hne
    simp [hne]
  have htotal := total_eq_of_others_zero
    (fun c => if c.appId = b.appId then c.reservedChunks else 0) hb hzero
  simpa [Ledger.balanceOf] using htotal

theorem activeSum_nonneg (l : Ledger) (app : AppId) : 0 ≤ l.activeSum app := by
  refine sum_nonneg (fun v hv => ?_)
  obtain ⟨r, -, rfl⟩ := mem_map.mp hv
  unfold Reservation.weight
  split
  · exact Int.natCast_nonneg _
  · exact le_rfl

theorem same_blockBalance (l : Ledger) (app : AppId) :
    l.Same { l with balances := l.balances.apply (blockBalance app) } := by
  refine ⟨fun app' => total_apply_of_eq _ (fun b _ => ?_), rfl⟩
  exact row_cases (P := fun c : Balance =>
    (if c.appId = app' then (c.reservedChunks : ℤ) else 0) =
      if b.appId = app' then (b.reservedChunks : ℤ) else 0) rfl (fun _ => rfl)

/-- The database function sets a balance to the sum it stands for or leaves it. -/
theorem balanceOf_reconcileSendInflightApp (l : Ledger) (app app' : AppId) :
    (reconcileSendInflightApp l app).balanceOf app' = l.balanceOf app' ∨
      (reconcileSendInflightApp l app).balanceOf app' = l.activeSum app' := by
  unfold reconcileSendInflightApp
  split
  · exact .inl ((same_blockBalance l app).balance app')
  have hsum := activeSum_nonneg l app
  dsimp only
  generalize hcomputed : (l.activeSum app).toNat = computed
  generalize hk : (if computed = 0 then l else l.addBalance app) = k
  have hbalance : k.balanceOf app' = l.balanceOf app' := by
    subst hk
    split
    · rfl
    · exact balanceOf_addBalance l app app'
  by_cases hrow : app' = app ∧ ∃ b ∈ k.balances, b.appId = app
  · obtain ⟨rfl, b, hb, hid⟩ := hrow
    right
    have happ : (settleBalance app' computed).applies b = true := by
      simp [settleBalance, hid]
    have hmem := row_mem_apply (u := settleBalance app' computed) hb
    rw [row_of_applies happ] at hmem
    have hstored := balanceOf_eq_of_mem (l := { k with
      balances := k.balances.apply (settleBalance app' computed) }) hmem
    simp only [settleBalance, hid] at hstored
    rw [← Int.toNat_of_nonneg hsum, hcomputed]
    exact hstored
  · left
    rw [← hbalance]
    refine total_apply_of_eq _ (fun b hb => ?_)
    cases happ : (settleBalance app computed).applies b with
    | false => rw [row_of_not_applies happ]
    | true =>
      have hid : b.appId = app := by simpa [settleBalance] using happ
      have hne : app ≠ app' := fun heq => hrow ⟨heq.symm, b, hb, hid⟩
      rw [row_of_applies happ]
      simp [settleBalance, hid, hne]

theorem reservations_reconcileSendInflightApp (l : Ledger) (app : AppId) :
    (reconcileSendInflightApp l app).reservations = l.reservations := by
  unfold reconcileSendInflightApp
  split
  · rfl
  dsimp only
  split
  · rfl
  · exact reservations_addBalance l app

/-- On a conserved ledger the reconciliation of an application changes no
amount. -/
theorem conserved_reconcileSendInflightApp (h : l.Conserved) (app : AppId) :
    (reconcileSendInflightApp l app).Conserved := by
  intro app'
  rw [Ledger.activeSum, reservations_reconcileSendInflightApp]
  rcases balanceOf_reconcileSendInflightApp l app app' with heq | heq
  · exact heq.trans (h app')
  · exact heq

theorem conserved_foldl_reconcile (h : l.Conserved) (apps : List AppId) :
    (apps.foldl reconcileSendInflightApp l).Conserved := by
  induction apps generalizing l with
  | nil => exact h
  | cons app apps ih => exact ih (conserved_reconcileSendInflightApp h app)

theorem conserved_of_gap_eq (h : l.Conserved) (hgap : ∀ app, l'.gap app = l.gap app) :
    l'.Conserved := by
  intro app
  have hl := h app
  have hg := hgap app
  unfold Ledger.gap at hg
  omega

theorem mem_of_release
    (h : releaseInFlightReservation l id generation reason app now = .ok (l', changed))
    (hr' : r' ∈ l'.reservations) : r' ∈ l.reservations ∨ r'.state = .released := by
  rcases releaseInFlightReservation_ok h with rfl | ⟨q, hq, -, -, -, happly⟩
  · exact .inl hr'
  · rcases mem_of_applyReservationDelta happly hr' with hmem | ⟨r, -, -, -, rfl⟩
    · exact .inl hmem
    · exact .inr (by simp [DeltaRequest.after, DeltaRequest.update, hq.nextState])

/-- The releases of a reconciliation keep the gaps, and they keep the rows read
for the drift repair current because they leave no materialised row behind. -/
theorem releaseQuietly_preserves {row : Reservation}
    (h : releaseQuietly reason now l row = .ok l') (hcurrent : DriftCurrent l rows) :
    (∀ app, l'.gap app = l.gap app) ∧ DriftCurrent l' rows := by
  obtain ⟨changed, hrelease⟩ := releaseQuietly_ok h
  refine ⟨gap_release hrelease, ?_⟩
  intro x hx r' hr' hid hgen hstate
  rcases mem_of_release hrelease hr' with hmem | hreleased
  · exact hcurrent x hx r' hmem hid hgen hstate
  · rw [hreleased] at hstate
    cases hstate

variable {h host : Host}

theorem conserved_reconcileInFlightReservations {s : ReconcileSnapshot}
    (hrun : reconcileInFlightReservations l h s now = .ok l') (hl : l.Conserved)
    (hcurrent : DriftCurrent l s.driftRows.rows) : l'.Conserved := by
  obtain ⟨l₀, l₁, l₂, l₃, hsame, horphans, hterminals, hdrift, rfl⟩ :=
    reconcileInFlightReservations_ok hrun
  let P : Ledger → Prop := fun k => k.Conserved ∧ DriftCurrent k s.driftRows.rows
  have hround : ∀ reason row k k', P k → releaseQuietly reason now k row = .ok k' → P k' := by
    intro reason row k k' hk hrel
    obtain ⟨hgap, hcur⟩ := releaseQuietly_preserves hrel hk.2
    exact ⟨conserved_of_gap_eq hk.1 hgap, hcur⟩
  have hP₁ : P l₁ := by
    refine forRows_preserves P (fun row _ k k' => hround _ row k k') ?_ horphans
    refine ⟨conserved_of_gap_eq hl hsame.gap, ?_⟩
    intro row hrow r hr
    rw [hsame.rows] at hr
    exact hcurrent row hrow r hr
  have hP₂ : P l₂ := forRows_preserves P (fun t _ k k' => hround t.2 t.1 k k') hP₁ hterminals
  have hgap₃ := gap_reconcileSplitOccupancyDrift hdrift hP₂.2
  exact conserved_foldl_reconcile (conserved_of_gap_eq hP₂.1 hgap₃) _

/-! ## What other transactions do to a bound reservation -/

/-- A rewrite of a reservation that a transaction holding the lock of its
batch cannot be hurt by: within one generation a bound row stays bound and
keeps its amount. -/
structure Harmless (r r' : Reservation) : Prop where
  id_eq : r'.id = r.id
  batch_eq : ∀ batch, r.batchId = some batch → r'.batchId = some batch
  generation_le : r.generation ≤ r'.generation
  bound : r'.generation = r.generation → r.state = .batchBound →
    r'.state = .batchBound ∧ r'.reservedChunks = r.reservedChunks

theorem Harmless.refl (r : Reservation) : Harmless r r :=
  ⟨rfl, fun _ h => h, le_rfl, fun _ h => ⟨h, rfl⟩⟩

theorem Harmless.trans {r'' : Reservation} (h : Harmless r r') (h' : Harmless r' r'') :
    Harmless r r'' where
  id_eq := h'.id_eq.trans h.id_eq
  batch_eq batch hb := h'.batch_eq batch (h.batch_eq batch hb)
  generation_le := h.generation_le.trans h'.generation_le
  bound hgen hs := by
    have hle := h.generation_le
    have hle' := h'.generation_le
    obtain ⟨hs', hamount⟩ := h.bound (by omega) hs
    obtain ⟨hs'', hamount'⟩ := h'.bound (by omega) hs'
    exact ⟨hs'', hamount'.trans hamount⟩

/-- Every reservation survives, up to a harmless rewrite. -/
def LedgerStep (l l' : Ledger) : Prop :=
  ∀ r ∈ l.reservations, ∃ r' ∈ l'.reservations, Harmless r r'

theorem LedgerStep.of_eq (h : l'.reservations = l.reservations) : LedgerStep l l' := by
  intro r hr
  exact ⟨r, by rwa [h], .refl r⟩

theorem LedgerStep.trans {l'' : Ledger} (h : LedgerStep l l') (h' : LedgerStep l' l'') :
    LedgerStep l l'' := by
  intro r hr
  obtain ⟨r', hr', hh⟩ := h r hr
  obtain ⟨r'', hr'', hh'⟩ := h' r' hr'
  exact ⟨r'', hr'', hh.trans hh'⟩

theorem LedgerStep.of_replaces (h : Replaces l l' r r') (hh : Harmless r r') : LedgerStep l l' := by
  intro s hs
  by_cases hid : s.id = r.id
  · obtain rfl : s = r := eq_of_key_eq hs h.mem hid
    exact ⟨r', (h.mem_iff r').mpr (.inl rfl), hh⟩
  · exact ⟨s, (h.mem_iff s).mpr (.inr ⟨hs, hid⟩), .refl s⟩

/-- A request leaves the row of every other reservation alone. -/
theorem row_of_applyReservationDelta (h : applyReservationDelta l q now = .ok (l', changed))
    (hr : r ∈ l.reservations) :
    r ∈ l'.reservations ∨ (r.id = q.reservationId ∧ q.accepts now r = true) := by
  rcases applyReservationDelta_ok h with ⟨-, hsame⟩ | ⟨-, s, hs, hid, -, hacc, hreplaces, -⟩
  · exact .inl (hsame.rows ▸ hr)
  by_cases heq : r.id = s.id
  · obtain rfl : r = s := eq_of_key_eq hr hs heq
    exact .inr ⟨hid, hacc⟩
  · exact .inl ((hreplaces.mem_iff r).mpr (.inr ⟨hr, heq⟩))

/-- Requests that release, or that only accept rows which are not bound, are
harmless. -/
theorem ledgerStep_applyReservationDelta (h : applyReservationDelta l q now = .ok (l', changed))
    (hq : q.nextState = some .released ∨ ReservationState.batchBound ∉ q.expectedStates) :
    LedgerStep l l' := by
  rcases applyReservationDelta_ok h with ⟨-, hsame⟩ | ⟨-, r, -, -, -, hacc, hreplaces, -⟩
  · exact .of_eq hsame.rows
  refine .of_replaces hreplaces ⟨rfl, fun _ hb => hb, ?_, ?_⟩
  · simp [DeltaRequest.after, DeltaRequest.update]
    split <;> omega
  · intro hgen hs
    rcases hq with hrel | hnot
    · simp [DeltaRequest.after, DeltaRequest.update, hrel] at hgen
    · exact absurd (hs ▸ state_of_accepts hacc) hnot

theorem ledgerStep_release
    (h : releaseInFlightReservation l id generation reason app now = .ok (l', changed)) :
    LedgerStep l l' := by
  rcases releaseInFlightReservation_ok h with rfl | ⟨q, hq, -, -, -, happly⟩
  · exact LedgerStep.of_eq rfl
  · exact ledgerStep_applyReservationDelta happly (.inl hq.nextState)

theorem ledgerStep_applyReserve {app : AppId} {estimated : ℕ} {limit : Option ℕ}
    (h : applyReserve l app estimated limit id now = .ok l') : LedgerStep l l' := by
  obtain ⟨-, hrows, -, -⟩ := applyReserve_ok h
  exact fun r hr => ⟨r, (hrows r).mpr (.inl hr), .refl r⟩

theorem ledgerStep_bind {h' : Host} {app : AppId}
    (hbind : bindInFlightReservation l h id generation batch app now = .ok (l', h')) :
    LedgerStep l l' := by
  obtain ⟨r, -, -, hstate, hnone, hreplaces, -, -⟩ := bindInFlightReservation_ok hbind
  refine .of_replaces hreplaces ⟨rfl, ?_, le_rfl, ?_⟩
  · intro b hb
    rw [hnone] at hb
    cases hb
  · intro _ hs
    rw [hstate] at hs
    cases hs

theorem LedgerStep.of_same (h : l.Same l') : LedgerStep l l' := .of_eq h.rows

theorem ledgerStep_driftRequest {row : Reservation} {gap : ℕ}
    (h : applyReservationDelta l (driftRequest row gap) now = .ok (l', changed)) :
    LedgerStep l l' :=
  ledgerStep_applyReservationDelta h (.inr (by simp [driftRequest]))

theorem ledgerStep_drift (hrun : reconcileSplitOccupancyDrift l h rows now = .ok l') :
    LedgerStep l l' :=
  rel_drift .trans .of_same (fun _ _ => ledgerStep_driftRequest) hrun

theorem ledgerStep_repair
    (hrun : repairMisreleasedBoundReservations l h rows now = .ok l') : LedgerStep l l' := by
  refine rel_repair .trans .of_same (fun row _ k k' changed happly => ?_) hrun
  exact ledgerStep_applyReservationDelta happly (.inr (by simp [restoreRequest]))

theorem ledgerStep_reconcile {s : ReconcileSnapshot}
    (hrun : reconcileInFlightReservations l h s now = .ok l') : LedgerStep l l' :=
  rel_reconcile .trans .of_same (fun _ _ => ledgerStep_release)
    (fun _ _ => ledgerStep_driftRequest)
    (fun k app => .of_eq (reservations_reconcileSendInflightApp k app)) hrun

/-! ## Waiting transactions -/

/-- The reservation a waiting transaction has read is still bound to the batch
it has locked. -/
def StillBound (l : Ledger) (batch : BatchId) (current : Reservation) : Prop :=
  ∃ r ∈ l.reservations, r.id = current.id ∧ r.batchId = some batch

/-- Within the generation that was read, a bound reservation is unchanged. -/
def StillCurrent (l : Ledger) (current : Reservation) : Prop :=
  ∃ r ∈ l.reservations, r.id = current.id ∧ current.generation ≤ r.generation ∧
    (r.generation = current.generation → current.state = .batchBound →
      r.state = .batchBound ∧ r.reservedChunks = current.reservedChunks)

/-- What is known about a transaction between its read and its locked part. -/
def TxOk (l : Ledger) : TxBody → Prop
  | .materialize batch _ _ (some current) =>
    StillBound l batch current ∧ StillCurrent l current ∧
      (current.state = .batchBound ∨ current.state = .materialized)
  | .split batch _ _ (some current) => StillBound l batch current
  | _ => True

theorem StillBound.ledgerStep (h : StillBound l batch current) (hstep : LedgerStep l l') :
    StillBound l' batch current := by
  obtain ⟨r, hr, hid, hbatch⟩ := h
  obtain ⟨r', hr', hh⟩ := hstep r hr
  exact ⟨r', hr', hh.id_eq.trans hid, hh.batch_eq batch hbatch⟩

theorem StillCurrent.ledgerStep (h : StillCurrent l current) (hstep : LedgerStep l l') :
    StillCurrent l' current := by
  obtain ⟨r, hr, hid, hgen, hbound⟩ := h
  obtain ⟨r', hr', hh⟩ := hstep r hr
  have hle := hh.generation_le
  refine ⟨r', hr', hh.id_eq.trans hid, hgen.trans hle, ?_⟩
  intro heq hs
  obtain ⟨hs', hamount⟩ := hbound (by omega) hs
  obtain ⟨hs'', hamount'⟩ := hh.bound (by omega) hs'
  exact ⟨hs'', hamount'.trans hamount⟩

theorem TxOk.ledgerStep (h : TxOk l body) (hstep : LedgerStep l l') : TxOk l' body := by
  cases body with
  | materialize batch newChunks limit current =>
    cases current with
    | none => trivial
    | some current =>
      exact ⟨h.1.ledgerStep hstep, h.2.1.ledgerStep hstep, h.2.2⟩
  | split batch parent limit current =>
    cases current with
    | none => trivial
    | some current => exact .ledgerStep h hstep
  | _ => trivial

/-- A transaction that only rewrites the reservation of its own batch leaves
the transactions on other batches alone. -/
theorem TxOk.of_other_batch (h : TxOk l body) (hlock : body.lockedBatch ≠ some batch)
    (hrows : ∀ r ∈ l.reservations, r.batchId ≠ some batch → r ∈ l'.reservations) :
    TxOk l' body := by
  have hbound : ∀ b current, b ≠ batch → StillBound l b current →
      StillBound l' b current := by
    rintro b current hne ⟨r, hr, hid, hb⟩
    exact ⟨r, hrows r hr (by rw [hb]; simpa using hne), hid, hb⟩
  cases body with
  | materialize b newChunks limit current =>
    have hne : b ≠ batch := by
      intro heq
      exact hlock (congrArg some heq)
    cases current with
    | none => trivial
    | some current =>
      obtain ⟨hb, ⟨r, hr, hid, hcurrent⟩, hstate⟩ := h
      refine ⟨hbound b current hne hb, ⟨r, ?_, hid, hcurrent⟩, hstate⟩
      obtain ⟨r₀, hr₀, hid₀, hb₀⟩ := hb
      obtain rfl : r = r₀ := eq_of_key_eq hr hr₀ (hid.trans hid₀.symm)
      exact hrows r hr (by rw [hb₀]; simpa using hne)
  | split b parent limit current =>
    have hne : b ≠ batch := by
      intro heq
      exact hlock (congrArg some heq)
    cases current with
    | none => trivial
    | some current => exact hbound b current hne h
  | _ => trivial

theorem readBound_eq_some (h : readBound l batch = some current) :
    current ∈ l.reservations ∧ current.batchId = some batch ∧
    (current.state = .batchBound ∨ current.state = .materialized) := by
  have hprop := find?_some h
  simp only [decide_eq_true_eq] at hprop
  exact ⟨mem_of_find?_eq_some h, hprop⟩

theorem stillBound_readBound (h : readBound l batch = some current) :
    StillBound l batch current := by
  obtain ⟨hmem, hbatch, -⟩ := readBound_eq_some h
  exact ⟨current, hmem, rfl, hbatch⟩

/-- The invariant of a reached state. -/
structure Waiting (w : World) : Prop where
  conserved : w.ledger.Conserved
  ok : ∀ t ∈ w.txs, TxOk w.ledger t.body
  locks : ∀ t ∈ w.txs, ∀ t' ∈ w.txs, ∀ batch,
    t.body.lockedBatch = some batch → t'.body.lockedBatch = some batch → t = t'

theorem Waiting.endTx (h : Waiting w) (id : ℕ) : Waiting (w.endTx id) where
  conserved := h.conserved
  ok t ht := h.ok t (mem_keep_iff.mp ht).1
  locks t ht t' ht' := h.locks t (mem_keep_iff.mp ht).1 t' (mem_keep_iff.mp ht').1

/-- Commit of a ledger by a transaction that is harmless to the others. -/
theorem Waiting.commit (h : Waiting w) (hconserved : l.Conserved)
    (hstep : LedgerStep w.ledger l) : Waiting { w with ledger := l, host := host } where
  conserved := hconserved
  ok t ht := (h.ok t ht).ledgerStep hstep
  locks := h.locks

theorem Waiting.commitLedger (h : Waiting w) (id : ℕ) {result : Except LedgerError Ledger}
    (hresult : ∀ l, result = .ok l → l.Conserved ∧ LedgerStep w.ledger l) :
    Waiting (w.commitLedger id result) := by
  unfold World.commitLedger
  split
  · exact h.endTx id
  rename_i l
  obtain ⟨hconserved, hstep⟩ := hresult l rfl
  exact .endTx (h.commit hconserved hstep) id

/-- Commit by the holder of a batch lock, which may rewrite the reservation of
that batch. -/
theorem Waiting.commitOwn (h : Waiting w) (ht : t ∈ w.txs)
    (hlock : t.body.lockedBatch = some batch) (hconserved : l.Conserved)
    (hrows : ∀ r ∈ w.ledger.reservations, r.batchId ≠ some batch → r ∈ l.reservations) :
    Waiting ({ w with ledger := l, host := host }.endTx t.id) where
  conserved := hconserved
  ok t' ht' := by
    obtain ⟨hmem, hne⟩ := mem_keep_iff.mp ht'
    refine (h.ok t' hmem).of_other_batch ?_ hrows
    intro hlock'
    have heq := h.locks t' hmem t ht batch hlock' hlock
    simp [heq] at hne
  locks t₁ h₁ t₂ h₂ :=
    h.locks t₁ (mem_keep_iff.mp h₁).1 t₂ (mem_keep_iff.mp h₂).1

theorem Waiting.beginTx (h : Waiting w) {id : ℕ} (hbegin : w.beginTx id body = some w')
    (hbody : TxOk w.ledger body) : Waiting w' := by
  unfold World.beginTx at hbegin
  split at hbegin
  · cases hbegin
  rename_i hfree
  split at hbegin
  · rename_i hfresh
    cases hbegin
    have hnew : ∀ t ∈ w.txs, ∀ batch, body.lockedBatch = some batch →
        t.body.lockedBatch ≠ some batch := by
      intro t ht batch hb ht'
      refine hfree (any_eq_true.mpr ⟨t, ht, ?_⟩)
      simp [hb, ht']
    refine ⟨h.conserved, ?_, ?_⟩
    · intro t ht
      rcases (mem_insertNew_iff hfresh).mp ht with hmem | rfl
      · exact h.ok t hmem
      · exact hbody
    · intro t ht t' ht' batch hb hb'
      rcases (mem_insertNew_iff hfresh).mp ht with hmem | rfl
      · rcases (mem_insertNew_iff hfresh).mp ht' with hmem' | rfl
        · exact h.locks t hmem t' hmem' batch hb hb'
        · exact absurd hb (hnew t hmem batch hb')
      · rcases (mem_insertNew_iff hfresh).mp ht' with hmem' | rfl
        · exact absurd hb' (hnew t' hmem' batch hb)
        · rfl
  · cases hbegin

/-! ## The locked parts of preparation and split -/

/-- A request on the reservation read under a batch lock touches no row of
another batch. -/
theorem rows_of_own_request (h : applyReservationDelta l q now = .ok (l', changed))
    (hid : q.reservationId = current.id) (hbound : StillBound l batch current) :
    ∀ r ∈ l.reservations, r.batchId ≠ some batch → r ∈ l'.reservations := by
  intro r hr hne
  rcases row_of_applyReservationDelta h hr with hmem | ⟨hrid, -⟩
  · exact hmem
  · obtain ⟨s, hs, hsid, hsb⟩ := hbound
    obtain rfl : r = s := eq_of_key_eq hr hs (by rw [hrid, hid, hsid])
    exact absurd hsb hne

theorem commit_materialize (h : Waiting w) (ht : t ∈ w.txs) {newChunks : List ℕ}
    {current : Option Reservation} (hbody : t.body = .materialize batch newChunks limit current)
    (hrun : materializeInFlightReservation w.ledger current newChunks.length limit now = .ok l) :
    Waiting ({ w with ledger := l, host := host }.endTx t.id) := by
  have hlock : t.body.lockedBatch = some batch := by rw [hbody]; rfl
  have hok := h.ok t ht
  rw [hbody] at hok
  unfold materializeInFlightReservation at hrun
  cases current with
  | none =>
    cases hrun
    exact h.commitOwn ht hlock h.conserved (fun _ hr _ => hr)
  | some current =>
    obtain ⟨hbound, ⟨r₀, hr₀, hid₀, -, hcurrent⟩, hread⟩ := hok
    dsimp only at hrun
    split at hrun
    · cases hrun
      exact h.commitOwn ht hlock h.conserved (fun _ hr _ => hr)
    rename_i hnot
    have hstate : current.state = .batchBound := hread.resolve_right hnot
    split at hrun
    · cases hrun
    rename_i l₁ changed happly
    cases hrun
    refine h.commitOwn ht hlock ?_ (rows_of_own_request happly rfl hbound)
    refine conserved_of_gap_eq h.conserved (gap_applyReservationDelta happly ?_)
    intro r hr hid happ hacc
    obtain rfl : r = r₀ := eq_of_key_eq hr hr₀ (hid.trans hid₀.symm)
    obtain ⟨hs, hamount⟩ := hcurrent (generation_of_accepts hacc) hstate
    exact (exact_materializeRequest_iff happ (by rw [hs]; rfl)).mpr hamount

/-- The reservation that a split has read is still as it was read. -/
def SplitCurrent (l : Ledger) (current : Reservation) : Prop :=
  ∀ r ∈ l.reservations, r.id = current.id → r.generation = current.generation →
    (r.state = .batchBound ∨ r.state = .materialized) →
    r.reservedChunks = current.reservedChunks

theorem expandInFlightForSplit_ok {current : Option Reservation}
    (h : expandInFlightForSplit l current 1 limit now = .ok (l', changed)) :
    ∃ r, current = some r ∧
    applyReservationDelta l (splitRequest r 1 limit) now = .ok (l', changed) := by
  cases current with
  | none =>
    cases h
  | some r => exact ⟨r, rfl, h⟩

theorem commit_split (h : Waiting w) (ht : t ∈ w.txs) {parent : ℕ} {bound : Option ℕ}
    {current : Option Reservation} (hbody : t.body = .split batch parent bound current)
    (hrun : expandInFlightForSplit w.ledger current 1 limit now = .ok (l, changed))
    (hfresh : ∀ r, current = some r → SplitCurrent w.ledger r) :
    Waiting ({ w with ledger := l, host := host }.endTx t.id) := by
  obtain ⟨current, rfl, happly⟩ := expandInFlightForSplit_ok hrun
  have hok : StillBound w.ledger batch current := by
    have hok := h.ok t ht
    rw [hbody] at hok
    exact hok
  refine h.commitOwn ht (by rw [hbody]; rfl) ?_ (rows_of_own_request happly rfl hok)
  refine conserved_of_gap_eq h.conserved (gap_applyReservationDelta happly ?_)
  intro r hr hid happ hacc
  have hstate : r.state = .batchBound ∨ r.state = .materialized := by
    simpa [splitRequest] using state_of_accepts hacc
  refine (exact_splitRequest_iff happ (by rcases hstate with hs | hs <;> rw [hs] <;> rfl)).mpr ?_
  exact hfresh current rfl r hr hid (generation_of_accepts hacc) hstate

/-! ## Runs without stale reads -/

/-- The read of a split expansion or a drift repair is still current when the
balance lock has been taken. -/
def ReadsCurrent (w : World) : Action → Prop
  | .commitSplit tx _ _ _ => ∀ batch parent limit current,
      (w.txs.find? tx).map Tx.body = some (.split batch parent limit (some current)) →
      SplitCurrent w.ledger current
  | .commitDrift tx _ => ∀ rows,
      (w.txs.find? tx).map Tx.body = some (.drift rows) →
      DriftCurrent w.ledger rows.rows
  | .commitReconcile tx _ => ∀ snapshot,
      (w.txs.find? tx).map Tx.body = some (.reconcile snapshot) →
      DriftCurrent w.ledger snapshot.driftRows.rows
  | _ => True

/-- The rows a waiting transaction has read. -/
def TxBody.remembered : TxBody → List Reservation
  | .materialize _ _ _ current => current.toList
  | .split _ _ _ current => current.toList
  | .drift rows => rows.rows
  | .repair rows => rows.rows
  | .reconcile snapshot => snapshot.remembered

def World.rowsRead (w : World) (tx : ℕ) : List Reservation :=
  ((w.txs.find? tx).map Tx.body).elim [] TxBody.remembered

theorem find_tx {tx : ℕ} (h : (w.txs.find? tx).map Tx.body = some body) :
    ∃ t ∈ w.txs, t.id = tx ∧ t.body = body := by
  obtain ⟨t, ht, hbody⟩ := map_eq_some_iff.mp h
  obtain ⟨hmem, hid⟩ := find?_eq_some_iff.mp ht
  exact ⟨t, hmem, hid, hbody⟩

theorem Waiting.atomically (h : Waiting w) {result : Except LedgerError Ledger}
    (hnext : w.atomically result = some w') (hresult : ∀ l, result = .ok l →
      (∀ app, l.gap app = w.ledger.gap app) ∧ LedgerStep w.ledger l) : Waiting w' := by
  unfold World.atomically at hnext
  split at hnext
  · cases hnext
  rename_i l
  cases hnext
  obtain ⟨hgap, hstep⟩ := hresult l rfl
  exact h.commit (conserved_of_gap_eq h.conserved hgap) hstep

theorem map_fst_eq_ok {α β ε : Type} {x : Except ε (α × β)} {a : α}
    (h : x.map Prod.fst = .ok a) : ∃ b, x = .ok (a, b) := by
  cases x with
  | error e => cases h
  | ok p =>
    cases h
    exact ⟨p.2, rfl⟩

theorem Waiting.commitSplit (h : Waiting w) {tx child₁ child₂ : ℕ}
    (hnext : w.commitSplit tx child₁ child₂ now = some w')
    (hfresh : ReadsCurrent w (.commitSplit tx child₁ child₂ now)) : Waiting w' := by
  unfold World.commitSplit at hnext
  split at hnext
  · rename_i batch parent limit current hfind
    obtain ⟨t, ht, hid, hbody⟩ := find_tx hfind
    subst hid
    have hblocked : Waiting ({ w with
        host := w.host.setChunk parent .splitCapacityBlocked }.endTx t.id) :=
      .endTx (h.commit h.conserved (.of_eq rfl)) t.id
    split at hnext
    · cases hnext
      exact h.endTx t.id
    split at hnext
    · cases hnext
      exact hblocked
    split at hnext
    · cases hnext
      split
      · exact hblocked
      · exact h.endTx t.id
    · cases hnext
      exact hblocked
    · rename_i l hexpand
      cases hnext
      refine commit_split h ht hbody hexpand (fun r hr => ?_)
      subst hr
      exact hfresh batch parent _ r hfind
  · cases hnext

theorem Waiting.step {a : Action} (h : Waiting w) (hfresh : ReadsCurrent w a)
    (hnext : inflight.next w a = some w') : Waiting w' := by
  cases a with
  | reserve app estimated limit id now =>
    exact h.atomically hnext
      (fun l hl => ⟨(applyReserve_ok hl).2.2.2, ledgerStep_applyReserve hl⟩)
  | bind id generation batch app now =>
    simp only [inflight, World.next] at hnext
    split at hnext
    · cases hnext
    rename_i l host hbind
    cases hnext
    obtain ⟨-, -, -, -, -, -, -, hgap⟩ := bindInFlightReservation_ok hbind
    exact h.commit (conserved_of_gap_eq h.conserved hgap) (ledgerStep_bind hbind)
  | release id generation reason app now =>
    refine h.atomically hnext (fun l hl => ?_)
    obtain ⟨changed, hrelease⟩ := map_fst_eq_ok hl
    exact ⟨gap_release hrelease, ledgerStep_release hrelease⟩
  | releaseUnbound id generation app now =>
    refine h.atomically hnext (fun l hl => ?_)
    obtain ⟨changed, hrelease⟩ := map_fst_eq_ok hl
    exact ⟨gap_release (release_of_unbound hrelease),
      ledgerStep_release (release_of_unbound hrelease)⟩
  | markBlocked app =>
    cases hnext
    exact h.commit (conserved_of_gap_eq h.conserved (same_blockBalance w.ledger app).gap)
      (.of_eq rfl)
  | hostWrites write =>
    cases hnext
    exact h.commit h.conserved (.of_eq rfl)
  | beginMaterialize tx batch newChunks =>
    simp only [inflight, World.next, World.beginMaterialize] at hnext
    split at hnext
    · cases hnext
    split at hnext
    · refine h.beginTx hnext ?_
      cases hread : readBound w.ledger batch with
      | none => trivial
      | some current =>
        obtain ⟨hmem, -, hstate⟩ := readBound_eq_some hread
        exact ⟨stillBound_readBound hread,
          ⟨current, hmem, rfl, le_rfl, fun _ hs => ⟨hs, rfl⟩⟩, hstate⟩
    · cases hnext
  | commitMaterialize tx now =>
    simp only [inflight, World.next, World.commitMaterialize] at hnext
    split at hnext
    · rename_i batch newChunks limit current hfind
      obtain ⟨t, ht, hid, hbody⟩ := find_tx hfind
      subst hid
      split at hnext
      · cases hnext
        exact h.endTx t.id
      rename_i l hrun
      cases hnext
      exact commit_materialize h ht hbody hrun
    · cases hnext
  | beginSplit tx parent =>
    simp only [inflight, World.next, World.beginSplit] at hnext
    split at hnext
    · cases hnext
    rename_i c hfind
    split at hnext
    · refine h.beginTx hnext ?_
      cases hread : readBound w.ledger c.batchId with
      | none => trivial
      | some current => exact stillBound_readBound hread
    · cases hnext
  | commitSplit tx child₁ child₂ now => exact h.commitSplit hnext hfresh
  | commitDrift tx now =>
    simp only [inflight, World.next] at hnext
    split at hnext
    · rename_i rows hfind
      cases hnext
      refine h.commitLedger tx (fun l hl => ⟨?_, ledgerStep_drift hl⟩)
      exact conserved_of_gap_eq h.conserved
        (gap_reconcileSplitOccupancyDrift hl (hfresh rows hfind))
    · cases hnext
  | commitRepair tx now =>
    simp only [inflight, World.next] at hnext
    split at hnext
    · cases hnext
      refine h.commitLedger tx (fun l hl => ⟨?_, ledgerStep_repair hl⟩)
      exact conserved_of_gap_eq h.conserved (gap_repairMisreleased hl)
    · cases hnext
  | commitReconcile tx now =>
    simp only [inflight, World.next] at hnext
    split at hnext
    · rename_i snapshot hfind
      cases hnext
      refine h.commitLedger tx (fun l hl => ⟨?_, ledgerStep_reconcile hl⟩)
      exact conserved_reconcileInFlightReservations hl h.conserved
        (hfresh snapshot hfind)
    · cases hnext
  | rollback tx =>
    cases hnext
    exact h.endTx tx
  | _ => exact h.beginTx hnext trivial

theorem reached_waiting (h : inflight.ReachableWhere ReadsCurrent w) : Waiting w := by
  refine h.invariant ?_ (fun _ _ _ hw hok hnext => hw.step hok hnext)
  rintro w ⟨hconserved, htxs⟩
  refine ⟨hconserved, ?_, ?_⟩ <;> rw [htxs] <;> intro t ht <;>
    exact absurd ht (not_mem_empty t)

/-- An accepted split expansion keeps a conserved ledger conserved exactly when
the amount it has read is the one it finds. -/
theorem conserved_expand_iff (hl : l.Conserved)
    (h : expandInFlightForSplit l (some current) 1 limit now = .ok (l', true)) :
    l'.Conserved ↔ ∀ r ∈ l.reservations, r.id = current.id →
      r.reservedChunks = current.reservedChunks := by
  obtain ⟨_, hsome, happly⟩ := expandInFlightForSplit_ok h
  cases hsome
  rcases applyReservationDelta_ok happly with
    ⟨⟨hfalse, -⟩, -⟩ | ⟨-, r, hr, hid, happ, hacc, -, -, hgap⟩
  · cases hfalse
  have hstate : r.state = .batchBound ∨ r.state = .materialized := by
    simpa [splitRequest] using state_of_accepts hacc
  have hactive : r.state.isActive = true := by
    rcases hstate with hs | hs <;> rw [hs] <;> rfl
  have hexact : (splitRequest current 1 limit).Exact r ↔
      r.reservedChunks = current.reservedChunks :=
    exact_splitRequest_iff happ hactive
  constructor
  · intro hconserved s hs hsid
    obtain rfl : s = r := eq_of_key_eq hs hr (hsid.trans hid.symm)
    refine hexact.mp ?_
    have hnew := hconserved current.appId
    have hold := hl current.appId
    have hshift := hgap current.appId
    unfold DeltaRequest.Exact
    simp only [Ledger.gap, splitRequest, if_true] at hshift ⊢
    omega
  · intro hcurrent
    refine conserved_of_gap_eq hl (gap_applyReservationDelta happly ?_)
    intro s hs hsid _ _
    obtain rfl : s = r := eq_of_key_eq hs hr (hsid.trans hid.symm)
    exact hexact.mpr (hcurrent s hs hid)

/-- Capacity is conserved in every run whose split expansions and drift repairs
find the reservation as they read it: each commit moves the balance of every
application and the sum over its active reservations by the same amount.  For an
accepted split expansion the condition is also necessary. -/
theorem capacity_conserved_of_current_reads {w : World}
    (h : inflight.ReachableWhere ReadsCurrent w) :
    w.ledger.Conserved ∧
    (∀ a w', ReadsCurrent w a → inflight.next w a = some w' → ∀ app,
      w'.ledger.balanceOf app - w.ledger.balanceOf app =
        w'.ledger.activeSum app - w.ledger.activeSum app) ∧
    (∀ current limit now l',
      expandInFlightForSplit w.ledger (some current) 1 limit now = .ok (l', true) →
      (l'.Conserved ↔ ∀ r ∈ w.ledger.reservations, r.id = current.id →
        r.reservedChunks = current.reservedChunks)) := by
  have hw := reached_waiting h
  refine ⟨hw.conserved, ?_, ?_⟩
  · intro a w' hok hnext app
    rw [hw.conserved app, (hw.step hok hnext).conserved app]
  · intro current limit now l' hexpand
    exact conserved_expand_iff hw.conserved hexpand

/-! ## Runs of a small installation -/

/-- One queued batch of application `1`, which may have ten chunks in flight. -/
def World.start : World where
  ledger := ⟨Table.empty Balance.appId, Table.empty Reservation.id⟩
  host :=
    { batches := (Table.empty HostBatch.id).insertNew ⟨1, some 1, .queued, none⟩
        (by simp)
      chunks := Table.empty HostChunk.id
      maxInFlightChunks := fun _ => 10 }
  txs := Table.empty Tx.id

theorem start_init : inflight.init World.start := by
  refine ⟨fun app => ?_, rfl⟩
  simp [World.start, Ledger.balanceOf, Ledger.activeSum]

/-- Acceptance of the batch and its division into three chunks. -/
def prepared : List Action :=
  [.reserve 1 3 10 1 0, .bind 1 1 1 1 5, .beginMaterialize 1 1 [1, 2, 3],
    .commitMaterialize 1 6]

/-- The balance and the sum of application `1`. -/
def World.amounts (w : World) : ℤ × ℤ :=
  (w.ledger.balanceOf 1, w.ledger.activeSum 1)

/-- The rows a committing transaction has read are still in the ledger. -/
def World.readsStored (w : World) : Action → Bool
  | .commitSplit tx _ _ _ | .commitDrift tx _ | .commitReconcile tx _ =>
    (w.rowsRead tx).all (· ∈ w.ledger.reservations.rows)
  | _ => true

theorem readsCurrent_of_stored {a : Action} (h : w.readsStored a = true) : ReadsCurrent w a := by
  have hcurrent {tx : ℕ} {body : TxBody} (hbody : (w.txs.find? tx).map Tx.body = some body)
      (hall : (w.rowsRead tx).all (· ∈ w.ledger.reservations.rows) = true) :
      ∀ row ∈ body.remembered, ∀ r ∈ w.ledger.reservations, r.id = row.id →
        r.reservedChunks = row.reservedChunks := by
    intro row hrow r hr hid
    rw [World.rowsRead, hbody] at hall
    have hmem : row ∈ w.ledger.reservations.rows := by simpa using all_eq_true.mp hall row hrow
    rw [eq_of_key_eq hr hmem hid]
  cases a with
  | commitSplit tx =>
    intro batch parent limit current hbody r hr hid _ _
    exact hcurrent hbody h current (mem_singleton.mpr rfl) r hr hid
  | commitDrift tx =>
    intro rows hbody row hrow r hr hid _ _
    exact hcurrent hbody h row hrow r hr hid
  | commitReconcile tx =>
    intro snapshot hbody row hrow r hr hid _ _
    exact hcurrent hbody h row (mem_append_right _ hrow) r hr hid
  | _ => trivial

/-- A chunk is split, and the drift repair finds a chunk that was planted without the ledger. -/
def splitAndRepaired : List Action :=
  prepared ++
  [.hostWrites (fun h => h.setChunk 1 .submitting),
    .beginSplit 2 1, .commitSplit 2 4 5 11,
    .hostWrites (fun h => h.addChunk 1 6),
    .beginDrift 3 10, .commitDrift 3 12]

theorem capacity_conserved_splitAndRepaired :
    ∃ w, inflight.run World.start splitAndRepaired = some w ∧ w.amounts = (5, 5) ∧
      w.ledger.Conserved := by
  have hrun : (inflight.runWhere (fun w a => w.readsStored a = true) .start
      splitAndRepaired).map World.amounts = some (5, 5) := by
    decide +kernel
  obtain ⟨w, hw, hamounts⟩ := map_eq_some_iff.mp hrun
  have hreach : inflight.ReachableWhere ReadsCurrent w :=
    .mono (fun _ _ => readsCurrent_of_stored) (.runWhere (.init start_init) hw)
  exact ⟨w, Machine.run_of_runWhere hw, hamounts, (capacity_conserved_of_current_reads hreach).1⟩

/-- Two splits commit between the reads and the locked part of a periodic
reconciliation, and a child fails.  The reconciliation then writes an amount
computed from its old read, while a third split, which has read before that
commit, is waiting for the balance. -/
def staleReads : List Action :=
  prepared ++
  [.beginReconcile 2 100 10,
    .hostWrites (fun h => h.setChunk 1 .submitting),
    .beginSplit 3 1, .commitSplit 3 4 5 11,
    .hostWrites (fun h => h.setChunk 2 .submitting),
    .beginSplit 4 2, .commitSplit 4 6 7 12,
    .hostWrites (fun h => h.setChunk 4 .failed),
    .hostWrites (fun h => h.setChunk 3 .submitting),
    .beginSplit 5 3,
    .commitReconcile 2 13]

/-- The waiting split then adds one chunk to the balance and two to the sum. -/
theorem split_after_stale_reconcile_not_conserved :
    ∃ w w', inflight.Reachable w ∧ w.amounts = (4, 4) ∧
      inflight.next w (.commitSplit 5 8 9 14) = some w' ∧ w'.amounts = (5, 6) := by
  have hrun : (inflight.run .start staleReads).map
      (fun w => (w.amounts, (inflight.next w (.commitSplit 5 8 9 14)).map
        World.amounts)) = some ((4, 4), some (5, 6)) := by
    decide
  obtain ⟨w, hw, hamounts⟩ := map_eq_some_iff.mp hrun
  obtain ⟨hbefore, hafter⟩ := Prod.mk.inj hamounts
  obtain ⟨w', hw', hamounts'⟩ := map_eq_some_iff.mp hafter
  exact ⟨w, w', .run (.init start_init) hw, hbefore,
    hw', hamounts'⟩

end SmsPlatform.Inflight
