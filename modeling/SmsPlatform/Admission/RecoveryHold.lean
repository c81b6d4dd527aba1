import SmsPlatform.Admission.Control

/-!
# The recovery hold across instances

A row that was closed at `t` guards the instant `t` plus the hold: it stays
closed, or it is degraded with a deadline that far out, until the hold has
passed.  A candidate inherits the guard from the row it was computed from, and
the save keeps it as long as that row is the one it replaces.

The condition of the save lets any candidate through once the row has expired.
A candidate computed before another instance closed the row can then reopen it.
-/

namespace SmsPlatform.Admission

open Support

variable {limits : SendAdmissionLimits}
variable {state : AdmissionState} {b : Board} {candidate : ControlState} {x : Instance}
  {before : Option Row} {row : Row} {w : World} {i now t : ℕ}

/-! ## What a candidate inherits -/

/-- A control state that cannot lead to an open report before `t` plus the
recovery hold. -/
def Guards (state : AdmissionState) (holdUntil : Option ℕ) (now t : ℕ) : Prop :=
  state = .closed ∨
  (state = .degraded ∧ ∃ hold, holdUntil = some hold ∧ t + recoveryHold ≤ hold) ∨
  t + recoveryHold ≤ now

variable {holdUntil : Option ℕ}

theorem Guards.mono {now' : ℕ} (h : Guards state holdUntil now t)
    (hle : now ≤ now') : Guards state holdUntil now' t := by
  rcases h with h | h | h
  · exact .inl h
  · exact .inr (.inl h)
  · exact .inr (.inr (le_trans h hle))

theorem Guards.of_opened (h : Guards .opened holdUntil now t) : t + recoveryHold ≤ now := by
  rcases h with h | ⟨h, -⟩ | h
  · cases h
  · cases h
  · exact h

theorem le_newHold (dbNow : ℕ) (active : Option ℕ) :
    dbNow + recoveryHold ≤ newHold dbNow active := by
  unfold newHold
  split
  · split
    · omega
    · exact le_rfl
  · exact le_rfl

section

variable {previous : Option AdmissionState} {raw : AdmissionState} {reason : Reason}
  {dbNow hold : ℕ} {holdUntil : Option ℕ}

/-- Leaving a closed state starts a hold of full length; a previous state that is
missing or unknown counts as closed. -/
theorem transition_of_closed (hprev : previous.getD .closed = .closed) (ht : t ≤ dbNow) :
    Guards (transitionAdmissionState previous raw reason dbNow holdUntil).state
      (transitionAdmissionState previous raw reason dbNow holdUntil).holdUntil now t := by
  by_cases hraw : raw = .closed
  · left
    simp [transitionAdmissionState, hraw]
  · right
    left
    simp only [transitionAdmissionState, if_neg hraw, if_pos hprev]
    have hle := le_newHold dbNow (activeHold dbNow holdUntil)
    exact ⟨trivial, _, rfl, by omega⟩

/-- A hold that is running is kept, whatever the facts. -/
theorem transition_of_running (hprev : previous.getD .closed ≠ .closed) (hrun : dbNow < hold)
    (hlong : t + recoveryHold ≤ hold) :
    Guards (transitionAdmissionState previous raw reason dbNow (some hold)).state
      (transitionAdmissionState previous raw reason dbNow (some hold)).holdUntil now t := by
  have hactive : activeHold dbNow (some hold) = some hold := by
    simp [activeHold, hrun]
  cases raw with
  | closed => simp [Guards, transitionAdmissionState]
  | _ => simp [Guards, transitionAdmissionState, hprev, hactive, hlong]

/-- A candidate computed at `loadedAt` from a row that guards `t` guards `t`
itself; a closed row has to be from before the load. -/
theorem compute_guards {facts : SendAdmissionFacts} {snapshot : Option AdmissionState}
    {loadedAt : ℕ} (hle : loadedAt ≤ now) (hguards : Guards row.state row.holdUntil now t)
    (hclosed : row.state = .closed → t ≤ loadedAt) :
    Guards (computeFromPersisted limits facts snapshot (some row) loadedAt).state
      (computeFromPersisted limits facts snapshot (some row) loadedAt).holdUntil now t := by
  rcases hguards with hstate | ⟨hstate, hold, hhold, hlong⟩ | hpast
  · have hprev : persistedPrevious snapshot (some row) loadedAt = .closed := by
      simp [persistedPrevious, hstate]
    simp only [computeFromPersisted, hprev]
    exact transition_of_closed rfl (hclosed hstate)
  · by_cases hrun : loadedAt < hold
    · have hprev : persistedPrevious snapshot (some row) loadedAt = .degraded := by
        simp [persistedPrevious, hstate, hhold]
      simp only [computeFromPersisted, hprev, Option.bind_some, hhold]
      exact transition_of_running (by decide) hrun hlong
    · exact .inr (.inr (by omega))
  · exact .inr (.inr hpast)

end

/-! ## The invariant -/

/-- A row that was closed at `t` according to the history. -/
def ClosedAt (b : Board) (t : ℕ) : Prop :=
  Event.persisted .closed t ∈ b.history

/-- `row` follows `before`: its epoch is larger, or it stands for the same
control state. -/
def Follows (row before : Row) : Prop :=
  before.stateEpoch < row.stateEpoch ∨
    (before.stateEpoch = row.stateEpoch ∧ before.state = row.state ∧
      before.reason = row.reason ∧ before.holdUntil = row.holdUntil)

theorem Follows.refl (row : Row) : Follows row row := .inr ⟨rfl, rfl, rfl, rfl⟩

theorem Follows.trans {a b c : Row} (hab : Follows a b) (hbc : Follows b c) : Follows a c := by
  rcases hab with hab | ⟨hab, hs, hr, hh⟩
  · rcases hbc with hbc | ⟨hbc, -⟩
    · exact .inl (lt_trans hbc hab)
    · exact .inl (by omega)
  · rcases hbc with hbc | ⟨hbc, hs', hr', hh'⟩
    · exact .inl (by omega)
    · exact .inr ⟨by omega, hs'.trans hs, hr'.trans hr, hh'.trans hh⟩

/-- A candidate waiting to be saved, and how the row it was computed from
relates to the present one. -/
structure Pending (limits : SendAdmissionLimits) (b : Board) (candidate : ControlState)
    (loaded : Option Row) (loadedAt : ℕ) : Prop where
  past : loadedAt ≤ b.now
  seen : ∀ t, ClosedAt b t → t ≤ loadedAt ∨ ∃ r, b.row = some r ∧ t + validity ≤ r.validUntil
  missing : loaded = none → ∃ facts dbNow,
    candidate = computeFromPersisted limits facts none none dbNow
  computed : ∀ r, loaded = some r → ∃ facts snapshot,
    candidate = computeFromPersisted limits facts snapshot (some r) loadedAt
  valid : ∀ r, loaded = some r → r.validUntil ≤ loadedAt + validity
  follows : ∀ r, loaded = some r → ∃ row, b.row = some row ∧ Follows row r

/-- What holds of an instance, whoever else acts. -/
structure InstanceSound (limits : SendAdmissionLimits) (b : Board) (x : Instance) :
    Prop where
  snapshot : b.row = none → x.snapshot = none
  pending : ∀ facts attempts candidate loaded loadedAt,
    x.pc = .saving facts attempts candidate loaded loadedAt →
      Pending limits b candidate loaded loadedAt

/-- An open report is at least a recovery hold after every closed row before
it. -/
def ReportFollows (later earlier : Event) : Prop :=
  ∀ i t t', later = .reported i .opened t' → earlier = .persisted .closed t → t + recoveryHold ≤ t'

/-- What holds of the row, the clock and the history. -/
structure BoardSound (b : Board) : Prop where
  past : ∀ t, ClosedAt b t → t ≤ b.now
  valid : ∀ r, b.row = some r → r.validUntil ≤ b.now + validity
  guarded : ∀ t, ClosedAt b t → ∃ r, b.row = some r ∧ Guards r.state r.holdUntil b.now t
  epochs : ∀ t r, ClosedAt b t → b.row = some r → r.state = .closed ∨ 2 ≤ r.stateEpoch
  reports : b.history.Pairwise ReportFollows

structure Sound (limits : SendAdmissionLimits) (w : World) : Prop where
  board : BoardSound w.board
  instances : ∀ i, InstanceSound limits w.board (w.instances i)

theorem instanceSound_idle (h : InstanceSound limits b x) (pc : Pc)
    (hpc : ∀ facts attempts candidate loaded loadedAt,
      pc ≠ .saving facts attempts candidate loaded loadedAt) :
    InstanceSound limits b ⟨x.snapshot, pc⟩ :=
  ⟨h.snapshot, fun _ _ _ _ _ hsaving => absurd hsaving (hpc _ _ _ _ _)⟩

theorem instanceSound_forgotten (b : Board) : InstanceSound limits b ⟨none, .idle⟩ :=
  ⟨fun _ => rfl, fun _ _ _ _ _ hsaving => absurd hsaving (by simp)⟩

theorem Sound.setInstance (h : Sound limits w) (hx : InstanceSound limits w.board x) :
    Sound limits (w.setInstance i x) := by
  refine ⟨h.board, fun j => ?_⟩
  by_cases hj : j = i
  · subst hj
    simpa [World.setInstance] using hx
  · simpa [World.setInstance, hj] using h.instances j

theorem Sound.giveUp (h : Sound limits w) (i : ℕ) : Sound limits (w.giveUp i) :=
  h.setInstance (instanceSound_forgotten w.board)

/-! ## Steps that leave the row alone -/

theorem BoardSound.advance (h : BoardSound b) (duration : ℕ) : BoardSound (b.advance duration) where
  past := fun t ht => Nat.le_trans (h.past t ht) (Nat.le_add_right _ _)
  valid := by
    intro r hr
    have hvalid := h.valid r hr
    dsimp only [Board.advance]
    omega
  guarded := by
    intro t ht
    obtain ⟨r, hr, hguards⟩ := h.guarded t ht
    exact ⟨r, hr, hguards.mono (Nat.le_add_right _ _)⟩
  epochs := h.epochs
  reports := h.reports

theorem InstanceSound.advance (h : InstanceSound limits b x) (duration : ℕ) :
    InstanceSound limits (b.advance duration) x where
  snapshot := h.snapshot
  pending := by
    intro facts attempts candidate loaded loadedAt hpc
    have hp := h.pending _ _ _ _ _ hpc
    exact ⟨le_trans hp.past (Nat.le_add_right _ _), hp.seen, hp.missing, hp.computed,
      hp.valid, hp.follows⟩

theorem closedAt_report : ClosedAt (b.report i state) t ↔ ClosedAt b t := by
  simp [ClosedAt, Board.report]

/-- A state that the row guards may be reported. -/
theorem BoardSound.report (h : BoardSound b) (hstate : ∃ r, b.row = some r ∧ r.state = state) :
    BoardSound (b.report i state) where
  past := fun t ht => h.past t (closedAt_report.mp ht)
  valid := h.valid
  guarded := fun t ht => h.guarded t (closedAt_report.mp ht)
  epochs := fun t r ht => h.epochs t r (closedAt_report.mp ht)
  reports := by
    refine .cons ?_ h.reports
    rintro earlier hearlier j t t' hlater rfl
    obtain ⟨-, rfl, rfl⟩ : i = j ∧ state = .opened ∧ b.now = t' := by
      simpa using hlater
    obtain ⟨r, hr, hguards⟩ := h.guarded t hearlier
    obtain ⟨r', hr', hopen⟩ := hstate
    obtain rfl : r = r' := by simpa [hr] using hr'
    rw [hopen] at hguards
    exact hguards.of_opened

theorem InstanceSound.report (h : InstanceSound limits b x) (i : ℕ) (state : AdmissionState) :
    InstanceSound limits (b.report i state) x where
  snapshot := h.snapshot
  pending := by
    intro facts attempts candidate loaded loadedAt hpc
    have hp := h.pending _ _ _ _ _ hpc
    exact ⟨hp.past, fun t ht => hp.seen t (closedAt_report.mp ht), hp.missing, hp.computed,
      hp.valid, hp.follows⟩

theorem Sound.report (h : Sound limits w) (i : ℕ)
    (hstate : ∃ r, w.board.row = some r ∧ r.state = state) : Sound limits (w.report i state) := by
  obtain ⟨r, hr, -⟩ := id hstate
  have hidle : InstanceSound limits w.board ⟨some state, .idle⟩ :=
    ⟨fun hnone => absurd hr (by simp [hnone]),
      fun _ _ _ _ _ hsaving => absurd hsaving (by simp)⟩
  have hset := h.setInstance (i := i) hidle
  exact ⟨h.board.report hstate, fun j => (hset.instances j).report i state⟩

theorem Sound.load (h : Sound limits w) (i localNow : ℕ) (facts : SendAdmissionFacts)
    (attempts : ℕ) : Sound limits (w.load limits i localNow facts attempts) := by
  refine h.setInstance ⟨(h.instances i).snapshot, ?_⟩
  intro facts' attempts' candidate loaded loadedAt hpc
  obtain ⟨-, -, rfl, rfl, rfl⟩ := hpc
  constructor
  · exact le_rfl
  · exact fun t ht => .inl (h.board.past t ht)
  · intro hnone
    rw [(h.instances i).snapshot hnone, hnone]
    exact ⟨facts, _, rfl⟩
  · intro r hr
    rw [hr]
    exact ⟨facts, (w.instances i).snapshot, rfl⟩
  · exact h.board.valid
  · exact fun r hr => ⟨r, hr, .refl r⟩

/-! ## The save -/

/-- What a granted save writes, and why it was granted. -/
structure Granted (before : Option Row) (candidate : ControlState) (now : ℕ) (row : Row) :
    Prop where
  state : row.state = candidate.state
  reason : row.reason = candidate.reason
  holdUntil : row.holdUntil = candidate.holdUntil
  validUntil : row.validUntil = now + validity
  allowed : ∀ r, before = some r →
    saveAllowed r candidate now = true ∧ row.stateEpoch = nextEpoch r candidate

theorem saveControlState_spec (before : Option Row) (candidate : ControlState) (now : ℕ) :
    (∀ row, saveControlState before candidate now = .saved row → Granted before candidate now row) ∧
    ∀ winner, saveControlState before candidate now = .conflict winner → before = some winner := by
  unfold saveControlState
  split
  · cases before with
    | none =>
      dsimp only
      split
      · refine ⟨?_, by rintro _ ⟨⟩⟩
        rintro _ ⟨⟩
        exact ⟨rfl, rfl, rfl, rfl, by rintro r ⟨⟩⟩
      · exact ⟨by rintro _ ⟨⟩, by rintro _ ⟨⟩⟩
    | some r =>
      dsimp only
      split
      · next hallowed =>
        refine ⟨?_, by rintro _ ⟨⟩⟩
        rintro _ ⟨⟩
        refine ⟨rfl, rfl, rfl, rfl, ?_⟩
        rintro r' ⟨⟩
        exact ⟨hallowed, rfl⟩
      · refine ⟨by rintro _ ⟨⟩, ?_⟩
        rintro _ ⟨⟩
        rfl
  · exact ⟨by rintro _ ⟨⟩, by rintro _ ⟨⟩⟩

/-- A granted save starts a new epoch unless it changes nothing. -/
theorem Granted.follows {r : Row} (h : Granted before candidate now row) (hr : before = some r) :
    Follows row r := by
  have hepoch := (h.allowed r hr).2
  by_cases hsame : SameControl r candidate
  · rw [nextEpoch, if_pos hsame] at hepoch
    exact .inr ⟨hepoch.symm, hsame.1.trans h.state.symm, hsame.2.1.trans h.reason.symm,
      hsame.2.2.trans h.holdUntil.symm⟩
  · rw [nextEpoch, if_neg hsame] at hepoch
    exact .inl (by omega)

/-- Every save that takes effect through an expired row replaces the row it was
computed from. -/
def SavesWhatItLoaded (w : World) : Action → Prop
  | .save i _ =>
    match (w.instances i).pc with
    | .saving _ _ _ loaded _ => ∀ r, w.board.row = some r →
        r.validUntil < w.board.now → loaded = some r
    | _ => True
  | _ => True

variable {loaded : Option Row}

/-- The candidate of a granted save guards whatever the row has been closed
for. -/
theorem Pending.guards (hb : BoardSound b) {loadedAt : ℕ}
    (hp : Pending limits b candidate loaded loadedAt)
    (hloaded : ∀ r, b.row = some r → r.validUntil < b.now → loaded = some r)
    (hg : Granted b.row candidate b.now row) (ht : ClosedAt b t) :
    Guards candidate.state candidate.holdUntil b.now t := by
  obtain ⟨r, hr, hguards⟩ := hb.guarded t ht
  obtain ⟨hallowed, -⟩ := hg.allowed r hr
  by_cases hexpired : r.validUntil < b.now
  · -- the row is the one that was loaded, so it was closed before the load
    have hl := hloaded r hr hexpired
    obtain ⟨facts, snapshot, rfl⟩ := hp.computed r hl
    refine compute_guards hp.past hguards (fun _ => ?_)
    rcases hp.seen t ht with hle | ⟨r', hr', hvalid⟩
    · exact hle
    · obtain rfl : r = r' := by simpa [hr] using hr'
      have hshort := hp.valid r hl
      omega
  · simp [saveAllowed, hexpired] at hallowed
    obtain ⟨hepoch, hsame | hrank⟩ := hallowed
    · rw [← hsame.1, ← hsame.2.2]
      exact hguards
    · by_cases hclosed : r.state = .closed
      · left
        cases hstate : candidate.state with
        | closed => rfl
        | _ => simp [hclosed, hstate, AdmissionState.rank] at hrank
      · cases hl : loaded with
        | none =>
          -- a candidate without a row has epoch one, the row is past it
          obtain ⟨facts, dbNow, rfl⟩ := hp.missing hl
          rcases hb.epochs t r ht hr with hstate | htwo
          · exact absurd hstate hclosed
          · have hone : r.stateEpoch = 1 := hepoch
            omega
        | some r₀ =>
          obtain ⟨facts, snapshot, rfl⟩ := hp.computed r₀ hl
          obtain ⟨r', hr', hfollows⟩ := hp.follows r₀ hl
          obtain rfl : r = r' := by simpa [hr] using hr'
          have hone : r.stateEpoch = r₀.stateEpoch := hepoch
          rcases hfollows with hlt | ⟨-, hstate, -, hhold⟩
          · omega
          · refine compute_guards hp.past (by rw [hstate, hhold]; exact hguards) ?_
            intro hclosed₀
            exact absurd (hstate ▸ hclosed₀) hclosed

theorem closedAt_persist :
    ClosedAt (b.persist row) t ↔ (row.state = .closed ∧ t = b.now) ∨ ClosedAt b t := by
  simp [ClosedAt, Board.persist, eq_comm]

theorem BoardSound.persist (h : BoardSound b) (hg : Granted b.row candidate b.now row)
    (hguards : ∀ t, ClosedAt b t → Guards candidate.state candidate.holdUntil b.now t) :
    BoardSound (b.persist row) where
  past := by
    intro t ht
    rcases closedAt_persist.mp ht with ⟨-, rfl⟩ | hold
    · exact le_rfl
    · exact h.past t hold
  valid := by
    intro r hr
    obtain rfl : row = r := by simpa [Board.persist] using hr
    exact le_of_eq hg.validUntil
  guarded := by
    intro t ht
    refine ⟨row, rfl, ?_⟩
    rcases closedAt_persist.mp ht with ⟨hclosed, -⟩ | hold
    · exact .inl hclosed
    · rw [hg.state, hg.holdUntil]
      exact hguards t hold
  epochs := by
    intro t r ht hr
    obtain rfl : row = r := by simpa [Board.persist] using hr
    rcases closedAt_persist.mp ht with ⟨hclosed, -⟩ | hold
    · exact .inl hclosed
    obtain ⟨r₀, hr₀, -⟩ := h.guarded t hold
    have hpos := r₀.epoch_pos
    rcases hg.follows hr₀ with hlt | ⟨heq, hstate, -⟩
    · exact .inr (by omega)
    · rcases h.epochs t r₀ hold hr₀ with hclosed | htwo
      · exact .inl (hstate ▸ hclosed)
      · exact .inr (by omega)
  reports := by
    refine .cons ?_ h.reports
    intro earlier _ i t t' hlater
    cases hlater

theorem InstanceSound.persist (hb : BoardSound b) (h : InstanceSound limits b x)
    (hg : Granted b.row candidate b.now row) : InstanceSound limits (b.persist row) x where
  snapshot := fun hnone => absurd hnone (by simp [Board.persist])
  pending := by
    intro facts attempts candidate loaded loadedAt hpc
    have hp := h.pending _ _ _ _ _ hpc
    constructor
    · exact hp.past
    · intro t ht
      refine .inr ⟨row, rfl, ?_⟩
      rw [hg.validUntil]
      rcases closedAt_persist.mp ht with ⟨-, rfl⟩ | hold
      · exact le_rfl
      · exact Nat.add_le_add_right (hb.past t hold) _
    · exact hp.missing
    · exact hp.computed
    · exact hp.valid
    · intro r hr
      obtain ⟨r', hr', hfollows⟩ := hp.follows r hr
      exact ⟨row, rfl, (hg.follows hr').trans hfollows⟩

theorem Sound.persist (h : Sound limits w) (hg : Granted w.board.row candidate w.board.now row)
    (hguards : ∀ t, ClosedAt w.board t → Guards candidate.state candidate.holdUntil w.board.now t) :
    Sound limits (w.persist row) :=
  ⟨h.board.persist hg hguards, fun j => (h.instances j).persist h.board hg⟩

theorem Sound.save (h : Sound limits w) {answered : Bool} {facts : SendAdmissionFacts}
    {attempts : ℕ} {loadedAt : ℕ}
    (hpc : (w.instances i).pc = .saving facts attempts candidate loaded loadedAt)
    (hok : SavesWhatItLoaded w (.save i answered)) :
    Sound limits (w.save i answered facts attempts candidate) := by
  have hp := (h.instances i).pending _ _ _ _ _ hpc
  simp only [SavesWhatItLoaded, hpc] at hok
  unfold World.save
  cases hsave : saveControlState w.board.row candidate w.board.now with
  | invalid => exact h.giveUp i
  | saved row =>
    have hg := (saveControlState_spec ..).1 _ hsave
    have hpersist := h.persist hg (fun t ht => hp.guards h.board hok hg ht)
    dsimp only
    split
    · exact hpersist.report i ⟨row, rfl, rfl⟩
    · exact hpersist.giveUp i
  | conflict winner =>
    have hwinner := (saveControlState_spec ..).2 _ hsave
    dsimp only
    split
    · unfold World.afterConflict
      split
      · exact h.report i ⟨winner, hwinner, rfl⟩
      split
      · exact h.giveUp i
      · exact h.setInstance (instanceSound_idle (h.instances i) _ (by simp))
    · exact h.giveUp i

theorem sound_next {w' : World} {a : Action} (h : Sound limits w) (hok : SavesWhatItLoaded w a)
    (hnext : w.next limits a = some w') : Sound limits w' := by
  cases a with
  | advance duration =>
    cases hnext
    exact ⟨h.board.advance duration, fun j => (h.instances j).advance duration⟩
  | start i facts =>
    dsimp only [World.next] at hnext
    split at hnext
    · cases hnext
      exact h.setInstance (instanceSound_idle (h.instances i) _ (by simp))
    · cases hnext
  | load i localNow =>
    dsimp only [World.next] at hnext
    split at hnext
    · cases hnext
      exact h.load i localNow _ _
    · cases hnext
  | save i answered =>
    dsimp only [World.next] at hnext
    split at hnext
    · next hpc =>
      cases hnext
      exact h.save hpc hok
    · cases hnext
  | fail i | restart i =>
    cases hnext
    exact h.giveUp i

theorem sound_init (h : (admissionMachine limits).init w) : Sound limits w := by
  obtain ⟨hidle, hvalid, hhistory⟩ := h
  have hclosed : ∀ t, ClosedAt w.board t →
      t = w.board.now ∧ ∃ r, w.board.row = some r ∧ r.state = .closed := by
    intro t ht
    rw [ClosedAt, hhistory, initialHistory.eq_def] at ht
    split at ht
    · next r hr =>
      split at ht
      · next hstate => exact ⟨by simpa using ht, r, hr, hstate⟩
      · cases ht
    · cases ht
  constructor
  · constructor
    · exact fun t ht => le_of_eq (hclosed t ht).1
    · exact hvalid
    · intro t ht
      obtain ⟨-, r, hr, hstate⟩ := hclosed t ht
      exact ⟨r, hr, .inl hstate⟩
    · intro t r ht hr
      obtain ⟨-, r', hr', hstate⟩ := hclosed t ht
      obtain rfl : r = r' := by simpa [hr] using hr'
      exact .inl hstate
    · rw [hhistory, initialHistory.eq_def]
      split
      · split
        · exact List.pairwise_singleton _ _
        · exact .nil
      · exact .nil
  · intro i
    rw [hidle i]
    exact instanceSound_forgotten w.board

theorem sound_of_reachable (h : (admissionMachine limits).ReachableWhere SavesWhatItLoaded w) :
    Sound limits w :=
  Machine.ReachableWhere.invariant (fun _ hinit => sound_init hinit)
    (fun _ _ _ hs hok hnext => sound_next hs hok hnext) h

/-! ## Reports after a closed row -/

/-- An expired row is not taken for an open one. -/
theorem persistedPrevious_expired_ne_opened {snapshot : Option AdmissionState} {r : Row}
    {dbNow : ℕ} (h : r.validUntil < dbNow) :
    persistedPrevious snapshot (some r) dbNow ≠ .opened := by
  simp only [persistedPrevious, if_pos h]
  split <;> decide

theorem transition_none_ne_opened (raw : AdmissionState) (reason : Reason) (dbNow : ℕ)
    (holdUntil : Option ℕ) :
    (transitionAdmissionState none raw reason dbNow holdUntil).state ≠ .opened := by
  intro hopened
  have hguards := @transition_of_closed 0 dbNow none raw reason dbNow holdUntil rfl le_rfl
  rw [hopened] at hguards
  exact absurd hguards.of_opened (by simp [recoveryHold])

/-- In every run whose saves through an expired row replace the row they were
computed from, an open report comes at least a recovery hold after every row
persisted as closed before it, and a missing, expired or unknown row is never
taken for an open one. -/
theorem no_open_report_within_hold (limits : SendAdmissionLimits) (w : World)
    (h : (admissionMachine limits).ReachableWhere SavesWhatItLoaded w) :
    w.board.history.Pairwise (fun later earlier => ∀ i t t',
      later = .reported i .opened t' → earlier = .persisted .closed t → t + recoveryHold ≤ t') ∧
    (∀ i, (w.board.row = none ∨ ∃ r, w.board.row = some r ∧ r.validUntil < w.board.now) →
      persistedPrevious (w.instances i).snapshot w.board.row w.board.now ≠ .opened) ∧
    (∀ raw reason dbNow holdUntil,
      (transitionAdmissionState none raw reason dbNow holdUntil).state ≠ .opened) := by
  have hsound := sound_of_reachable h
  refine ⟨hsound.board.reports, ?_, transition_none_ne_opened⟩
  rintro i (hnone | ⟨r, hr, hexpired⟩)
  · rw [hnone, (hsound.instances i).snapshot hnone]
    exact AdmissionState.noConfusion
  · rw [hr]
    exact persistedPrevious_expired_ne_opened hexpired

/-- An evaluation that nothing interrupts. -/
def evaluate (i : ℕ) (facts : SendAdmissionFacts) : List Action :=
  [.start i facts, .load i 0, .save i true]

/-- Evaluations that nothing interrupts meet the condition. -/
theorem reachable_evaluate {w' : World} (i : ℕ) (facts : SendAdmissionFacts)
    (h : (admissionMachine limits).ReachableWhere SavesWhatItLoaded w)
    (hrun : (admissionMachine limits).run w (evaluate i facts) = some w') :
    (admissionMachine limits).ReachableWhere SavesWhatItLoaded w' := by
  simp only [evaluate, Machine.run_cons, Machine.run_nil, Option.bind_eq_some_iff,
    Option.some.injEq] at hrun
  obtain ⟨w₁, h₁, w₂, h₂, w₃, h₃, rfl⟩ := hrun
  have hstarted := h.step (show SavesWhatItLoaded w (.start i facts) from trivial) h₁
  have hloaded := hstarted.step (show SavesWhatItLoaded w₁ (.load i 0) from trivial) h₂
  refine hloaded.step ?_ h₃
  dsimp only [admissionMachine, World.next] at h₂
  split at h₂
  · cases h₂
    simp only [SavesWhatItLoaded, World.load, World.setInstance, Function.update_self]
    exact fun _ hr _ => hr
  · cases h₂

theorem reachable_advance (duration : ℕ)
    (h : (admissionMachine limits).ReachableWhere SavesWhatItLoaded w) :
    (admissionMachine limits).ReachableWhere SavesWhatItLoaded
      { w with board := w.board.advance duration } :=
  h.step (show SavesWhatItLoaded w (.advance duration) from trivial) rfl

/-- No backlog at all. -/
def calmFacts : SendAdmissionFacts where
  outboxActive := 0
  outboxOldestAgeS := 0
  outboxDead := 0
  uncertainOverdue := 0
  callbackDead := 0
  realtimePaused := false
  bulkPaused := false
  vendorFailures := 0
  realtimeHeartbeatStale := false
  bulkHeartbeatStale := false
  dispatcherHeartbeatStale := false
  outboxSharedActive := none

/-- The dispatcher is silent. -/
def silentFacts : SendAdmissionFacts :=
  { calmFacts with dispatcherHeartbeatStale := true }

/-- A fresh database at time zero. -/
def freshWorld : World where
  board := ⟨0, none, []⟩
  instances := fun _ => ⟨none, .idle⟩

theorem freshWorld_init (limits : SendAdmissionLimits) :
    (admissionMachine limits).init freshWorld :=
  ⟨fun _ => rfl, fun _ hr => absurd hr (by simp [freshWorld]), rfl⟩

/-- The reports of a run, latest first. -/
def reportsOf (w : World) : List (ℕ × AdmissionState × ℕ) :=
  w.board.history.filterMap (fun
    | .reported i state time => some (i, state, time)
    | .persisted _ _ => none)

def closingsOf (w : World) : List ℕ :=
  w.board.history.filterMap (fun
    | .persisted .closed time => some time
    | _ => none)

def seconds (n : ℕ) : ℕ := n * 1000000

/-- The row is closed at second 0, held from second 16 on and opened at
second 77. -/
theorem no_open_report_within_hold_recovery : ∃ w, reportsOf w =
        [(0, .opened, seconds 77), (0, .degraded, seconds 16), (1, .closed, 0)] ∧
      w.board.history.Pairwise (fun later earlier => ∀ i t t',
        later = .reported i .opened t' → earlier = .persisted .closed t →
          t + recoveryHold ≤ t') := by
  have h₀ : (admissionMachine {}).ReachableWhere SavesWhatItLoaded freshWorld :=
    .init (freshWorld_init {})
  have h₁ := reachable_evaluate 1 silentFacts h₀ rfl
  have h₂ := reachable_evaluate 0 calmFacts (reachable_advance (seconds 16) h₁) rfl
  have h₃ := reachable_evaluate 0 calmFacts (reachable_advance (seconds 61) h₂) rfl
  exact ⟨_, by decide +kernel, (no_open_report_within_hold {} _ h₃).1⟩

/-- An open row that was saved at time zero. -/
def openWorld : World where
  board := ⟨0, some ⟨.opened, .ok, 1, none, validity, by decide, by decide⟩, []⟩
  instances := fun _ => ⟨none, .idle⟩

/-- Instance 0 reads the open row, instance 1 closes it at second 1, and instance
0 saves its candidate once the closed row has expired. -/
def staleSaveRun : List Action :=
  [.start 0 calmFacts, .load 0 0, .advance (seconds 1)] ++ evaluate 1 silentFacts ++
    [.advance (seconds 16), .save 0 true]

/-- The row is closed at second 1 and reported open at second 17, with no degraded
state in between. -/
theorem stale_save_reopens : (admissionMachine {}).init openWorld ∧
      ∃ w, (admissionMachine {}).run openWorld staleSaveRun = some w ∧ closingsOf w = [seconds 1] ∧
        reportsOf w = [(0, .opened, seconds 17), (1, .closed, seconds 1)] ∧
        seconds 17 < seconds 1 + recoveryHold := by
  refine ⟨⟨fun _ => rfl, ?_, rfl⟩, _, rfl, ?_, ?_, ?_⟩
  · rintro r ⟨⟩
    decide
  · decide +kernel
  · decide +kernel
  · decide

end SmsPlatform.Admission
