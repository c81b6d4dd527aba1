import SmsPlatform.Outbox.RowStep

/-!
# Attempt budget and lease columns

`attempts` is raised when an event is leased and lowered again when its
execution is deferred, in different transactions with other parties in
between.  The invariant `EventOk` bounds it in every reachable state and ties
the lease columns to the state column.

The law of deferrals is a statement about runs.  As long as no failure is
charged to an event and nobody resets it, `attempts` has its initial value
whenever the event is pending and one more while it is leased, published or
processing.  Such an event is never dead.
-/

namespace SmsPlatform.Outbox

open Support World

/-- The invariant of a single row. -/
structure EventOk (r : OutboxEvent) : Prop where
  max_pos : 1 ≤ r.spec.maxAttempts
  attempts_le : r.attempts ≤ r.spec.maxAttempts
  lease_eq : r.leaseId.isSome = r.state.holdsLease
  expiry_eq : r.leaseExpiresAt.isSome = r.state.holdsLease
  pending_lt : r.state = .pending → r.attempts < r.spec.maxAttempts
  held_pos : r.state.holdsLease = true → 1 ≤ r.attempts

variable {a : Action} {eventId : EventId} {leaseId : LeaseId} {r r' r₀ : OutboxEvent} {now : Time}
  {w w' : World}

theorem EventOk.newEvent {id : EventId} {spec : OutboxEventSpec} {delay : Time}
    (hmax : 1 ≤ spec.maxAttempts) : EventOk (newEvent id spec now delay) where
  max_pos := hmax
  attempts_le := Nat.zero_le _
  lease_eq := rfl
  expiry_eq := rfl
  pending_lt _ := hmax
  held_pos h := by cases h

theorem EventOk.recordFailure (h : EventOk r) (error : String) :
    EventOk (recordFailure error r) := by
  unfold Outbox.recordFailure
  by_cases hmax : r.spec.maxAttempts ≤ r.attempts
  · simp only [hmax, if_true]
    exact ⟨h.max_pos, h.attempts_le, rfl, rfl, by rintro ⟨⟩, by rintro ⟨⟩⟩
  · simp only [hmax, if_false]
    exact ⟨h.max_pos, h.attempts_le, rfl, rfl, fun _ => by simpa using hmax, by rintro ⟨⟩⟩

theorem heldBy_iff {state : EventState} : heldBy eventId state leaseId r = true ↔
      r.id = eventId ∧ r.state = state ∧ r.leaseId = some leaseId := by
  simp [heldBy]

/-- The settling statements act on the row held by their caller. -/
theorem heldBy_of_settleUpdate {how : Settlement}
    (h : (settleUpdate eventId leaseId now how).applies r = true) :
    r.id = eventId ∧ r.state = .processing ∧ r.leaseId = some leaseId := by
  cases how with
  | defer nextAttemptAt =>
    simp only [settleUpdate, Bool.and_eq_true] at h
    exact heldBy_iff.mp h.1.1
  | _ => exact heldBy_iff.mp h

theorem heldBy_of_publishFailedUpdate {errorType : String}
    (h : (publishFailedUpdate eventId leaseId errorType now).applies r = true) :
    r.id = eventId ∧ r.state = .leased ∧ r.leaseId = some leaseId := by
  simp only [publishFailedUpdate, Bool.and_eq_true] at h
  exact heldBy_iff.mp h.1

theorem EventOk.settle (h : EventOk r) {how : Settlement}
    (happ : (settleUpdate eventId leaseId now how).applies r = true) :
    EventOk ((settleUpdate eventId leaseId now how).change r) := by
  obtain ⟨-, hstate, -⟩ := heldBy_of_settleUpdate happ
  have hpos : 1 ≤ r.attempts := h.held_pos (by rw [hstate]; rfl)
  have hle := h.attempts_le
  cases how with
  | complete => exact ⟨h.max_pos, h.attempts_le, rfl, rfl, by rintro ⟨⟩, by rintro ⟨⟩⟩
  | defer nextAttemptAt =>
    refine ⟨h.max_pos, ?_, rfl, rfl, fun _ => ?_, by rintro ⟨⟩⟩
    · show r.attempts - 1 ≤ r.spec.maxAttempts
      omega
    · show r.attempts - 1 < r.spec.maxAttempts
      omega
  | fail errorType => exact h.recordFailure _

theorem RowStep.eventOk (hstep : RowStep w a w' r r') (h : EventOk r) : EventOk r' := by
  cases hstep with
  | same => exact h
  | adopted happ =>
    have hpending : r.state = .pending := by
      simp only [closePendingBind, decide_eq_true_eq] at happ
      exact happ.2.2.2
    have hnone : r.state.holdsLease = false := by rw [hpending]; rfl
    exact ⟨h.max_pos, h.attempts_le, h.lease_eq.trans hnone,
      h.expiry_eq.trans hnone, by rintro ⟨⟩, by rintro ⟨⟩⟩
  | buried ha happ =>
    exact ⟨h.max_pos, h.attempts_le, rfl, rfl, by rintro ⟨⟩, by rintro ⟨⟩⟩
  | granted ha hdue =>
    have hlt : r.attempts < r.spec.maxAttempts := by
      simp only [isDue, Bool.and_eq_true, decide_eq_true_eq] at hdue
      exact hdue.1
    exact ⟨h.max_pos, hlt, rfl, rfl, by rintro ⟨⟩, fun _ => Nat.le_add_left 1 _⟩
  | published happ =>
    simp only [publishUpdate, Bool.and_eq_true] at happ
    have hleased := (heldBy_iff.mp happ.1).2.1
    have hheld : r.state.holdsLease = true := by rw [hleased]; rfl
    exact ⟨h.max_pos, h.attempts_le, h.lease_eq.trans hheld,
      h.expiry_eq.trans hheld, by rintro ⟨⟩, fun _ => h.held_pos hheld⟩
  | refused hpc happ hrec => exact h.recordFailure _
  | claimed happ =>
    simp only [claimUpdate, decide_eq_true_eq] at happ
    have hheld : r.state.holdsLease = true := by
      rcases happ.2 with hs | hs <;> rw [hs] <;> rfl
    exact ⟨h.max_pos, h.attempts_le, rfl, rfl, by rintro ⟨⟩, fun _ => h.held_pos hheld⟩
  | beaten hpc happ =>
    have hstate := (heldBy_iff.mp happ).2.1
    have hheld : r.state.holdsLease = true := by rw [hstate]; rfl
    exact ⟨h.max_pos, h.attempts_le, h.lease_eq, hheld.symm, h.pending_lt, h.held_pos⟩
  | settled ha hpc happ hrec => exact h.settle happ
  | _ =>
    exact ⟨h.max_pos, Nat.zero_le _, rfl, rfl, fun _ => h.max_pos, by rintro ⟨⟩⟩

theorem Step.eventsOk (hstep : Step w a w') (h : ∀ r ∈ w.table, EventOk r) :
    ∀ r ∈ w'.table, EventOk r := by
  intro r' hr'
  rcases hstep.row_origin hr' with ⟨r, hr, hid⟩ | ⟨id, spec, now, delay, hmax, rfl⟩
  · exact (hstep.rowStep hr hr' hid).eventOk (h r hr)
  · exact .newEvent hmax

theorem reachable_eventsOk (h : outbox.Reachable w) : ∀ r ∈ w.table, EventOk r := by
  refine h.invariant (I := fun w => ∀ r ∈ w.table, EventOk r) ?_ ?_
  · rintro w rfl r hr
    exact absurd hr (Table.not_mem_empty r)
  · intro w a w' hw hnext
    exact (next_step hnext).eventsOk hw

theorem RowStep.spec_eq (hstep : RowStep w a w' r r') : r'.spec = r.spec := by
  cases hstep with
  | @settled x now c how ha hpc happ hrec => cases how <;> rfl
  | _ => rfl

/-! ## Becoming dead -/

/-- An event is buried only when its budget is spent. -/
theorem RowStep.exhausted_of_dead (hstep : RowStep w a w' r r') (halive : r.state ≠ .dead)
    (hdead : r'.state = .dead) : r.spec.maxAttempts ≤ r.attempts ∧ r'.attempts = r.attempts := by
  have hfailure : ∀ error, (recordFailure error r).state = .dead →
      r.spec.maxAttempts ≤ r.attempts := by
    intro error h
    by_contra hlt
    simp [recordFailure, hlt] at h
  cases hstep with
  | reopened | adopted | retried | granted | published | claimed => cases hdead
  | buried ha happ =>
    simp only [buryExhausted, Bool.and_eq_true, decide_eq_true_eq] at happ
    exact ⟨happ.1.2, rfl⟩
  | refused hpc happ hrec => exact ⟨hfailure _ hdead, rfl⟩
  | @settled x now c how ha hpc happ hrec =>
    cases how with
    | fail errorType => exact ⟨hfailure _ hdead, rfl⟩
    | _ => cases hdead
  | _ => exact absurd hdead halive

/-! ## Failures charged to an event -/

/-- A lease of the event has run out at the clock reading of a `lease_due`
statement. -/
def LeaseRanOut (a : Action) (r : OutboxEvent) : Prop :=
  r.state.holdsLease = true ∧ ∃ now, expired now r = true ∧
    ((∃ d leaseSeconds, a = .bury d leaseSeconds now) ∨
      ∃ d locked leaseSeconds, a = .grant d locked leaseSeconds now)

/-- The step has given the event's lease back as a failure. -/
def GivenBackAsFailure (w w' : World) (r : OutboxEvent) : Prop :=
  ∃ record : SettlementRecord, w'.settlements = record :: w.settlements ∧
    record.eventId = r.id ∧ r.leaseId = some record.leaseId ∧
    ((∃ d, record.actor = .dispatcher d) ∨
      ∃ x errorType, record.actor = .executor x (.fail errorType))

variable {leaseSeconds : Time}

/-- A held event is buried only after its lease has run out. -/
theorem leaseRanOut_of_buried {d : ℕ} (h : EventOk r)
    (happ : (buryExhausted now).applies r = true) (hs : r.state ≠ .pending) :
    LeaseRanOut (.bury d leaseSeconds now) r := by
  simp only [buryExhausted, hs, decide_false, Bool.false_or, Bool.and_eq_true] at happ
  have hheld : r.state.holdsLease = true := happ.1.1
  have hsome : r.leaseExpiresAt.isNone = false := by
    have hexpiry := h.expiry_eq.trans hheld
    cases hcol : r.leaseExpiresAt with
    | none => simp [hcol] at hexpiry
    | some expiry => rfl
  have hexp : expired now r = true := by simpa [hsome] using happ.2
  exact ⟨hheld, now, hexp, .inl ⟨d, leaseSeconds, rfl⟩⟩

/-- A held event is leased again only after its lease has run out. -/
theorem leaseRanOut_of_granted {d : ℕ} {locked : List EventId}
    (hdue : isDue now r = true) (hs : r.state ≠ .pending) :
    LeaseRanOut (.grant d locked leaseSeconds now) r := by
  simp only [isDue, hs, decide_false, Bool.false_and, Bool.false_or, Bool.and_eq_true] at hdue
  exact ⟨hdue.2.1, now, hdue.2.2, .inr ⟨d, locked, leaseSeconds, rfl⟩⟩

/-- A failure is charged only for an expired lease or a failing party. -/
theorem RowStep.charge_cases (hstep : RowStep w a w' r r') (h : EventOk r)
    (hcharge : r.failureCount < r'.failureCount) : LeaseRanOut a r ∨ GivenBackAsFailure w w' r := by
  cases hstep with
  | reopened ha happ => exact absurd hcharge (Nat.not_lt_zero _)
  | buried ha happ =>
    have hpending : r.state ≠ .pending := by
      intro hs
      simp [buryExhausted, hs] at hcharge
    rw [ha]
    exact .inl (leaseRanOut_of_buried h happ hpending)
  | granted ha hdue =>
    have hpending : r.state ≠ .pending := by
      intro hs
      simp [grantLeases, hs] at hcharge
    rw [ha]
    exact .inl (leaseRanOut_of_granted hdue hpending)
  | @refused d now lease errorType hpc happ hrec =>
    obtain ⟨hid, -, hlease⟩ := heldBy_of_publishFailedUpdate happ
    exact .inr ⟨_, hrec, hid.symm, hlease, .inl ⟨d, rfl⟩⟩
  | @settled x now c how ha hpc happ hrec =>
    obtain ⟨hid, -, hlease⟩ := heldBy_of_settleUpdate happ
    cases how with
    | fail errorType =>
      exact .inr ⟨_, hrec, hid.symm, hlease, .inr ⟨x, errorType, rfl⟩⟩
    | _ => exact absurd hcharge (lt_irrefl _)
  | _ => exact absurd hcharge (lt_irrefl _)

/-! ## The law of deferrals -/

/-- Actions that give an event a fresh budget. -/
def Resets (r : OutboxEvent) : Action → Prop
  | .reregister _ spec _ => spec.dedupKey = r.spec.dedupKey
  | .manualRetry id _ => id = r.id
  | _ => False

/-- Position of an event relative to an earlier pending row of it. -/
structure Follows (r₀ r : OutboxEvent) : Prop where
  id_eq : r.id = r₀.id
  spec_eq : r.spec = r₀.spec
  budget : r₀.failureCount < r.failureCount ∨ (r.failureCount = r₀.failureCount ∧
      (r.state = .completed ∨ (r.state = .pending ∧ r.attempts = r₀.attempts) ∨
        (r.state.holdsLease = true ∧ r.attempts = r₀.attempts + 1)))

theorem Follows.failureCount_le (h : Follows r₀ r) : r₀.failureCount ≤ r.failureCount := by
  rcases h.budget with hlt | ⟨heq, -⟩
  · exact hlt.le
  · exact heq.ge

/-- While the event is held and unfailed, one attempt is on the books. -/
theorem Follows.held (h : Follows r₀ r) (hheld : r.state.holdsLease = true) :
    r₀.failureCount < r.failureCount ∨
      (r.failureCount = r₀.failureCount ∧ r.attempts = r₀.attempts + 1) := by
  rcases h.budget with hlt | ⟨heq, hs | ⟨hs, -⟩ | ⟨-, hattempts⟩⟩
  · exact .inl hlt
  · rw [hs] at hheld
    cases hheld
  · rw [hs] at hheld
    cases hheld
  · exact .inr ⟨heq, hattempts⟩

/-- A row rewritten in place with one more failure. -/
theorem Follows.charged (h : Follows r₀ r) (hid : r'.id = r.id) (hspec : r'.spec = r.spec)
    (hcount : r'.failureCount = r.failureCount + 1) : Follows r₀ r' where
  id_eq := hid.trans h.id_eq
  spec_eq := hspec.trans h.spec_eq
  budget := by
    left
    have hle := h.failureCount_le
    omega

/-- A held row rewritten to a held row under the same attempt. -/
theorem Follows.stillHeld (h : Follows r₀ r) (hid : r'.id = r.id) (hspec : r'.spec = r.spec)
    (hcount : r'.failureCount = r.failureCount) (hattempts : r'.attempts = r.attempts)
    (hheld : r.state.holdsLease = true) (hheld' : r'.state.holdsLease = true) : Follows r₀ r' where
  id_eq := hid.trans h.id_eq
  spec_eq := hspec.trans h.spec_eq
  budget := by
    rw [hcount, hattempts]
    rcases h.held hheld with hlt | ⟨heq, hbase⟩
    · exact .inl hlt
    · exact .inr ⟨heq, .inr (.inr ⟨hheld', hbase⟩)⟩

/-- Without a reset, every rewrite keeps an event in line with its budget. -/
theorem RowStep.follows (hstep : RowStep w a w' r r') (hok : EventOk r) (h : Follows r₀ r)
    (hreset : ¬ Resets r₀ a) : Follows r₀ r' := by
  cases hstep with
  | same => exact h
  | @reopened id spec now ha happ =>
    simp only [reopenSettled, decide_eq_true_eq] at happ
    have hkey : spec.dedupKey = r₀.spec.dedupKey := by
      rw [← h.spec_eq, happ.1]
    subst ha
    exact absurd hkey hreset
  | adopted happ =>
    refine ⟨h.id_eq, h.spec_eq, ?_⟩
    rcases h.failureCount_le.lt_or_eq with hlt | heq
    · exact .inl hlt
    · exact .inr ⟨heq.symm, .inl rfl⟩
  | @retried id now ha happ =>
    simp only [retryDeadUpdate, decide_eq_true_eq] at happ
    have hid : id = r₀.id := by rw [← h.id_eq, happ.1]
    subst ha
    exact absurd hid hreset
  | buried ha happ =>
    have hpending : r.state ≠ .pending := by
      intro hs
      simp only [buryExhausted, Bool.and_eq_true, decide_eq_true_eq] at happ
      exact absurd happ.1.2 (not_le.mpr (hok.pending_lt hs))
    exact h.charged rfl rfl (by simp [buryExhausted, hpending])
  | granted ha hdue =>
    by_cases hs : r.state = .pending
    · refine ⟨h.id_eq, h.spec_eq, ?_⟩
      simp only [grantLeases, hs, if_true, Nat.add_zero]
      rcases h.budget with hlt | ⟨heq, hs' | ⟨-, hbase⟩ | ⟨hheld, -⟩⟩
      · exact .inl hlt
      · rw [hs] at hs'
        cases hs'
      · exact .inr ⟨heq, .inr (.inr ⟨rfl, by rw [hbase]⟩)⟩
      · rw [hs] at hheld
        cases hheld
    · exact h.charged rfl rfl (by simp [grantLeases, hs])
  | published happ =>
    simp only [publishUpdate, Bool.and_eq_true] at happ
    have hleased := (heldBy_iff.mp happ.1).2.1
    exact h.stillHeld rfl rfl rfl rfl (by rw [hleased]; rfl) rfl
  | refused hpc happ hrec => exact h.charged rfl rfl rfl
  | claimed happ =>
    simp only [claimUpdate, decide_eq_true_eq] at happ
    have hheld : r.state.holdsLease = true := by
      rcases happ.2 with hs | hs <;> rw [hs] <;> rfl
    exact h.stillHeld rfl rfl rfl rfl hheld rfl
  | beaten hpc happ =>
    have hheld : r.state.holdsLease = true := by
      rw [(heldBy_iff.mp happ).2.1]
      rfl
    exact h.stillHeld rfl rfl rfl rfl hheld hheld
  | @settled x now c how ha hpc happ hrec =>
    have hheld : r.state.holdsLease = true := by
      rw [(heldBy_of_settleUpdate happ).2.1]
      rfl
    cases how with
    | complete =>
      refine ⟨h.id_eq, h.spec_eq, ?_⟩
      rcases h.held hheld with hlt | ⟨heq, -⟩
      · exact .inl hlt
      · exact .inr ⟨heq, .inl rfl⟩
    | defer nextAttemptAt =>
      refine ⟨h.id_eq, h.spec_eq, ?_⟩
      rcases h.held hheld with hlt | ⟨heq, hbase⟩
      · exact .inl hlt
      · refine .inr ⟨heq, .inr (.inl ⟨rfl, ?_⟩)⟩
        show r.attempts - 1 = r₀.attempts
        omega
    | fail errorType => exact h.charged rfl rfl rfl

/-- The run lemma: the event present at the start is followed to the end. -/
theorem run_follows {as : List Action} (hok : ∀ r ∈ w.table, EventOk r) (hr₀ : r₀ ∈ w.table)
    (hpending : r₀.state = .pending) (hreset : ∀ a ∈ as, ¬ Resets r₀ a)
    (hrun : outbox.run w as = some w') (hr' : r' ∈ w'.table) (hid : r'.id = r₀.id) :
    Follows r₀ r' := by
  let P : World → Prop := fun v =>
    (∀ r ∈ v.table, EventOk r) ∧ ∃ r ∈ v.table, Follows r₀ r
  have hstart : P w := ⟨hok, r₀, hr₀, rfl, rfl, .inr ⟨rfl, .inr (.inl ⟨hpending, rfl⟩)⟩⟩
  have hP : P w' := by
    refine Machine.run_preserves (fun a => ¬ Resets r₀ a) P ?_ hstart hreset hrun
    rintro v a v' ⟨hvok, r, hr, hfollows⟩ hnot hnext
    have hstep := next_step hnext
    obtain ⟨s, hs, hsid⟩ := hstep.exists_row hr
    have hrow := hstep.rowStep hr hs hsid
    exact ⟨hstep.eventsOk hvok, s, hs, hrow.follows (hvok r hr) hfollows hnot⟩
  obtain ⟨-, r, hr, hfollows⟩ := hP
  have hsame : r' = r := Table.eq_of_key_eq hr' hr (hid.trans hfollows.id_eq.symm)
  rw [hsame]
  exact hfollows

/-- The attempt budget of the outbox.  In every reachable state the counter is
within its bounds and the lease columns agree with the state; a step makes an
event dead only when the budget is spent, and charges a failure only for an
expired lease or a failing party; and over any run without a reset in which no
failure is charged, a pending event keeps its counter and is never dead. -/
theorem attempt_budget {w : World} (h : outbox.Reachable w) : (∀ r ∈ w.table,
      r.attempts ≤ r.spec.maxAttempts ∧ (r.state.holdsLease = true → 1 ≤ r.attempts) ∧
      ((r.leaseId.isSome = true ∧ r.leaseExpiresAt.isSome = true) ↔
        (r.state = .leased ∨ r.state = .published ∨ r.state = .processing)) ∧
      (r.leaseId.isSome = r.leaseExpiresAt.isSome)) ∧
    (∀ a w', outbox.next w a = some w' → ∀ r ∈ w.table, ∀ r' ∈ w'.table, r'.id = r.id →
      (r.state ≠ .dead → r'.state = .dead →
        r'.spec.maxAttempts ≤ r'.attempts ∧ r'.attempts = r.attempts) ∧
      (r.failureCount < r'.failureCount → LeaseRanOut a r ∨ GivenBackAsFailure w w' r)) ∧
    (∀ as w', outbox.run w as = some w' → ∀ r ∈ w.table, ∀ r' ∈ w'.table,
      r'.id = r.id → r.state = .pending → (∀ a ∈ as, ¬ Resets r a) →
      r'.failureCount = r.failureCount →
      r'.state ≠ .dead ∧ (r'.state = .pending → r'.attempts = r.attempts)) := by
  have hok := reachable_eventsOk h
  refine ⟨?_, ?_, ?_⟩
  · intro r hr
    have hr := hok r hr
    have hstate : r.state.holdsLease = true ↔
        (r.state = .leased ∨ r.state = .published ∨ r.state = .processing) := by
      cases r.state <;> simp [EventState.holdsLease]
    refine ⟨hr.attempts_le, hr.held_pos, ?_, hr.lease_eq.trans hr.expiry_eq.symm⟩
    rw [hr.lease_eq, hr.expiry_eq, and_self, hstate]
  · intro a w' hnext r hr r' hr' hid
    have hrow := (next_step hnext).rowStep hr hr' hid
    refine ⟨?_, hrow.charge_cases (hok r hr)⟩
    intro halive hdead
    obtain ⟨hmax, hattempts⟩ := hrow.exhausted_of_dead halive hdead
    rw [hrow.spec_eq, hattempts]
    exact ⟨hmax, rfl⟩
  · intro as w' hrun r hr r' hr' hid hpending hreset hcount
    have hfollows := run_follows hok hr hpending hreset hrun hr' hid
    rcases hfollows.budget with hlt | ⟨-, hs | ⟨hs, hbase⟩ | ⟨hheld, -⟩⟩
    · omega
    · rw [hs]
      exact ⟨by rintro ⟨⟩, by rintro ⟨⟩⟩
    · rw [hs]
      exact ⟨by rintro ⟨⟩, fun _ => hbase⟩
    · refine ⟨?_, ?_⟩ <;> intro hs <;> rw [hs] at hheld <;> cases hheld

/-- The contract of a chunk event. -/
def chunkReadySpec : OutboxEventSpec where
  eventType := "chunk.ready"
  aggregateType := "sms_chunk"
  aggregateId := "7"
  taskName := "app.tasks.send.process_chunk"
  queue := "bulk"
  args := [.int 7]
  dedupKey := "chunk.ready:7"

/-- Lease, publication, claim and deferral of one event. -/
def deferralCycle : List Action :=
  [.bury 0 60 10, .grant 0 [] 60 10, .publisherReturns 0 none, .confirm 0 true 11,
    .claim 0 0 "chunk.ready" 300 12, .effectEnds 0 (.deferred 500),
    .settleClaim 0 true 13]

/-- The budget holds after a registration and one full deferral cycle, which
ends with the counter it started from. -/
theorem attempt_budget_after_deferralCycle :
    ∃ w, outbox.run World.start (.enqueue 0 chunkReadySpec 10 0 :: deferralCycle) = some w ∧
      w.table.rows.map (fun r => (r.state, r.attempts)) = [(.pending, 0)] ∧
      ∀ r ∈ w.table, r.attempts ≤ r.spec.maxAttempts := by
  have hrun : (outbox.run .start (.enqueue 0 chunkReadySpec 10 0 :: deferralCycle)).map
        (fun w => w.table.rows.map (fun r => (r.state, r.attempts))) =
      some [(.pending, 0)] := by
    decide
  obtain ⟨w, hw, hrows⟩ := Option.map_eq_some_iff.mp hrun
  have hreach : outbox.Reachable w := .run (.init rfl) hw
  exact ⟨w, hw, hrows, fun r hr => ((attempt_budget hreach).1 r hr).1⟩

end SmsPlatform.Outbox
