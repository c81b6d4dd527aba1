import SmsPlatform.Outbox.System

/-!
# What a step does to one event

A step of the outbox either leaves the row of an event alone or rewrites it by
exactly one of the repository's updates.  `RowStep` lists these rewrites with
the guard that enabled them.  Statements about a single event follow from it
by cases, without looking at the table again.
-/

namespace SmsPlatform.Outbox

open Support Table Update List

/-- `RowStep w a w' r r'`: in the step `a` from `w` to `w'` the row `r`
becomes `r'`. -/
inductive RowStep (w : World) (a : Action) (w' : World) (r : OutboxEvent) :
    OutboxEvent → Prop
  | same : RowStep w a w' r r
  | reopened {id spec now} (ha : a = .reregister id spec now)
      (happ : (reopenSettled spec.dedupKey spec.eventType now).applies r = true) :
      RowStep w a w' r ((reopenSettled spec.dedupKey spec.eventType now).change r)
  | adopted {aggregateId} (happ : (closePendingBind aggregateId).applies r = true) :
      RowStep w a w' r ((closePendingBind aggregateId).change r)
  | retried {id now} (ha : a = .manualRetry id now)
      (happ : (retryDeadUpdate id now).applies r = true) :
      RowStep w a w' r ((retryDeadUpdate id now).change r)
  | buried {d leaseSeconds now} (ha : a = .bury d leaseSeconds now)
      (happ : (buryExhausted now).applies r = true) :
      RowStep w a w' r ((buryExhausted now).change r)
  | granted {d locked leaseSeconds now ids}
      (ha : a = .grant d locked leaseSeconds now) (hdue : isDue now r = true) :
      RowStep w a w' r ((grantLeases ids w.nextLease leaseSeconds now).change r)
  | published {eventId leaseId now} (happ : (publishUpdate eventId leaseId now).applies r = true) :
      RowStep w a w' r ((publishUpdate eventId leaseId now).change r)
  | refused {d now lease errorType} (hpc : w.dispatcher d = .refusing lease errorType)
      (happ : (publishFailedUpdate lease.eventId lease.leaseId errorType now).applies r = true)
      (hrec : w'.settlements = ⟨lease.eventId, lease.leaseId, .dispatcher d⟩ :: w.settlements) :
      RowStep w a w' r ((publishFailedUpdate lease.eventId lease.leaseId errorType now).change r)
  | claimed {eventId leaseSeconds now}
      (happ : (claimUpdate eventId w.nextLease leaseSeconds now).applies r = true) :
      RowStep w a w' r ((claimUpdate eventId w.nextLease leaseSeconds now).change r)
  | beaten {x c leaseSeconds now} (hpc : (w.executor x).claim = some c)
      (happ : (heartbeatUpdate c.eventId c.leaseId leaseSeconds now).applies r = true) :
      RowStep w a w' r ((heartbeatUpdate c.eventId c.leaseId leaseSeconds now).change r)
  | settled {x now c how} (ha : a = .settleClaim x true now) (hpc : w.executor x = .settling c how)
      (happ : (settleUpdate c.eventId c.leaseId now how).applies r = true)
      (hrec : w'.settlements = ⟨c.eventId, c.leaseId, .executor x how⟩ :: w.settlements) :
      RowStep w a w' r ((settleUpdate c.eventId c.leaseId now how).change r)

variable {a : Action} {r r' : OutboxEvent} {w w' : World}

theorem isDue_of_mem_dueIds {t : EventTable} {locked : List EventId} {limit : ℕ} {now : Time}
    (hr : r ∈ t) (hid : r.id ∈ dueIds t locked limit now) : isDue now r = true := by
  obtain ⟨s, hs, hsid⟩ := mem_map.mp hid
  have hsorted := mem_of_mem_take hs
  rw [mem_insertionSort, mem_filter] at hsorted
  have hsr : s = r := eq_of_key_eq hsorted.1 hr hsid
  subst hsr
  have hboth := hsorted.2
  rw [Bool.and_eq_true] at hboth
  exact hboth.1

/-- Every step acts on every row through `RowStep`. -/
theorem Step.rowStep (h : Step w a w') (hr : r ∈ w.table) (hr' : r' ∈ w'.table)
    (hid : r'.id = r.id) : RowStep w a w' r r' := by
  have hkeep : r' ∈ w.table → RowStep w a w' r r' := by
    intro hmem
    rw [eq_of_key_eq hmem hr hid]
    exact .same
  have hrow : ∀ {u : EventUpdate} {t : EventTable}, r ∈ t → r' ∈ t.apply u →
      (u.applies r = true → RowStep w a w' r (u.change r)) → RowStep w a w' r r' := by
    intro u t hmem hmem' happ
    rw [eq_row_of_mem_apply hmem hmem' hid]
    exact row_cases .same happ
  cases h with
  | enqueued hmax hfresh =>
    rcases (mem_insertNew_iff hfresh).mp hr' with hmem | rfl
    · exact hkeep hmem
    · exact absurd hid.symm (hfresh r hr)
  | reregistered hmax hfresh =>
    exact hrow ((mem_insertNew_iff hfresh).mpr (.inl hr)) hr' (.reopened rfl)
  | reopened => exact hrow hr hr' (.reopened rfl)
  | adopted => exact hrow hr hr' .adopted
  | retried => exact hrow hr hr' (.retried rfl)
  | buried => exact hrow hr hr' (.buried rfl)
  | granted pc =>
    refine hrow hr hr' (fun happ => .granted rfl ?_)
    exact isDue_of_mem_dueIds hr (by simpa [grantLeases] using happ)
  | confirmed lease => exact hrow hr hr' .published
  | refused lease errorType hpc => exact hrow hr hr' (.refused hpc · rfl)
  | claimed => exact hrow hr hr' .claimed
  | beaten pc c hold => exact hrow hr hr' (.beaten hold)
  | settled c how hpc => exact hrow hr hr' (.settled rfl hpc · rfl)
  | _ => exact hkeep hr'

theorem Step.exists_row (h : Step w a w') (hr : r ∈ w.table) : ∃ r' ∈ w'.table, r'.id = r.id := by
  have hrow : ∀ u : EventUpdate, ∃ r' ∈ w.table.apply u, r'.id = r.id := by
    intro u
    exact ⟨u.row r, row_mem_apply hr, u.key_row r⟩
  cases h with
  | enqueued hmax hfresh => exact ⟨r, (mem_insertNew_iff hfresh).mpr (.inl hr), rfl⟩
  | @reregistered id spec now hmax hfresh =>
    have hmem : r ∈ w.table.insertNew (newEvent id spec now 0) hfresh :=
      (mem_insertNew_iff hfresh).mpr (.inl hr)
    exact ⟨_, row_mem_apply hmem, key_row _ r⟩
  | reopened | adopted | retried | buried | granted | confirmed | refused | claimed | beaten
  | settled => exact hrow _
  | _ => exact ⟨r, hr, rfl⟩

/-- A row present after a step was there before, up to the rewrite, or has
just been inserted. -/
theorem Step.row_origin (h : Step w a w') (hr' : r' ∈ w'.table) : (∃ r ∈ w.table, r'.id = r.id) ∨
      ∃ id spec now delay, 1 ≤ spec.maxAttempts ∧ r' = newEvent id spec now delay := by
  have hrow : ∀ u : EventUpdate, r' ∈ w.table.apply u → ∃ r ∈ w.table, r'.id = r.id := by
    intro u hmem
    obtain ⟨r, hr, rfl⟩ := mem_apply_iff.mp hmem
    exact ⟨r, hr, u.key_row r⟩
  cases h with
  | enqueued hmax hfresh =>
    rcases (mem_insertNew_iff hfresh).mp hr' with hmem | rfl
    · exact .inl ⟨r', hmem, rfl⟩
    · exact .inr ⟨_, _, _, _, hmax, rfl⟩
  | @reregistered id spec now hmax hfresh =>
    obtain ⟨s, hs, rfl⟩ := mem_apply_iff.mp hr'
    rcases (mem_insertNew_iff hfresh).mp hs with hmem | rfl
    · exact .inl ⟨s, hmem, key_row _ s⟩
    · refine .inr ⟨id, spec, now, 0, hmax, ?_⟩
      exact row_of_not_applies (by simp [reopenSettled, newEvent])
  | reopened | adopted | retried | buried | granted | confirmed | refused | claimed | beaten
  | settled => exact .inl (hrow _ hr')
  | _ => exact .inl ⟨r', hr', rfl⟩

end SmsPlatform.Outbox
