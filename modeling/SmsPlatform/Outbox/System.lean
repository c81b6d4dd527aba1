import SmsPlatform.Outbox.Repository
import SmsPlatform.Support.Machine

/-!
# Dispatchers and executors around the outbox table

Any number of dispatchers (`OutboxDispatcher.dispatch_once`) and executors
(`OutboxExecutor.run`) work on one table.  A step is one statement or one
return of an awaited call, so every interleaving of the parties is a run.  A
party that stops for good is one that is never scheduled again.

The broker may deliver an event id late, twice or not at all: an executor can
be started on any event id at any time.  The clock is read anew by every
statement and is not required to move forward.

`settlements` is a history variable.  It records which lease was given back by
which statement and is read by no transition.
-/

namespace SmsPlatform.Outbox

open Support Option

/-- What an effect run by an executor ends with. -/
inductive EffectOutcome
  | returned
  | deferred (nextAttemptAt : Time)
  | raised (errorType : String)
  deriving DecidableEq

/-- Where a publishing worker of a dispatcher stands. -/
inductive DispatcherPc
  | idle
  | selecting
  | publishing (lease : OutboxLease)
  | confirming (lease : OutboxLease)
  | refusing (lease : OutboxLease) (errorType : String)
  deriving DecidableEq

/-- Where a call of `OutboxExecutor.run` stands.  The flag of `effect` is the
event `lease_lost` set by the heartbeat task. -/
inductive ExecutorPc
  | idle
  | effect (claim : OutboxClaim) (expectedType : String) (leaseLost : Bool)
  | settling (claim : OutboxClaim) (how : Settlement)
  | done
  deriving DecidableEq

/-- The claim under which an executor is running. -/
def ExecutorPc.claim : ExecutorPc → Option OutboxClaim
  | .effect claim _ _ => some claim
  | .settling claim _ => some claim
  | .idle | .done => none

/-- Who gave a lease back, and how. -/
inductive SettledBy
  | executor (x : ℕ) (how : Settlement)
  | dispatcher (d : ℕ)
  deriving DecidableEq

structure SettlementRecord where
  eventId : EventId
  leaseId : LeaseId
  actor : SettledBy
  deriving DecidableEq

structure World where
  table : EventTable
  /-- Lease ids below this one have been generated. -/
  nextLease : LeaseId
  dispatcher : ℕ → DispatcherPc
  executor : ℕ → ExecutorPc
  settlements : List SettlementRecord

/-- The empty installation. -/
def World.start : World where
  table := Table.empty OutboxEvent.id
  nextLease := 0
  dispatcher := fun _ => .idle
  executor := fun _ => .idle
  settlements := []

namespace World

variable (w : World)

def setDispatcher (d : ℕ) (pc : DispatcherPc) : World :=
  { w with dispatcher := Function.update w.dispatcher d pc }

def setExecutor (x : ℕ) (pc : ExecutorPc) : World :=
  { w with executor := Function.update w.executor x pc }

/-! ## Business transactions -/

def enqueue (id : EventId) (spec : OutboxEventSpec) (now delay : Time) : Option World :=
  (enqueueOutbox w.table id spec now delay).map fun result =>
    { w with table := result.1 }

/-- A registration followed by reopening the settled event in the same
transaction. -/
def reregister (id : EventId) (spec : OutboxEventSpec) (now : Time) : Option World :=
  (enqueueOutbox w.table id spec now 0).map fun result =>
    let reopen := reopenSettled spec.dedupKey spec.eventType now
    { w with table := result.1.apply reopen }

def adopt (aggregateId : String) : World :=
  { w with table := w.table.apply (closePendingBind aggregateId) }

def manualRetry (id : EventId) (now : Time) : World :=
  { w with table := (retryDead w.table id now).1 }

/-! ## Dispatchers -/

/-- First statement of `lease_due`. -/
def bury (d : ℕ) (leaseSeconds now : Time) : Option World :=
  match w.dispatcher d with
  | .idle =>
    if leaseDueAllowed 1 leaseSeconds then
      some ({ w with table := w.table.apply (buryExhausted now) }.setDispatcher d .selecting)
    else none
  | _ => none

/-- Second statement of `lease_due`; the worker takes the first lease. -/
def grant (d : ℕ) (locked : List EventId) (leaseSeconds now : Time) : Option World :=
  match w.dispatcher d with
  | .selecting =>
    let result := leaseSelected w.table locked 1 leaseSeconds w.nextLease now
    some ({ w with
        table := result.1
        nextLease := w.nextLease + (dueIds w.table locked 1 now).length }.setDispatcher d
      (match result.2 with
      | [] => .idle
      | lease :: _ => .publishing lease))
  | _ => none

/-- The publisher returns or raises. -/
def publisherReturns (d : ℕ) (error : Option String) : Option World :=
  match w.dispatcher d with
  | .publishing lease =>
    some (w.setDispatcher d (match error with
      | none => .confirming lease
      | some errorType => .refusing lease errorType))
  | _ => none

/-- `mark_published`; a call that fails before it reaches the database changes
nothing. -/
def confirm (d : ℕ) (reached : Bool) (now : Time) : Option World :=
  match w.dispatcher d with
  | .confirming lease =>
    match reached, markPublished w.table lease.eventId lease.leaseId now with
    | true, .changed t => some ({ w with table := t }.setDispatcher d .idle)
    | _, _ => some (w.setDispatcher d .idle)
  | _ => none

/-- `mark_publish_failed`. -/
def refuse (d : ℕ) (reached : Bool) (now : Time) : Option World :=
  match w.dispatcher d with
  | .refusing lease errorType =>
    match reached, markPublishFailed w.table lease.eventId lease.leaseId errorType now with
    | true, .changed t =>
      some ({ w with
        table := t
        settlements := ⟨lease.eventId, lease.leaseId, .dispatcher d⟩ :: w.settlements
        }.setDispatcher d .idle)
    | _, _ => some (w.setDispatcher d .idle)
  | _ => none

/-! ## Executors -/

/-- `claim_execution` and the check of the event type. -/
def claim (x : ℕ) (eventId : EventId) (expectedType : String) (leaseSeconds now : Time) :
    Option World :=
  match w.executor x with
  | .idle =>
    (claimExecution w.table eventId w.nextLease leaseSeconds now).map fun result =>
      { w with table := result.1, nextLease := w.nextLease + 1 }.setExecutor x (match result.2 with
        | none => .done
        | some c =>
          if c.eventType = expectedType then .effect c expectedType false
          else .settling c (.fail "OutboxEventTypeMismatch"))
  | _ => none

/-- One round of `maintain_lease`.  The task may still be running while the
claim is being settled; there its answer is no longer looked at. -/
def beat (x : ℕ) (reached : Bool) (leaseSeconds now : Time) : Option World :=
  match w.executor x with
  | .effect c expectedType false =>
    if reached then
      let result := heartbeat w.table c.eventId c.leaseId leaseSeconds now
      some ({ w with table := result.1 }.setExecutor x (.effect c expectedType (!result.2)))
    else some (w.setExecutor x (.effect c expectedType true))
  | .settling c how =>
    if reached then
      let result := heartbeat w.table c.eventId c.leaseId leaseSeconds now
      some ({ w with table := result.1 }.setExecutor x (.settling c how))
    else some (w.setExecutor x (.settling c how))
  | _ => none

/-- The effect ends; the executor decides how to settle. -/
def effectEnds (x : ℕ) (outcome : EffectOutcome) : Option World :=
  match w.executor x with
  | .effect c expectedType leaseLost =>
    some (w.setExecutor x (if leaseLost then .done
      else
        match outcome with
        | .returned => .settling c .complete
        | .deferred nextAttemptAt =>
          if expectedType = "chunk.ready" then .settling c (.defer nextAttemptAt)
          else .settling c (.fail "InvalidDeferral")
        | .raised errorType => .settling c (.fail errorType)))
  | _ => none

/-- `complete`, `defer_execution` or `fail_execution`.  Whatever the call
reports, the run is over. -/
def settleClaim (x : ℕ) (reached : Bool) (now : Time) : Option World :=
  match w.executor x with
  | .settling c how =>
    match reached, settle w.table c.eventId c.leaseId now how with
    | true, some t =>
      some ({ w with
        table := t
        settlements := ⟨c.eventId, c.leaseId, .executor x how⟩ :: w.settlements
        }.setExecutor x .done)
    | _, _ => some (w.setExecutor x .done)
  | _ => none

end World

/-- Everything that can happen next, with the parts the system does not
determine. -/
inductive Action
  | enqueue (id : EventId) (spec : OutboxEventSpec) (now delay : Time)
  | reregister (id : EventId) (spec : OutboxEventSpec) (now : Time)
  | adopt (aggregateId : String)
  | manualRetry (id : EventId) (now : Time)
  | bury (d : ℕ) (leaseSeconds now : Time)
  | grant (d : ℕ) (locked : List EventId) (leaseSeconds now : Time)
  | publisherReturns (d : ℕ) (error : Option String)
  | confirm (d : ℕ) (reached : Bool) (now : Time)
  | refuse (d : ℕ) (reached : Bool) (now : Time)
  | claim (x : ℕ) (eventId : EventId) (expectedType : String) (leaseSeconds now : Time)
  | beat (x : ℕ) (reached : Bool) (leaseSeconds now : Time)
  | effectEnds (x : ℕ) (outcome : EffectOutcome)
  | settleClaim (x : ℕ) (reached : Bool) (now : Time)
  deriving DecidableEq

def World.next (w : World) : Action → Option World
  | .enqueue id spec now delay => w.enqueue id spec now delay
  | .reregister id spec now => w.reregister id spec now
  | .adopt aggregateId => some (w.adopt aggregateId)
  | .manualRetry id now => some (w.manualRetry id now)
  | .bury d leaseSeconds now => w.bury d leaseSeconds now
  | .grant d locked leaseSeconds now => w.grant d locked leaseSeconds now
  | .publisherReturns d error => w.publisherReturns d error
  | .confirm d reached now => w.confirm d reached now
  | .refuse d reached now => w.refuse d reached now
  | .claim x eventId expectedType leaseSeconds now =>
    w.claim x eventId expectedType leaseSeconds now
  | .beat x reached leaseSeconds now => w.beat x reached leaseSeconds now
  | .effectEnds x outcome => w.effectEnds x outcome
  | .settleClaim x reached now => w.settleClaim x reached now

/-- The outbox as a machine started on an empty table. -/
def outbox : Machine World Action where
  init w := w = World.start
  next := World.next

/-! ## What a step can do

`Step` lists the outcomes of every action with the facts its guards have
established.  All invariants are proved from it. -/

inductive Step (w : World) : Action → World → Prop
  | enqueued {id spec now delay}
      (hmax : 1 ≤ spec.maxAttempts) (hfresh : ∀ x ∈ w.table.rows, x.id ≠ id) :
      Step w (.enqueue id spec now delay)
        { w with table := w.table.insertNew (newEvent id spec now delay) hfresh }
  | alreadyEnqueued {id spec now delay} : Step w (.enqueue id spec now delay) w
  | reregistered {id spec now}
      (hmax : 1 ≤ spec.maxAttempts) (hfresh : ∀ x ∈ w.table.rows, x.id ≠ id) :
      Step w (.reregister id spec now) { w with
          table := (w.table.insertNew (newEvent id spec now 0) hfresh).apply
            (reopenSettled spec.dedupKey spec.eventType now) }
  | reopened {id spec now} : Step w (.reregister id spec now) { w with
          table := w.table.apply (reopenSettled spec.dedupKey spec.eventType now) }
  | adopted {aggregateId} : Step w (.adopt aggregateId) (w.adopt aggregateId)
  | retried {id now} : Step w (.manualRetry id now)
        { w with table := w.table.apply (retryDeadUpdate id now) }
  | buried {d leaseSeconds now} : Step w (.bury d leaseSeconds now)
        ({ w with table := w.table.apply (buryExhausted now) }.setDispatcher d .selecting)
  | granted {d locked leaseSeconds now} (pc : DispatcherPc) :
      Step w (.grant d locked leaseSeconds now) ({ w with
            table := w.table.apply (grantLeases (dueIds w.table locked 1 now)
              w.nextLease leaseSeconds now)
            nextLease := w.nextLease + (dueIds w.table locked 1 now).length
          }.setDispatcher d pc)
  | dispatcherMoved {a d} (pc : DispatcherPc) : Step w a (w.setDispatcher d pc)
  | confirmed {d now} (lease : OutboxLease) : Step w (.confirm d true now) ({ w with
            table := w.table.apply (publishUpdate lease.eventId lease.leaseId now)
          }.setDispatcher d .idle)
  | refused {d now} (lease : OutboxLease) (errorType : String)
      (hpc : w.dispatcher d = .refusing lease errorType)
      (hrow : ∃ r ∈ w.table, (publishFailedUpdate lease.eventId lease.leaseId
        errorType now).applies r = true) :
      Step w (.refuse d true now) ({ w with
            table := w.table.apply (publishFailedUpdate lease.eventId lease.leaseId errorType now)
            settlements := ⟨lease.eventId, lease.leaseId, .dispatcher d⟩ :: w.settlements
          }.setDispatcher d .idle)
  | claimed {x eventId expectedType leaseSeconds now}
      (pc : ExecutorPc) (c : OutboxClaim) (hpc : pc.claim = some c)
      (hlease : c.leaseId = w.nextLease) :
      Step w (.claim x eventId expectedType leaseSeconds now) ({ w with
            table := w.table.apply (claimUpdate eventId w.nextLease leaseSeconds now)
            nextLease := w.nextLease + 1 }.setExecutor x pc)
  | nothingClaimed {x eventId expectedType leaseSeconds now} :
      Step w (.claim x eventId expectedType leaseSeconds now)
        ({ w with nextLease := w.nextLease + 1 }.setExecutor x .done)
  | beaten {x leaseSeconds now} (pc : ExecutorPc) (c : OutboxClaim)
      (hold : (w.executor x).claim = some c) (hpc : pc.claim = some c) :
      Step w (.beat x true leaseSeconds now) ({ w with
            table := w.table.apply (heartbeatUpdate c.eventId c.leaseId leaseSeconds now)
          }.setExecutor x pc)
  | executorMoved {a x} (pc : ExecutorPc)
      (hpc : ∀ c, pc.claim = some c → (w.executor x).claim = some c) :
      Step w a (w.setExecutor x pc)
  | settled {x now} (c : OutboxClaim) (how : Settlement) (hpc : w.executor x = .settling c how)
      (hrow : ∃ r ∈ w.table, (settleUpdate c.eventId c.leaseId now how).applies r = true) :
      Step w (.settleClaim x true now) ({ w with
            table := w.table.apply (settleUpdate c.eventId c.leaseId now how)
            settlements := ⟨c.eventId, c.leaseId, .executor x how⟩ :: w.settlements
          }.setExecutor x .done)

variable {id : EventId} {t t' : EventTable} {now : Time}

theorem enqueueOutbox_cases {id' : EventId} {spec : OutboxEventSpec} {delay : Time}
    (h : enqueueOutbox t id spec now delay = some (t', id')) :
    t' = t ∨ ∃ hfresh : ∀ x ∈ t.rows, x.id ≠ id, 1 ≤ spec.maxAttempts ∧
        t' = t.insertNew (newEvent id spec now delay) hfresh := by
  unfold enqueueOutbox at h
  split at h
  · cases h
  split at h
  · split at h
    · left
      cases h
      rfl
    · cases h
  · split at h
    · rename_i hfresh
      right
      cases h
      exact ⟨hfresh, by omega, rfl⟩
    · cases h

theorem publishCall_changed {u : EventUpdate} (h : publishCall t u id = .changed t') :
    t' = t.apply u ∧ ∃ r ∈ t, u.applies r = true := by
  unfold publishCall at h
  split at h
  · rename_i hcount
    cases h
    exact ⟨rfl, Table.exists_applies_of_rowcount_pos (by omega)⟩
  · split at h
    · split at h <;> cases h
    · cases h

theorem settle_eq_some {lease : LeaseId} {how : Settlement}
    (h : settle t id lease now how = some t') : t' = t.apply (settleUpdate id lease now how) ∧
    ∃ r ∈ t, (settleUpdate id lease now how).applies r = true := by
  unfold settle at h
  dsimp only at h
  split at h
  · rename_i hcount
    cases h
    exact ⟨rfl, Table.exists_applies_of_rowcount_pos (by omega)⟩
  · cases h

theorem claimExecution_cases {lease : LeaseId} {leaseSeconds : Time} {result : Option OutboxClaim}
    (h : claimExecution t id lease leaseSeconds now = some (t', result)) :
    (t' = t ∧ result = none) ∨
      ∃ c : OutboxClaim, t' = t.apply (claimUpdate id lease leaseSeconds now) ∧
        result = some c ∧ c.leaseId = lease := by
  unfold claimExecution at h
  split at h
  · cases h
  dsimp only at h
  split at h
  · cases h
    exact .inl ⟨rfl, rfl⟩
  · cases h
    exact .inr ⟨_, rfl, rfl, rfl⟩

theorem World.next_step {w w' : World} {a : Action} (h : w.next a = some w') : Step w a w' := by
  cases a with
  | enqueue id spec now delay =>
    obtain ⟨⟨t, id'⟩, henq, rfl⟩ := map_eq_some_iff.mp h
    rcases enqueueOutbox_cases henq with rfl | ⟨hfresh, hmax, rfl⟩
    · exact .alreadyEnqueued
    · exact .enqueued hmax hfresh
  | reregister id spec now =>
    obtain ⟨⟨t, id'⟩, henq, rfl⟩ := map_eq_some_iff.mp h
    rcases enqueueOutbox_cases henq with rfl | ⟨hfresh, hmax, rfl⟩
    · exact .reopened
    · exact .reregistered hmax hfresh
  | adopt aggregateId =>
    cases h
    exact .adopted
  | manualRetry id now =>
    cases h
    exact .retried
  | bury d leaseSeconds now =>
    simp only [World.next, World.bury] at h
    split at h
    · split at h
      · cases h
        exact .buried
      · cases h
    · cases h
  | grant d locked leaseSeconds now =>
    simp only [World.next, World.grant] at h
    split at h
    · cases h
      exact .granted _
    · cases h
  | publisherReturns d error =>
    simp only [World.next, World.publisherReturns] at h
    split at h
    · cases h
      exact .dispatcherMoved _
    · cases h
  | confirm d reached now =>
    simp only [World.next, World.confirm] at h
    split at h
    · split at h
      · rename_i t hcall
        obtain ⟨rfl, -⟩ := publishCall_changed hcall
        cases h
        exact .confirmed _
      · cases h
        exact .dispatcherMoved _
    · cases h
  | refuse d reached now =>
    simp only [World.next, World.refuse] at h
    split at h
    · rename_i lease errorType hpc
      split at h
      · rename_i t hcall
        obtain ⟨rfl, hrow⟩ := publishCall_changed hcall
        cases h
        exact .refused lease errorType hpc hrow
      · cases h
        exact .dispatcherMoved _
    · cases h
  | claim x eventId expectedType leaseSeconds now =>
    simp only [World.next, World.claim] at h
    split at h
    · obtain ⟨⟨t, result⟩, hclaim, rfl⟩ := map_eq_some_iff.mp h
      rcases claimExecution_cases hclaim with ⟨rfl, rfl⟩ | ⟨c, rfl, rfl, hlease⟩
      · exact .nothingClaimed
      · refine .claimed _ c ?_ hlease
        dsimp only
        split <;> rfl
    · cases h
  | beat x reached leaseSeconds now =>
    simp only [World.next, World.beat] at h
    split at h
    · rename_i c expectedType hpc
      split at h
      · rename_i hreached
        cases h
        subst hreached
        exact .beaten _ c (by rw [hpc]; rfl) rfl
      · cases h
        exact .executorMoved _ (by rw [hpc]; exact fun c' hc' => hc')
    · rename_i c how hpc
      split at h
      · rename_i hreached
        cases h
        subst hreached
        exact .beaten _ c (by rw [hpc]; rfl) rfl
      · cases h
        exact .executorMoved _ (by rw [hpc]; exact fun c' hc' => hc')
    · cases h
  | effectEnds x outcome =>
    simp only [World.next, World.effectEnds] at h
    split at h
    · rename_i c expectedType leaseLost hpc
      cases h
      refine .executorMoved _ ?_
      rw [hpc]
      intro c' hc'
      split at hc'
      · cases hc'
      cases outcome with
      | deferred nextAttemptAt =>
        dsimp only at hc'
        split at hc' <;> exact hc'
      | _ => exact hc'
    · cases h
  | settleClaim x reached now =>
    simp only [World.next, World.settleClaim] at h
    split at h
    · rename_i c how hpc
      split at h
      · rename_i t hsettle
        obtain ⟨rfl, hrow⟩ := settle_eq_some hsettle
        cases h
        exact .settled c how hpc hrow
      · cases h
        exact .executorMoved _ (by rintro c' ⟨⟩)
    · cases h

end SmsPlatform.Outbox
