import SmsPlatform.Outbox.Budget
import SmsPlatform.Schema.Status

/-!
# Registering a chunk while its event is running

`_enqueue_chunk_ready` registers the event of a chunk and reopens it if it has
been settled.  The event may at that moment be held by an executor that has
read the chunk already.  The model adds to the outbox the columns of a chunk
that `load_chunk` and the recovery pass look at, the reads of the executors and
the registrations made by the transactions that own the chunk.

`unread` is a history variable.  It lists the events that have been registered
since the executor holding them last read the chunk; no transition depends on
it.
-/

namespace SmsPlatform.Outbox

open Support Schema Table Update Option List

abbrev ChunkId := ℕ

/-- The contract under which `_enqueue_chunk_ready` registers a chunk. -/
def readyContract (chunkId : ChunkId) (lane : String) : OutboxEventSpec where
  eventType := "chunk.ready"
  aggregateType := "sms_chunk"
  aggregateId := toString chunkId
  taskName := "app.tasks.send.process_chunk"
  queue := lane
  args := [.int chunkId]
  dedupKey := "chunk.ready:" ++ toString chunkId

/-- The columns of `sms_chunk` and of its batch that decide whether the chunk
is sent. -/
structure SendChunk where
  lane : String
  status : ChunkStatus
  retryNotBefore : Option Time
  batchStatus : BatchStatus
  batchUpdatedAt : Time
  deriving DecidableEq

namespace SendChunk

/-- `pending`, or waiting for a moment that has come. -/
def isReady (c : SendChunk) (now : Time) : Bool :=
  decide (c.status = .pending) || (decide (c.status = .retrying ∨ c.status = .failoverPending) &&
      c.retryNotBefore.all (fun t => decide (t ≤ now)))

/-- The predicate of `load_chunk`. -/
def isLoadable (c : SendChunk) (now : Time) : Bool :=
  c.batchStatus.isActive && c.isReady now

/-- The predicate under which the recovery pass registers a chunk. -/
def isStalled (c : SendChunk) (now : Time) : Bool :=
  decide (c.batchStatus = .sending) && c.isReady now && decide (c.batchUpdatedAt + 300 < now)

end SendChunk

structure WakeWorld where
  outbox : World
  chunk : ChunkId → Option SendChunk
  /-- What `load_chunk` answered to an executor since its claim. -/
  loaded : ℕ → Option Bool
  unread : List EventId

def WakeWorld.start : WakeWorld where
  outbox := World.start
  chunk := fun _ => none
  loaded := fun _ => none
  unread := []

inductive WakeAction
  | outbox (a : Action)
  /-- Any transaction that writes a chunk without registering it. -/
  | writeChunk (chunkId : ChunkId) (row : SendChunk)
  /-- A transaction that writes a chunk and registers it: planning, a split or
  a rejection kept as `failover_pending`. -/
  | writeReady (chunkId : ChunkId) (row : SendChunk) (id : EventId) (now : Time)
  /-- One chunk of the recovery pass. -/
  | recoverChunk (chunkId : ChunkId) (id : EventId) (now : Time)
  | loadChunk (x : ℕ) (now : Time)
  /-- A later read of the chunk by an executor that has loaded it. -/
  | rereadChunk (x : ℕ)
  deriving DecidableEq

namespace WakeWorld

variable (w : WakeWorld)

/-- `_enqueue_chunk_ready` for one chunk. -/
def enqueueChunkReady (chunkId : ChunkId) (lane : String) (id : EventId) (now : Time) :
    Option WakeWorld :=
  (enqueueOutbox w.outbox.table id (readyContract chunkId lane) now 0).bind fun result =>
    (w.outbox.reregister id (readyContract chunkId lane) now).map fun o =>
      { w with outbox := o, unread := result.2 :: w.unread }

/-- The executor holding the claim `c` reads the chunk.  The read of an
executor that has lost its lease does not count. -/
def seenBy (c : OutboxClaim) : List EventId :=
  if w.outbox.table.rows.any (heldBy c.eventId .processing c.leaseId) then
    w.unread.filter (fun id => !decide (id = c.eventId))
  else w.unread

def loadChunk (x : ℕ) (now : Time) : Option WakeWorld :=
  match w.outbox.executor x with
  | .effect c _ _ =>
    match c.args with
    | [.int chunkId] =>
      some { w with
        loaded := Function.update w.loaded x
          (some ((w.chunk chunkId.toNat).any (fun row => row.isLoadable now)))
        unread := w.seenBy c }
    | _ => none
  | _ => none

def rereadChunk (x : ℕ) : Option WakeWorld :=
  match w.outbox.executor x with
  | .effect c _ _ => if w.loaded x = some true then some { w with unread := w.seenBy c } else none
  | _ => none

/-- A step of the outbox.  Chunks are registered by `enqueueChunkReady` only,
and an effect that could not load its chunk returns. -/
def outboxStep (a : Action) : Option WakeWorld :=
  let next := (w.outbox.next a).map fun o => { w with outbox := o }
  match a with
  | .reregister _ spec _ => if spec.eventType = "chunk.ready" then none else next
  | .claim x _ _ _ _ =>
    next.map fun v => { v with loaded := Function.update v.loaded x none }
  | .effectEnds x outcome =>
    if w.loaded x = some false ∧ outcome ≠ .returned then none else next
  | _ => next

def next : WakeAction → Option WakeWorld
  | .outbox a => w.outboxStep a
  | .writeChunk chunkId row =>
    some { w with chunk := Function.update w.chunk chunkId (some row) }
  | .writeReady chunkId row id now =>
    { w with chunk := Function.update w.chunk chunkId (some row) }.enqueueChunkReady
      chunkId row.lane id now
  | .recoverChunk chunkId id now =>
    match w.chunk chunkId with
    | some row =>
      if row.isStalled now then w.enqueueChunkReady chunkId row.lane id now else none
    | none => none
  | .loadChunk x now => w.loadChunk x now
  | .rereadChunk x => w.rereadChunk x

end WakeWorld

/-- The event is registered in the table and reopened if it was settled. -/
abbrev WakeWorld.reopened (w : WakeWorld) (t : EventTable) (spec : OutboxEventSpec) (now : Time)
    (event : EventId) : WakeWorld :=
  { w with
    outbox := { w.outbox with
      table := t.apply (reopenSettled spec.dedupKey spec.eventType now) }
    unread := event :: w.unread }

inductive WakeStep (w : WakeWorld) : WakeAction → WakeWorld → Prop
  | outbox {a : Action} {o : World} {loaded : ℕ → Option Bool} (h : w.outbox.next a = some o) :
      WakeStep w (.outbox a) { w with outbox := o, loaded := loaded }
  | written {chunkId row} : WakeStep w (.writeChunk chunkId row)
        { w with chunk := Function.update w.chunk chunkId (some row) }
  | registered {a : WakeAction} {chunkId : ChunkId} {lane : String} {id : EventId}
      {now : Time} {t : EventTable} {event : EventId} {chunk : ChunkId → Option SendChunk}
      (henq : enqueueOutbox w.outbox.table id (readyContract chunkId lane) now 0 =
        some (t, event)) :
      WakeStep w a { w.reopened t (readyContract chunkId lane) now event with chunk := chunk }
  | read {a : WakeAction} {c : OutboxClaim} {loaded : ℕ → Option Bool} :
      WakeStep w a { w with loaded := loaded, unread := w.seenBy c }

variable {a : Action} {id : EventId} {c : OutboxClaim} {r : OutboxEvent} {now : Time}
  {w w' : WakeWorld} {chunkId : ChunkId} {lane : String}

theorem enqueueChunkReady_eq_some
    (h : w.enqueueChunkReady chunkId lane id now = some w') :
    ∃ t event, enqueueOutbox w.outbox.table id (readyContract chunkId lane) now 0 =
        some (t, event) ∧
      w' = w.reopened t (readyContract chunkId lane) now event := by
  obtain ⟨⟨t, event⟩, henq, hrest⟩ := bind_eq_some_iff.mp h
  obtain ⟨o, hreg, rfl⟩ := map_eq_some_iff.mp hrest
  obtain ⟨result, henq', rfl⟩ := map_eq_some_iff.mp hreg
  obtain rfl : (t, event) = result := Option.some.inj (henq.symm.trans henq')
  exact ⟨t, event, henq, rfl⟩

theorem outboxStep_eq_some (h : w.outboxStep a = some w') :
    ∃ o loaded, w.outbox.next a = some o ∧ w' = { w with outbox := o, loaded := loaded } := by
  have hplain : ∀ v, ((w.outbox.next a).map fun o => { w with outbox := o }) = some v →
      ∃ o, w.outbox.next a = some o ∧ v = { w with outbox := o } := by
    intro v hv
    obtain ⟨o, ho, rfl⟩ := map_eq_some_iff.mp hv
    exact ⟨o, ho, rfl⟩
  have hkeep : ((w.outbox.next a).map fun o => { w with outbox := o }) = some w' →
      ∃ o loaded, w.outbox.next a = some o ∧ w' = { w with outbox := o, loaded := loaded } := by
    intro hv
    obtain ⟨o, ho, rfl⟩ := hplain w' hv
    exact ⟨o, w.loaded, ho, rfl⟩
  cases a with
  | reregister id spec now =>
    by_cases htype : spec.eventType = "chunk.ready"
    · simp [WakeWorld.outboxStep, htype] at h
    · exact hkeep (by simpa [WakeWorld.outboxStep, htype] using h)
  | claim x eventId expectedType leaseSeconds now =>
    obtain ⟨v, hv, rfl⟩ := map_eq_some_iff.mp h
    obtain ⟨o, ho, rfl⟩ := hplain v hv
    exact ⟨o, _, ho, rfl⟩
  | effectEnds x outcome =>
    by_cases hload : w.loaded x = some false ∧ outcome ≠ .returned
    · simp [WakeWorld.outboxStep, hload] at h
    · refine hkeep ?_
      rwa [WakeWorld.outboxStep, if_neg hload] at h
  | _ => exact hkeep h

theorem WakeWorld.next_step {a : WakeAction} (h : w.next a = some w') : WakeStep w a w' := by
  cases a with
  | outbox a =>
    obtain ⟨o, loaded, ho, rfl⟩ := outboxStep_eq_some h
    exact .outbox ho
  | writeChunk chunkId row =>
    cases h
    exact .written
  | writeReady chunkId row id now =>
    obtain ⟨t, event, henq, rfl⟩ := enqueueChunkReady_eq_some h
    exact .registered henq
  | recoverChunk chunkId id now =>
    simp only [WakeWorld.next] at h
    split at h
    · split at h
      · obtain ⟨t, event, henq, rfl⟩ := enqueueChunkReady_eq_some h
        exact .registered henq
      · cases h
    · cases h
  | loadChunk | rereadChunk =>
    simp only [WakeWorld.next, WakeWorld.loadChunk, WakeWorld.rereadChunk] at h
    split at h
    · split at h
      · cases h
        exact .read
      · cases h
    · cases h

/-- The event is neither `completed` nor `dead`. -/
def OutboxEvent.isOpen (r : OutboxEvent) : Bool :=
  match r.state with
  | .completed | .dead => false
  | .pending | .leased | .published | .processing => true

/-- The step completes an event that has been registered since its holder last read
the chunk. -/
def WakeWorld.completesUnread (w : WakeWorld) : WakeAction → Bool
  | .outbox (.settleClaim x _ _) =>
    match w.outbox.executor x with
    | .settling c .complete => decide (c.eventId ∈ w.unread) &&
        w.outbox.table.rows.any (heldBy c.eventId .processing c.leaseId)
    | _ => false
  | _ => false

/-- A registration commits before the last read of a holder that completes the event,
or after the completion. -/
def InOrder (w : WakeWorld) (a : WakeAction) : Prop := w.completesUnread a = false

instance (w : WakeWorld) (a : WakeAction) : Decidable (InOrder w a) :=
  inferInstanceAs (Decidable (_ = _))

/-- The event is not completed, and it is dead only for lack of attempts. -/
structure OutboxEvent.Awaits (r : OutboxEvent) : Prop where
  not_completed : r.state ≠ .completed
  exhausted : r.state = .dead → r.spec.maxAttempts ≤ r.attempts

/-- An event registered and not yet read awaits an executor and its contract is that
of a chunk. -/
def WakeWorld.Awake (w : WakeWorld) : Prop :=
  ∀ r ∈ w.outbox.table, r.id ∈ w.unread → r.Awaits ∧ r.spec.eventType = "chunk.ready"

theorem isOpen_iff : r.isOpen = true ↔ r.state ≠ .completed ∧ r.state ≠ .dead := by
  cases hstate : r.state <;> simp [OutboxEvent.isOpen, hstate]

theorem awaits_of_isOpen (h : r.isOpen = true) : r.Awaits := by
  obtain ⟨hcompleted, hdead⟩ := isOpen_iff.mp h
  exact ⟨hcompleted, fun h => absurd h hdead⟩

theorem enqueueOutbox_row {t t' : EventTable} {event : EventId} {spec : OutboxEventSpec}
    {delay : Time} (h : enqueueOutbox t id spec now delay = some (t', event)) :
    ∃ r ∈ t', r.id = event ∧ r.spec = spec := by
  unfold enqueueOutbox at h
  split at h
  · cases h
  split at h
  · rename_i r hfind
    split at h
    · rename_i hspec
      cases h
      exact ⟨r, mem_of_find?_eq_some hfind, rfl, hspec⟩
    · cases h
  · split at h
    · rename_i hfresh
      cases h
      exact ⟨_, (mem_insertNew_iff hfresh).mpr (.inr rfl), rfl, rfl⟩
    · cases h

theorem spec_reopenSettled (dedupKey eventType : String) :
    ((reopenSettled dedupKey eventType now).row r).spec = r.spec :=
  row_cases (P := fun s : OutboxEvent => s.spec = r.spec) rfl (fun _ => rfl)

/-- A registration reopens what was settled and touches no open event. -/
theorem isOpen_reopenSettled :
    ((reopenSettled r.spec.dedupKey r.spec.eventType now).row r).isOpen = true := by
  cases hopen : r.isOpen with
  | true =>
    obtain ⟨hcompleted, hdead⟩ := isOpen_iff.mp hopen
    have hskip : (reopenSettled r.spec.dedupKey r.spec.eventType now).applies r = false := by
      simp [reopenSettled, hcompleted, hdead]
    rw [row_of_not_applies hskip]
    exact hopen
  | false =>
    have hstate : r.state = .completed ∨ r.state = .dead := by
      by_contra hne
      rw [not_or] at hne
      rw [isOpen_iff.mpr hne] at hopen
      cases hopen
    have happ : (reopenSettled r.spec.dedupKey r.spec.eventType now).applies r = true := by
      simp [reopenSettled, hstate]
    rw [row_of_applies happ]
    rfl

theorem awaits_recordFailure (error : String) : (recordFailure error r).Awaits := by
  by_cases hmax : r.spec.maxAttempts ≤ r.attempts
  · exact ⟨by simp [recordFailure, hmax], fun _ => hmax⟩
  · exact awaits_of_isOpen (by simp [recordFailure, OutboxEvent.isOpen, hmax])

variable {how : Settlement} {lease : LeaseId}

/-- No step of the outbox takes an unread event away unless it completes it. -/
theorem RowStep.awaits {o : World} {r' : OutboxEvent} (hrow : RowStep w.outbox a o r r')
    (hr : r ∈ w.outbox.table) (hunread : r.id ∈ w.unread) (hawaits : r.Awaits)
    (htype : r.spec.eventType = "chunk.ready") (horder : InOrder w (.outbox a)) : r'.Awaits := by
  cases hrow with
  | reopened | retried | granted | published | claimed => exact awaits_of_isOpen rfl
  | adopted happ => simp [closePendingBind, htype] at happ
  | buried ha happ =>
    simp only [buryExhausted, Bool.and_eq_true, decide_eq_true_eq] at happ
    exact ⟨by rintro ⟨⟩, fun _ => happ.1.2⟩
  | refused => exact awaits_recordFailure _
  | @settled x now c how ha hpc happ hrec =>
    subst ha
    cases how with
    | complete =>
      -- the holder would have to complete an event it has not read
      have hid : c.eventId ∈ w.unread := (heldBy_of_settleUpdate happ).1 ▸ hunread
      have hheld : w.outbox.table.rows.any (heldBy c.eventId .processing c.leaseId) = true :=
        List.any_eq_true.mpr ⟨r, hr, happ⟩
      simp [InOrder, WakeWorld.completesUnread, hpc, hid, hheld] at horder
    | defer => exact awaits_of_isOpen rfl
    | fail => exact awaits_recordFailure _
  | same => exact hawaits
  | beaten => exact ⟨hawaits.not_completed, hawaits.exhausted⟩

/-! ## Unread events along a run

An id enters `unread` only with a row, so a row inserted later never finds its
own id there. -/

def WakeWorld.UnreadKnown (w : WakeWorld) : Prop :=
  ∀ id ∈ w.unread, ∃ r ∈ w.outbox.table, r.id = id

/-- What holds of the events that have been registered and not yet read. -/
structure WakeWorld.Sound (w : WakeWorld) : Prop where
  known : w.UnreadKnown
  awake : w.Awake

theorem mem_of_mem_seenBy (h : id ∈ w.seenBy c) : id ∈ w.unread := by
  unfold WakeWorld.seenBy at h
  split at h
  · exact (mem_filter.mp h).1
  · exact h

variable {loaded : ℕ → Option Bool}

theorem WakeWorld.Sound.outbox (hw : w.Sound) {o : World}
    (h : Step w.outbox a o) (horder : InOrder w (.outbox a)) :
    WakeWorld.Sound { w with outbox := o, loaded := loaded } := by
  constructor
  · intro id hid
    obtain ⟨r, hr, rfl⟩ := hw.known id hid
    exact h.exists_row hr
  · intro r' hr' hunread
    obtain ⟨r, hr, hid⟩ := hw.known r'.id hunread
    have hrow := h.rowStep hr hr' hid.symm
    have hr_unread : r.id ∈ w.unread := by
      rw [hid]
      exact hunread
    obtain ⟨hawaits, htype⟩ := hw.awake r hr hr_unread
    refine ⟨hrow.awaits hr hr_unread hawaits htype horder, ?_⟩
    rw [hrow.spec_eq]
    exact htype

theorem WakeWorld.Sound.registered (hw : w.Sound)
    {event : EventId} {t : EventTable} {chunk : ChunkId → Option SendChunk}
    (henq : enqueueOutbox w.outbox.table id (readyContract chunkId lane) now 0 = some (t, event)) :
    WakeWorld.Sound
      { w.reopened t (readyContract chunkId lane) now event with chunk := chunk } := by
  obtain ⟨s, hs, hevent, hspec⟩ := enqueueOutbox_row henq
  have hkept : ∀ r ∈ w.outbox.table, r ∈ t := by
    intro r hr
    rcases enqueueOutbox_cases henq with rfl | ⟨hfresh, -, rfl⟩
    · exact hr
    · exact (mem_insertNew_iff hfresh).mpr (.inl hr)
  constructor
  · intro id hid
    rcases mem_cons.mp hid with rfl | hold
    · exact ⟨_, row_mem_apply hs, (key_row _ s).trans hevent⟩
    · obtain ⟨r, hr, hrid⟩ := hw.known id hold
      exact ⟨_, row_mem_apply (hkept r hr), (key_row _ r).trans hrid⟩
  · intro r' hr' hunread
    obtain ⟨q, hq, rfl⟩ := mem_apply_iff.mp hr'
    rw [spec_reopenSettled]
    rw [show _ = q.id from key_row _ q] at hunread
    by_cases hsame : q.id = event
    · obtain rfl : q = s := eq_of_key_eq hq hs (hsame.trans hevent.symm)
      rw [← hspec]
      refine ⟨awaits_of_isOpen isOpen_reopenSettled, ?_⟩
      rw [hspec]
      rfl
    · have hold : q.id ∈ w.unread := (mem_cons.mp hunread).resolve_left hsame
      obtain ⟨r, hr, hrid⟩ := hw.known q.id hold
      obtain rfl : r = q := eq_of_key_eq (hkept r hr) hq hrid
      obtain ⟨hawaits, htype⟩ := hw.awake r hr hold
      refine ⟨row_cases (P := OutboxEvent.Awaits) hawaits (fun _ => ?_), htype⟩
      exact awaits_of_isOpen rfl

theorem WakeWorld.Sound.read (hw : w.Sound) :
    WakeWorld.Sound { w with loaded := loaded, unread := w.seenBy c } := by
  constructor
  · exact fun id hid => hw.known id (mem_of_mem_seenBy hid)
  · exact fun r hr hid => hw.awake r hr (mem_of_mem_seenBy hid)

theorem WakeStep.sound {a : WakeAction} (h : WakeStep w a w') (horder : InOrder w a)
    (hw : w.Sound) : w'.Sound := by
  cases h with
  | outbox ho => exact hw.outbox (World.next_step ho) horder
  | written => exact ⟨hw.known, hw.awake⟩
  | registered henq => exact hw.registered henq
  | read => exact hw.read

end SmsPlatform.Outbox
