import SmsPlatform.Report.Projection
import SmsPlatform.Report.Steps

/-!
# Convergence of delivery reports

Every step of the system either leaves the reports alone or applies one event, so in
every reachable state a message shows the greatest event that was applied to it.
-/

namespace SmsPlatform.Report

open Support Schema Vendor Table List Bool

/-! ## The writers -/

section

variable {db db' : Db} {chunk : ChunkId} {now : Time}

theorem quiet_markSubmitted (h : db.markSubmitted chunk now = some db') : db.Quiet db' := by
  obtain ⟨-, rfl⟩ := casChunk_map_eq_some h
  refine Db.Sets.quiet ⟨rfl, rfl, fun m hm => ?_⟩
  simp only [and_eq_true, decide_eq_true_eq] at hm
  rw [hm.1.2]
  rfl

theorem quiet_resolveSubmitted (h : db.resolveSubmitted chunk now = some db') : db.Quiet db' := by
  obtain ⟨-, rfl⟩ := casChunk_map_eq_some h
  refine Db.Sets.quiet ⟨rfl, rfl, fun m hm => ?_⟩
  rw [decide_eq_true_eq] at hm
  rw [hm.2]
  rfl

theorem sets_failChunk (h : db.failChunk chunk = some db') :
    db.Sets db' (Message.failsWith chunk) .failed := by
  have hactive : ∀ m : Message, m.failsWith chunk = true → isActive m.status = true := by
    intro m hm
    simp only [Message.failsWith, and_eq_true] at hm
    exact hm.1.2
  obtain ⟨c, -, -, -, ⟨-, rfl⟩ | ⟨-, rfl⟩⟩ := failChunk_eq_some h <;> exact ⟨rfl, rfl, hactive⟩

theorem sets_terminalizeUnknown (h : db.terminalizeUnknown chunk = some db') :
    db.Sets db' (Message.endsWith chunk) .unknown := by
  obtain ⟨c, -, -, -, rfl⟩ := terminalizeUnknown_eq_some h
  refine ⟨rfl, rfl, fun m hm => ?_⟩
  simp only [Message.endsWith, and_eq_true] at hm
  exact hm.2

theorem sets_settleDispatch (db : Db) (d : Dispatch) :
    db.Sets (db.settleDispatch d) (Message.isExcluded d.excluded) .other := by
  obtain ⟨excluded, hmessages, hprojections, -, -, heq⟩ := settleDispatch_eq db d
  have hactive : ∀ m : Message, m.isExcluded d.excluded = true → isActive m.status = true := by
    intro m hm
    rw [Message.isExcluded, decide_eq_true_eq] at hm
    rw [hm.2]
    rfl
  rw [heq]
  split <;> exact ⟨hmessages, hprojections, hactive⟩

theorem sets_expireBatch {book : EventKey → Event} (h : db.Projected book)
    (batch : BatchId) (now timeout limit : ℕ) :
    db.Sets (db.expireBatch book batch now timeout limit) (expireUpdate db batch
      (db.overdueMessages batch now timeout limit) now timeout).applies .unknown := by
  obtain ⟨hmessages, hprojections, -⟩ := expireBatch_same h batch now timeout limit
  refine ⟨hmessages, hprojections, fun m hm => ?_⟩
  simp only [expireUpdate, statusUpdate, and_eq_true, decide_eq_true_eq] at hm
  rw [hm.1.1.2.2]
  rfl

theorem quiet_accept {batch : BatchId} {status : BatchStatus}
    {recipients : List (MessageId × String)}
    (h : db.accept batch status recipients = some db') : db.Quiet db' := by
  obtain ⟨hnew, rfl⟩ := accept_eq_some h
  constructor
  · rfl
  · intro m hm
    exact ⟨m, mem_append_left _ hm, .refl m⟩
  · intro m' hm'
    rcases mem_append.mp hm' with hold | hfresh
    · exact .inl ⟨m', hold, .refl m'⟩
    right
    constructor
    · obtain ⟨recipient, -, rfl⟩ := mem_map.mp hfresh
      rfl
    · intro m hm hid
      have hnodup := hnew.2
      rw [map_append, nodup_append] at hnodup
      exact hnodup.2.2 _ (mem_map_of_mem hm) _ (mem_map_of_mem hfresh) hid

theorem quiet_plan {batch : BatchId} {customId : String} {ids : List MessageId}
    (h : db.plan chunk batch customId ids = some db') : db.Quiet db' := by
  obtain ⟨-, -, rfl⟩ := plan_eq_some h
  exact .of_update rfl rfl (fun m _ => Update.row_cases (.refl m)
    (fun _ => ⟨rfl, rfl, rfl, rfl, rfl, rfl, fun _ => rfl⟩))

end

/-! ## Steps -/

section

variable {book : EventKey → Event} {w w' : World} {a : Action} {m : Message}

/-- An event that passed the ownership check is applied by the step. -/
def Applies (book : EventKey → Event) (w : World) (a : Action) (m : Message)
    (key : EventKey) : Prop :=
  ∃ tx found, a = .commitReport tx ∧ w.body tx = some (.report (some found) key) ∧
    w.db.ownedMessage book found key = some m

/-- A step leaves all reports alone or applies one event. -/
theorem next_cases (h : w.db.Projected book) (hnext : (reporting book).next w a = some w') :
    w.db.Quiet w'.db ∨ ∃ m key, Applies book w a m key ∧ w'.db = w.db.projectReport book m key := by
  have hcommits := (next_spec hnext).1
  generalize w'.db = db' at hcommits
  cases hcommits with
  | idle | route | batchStatus | legacyWrite => exact .inl (.of_messages_eq rfl rfl)
  | accept hdb => exact .inl (quiet_accept hdb)
  | plan hdb => exact .inl (quiet_plan hdb)
  | moveChunk hdb =>
    obtain ⟨-, -, rfl⟩ := moveChunk_eq_some hdb
    exact .inl (.of_messages_eq rfl rfl)
  | markSubmitted hdb => exact .inl (quiet_markSubmitted hdb)
  | resolveSubmitted hdb => exact .inl (quiet_resolveSubmitted hdb)
  | failChunk hdb => exact .inl (sets_failChunk hdb).quiet
  | terminalizeUnknown hdb => exact .inl (sets_terminalizeUnknown hdb).quiet
  | expireBatch => exact .inl (sets_expireBatch h _ _ _ _).quiet
  | report hbody howned => exact .inr ⟨_, _, ⟨_, _, rfl, hbody, howned⟩, rfl⟩
  | dispatch => exact .inl (sets_settleDispatch w.db _).quiet

theorem projected_next (h : w.db.Projected book)
    (hnext : (reporting book).next w a = some w') : w'.db.Projected book := by
  rcases next_cases h hnext with hquiet | ⟨m, key, ⟨tx, found, -, -, howned⟩, heq⟩
  · exact h.quiet hquiet
  · rw [heq]
    exact h.projectReport (ownedMessage_eq_some howned).1 key

theorem projected_start : World.start.db.Projected book :=
  ⟨fun p hp => absurd hp (not_mem_empty p), fun m hm => absurd hm (not_mem_empty m)⟩

theorem projected_of_reachable (h : (reporting book).Reachable w) : w.db.Projected book := by
  refine h.invariant (I := fun w => w.db.Projected book) ?_
    (fun _ _ _ hw hnext => projected_next hw hnext)
  rintro _ rfl
  exact projected_start

/-- The status and the columns of the report. -/
def Message.projection (m : Message) :
    MessageStatus × Option ℤ × Option String × Option Time × Option EventKey :=
  (m.status, m.reportStatus, m.reportDesc, m.reportTime, m.reportEventKey)

/-- What an event makes a message show. -/
def Event.projection (e : Event) (key : EventKey) :
    MessageStatus × Option ℤ × Option String × Option Time × Option EventKey :=
  (e.messageStatus, some e.reportStatus, some e.reportDesc, some e.reportTime, some key)

theorem Message.Shows.projection_eq {key : EventKey} (h : m.Shows book key) :
    m.projection = (book key).projection key := by
  obtain ⟨hstatus, hrs, hdesc, htime, hkey⟩ := h.columns
  simp [Message.projection, Event.projection, hstatus, hrs, hdesc, htime, hkey]

/-- Messages with the same events show the same, in whatever runs. -/
theorem projection_eq_of_events {db db' : Db} (h : db.Projected book) (h' : db'.Projected book)
    {m' : Message} (hm : m ∈ db.messages) (hm' : m' ∈ db'.messages)
    (hevents : db.eventsOf m.id ≠ [])
    (hsame : ∀ key, key ∈ db.eventsOf m.id ↔ key ∈ db'.eventsOf m'.id) :
    m.projection = m'.projection := by
  have hevents' : db'.eventsOf m'.id ≠ [] := by
    obtain ⟨key, hkey⟩ := exists_mem_of_ne_nil _ hevents
    exact ne_nil_of_mem ((hsame key).mp hkey)
  obtain ⟨key, hshows⟩ := h.shown_of_event hm hevents
  obtain ⟨key', hshows'⟩ := h'.shown_of_event hm' hevents'
  have hmem : key ∈ db.eventsOf m.id := mem_eventsOf.mpr ⟨_, hshows.recorded, rfl, rfl⟩
  have hmem' : key' ∈ db'.eventsOf m'.id := mem_eventsOf.mpr ⟨_, hshows'.recorded, rfl, rfl⟩
  have hkey : key = key' := projectionOrder_injective book
    (le_antisymm (hshows'.greatest key ((hsame key).mp hmem))
      (hshows.greatest key' ((hsame key').mpr hmem')))
  rw [hshows.shows_event.projection_eq, hshows'.shows_event.projection_eq, hkey]

theorem message_kept (h : w.db.Projected book) (hnext : (reporting book).next w a = some w')
    (hm : m ∈ w.db.messages) : ∃ m' ∈ w'.db.messages, m'.id = m.id ∧ m'.batchId = m.batchId := by
  rcases next_cases h hnext with hquiet | ⟨x, key, -, heq⟩
  · obtain ⟨m', hm', hkeeps⟩ := hquiet.forward m hm
    exact ⟨m', hm', hkeeps.id_eq, hkeeps.batch_eq⟩
  rw [heq]
  rcases projectReport_cases h key with ⟨-, hdup⟩ | ⟨-, -, -, hmessages⟩
  · rw [hdup]
    exact ⟨m, hm, rfl, rfl⟩
  rw [hmessages]
  split
  · exact ⟨_, row_mem_apply hm, Update.row_cases
      (P := fun m' : Message => m'.id = m.id ∧ m'.batchId = m.batchId) ⟨rfl, rfl⟩
      (fun _ => ⟨rfl, rfl⟩)⟩
  · exact ⟨m, hm, rfl, rfl⟩

theorem event_recorded (h : w.db.Projected book) (hnext : (reporting book).next w a = some w')
    {key : EventKey} (happlies : Applies book w a m key) :
    (∃ p ∈ w'.db.projections, p.eventKey = key) ∧
    ((∃ p ∈ w.db.projections, p.eventKey = key) → w'.db = w.db) ∧
    ((∀ p ∈ w.db.projections, p.eventKey ≠ key) → key ∈ w'.db.eventsOf m.id) := by
  obtain ⟨tx, found, rfl, hbody, howned⟩ := happlies
  have heq : w'.db = w.db.projectReport book m key := by
    simp only [reporting, World.next, hbody] at hnext
    split at hnext
    · cases hnext
    · cases hnext
      simp [World.commitTx, Db.applyReport, howned]
  rw [heq]
  rcases projectReport_cases h key with ⟨hdup, hsame⟩ | ⟨hfresh, hprojections, -⟩
  · rw [hsame]
    refine ⟨hdup, fun _ => rfl, fun hnone => ?_⟩
    obtain ⟨p, hp, hkey⟩ := hdup
    exact absurd hkey (hnone p hp)
  · refine ⟨?_, ?_, fun _ => ?_⟩
    · rw [hprojections]
      exact ⟨_, (mem_insertNew_iff _).mpr (.inr rfl), rfl⟩
    · rintro ⟨p, hp, hkey⟩
      exact absurd hkey (hfresh p hp)
    · exact (mem_eventsOf_insertNew hprojections).mpr (.inr ⟨rfl, rfl⟩)

/-- Reports converge.  In every reachable state a message with reports shows the
greatest of them in the projection order, so any two states in which the same events
were applied to a message show the same.  An event that passes the ownership check is
recorded, a duplicate changes nothing at all, and a step that applies no event to a
reported message leaves its status and its report alone. -/
theorem report_convergence (h : (reporting book).Reachable w) :
    (∀ m ∈ w.db.messages, w.db.eventsOf m.id ≠ [] →
      ∃ key ∈ w.db.eventsOf m.id, m.projection = (book key).projection key ∧
        ∀ key' ∈ w.db.eventsOf m.id, projectionOrder book key' ≤ projectionOrder book key) ∧
    (∀ w₁, (reporting book).Reachable w₁ → ∀ m ∈ w.db.messages, ∀ m₁ ∈ w₁.db.messages,
      w.db.eventsOf m.id ≠ [] → (∀ key, key ∈ w.db.eventsOf m.id ↔ key ∈ w₁.db.eventsOf m₁.id) →
      m.projection = m₁.projection) ∧
    ∀ a w', (reporting book).next w a = some w' → (∀ m key, Applies book w a m key →
        (∃ p ∈ w'.db.projections, p.eventKey = key) ∧
        ((∃ p ∈ w.db.projections, p.eventKey = key) → w'.db = w.db) ∧
        ((∀ p ∈ w.db.projections, p.eventKey ≠ key) → key ∈ w'.db.eventsOf m.id)) ∧
      (∀ m ∈ w.db.messages, w.db.eventsOf m.id ≠ [] →
        (∀ key, key ∈ w'.db.eventsOf m.id ↔ key ∈ w.db.eventsOf m.id) →
        ∃ m' ∈ w'.db.messages, m'.id = m.id ∧ m'.projection = m.projection) := by
  have hw := projected_of_reachable h
  refine ⟨?_, ?_, fun a w' hnext => ⟨?_, ?_⟩⟩
  · intro m hm hevents
    obtain ⟨key, hshows⟩ := hw.shown_of_event hm hevents
    exact ⟨key, mem_eventsOf.mpr ⟨_, hshows.recorded, rfl, rfl⟩,
      hshows.shows_event.projection_eq, hshows.greatest⟩
  · intro w₁ h₁ m hm m₁ hm₁ hevents hsame
    exact projection_eq_of_events hw (projected_of_reachable h₁) hm hm₁ hevents hsame
  · exact fun m key happlies => event_recorded hw hnext happlies
  · intro m hm hevents hsame
    obtain ⟨m', hm', hid, -⟩ := message_kept hw hnext hm
    refine ⟨m', hm', hid, ?_⟩
    refine (projection_eq_of_events hw (projected_next hw hnext) hm hm' hevents ?_).symm
    intro key
    rw [hid, hsame key]

end

/-! ## A late failure report after a delivery -/

/-- Three events for one chunk: an unknown result, a delivery and a later failure. -/
def mixedBook : EventKey → Event
  | 1 => ⟨"c1", primaryVendorId, 0, "unknown", 50⟩
  | 2 => ⟨"c1", primaryVendorId, 1, "ok", 60⟩
  | _ => ⟨"c1", primaryVendorId, 2, "late", 70⟩

/-- One message is sent and its batch swept; then the delivery, the late failure, the
delivery again and the unknown result come in. -/
def mixedReports : List Action :=
  [.accept 1 .sending [(1, "a")], .plan 1 1 "c1" [1], .moveChunk 1 .submitting,
    .route 1 (some primaryVendorId) [primaryVendorId],
    .markSubmitted 1 10, .expireBatch 1 500 100 10,
    .beginReport 1 2 ["a"], .beginReport 2 3 ["a"], .commitReport 1, .commitReport 2,
    .beginReport 3 2 ["a"], .commitReport 3, .beginReport 4 1 ["a"], .commitReport 4]

/-- The state a list of actions leads to. -/
def World.after (book : EventKey → Event) (as : List Action) : World :=
  ((reporting book).run World.start as).getD World.start

theorem reachable_after {book : EventKey → Event} {as : List Action}
    (h : ((reporting book).run World.start as).isSome = true) :
    (reporting book).Reachable (World.after book as) := by
  obtain ⟨w, hw⟩ := Option.isSome_iff_exists.mp h
  rw [World.after, hw]
  exact (Machine.Reachable.init rfl).run hw

theorem report_convergence_mixedReports :
    ((reporting mixedBook).run World.start mixedReports).isSome = true ∧
    ∀ m ∈ (World.after mixedBook mixedReports).db.messages,
      (World.after mixedBook mixedReports).db.eventsOf m.id ≠ [] →
      ∃ key ∈ (World.after mixedBook mixedReports).db.eventsOf m.id,
        m.projection = (mixedBook key).projection key ∧
        ∀ key' ∈ (World.after mixedBook mixedReports).db.eventsOf m.id,
          projectionOrder mixedBook key' ≤ projectionOrder mixedBook key :=
  ⟨by decide +kernel, (report_convergence (reachable_after (by decide +kernel))).1⟩

example : ((World.after mixedBook mixedReports).db.messages.rows.map (fun m =>
    (m.status, m.reportEventKey)), (World.after mixedBook mixedReports).db.eventsOf 1) =
    ([(.delivered, some 2)], [2, 3, 1]) := by decide +kernel

end SmsPlatform.Report
