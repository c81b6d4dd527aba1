import SmsPlatform.Report.System

/-!
# A message shows the greatest of its reports

The condition under which an event replaces what a message shows is a strict linear
order on events: status rank, time, code and key.  So a message shows the greatest
event that was applied to it, whatever the order of arrival.  All other writers only
touch messages that are pending or sent, which no reported message is.
-/

namespace SmsPlatform.Report

open Support Schema Table List Update Option

/-! ## The projection order -/

section

variable (book : EventKey → Event)

/-- Status rank, then time, code and key. -/
def projectionOrder (key : EventKey) : ℕ ×ₗ Time ×ₗ ℕ ×ₗ EventKey :=
  toLex (statusRank (book key).reportStatus, toLex ((book key).reportTime,
    toLex (codeRank (book key).reportStatus, key)))

variable {m : Message}

theorem projectionOrder_injective : Function.Injective (projectionOrder book) := by
  intro key key' h
  simp only [projectionOrder, EmbeddingLike.apply_eq_iff_eq, Prod.mk.injEq] at h
  exact h.2.2.2

theorem projectionOrder_lt_iff (key key' : EventKey) :
    projectionOrder book key < projectionOrder book key' ↔
      statusRank (book key).reportStatus < statusRank (book key').reportStatus ∨
      (statusRank (book key).reportStatus = statusRank (book key').reportStatus ∧
        ((book key).reportTime < (book key').reportTime ∨
        ((book key).reportTime = (book key').reportTime ∧
          (codeRank (book key).reportStatus < codeRank (book key').reportStatus ∨
          (codeRank (book key).reportStatus = codeRank (book key').reportStatus ∧
            key < key'))))) := by
  simp [projectionOrder, Prod.Lex.toLex_lt_toLex]

/-- A message shows an event when projecting the event again changes nothing. -/
def Message.Shows (m : Message) (key : EventKey) : Prop :=
  m.project key (book key) = m

variable {book}

theorem shows_project (m : Message) (key : EventKey) :
    (m.project key (book key)).Shows book key := rfl

theorem Message.Shows.columns {key : EventKey} (h : m.Shows book key) :
    m.status = (book key).messageStatus ∧ m.reportStatus = some (book key).reportStatus ∧
    m.reportDesc = some (book key).reportDesc ∧
    m.reportTime = some (book key).reportTime ∧ m.reportEventKey = some key := by
  have hm : m.project key (book key) = m := h
  rw [← hm]
  exact ⟨rfl, rfl, rfl, rfl, rfl⟩

theorem isActive_messageStatus (e : Event) : isActive e.messageStatus = false := by
  unfold Event.messageStatus messageStatus
  split_ifs <;> rfl

theorem not_failed_rank_of_delivered {s s' : ℤ} (hs : s = 1) (hs' : s' = 2 ∨ s' = 99) :
    statusRank s' < statusRank s := by
  rcases hs' with rfl | rfl <;> subst hs <;> decide

/-- For a message that shows an event, the condition of the update is the order. -/
theorem supersededBy_iff {shown : EventKey} (h : m.Shows book shown) (key : EventKey) :
    m.supersededBy key (book key) = true ↔
      projectionOrder book shown < projectionOrder book key := by
  obtain ⟨-, hstatus, -, htime, hkey⟩ := h.columns
  rw [projectionOrder_lt_iff]
  simp only [Message.supersededBy, hstatus, htime, hkey, elim_some, all_some,
    Bool.and_eq_true, Bool.or_eq_true, decide_eq_true_eq, ne_eq, Option.some.injEq]
  rw [eq_comm (a := statusRank (book key).reportStatus), eq_comm (a := (book key).reportTime),
    eq_comm (a := codeRank (book key).reportStatus)]
  -- A delivered report outranks every failure, so the first condition adds nothing.
  refine and_iff_right_of_imp (fun horder => ?_)
  have hrank : ¬ statusRank (book key).reportStatus < statusRank (book shown).reportStatus := by
    rcases horder with hlt | ⟨heq, -⟩ <;> omega
  by_cases hone : (book shown).reportStatus = 1
  · exact .inr (fun hfailed => hrank (not_failed_rank_of_delivered hone hfailed))
  · exact .inl hone

theorem noReportEvidence_iff (m : Message) : m.noReportEvidence = true ↔
    m.reportEventKey = none ∧ m.reportStatus = none ∧ m.reportTime = none ∧
    m.reportDesc = none := by
  simp [Message.noReportEvidence, and_assoc]

theorem supersededBy_of_noReportEvidence (h : m.noReportEvidence = true) (key : EventKey)
    (e : Event) : m.supersededBy key e = true := by
  obtain ⟨-, hstatus, htime, -⟩ := (noReportEvidence_iff m).mp h
  simp [Message.supersededBy, hstatus, htime]

end

/-! ## Events of a message -/

variable {db db' : Db} {message : MessageId}

theorem mem_eventsOf {key : EventKey} : key ∈ db.eventsOf message ↔
      ∃ p ∈ db.projections, p.messageId = message ∧ p.eventKey = key := by
  simp [Db.eventsOf, mem_rows, and_assoc]

/-- The event a message shows is recorded as shown, and no other one is greater. -/
structure Db.ShowsGreatest (book : EventKey → Event) (db : Db) (m : Message)
    (key : EventKey) : Prop where
  shows_event : m.Shows book key
  recorded : ⟨key, m.batchId, m.id, true⟩ ∈ db.projections
  greatest : ∀ key' ∈ db.eventsOf m.id, projectionOrder book key' ≤ projectionOrder book key

structure Db.Projected (book : EventKey → Event) (db : Db) : Prop where
  known : ∀ p ∈ db.projections, ∃ m ∈ db.messages, m.id = p.messageId
  shown : ∀ m ∈ db.messages, (m.noReportEvidence = true ∧ db.eventsOf m.id = []) ∨
      ∃ key, db.ShowsGreatest book m key

variable {m : Message}

theorem Db.Projected.shown_of_event {book : EventKey → Event} (h : db.Projected book)
    (hm : m ∈ db.messages) (hevents : db.eventsOf m.id ≠ []) :
    ∃ key, db.ShowsGreatest book m key := by
  rcases h.shown m hm with ⟨-, hnone⟩ | hshown
  · exact absurd hnone hevents
  · exact hshown

/-! ## Writers that leave reports alone -/

/-- A message that is rewritten without a report: the columns of the report stay, and
the status changes only if it was pending or sent. -/
structure Message.Keeps (m m' : Message) : Prop where
  id_eq : m'.id = m.id
  batch_eq : m'.batchId = m.batchId
  reportStatus_eq : m'.reportStatus = m.reportStatus
  reportDesc_eq : m'.reportDesc = m.reportDesc
  reportTime_eq : m'.reportTime = m.reportTime
  key_eq : m'.reportEventKey = m.reportEventKey
  status_eq : isActive m.status = false → m'.status = m.status

theorem Message.Keeps.refl (m : Message) : m.Keeps m := ⟨rfl, rfl, rfl, rfl, rfl, rfl, fun _ => rfl⟩

/-- The projections stay, old messages are kept and new ones carry no report. -/
structure Db.Quiet (db db' : Db) : Prop where
  projections_eq : db'.projections = db.projections
  forward : ∀ m ∈ db.messages, ∃ m' ∈ db'.messages, m.Keeps m'
  backward : ∀ m' ∈ db'.messages, (∃ m ∈ db.messages, m.Keeps m') ∨
    (m'.noReportEvidence = true ∧ ∀ m ∈ db.messages, m.id ≠ m'.id)

theorem Db.Quiet.of_update {u : Update Message.id} (hprojections : db'.projections = db.projections)
    (hmessages : db'.messages = db.messages.apply u)
    (hkeeps : ∀ m ∈ db.messages, m.Keeps (u.row m)) : db.Quiet db' where
  projections_eq := hprojections
  forward m hm := ⟨u.row m, by rw [hmessages]; exact row_mem_apply hm, hkeeps m hm⟩
  backward m' hm' := by
    rw [hmessages] at hm'
    obtain ⟨m, hm, rfl⟩ := mem_apply_iff.mp hm'
    exact .inl ⟨m, hm, hkeeps m hm⟩

theorem Db.Quiet.of_messages_eq (hprojections : db'.projections = db.projections)
    (hmessages : db'.messages = db.messages) : db.Quiet db' where
  projections_eq := hprojections
  forward m hm := ⟨m, by rw [hmessages]; exact hm, .refl m⟩
  backward m' hm' := .inl ⟨m', by rw [← hmessages]; exact hm', .refl m'⟩

variable {status : MessageStatus} {p : Message → Bool}

theorem keeps_statusUpdate (hp : p m = true → isActive m.status = true) :
    m.Keeps ((statusUpdate p status).row m) := by
  refine row_cases (.refl m) (fun hm => ?_)
  refine ⟨rfl, rfl, rfl, rfl, rfl, rfl, fun hinactive => ?_⟩
  rw [hp hm] at hinactive
  cases hinactive

/-- Active messages get a status; the projections stay. -/
structure Db.Sets (db db' : Db) (p : Message → Bool) (status : MessageStatus) : Prop where
  messages : db'.messages = db.messages.apply (statusUpdate p status)
  projections : db'.projections = db.projections
  active : ∀ m, p m = true → isActive m.status = true

theorem Db.Sets.quiet (h : db.Sets db' p status) : db.Quiet db' :=
  .of_update h.projections h.messages (fun m _ => keeps_statusUpdate (h.active m))

section

variable {book : EventKey → Event} {db : Db} {m : Message}

theorem eventsOf_congr (h : db'.projections = db.projections) (message : MessageId) :
    db'.eventsOf message = db.eventsOf message := by
  unfold Db.eventsOf
  rw [h]

theorem Db.ShowsGreatest.keeps (hprojections : db'.projections = db.projections) {m' : Message}
    (hkeeps : m.Keeps m') {key : EventKey} (h : db.ShowsGreatest book m key) :
    db'.ShowsGreatest book m' key := by
  obtain ⟨hstatus, hrs, hdesc, htime, hkey⟩ := h.shows_event.columns
  have hstatus' : m'.status = (book key).messageStatus := by
    rw [hkeeps.status_eq (by rw [hstatus, isActive_messageStatus]), hstatus]
  refine ⟨?_, ?_, ?_⟩
  · unfold Message.Shows Message.project
    rw [← hstatus', ← hrs, ← hdesc, ← htime, ← hkey, ← hkeeps.reportStatus_eq,
      ← hkeeps.reportDesc_eq, ← hkeeps.reportTime_eq, ← hkeeps.key_eq]
  · rw [hprojections, hkeeps.id_eq, hkeeps.batch_eq]
    exact h.recorded
  · intro key' hkey'
    rw [hkeeps.id_eq, eventsOf_congr hprojections] at hkey'
    exact h.greatest key' hkey'

theorem noReportEvidence_of_keeps {m' : Message} (hkeeps : m.Keeps m') :
    m'.noReportEvidence = m.noReportEvidence := by
  unfold Message.noReportEvidence
  rw [hkeeps.reportStatus_eq, hkeeps.reportDesc_eq, hkeeps.reportTime_eq, hkeeps.key_eq]

theorem Db.Projected.quiet (h : db.Projected book) (hquiet : db.Quiet db') :
    db'.Projected book where
  known p hp := by
    rw [hquiet.projections_eq] at hp
    obtain ⟨m, hm, hid⟩ := h.known p hp
    obtain ⟨m', hm', hkeeps⟩ := hquiet.forward m hm
    exact ⟨m', hm', hkeeps.id_eq.trans hid⟩
  shown m' hm' := by
    rcases hquiet.backward m' hm' with ⟨m, hm, hkeeps⟩ | ⟨hnone, hfresh⟩
    · rcases h.shown m hm with ⟨hevidence, hevents⟩ | ⟨key, hshows⟩
      · left
        rw [noReportEvidence_of_keeps hkeeps, hkeeps.id_eq, eventsOf_congr hquiet.projections_eq]
        exact ⟨hevidence, hevents⟩
      · exact .inr ⟨key, hshows.keeps hquiet.projections_eq hkeeps⟩
    · refine .inl ⟨hnone, ?_⟩
      rw [eventsOf_congr hquiet.projections_eq, eq_nil_iff_forall_not_mem]
      intro key hkey
      obtain ⟨p, hp, hmessage, -⟩ := mem_eventsOf.mp hkey
      obtain ⟨m, hm, hid⟩ := h.known p hp
      exact hfresh m hm (hid.trans hmessage)

/-- There is nothing to repair. -/
theorem Db.Projected.reproject_eq (h : db.Projected book) (hm : m ∈ db.messages) :
    m.reproject book = m := by
  rcases h.shown m hm with ⟨hnone, -⟩ | ⟨key, hshows⟩
  · have hkey := ((noReportEvidence_iff m).mp hnone).1
    unfold Message.reproject
    rw [hkey]
  have hkey := hshows.shows_event.columns.2.2.2.2
  unfold Message.reproject
  rw [hkey]
  exact hshows.shows_event

theorem Db.Projected.repair_eq (h : db.Projected book) (batch : BatchId)
    (ids : List MessageId) : db.repairReportProjection book batch ids = db := by
  have hnone : db.messages.rowcount (repairUpdate book db batch ids) = 0 := by
    rw [Table.rowcount, countP_eq_zero]
    intro m hm
    simp [repairUpdate, h.reproject_eq hm]
  simp only [Db.repairReportProjection, hnone, if_true]

theorem refreshBatch_same (db : Db) (batch : BatchId) (delta : Option Delta) :
    (db.refreshBatch batch delta).messages = db.messages ∧
    (db.refreshBatch batch delta).projections = db.projections ∧
    (db.refreshBatch batch delta).chunks = db.chunks := by
  unfold Db.refreshBatch
  split
  · exact ⟨rfl, rfl, rfl⟩
  · split <;> exact ⟨rfl, rfl, rfl⟩

theorem expireBatch_same (h : db.Projected book) (batch : BatchId) (now timeout limit : ℕ) :
    (db.expireBatch book batch now timeout limit).messages =
        db.messages.apply (expireUpdate db batch
          (db.overdueMessages batch now timeout limit) now timeout) ∧
    (db.expireBatch book batch now timeout limit).projections = db.projections ∧
    (db.expireBatch book batch now timeout limit).chunks = db.chunks := by
  unfold Db.expireBatch
  dsimp only
  rw [h.repair_eq]
  split
  · rename_i hnone
    exact ⟨(apply_of_rowcount_eq_zero hnone).symm, rfl, rfl⟩
  · exact refreshBatch_same _ _ _

end

/-! ## Application of an event -/

section

variable {book : EventKey → Event}

theorem mem_eventsOf_insertNew {p : Projection}
    {hfresh : ∀ q ∈ db.projections.rows, q.eventKey ≠ p.eventKey}
    (h : db'.projections = db.projections.insertNew p hfresh)
    {key : EventKey} : key ∈ db'.eventsOf message ↔
      key ∈ db.eventsOf message ∨ (p.messageId = message ∧ p.eventKey = key) := by
  simp only [mem_eventsOf, h, mem_insertNew_iff]
  constructor
  · rintro ⟨q, hq | rfl, hmessage, hkey⟩
    · exact .inl ⟨q, hq, hmessage, hkey⟩
    · exact .inr ⟨hmessage, hkey⟩
  · rintro (⟨q, hq, hmessage, hkey⟩ | ⟨hmessage, hkey⟩)
    · exact ⟨q, .inl hq, hmessage, hkey⟩
    · exact ⟨p, .inr rfl, hmessage, hkey⟩

/-- The outcomes of `projectReport` in a sound state. -/
theorem projectReport_cases (h : db.Projected book) (key : EventKey) :
    (∃ p ∈ db.projections, p.eventKey = key) ∧ db.projectReport book m key = db ∨
    ∃ hfresh : ∀ p ∈ db.projections.rows, p.eventKey ≠ key,
      (db.projectReport book m key).projections =
        db.projections.insertNew ⟨key, m.batchId, m.id, m.supersededBy key (book key)⟩ hfresh ∧
    (db.projectReport book m key).chunks = db.chunks ∧ (db.projectReport book m key).messages =
      if m.supersededBy key (book key) then db.messages.apply (projectUpdate book m.id key)
      else db.messages := by
  by_cases hfresh : ∀ p ∈ db.projections.rows, p.eventKey ≠ key
  · refine .inr ⟨hfresh, ?_⟩
    unfold Db.projectReport
    rw [dif_pos hfresh]
    by_cases hchanged : m.supersededBy key (book key) = true
    · simp only [hchanged, if_true, refreshBatch_same, and_self]
    · have hfalse : m.supersededBy key (book key) = false := by simpa using hchanged
      simp only [hfalse, Bool.false_eq_true, if_false, and_self]
  · left
    constructor
    · simpa [mem_rows] using hfresh
    · unfold Db.projectReport
      rw [dif_neg hfresh]
      exact h.repair_eq m.batchId [m.id]

/-- An applied event leaves every message with the greatest of its events. -/
theorem Db.Projected.projectReport (h : db.Projected book)
    (hm : m ∈ db.messages) (key : EventKey) : (db.projectReport book m key).Projected book := by
  rcases projectReport_cases h key with
    ⟨-, heq⟩ | ⟨hfresh, hprojections, -, hmessages⟩
  · rw [heq]
    exact h
  generalize db.projectReport book m key = db' at hprojections hmessages
  have hevents : ∀ message key', key' ∈ db'.eventsOf message ↔
      key' ∈ db.eventsOf message ∨ (m.id = message ∧ key = key') :=
    fun _ _ => mem_eventsOf_insertNew hprojections
  have hrecorded : ∀ p, p ∈ db.projections → p ∈ db'.projections := by
    intro p hp
    rw [hprojections, mem_insertNew_iff]
    exact .inl hp
  -- Messages other than the one the event belongs to keep their events.
  have hother : ∀ x ∈ db.messages, x.id ≠ m.id →
      (x.noReportEvidence = true ∧ db'.eventsOf x.id = []) ∨
        ∃ shown, db'.ShowsGreatest book x shown := by
    intro x hx hne
    have hsame : ∀ key', key' ∈ db'.eventsOf x.id ↔ key' ∈ db.eventsOf x.id := by
      intro key'
      rw [hevents]
      exact ⟨fun hk => hk.resolve_right (fun hk' => hne hk'.1.symm), .inl⟩
    rcases h.shown x hx with ⟨hnone, hempty⟩ | ⟨shown, hshows⟩
    · refine .inl ⟨hnone, eq_nil_iff_forall_not_mem.mpr (fun key' hk => ?_)⟩
      rw [hsame, hempty] at hk
      exact absurd hk not_mem_nil
    · exact .inr ⟨shown, hshows.shows_event, hrecorded _ hshows.recorded,
        fun key' hk => hshows.greatest key' ((hsame key').mp hk)⟩
  have hknown : ∀ p ∈ db'.projections, ∃ x ∈ db.messages, x.id = p.messageId := by
    intro p hp
    rw [hprojections, mem_insertNew_iff] at hp
    rcases hp with hp | rfl
    · exact h.known p hp
    · exact ⟨m, hm, rfl⟩
  by_cases hchanged : m.supersededBy key (book key) = true
  · rw [hchanged] at hmessages hprojections
    constructor
    · intro p hp
      obtain ⟨x, hx, hid⟩ := hknown p hp
      rw [hmessages]
      exact ⟨_, row_mem_apply hx, (key_row (projectUpdate book m.id key) x).trans hid⟩
    · intro x' hx'
      rw [hmessages] at hx'
      rcases mem_apply_cases hx' with ⟨hx, hnot⟩ | ⟨x, hx, happ, rfl⟩
      · exact hother x' hx (of_decide_eq_false hnot)
      · obtain rfl : x = m := eq_of_key_eq hx hm (of_decide_eq_true happ)
        refine .inr ⟨key, shows_project x key, ?_, ?_⟩
        · rw [hprojections, mem_insertNew_iff]
          exact .inr rfl
        · intro key' hk
          rcases (hevents x.id key').mp hk with hk | ⟨-, rfl⟩
          · rcases h.shown x hx with ⟨-, hempty⟩ | ⟨shown, hshows⟩
            · rw [hempty] at hk
              exact absurd hk not_mem_nil
            · exact (hshows.greatest key' hk).trans
                ((supersededBy_iff hshows.shows_event key).mp hchanged).le
          · exact le_rfl
  · rw [if_neg hchanged] at hmessages
    constructor
    · rw [hmessages]
      exact hknown
    · intro x hx
      rw [hmessages] at hx
      by_cases hid : x.id = m.id
      · obtain rfl : x = m := eq_of_key_eq hx hm hid
        rcases h.shown x hx with ⟨hnone, -⟩ | ⟨shown, hshows⟩
        · exact absurd (supersededBy_of_noReportEvidence hnone key (book key)) hchanged
        refine .inr ⟨shown, hshows.shows_event, hrecorded _ hshows.recorded, ?_⟩
        intro key' hk
        rcases (hevents x.id key').mp hk with hk | ⟨-, rfl⟩
        · exact hshows.greatest key' hk
        · rw [supersededBy_iff hshows.shows_event] at hchanged
          exact not_lt.mp hchanged
      · exact hother x hx hid

end

end SmsPlatform.Report
