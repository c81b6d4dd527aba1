import SmsPlatform.Report.Finishing

/-!
# Versions of messages and chunks

A finishing operation moves a message only forwards: from active to ended, and from one
shown event to a greater one.  A chunk only changes its status.  So the message a
report belongs to stays the same, and an operation records an event exactly if it is
the first report of it.
-/

namespace SmsPlatform.Report

open Support Schema Vendor Table Update Option Bool

/-! ## Versions of a message -/

section

variable (book : EventKey → Event)

/-- How far a message has got: active, ended, and then by the event it shows. -/
def Message.rank (m : Message) : ℕ ×ₗ ℕ ×ₗ Time ×ₗ ℕ ×ₗ EventKey :=
  match m.reportEventKey with
  | some key => toLex (2, projectionOrder book key)
  | none => toLex (if isActive m.status then 0 else 1, projectionOrder book 0)

/-- A version of the message after some finishing operations. -/
structure Message.Later (m m' : Message) : Prop where
  id_eq : m'.id = m.id
  batch_eq : m'.batchId = m.batchId
  chunk_eq : m'.chunkId = m.chunkId
  phone_eq : m'.phoneHmac = m.phoneHmac
  moved : m'.projection = m.projection ∨ m.rank book < m'.rank book

variable {book} {m m' : Message}

theorem rank_congr (h : m'.projection = m.projection) : m'.rank book = m.rank book := by
  simp only [Message.projection, Prod.mk.injEq] at h
  obtain ⟨hstatus, -, -, -, hkey⟩ := h
  simp [Message.rank, hstatus, hkey]

theorem Message.Later.refl (m : Message) : m.Later book m := ⟨rfl, rfl, rfl, rfl, .inl rfl⟩

theorem Message.Later.rank_le (h : m.Later book m') : m.rank book ≤ m'.rank book := by
  rcases h.moved with hsame | hlt
  · exact (rank_congr hsame).ge
  · exact hlt.le

theorem Message.Later.trans {m'' : Message} (h : m.Later book m') (h' : m'.Later book m'') :
    m.Later book m'' := by
  refine ⟨h'.id_eq.trans h.id_eq, h'.batch_eq.trans h.batch_eq, h'.chunk_eq.trans h.chunk_eq,
    h'.phone_eq.trans h.phone_eq, ?_⟩
  rcases h.moved with hsame | hlt
  · rcases h'.moved with hsame' | hlt'
    · exact .inl (hsame'.trans hsame)
    · exact .inr ((rank_congr hsame).symm.le.trans_lt hlt')
  · exact .inr (hlt.trans_le h'.rank_le)

/-- What has moved does not come back. -/
theorem Message.Later.ne_of_ne {m'' : Message} (h : m.Later book m') (h' : m'.Later book m'')
    (hne : m'.projection ≠ m.projection) : m''.projection ≠ m.projection := by
  intro heq
  have hlt := h.moved.resolve_left hne
  exact absurd (hlt.trans_le h'.rank_le) (by rw [rank_congr heq]; exact lt_irrefl _)

/-- Whatever is active has been so all the time. -/
theorem Message.Later.projection_eq_of_active (h : m.Later book m')
    (hkey : m'.reportEventKey = none) (hactive : isActive m'.status = true) :
    m'.projection = m.projection := by
  rcases h.moved with hsame | hlt
  · exact hsame
  have hrank : m'.rank book = toLex (0, projectionOrder book 0) := by
    simp only [Message.rank, hkey, hactive, if_true]
  rw [hrank] at hlt
  unfold Message.rank at hlt
  split at hlt
  · simp [Prod.Lex.toLex_lt_toLex] at hlt
  · split at hlt <;> simp [Prod.Lex.toLex_lt_toLex] at hlt

end

/-! ## Versions of a chunk -/

/-- A version of the chunk after one operation: only its status may differ. -/
structure Chunk.After (op : Finishing) (c c' : Chunk) : Prop where
  same : c' = { c with status := c'.status }
  ended : c.status = .failed ∨ c.status = .unknownTerminal → c'.status = c.status
  failed : op = .fail c.id → isPreSend c.status = true ∧ c'.status = .failed
  terminal : op = .terminalize c.id → isUncertain c.status = true ∧ c'.status = .unknownTerminal
  source : c'.status = .unknownTerminal → c.status = .unknownTerminal ∨ op = .terminalize c.id

def Chunk.SameButStatus (c c' : Chunk) : Prop := c' = { c with status := c'.status }

theorem Chunk.SameButStatus.trans {c c' c'' : Chunk} (h : c.SameButStatus c')
    (h' : c'.SameButStatus c'') : c.SameButStatus c'' := by
  unfold Chunk.SameButStatus at *
  rw [h', h]

theorem Chunk.SameButStatus.columns {c c' : Chunk} (h : c.SameButStatus c') :
    c'.id = c.id ∧ c'.batchId = c.batchId ∧ c'.customId = c.customId ∧
    c'.submittedAt = c.submittedAt ∧ c'.selectedVendor = c.selectedVendor ∧
    c'.irreversibleVendors = c.irreversibleVendors := by
  rw [h]
  exact ⟨rfl, rfl, rfl, rfl, rfl, rfl⟩

section

variable {book : EventKey → Event} {phones : EventKey → List String} {db db' : Db} {op : Finishing}

variable {m : Message}

/-- The message a report belongs to, once it has passed the ownership check. -/
def Db.target (book : EventKey → Event) (phones : EventKey → List String) (db : Db)
    (key : EventKey) : Option MessageId :=
  (matchReport book db key (phones key)).bind
    (fun found => (db.ownedMessage book found key).map Message.id)

theorem finish_report_cases {key : EventKey} (h : db.finish book phones (.report key) = some db') :
    (db.target book phones key = none ∧ db' = db) ∨
    ∃ m ∈ db.messages, db.target book phones key = some m.id ∧
    db' = db.projectReport book m key := by
  cases h
  unfold Db.target
  cases hfound : matchReport book db key (phones key) with
  | none => exact .inl ⟨rfl, rfl⟩
  | some found =>
    cases howned : db.ownedMessage book found key with
    | none =>
      left
      simp [Db.applyReport, howned]
    | some m =>
      right
      refine ⟨m, (ownedMessage_eq_some howned).1, ?_⟩
      simp [Db.applyReport, howned]

theorem after_same (t : Table Chunk.id) (hfail : ∀ chunk, op ≠ .fail chunk)
    (hterminalize : ∀ chunk, op ≠ .terminalize chunk) : Rel (Chunk.After op) t t :=
  .refl (fun c => ⟨rfl, fun _ => rfl, fun h => absurd h (hfail c.id),
    fun h => absurd h (hterminalize c.id), .inl⟩) t

/-- One chunk is moved to its end, out of a status that is none. -/
theorem after_chunkUpdate {t : Table Chunk.id} {chunk : ChunkId} {status : ChunkStatus}
    {expected : ChunkStatus → Bool}
    (hlive : expected .failed = false ∧ expected .unknownTerminal = false)
    (hfail : ∀ id, op = .fail id →
      id = chunk ∧ (∀ s, expected s = true → isPreSend s = true) ∧ status = .failed)
    (hterminalize : ∀ id, op = .terminalize id →
      id = chunk ∧ (∀ s, expected s = true → isUncertain s = true) ∧ status = .unknownTerminal)
    (hsource : status = .unknownTerminal → op = .terminalize chunk)
    (happlies : op = .fail chunk ∨ op = .terminalize chunk →
      ∃ c ∈ t, c.id = chunk ∧ expected c.status = true) :
    Rel (Chunk.After op) t (t.apply (chunkUpdate chunk expected status id)) := by
  refine .apply (fun c hc => ?_)
  by_cases happ : (chunkUpdate chunk expected status id).applies c = true
  · rw [row_of_applies happ]
    simp only [chunkUpdate, and_eq_true, decide_eq_true_eq] at happ
    obtain ⟨rfl, hexpected⟩ := happ
    refine ⟨rfl, ?_, fun hop => ?_, fun hop => ?_, fun hstatus => .inr (hsource hstatus)⟩
    · rintro (hstatus | hstatus)
      · simp [hstatus, hlive.1] at hexpected
      · simp [hstatus, hlive.2] at hexpected
    · obtain ⟨-, hpre, rfl⟩ := hfail _ hop
      exact ⟨hpre _ hexpected, rfl⟩
    · obtain ⟨-, huncertain, rfl⟩ := hterminalize _ hop
      exact ⟨huncertain _ hexpected, rfl⟩
  · have hother : ¬ (op = .fail c.id ∨ op = .terminalize c.id) := by
      intro hop
      have hid : c.id = chunk := hop.elim (fun h => (hfail _ h).1) (fun h => (hterminalize _ h).1)
      obtain ⟨c₀, hc₀, hid₀, hexpected⟩ := happlies (hid ▸ hop)
      obtain rfl : c = c₀ := eq_of_key_eq hc hc₀ (hid.trans hid₀.symm)
      exact happ (by simp [chunkUpdate, hid, hexpected])
    rw [row_of_not_applies (eq_false_iff.mpr happ)]
    exact ⟨rfl, fun _ => rfl, fun hop => absurd (.inl hop) hother,
      fun hop => absurd (.inr hop) hother, .inl⟩

theorem finish_chunks (hreached : db.Reached book) (h : db.finish book phones op = some db') :
    Rel (Chunk.After op) db.chunks db'.chunks := by
  cases op with
  | fail chunk =>
    obtain ⟨c, hc, hid, hpre, ⟨-, rfl⟩ | ⟨-, rfl⟩⟩ := failChunk_eq_some h <;>
      exact after_chunkUpdate ⟨rfl, rfl⟩
        (fun _ hop => ⟨(Finishing.fail.inj hop).symm, fun _ => id, rfl⟩) (by simp) (by simp)
        (fun _ => ⟨c, hc, hid, hpre⟩)
  | report key =>
    have hchunks : db'.chunks = db.chunks := by
      rcases finish_report_cases h with ⟨-, rfl⟩ | ⟨m, -, -, rfl⟩
      · rfl
      · exact projectReport_chunks hreached.projected m key
    rw [hchunks]
    exact after_same db.chunks (by simp) (by simp)
  | exclude chunk hits =>
    obtain ⟨d, hplan, rfl⟩ := map_eq_some_iff.mp h
    obtain ⟨excluded, -, -, -, hchunks, heq⟩ := settleDispatch_eq db d
    have hsame : (db.settleDispatch d).chunks = excluded.chunks := by
      rw [heq]
      split <;> rfl
    rw [hsame]
    rcases hchunks with hnone | hfailed
    · rw [hnone]
      exact after_same db.chunks (by simp) (by simp)
    have hpre : isPreSend d.status = true := by
      obtain ⟨c, -, -, hpre, rfl⟩ := decideDispatch_eq_some hplan
      exact hpre
    rw [hfailed]
    refine after_chunkUpdate ?_ (by simp) (by simp) (by simp) (by simp)
    constructor <;> refine decide_eq_false (fun heq => ?_) <;> rw [← heq.1] at hpre <;>
      cases hpre
  | expire batch now timeout limit =>
    cases h
    rw [(expireBatch_same hreached.projected batch now timeout limit).2.2]
    exact after_same db.chunks (by simp) (by simp)
  | terminalize chunk =>
    obtain ⟨c₀, hc₀, hid₀, huncertain, rfl⟩ := terminalizeUnknown_eq_some h
    refine after_chunkUpdate ⟨rfl, rfl⟩ (by simp) (fun _ hop => ?_)
      (fun _ => rfl) (fun _ => ⟨c₀, hc₀, hid₀, huncertain⟩)
    exact ⟨(Finishing.terminalize.inj hop).symm, fun _ => id, rfl⟩

/-! ## Messages -/

theorem Db.Projected.of_active (h : db.Projected book) (hm : m ∈ db.messages)
    (hactive : isActive m.status = true) : m.noReportEvidence = true ∧ db.eventsOf m.id = [] := by
  rcases h.shown m hm with hnone | ⟨key, hshows⟩
  · exact hnone
  · rw [hshows.shows_event.columns.1, isActive_messageStatus] at hactive
    cases hactive

theorem Db.Projected.of_eventsOf_nil (h : db.Projected book) (hm : m ∈ db.messages)
    (hevents : db.eventsOf m.id = []) : m.noReportEvidence = true := by
  rcases h.shown m hm with ⟨hnone, -⟩ | ⟨key, hshows⟩
  · exact hnone
  · have hmem : key ∈ db.eventsOf m.id := mem_eventsOf.mpr ⟨_, hshows.recorded, rfl, rfl⟩
    rw [hevents] at hmem
    cases hmem

theorem later_same (t : Table Message.id) : Rel (Message.Later book) t t := .refl .refl t

/-- Active messages end. -/
theorem Db.Sets.later {p : Message → Bool} {status : MessageStatus} (hsets : db.Sets db' p status)
    (h : db.Projected book) (hstatus : isActive status = false) :
    Rel (Message.Later book) db.messages db'.messages := by
  rw [hsets.messages]
  refine .apply (fun m hm => ?_)
  refine row_cases (P := m.Later book) (.refl m) (fun hq => ⟨rfl, rfl, rfl, rfl, .inr ?_⟩)
  have hactive := hsets.active m hq
  have hkey := ((noReportEvidence_iff m).mp (h.of_active hm hactive).1).1
  simp [Message.rank, statusUpdate, hkey, hactive, hstatus, Prod.Lex.toLex_lt_toLex]

theorem later_projectReport (h : db.Projected book) (hm : m ∈ db.messages) (key : EventKey) :
    Rel (Message.Later book) db.messages (db.projectReport book m key).messages := by
  rcases projectReport_cases h key with ⟨-, hsame⟩ | ⟨-, -, -, hmessages⟩
  · rw [hsame]
    exact later_same db.messages
  rw [hmessages]
  split
  · rename_i hchanged
    refine .apply (fun x hx => row_cases (P := x.Later book) (.refl x) (fun happ => ?_))
    obtain rfl : x = m := eq_of_key_eq hx hm (of_decide_eq_true happ)
    refine ⟨rfl, rfl, rfl, rfl, .inr ?_⟩
    have hrank : ((projectUpdate book x.id key).change x).rank book =
        toLex (2, projectionOrder book key) := rfl
    rw [hrank]
    rcases h.shown x hx with ⟨hnone, -⟩ | ⟨shown, hshows⟩
    · have hkey := ((noReportEvidence_iff x).mp hnone).1
      simp only [Message.rank, hkey, Prod.Lex.toLex_lt_toLex]
      left
      split <;> decide
    · have hkey := hshows.shows_event.columns.2.2.2.2
      simp only [Message.rank, hkey]
      exact Prod.Lex.toLex_lt_toLex.mpr
        (.inr ⟨rfl, (supersededBy_iff hshows.shows_event key).mp hchanged⟩)
  · exact later_same db.messages

theorem projectReport_other (h : db.Projected book) {x m' : Message} {key : EventKey}
    (hm : m ∈ db.messages) (hm' : m' ∈ (db.projectReport book x key).messages)
    (hid : m'.id = m.id) (hother : m.id ≠ x.id) : m' = m := by
  rcases projectReport_cases h key with ⟨-, hsame⟩ | ⟨-, -, -, hmessages⟩
  · rw [hsame] at hm'
    exact eq_of_key_eq hm' hm hid
  rw [hmessages] at hm'
  split at hm'
  · rw [eq_row_of_mem_apply hm hm' hid]
    exact row_of_not_applies (decide_eq_false hother)
  · exact eq_of_key_eq hm' hm hid

theorem finish_messages (hreached : db.Reached book) (h : db.finish book phones op = some db') :
    Rel (Message.Later book) db.messages db'.messages := by
  have hprojected := hreached.projected
  cases op with
  | fail chunk => exact (sets_failChunk h).later hprojected rfl
  | report key =>
    rcases finish_report_cases h with ⟨-, rfl⟩ | ⟨m, hm, -, rfl⟩
    · exact later_same db'.messages
    · exact later_projectReport hprojected hm key
  | exclude chunk hits =>
    obtain ⟨d, -, rfl⟩ := map_eq_some_iff.mp h
    exact (sets_settleDispatch db d).later hprojected rfl
  | expire batch now timeout limit =>
    cases h
    exact (sets_expireBatch hprojected batch now timeout limit).later hprojected rfl
  | terminalize chunk => exact (sets_terminalizeUnknown h).later hprojected rfl

end

/-! ## Events -/

section

variable {book : EventKey → Event} {phones : EventKey → List String} {db db' : Db}

/-- What a match reads of the messages it has found. -/
def matchOf : List (MessageId × BatchId × Option ChunkId) → Option Match
  | [(message, batch, chunk)] => chunk.map (fun chunk => ⟨message, batch, chunk⟩)
  | _ => none

/-- The messages with one of the digests in a chunk with the id of the event. -/
def Db.isMatch (book : EventKey → Event) (db : Db) (key : EventKey)
    (phoneHmacs : List String) (m : Message) : Bool :=
  decide (m.phoneHmac ∈ phoneHmacs) && m.chunkId.any (fun chunk =>
    (db.chunks.find? chunk).any (fun c => decide (c.customId = (book key).customId)))

theorem matchReport_eq (key : EventKey) (phoneHmacs : List String) :
    matchReport book db key phoneHmacs = matchOf
      ((db.messages.rows.filter (db.isMatch book key phoneHmacs)).map
        (fun m => (m.id, m.batchId, m.chunkId))) := by
  unfold matchReport Db.isMatch
  generalize db.messages.rows.filter _ = rows
  rcases rows with _ | ⟨m, _ | ⟨m', ms⟩⟩ <;> rfl

theorem ownedMessage_map_id {found : Match} {key : EventKey} {id : MessageId} :
    (db.ownedMessage book found key).map Message.id = some id ↔ id = found.messageId ∧
    (∃ c ∈ db.chunks, c.id = found.chunkId ∧ reportMayApply (book key).vendorId
      (c.selectedVendor.getD primaryVendorId) c.irreversibleVendors = true) ∧
    ∃ m ∈ db.messages, m.id = found.messageId ∧ m.batchId = found.batchId := by
  constructor
  · intro h
    obtain ⟨m, howned, rfl⟩ := map_eq_some_iff.mp h
    obtain ⟨hm, hid, hbatch⟩ := ownedMessage_eq_some howned
    refine ⟨hid, ?_, m, hm, hid, hbatch⟩
    unfold Db.ownedMessage at howned
    split at howned
    · cases howned
    rename_i c hfind
    obtain ⟨hc, hcid⟩ := find?_eq_some_iff.mp hfind
    split at howned
    · rename_i hmay
      exact ⟨c, hc, hcid, hmay⟩
    · cases howned
  · rintro ⟨rfl, ⟨c, hc, hcid, hmay⟩, m, hm, hid, hbatch⟩
    unfold Db.ownedMessage
    rw [find?_eq_some_iff.mpr ⟨hc, hcid⟩]
    simp only [hmay, if_true, find?_eq_some_iff.mpr ⟨hm, hid⟩, filter_some,
      hbatch, decide_true, map_some, hid]

theorem target_eq (hchunks : Rel Chunk.SameButStatus db.chunks db'.chunks)
    (hmessages : Rel (Message.Later book) db.messages db'.messages) (key : EventKey) :
    db'.target book phones key = db.target book phones key := by
  have hmatch : matchReport book db' key (phones key) = matchReport book db key (phones key) := by
    rw [matchReport_eq, matchReport_eq]
    refine congrArg matchOf (hmessages.filter_map_eq (fun m m' hlater => ⟨?_, ?_⟩)).symm
    · have hany := hchunks.find?_any_eq
        (p := fun c => decide (c.customId = (book key).customId))
        (fun c c' hsame => ⟨hsame.columns.1, by rw [hsame.columns.2.2.1]⟩)
      simp [Db.isMatch, hlater.phone_eq, hlater.chunk_eq, hany]
    · rw [hlater.id_eq, hlater.batch_eq, hlater.chunk_eq]
  unfold Db.target
  rw [hmatch]
  refine bind_congr (fun found _ => Option.ext (fun id => ?_))
  rw [ownedMessage_map_id, ownedMessage_map_id]
  refine and_congr_right (fun _ => and_congr ?_ ?_)
  · constructor
    · rintro ⟨c', hc', hid, hmay⟩
      obtain ⟨c, hc, hsame⟩ := hchunks.exists_left hc'
      obtain ⟨hcid, -, -, -, hvendor, hirreversible⟩ := hsame.columns
      exact ⟨c, hc, hcid.symm.trans hid, by rw [← hvendor, ← hirreversible]; exact hmay⟩
    · rintro ⟨c, hc, hid, hmay⟩
      obtain ⟨c', hc', hsame⟩ := hchunks.exists_right hc
      obtain ⟨hcid, -, -, -, hvendor, hirreversible⟩ := hsame.columns
      exact ⟨c', hc', hcid.trans hid, by rw [hvendor, hirreversible]; exact hmay⟩
  · constructor
    · rintro ⟨m', hm', hid, hbatch⟩
      obtain ⟨m, hm, hlater⟩ := hmessages.exists_left hm'
      exact ⟨m, hm, hlater.id_eq.symm.trans hid, hlater.batch_eq.symm.trans hbatch⟩
    · rintro ⟨m, hm, hid, hbatch⟩
      obtain ⟨m', hm', hlater⟩ := hmessages.exists_right hm
      exact ⟨m', hm', hlater.id_eq.trans hid, hlater.batch_eq.trans hbatch⟩

/-- Only a report records an event: that of its target, unless it is recorded. -/
theorem finish_events (hreached : db.Reached book) {op : Finishing}
    (h : db.finish book phones op = some db') (key : EventKey) (id : MessageId) :
    key ∈ db'.eventsOf id ↔ key ∈ db.eventsOf id ∨
      (op = .report key ∧ db.target book phones key = some id ∧
        ∀ other, key ∉ db.eventsOf other) := by
  cases op with
  | fail chunk => simp [eventsOf_congr (sets_failChunk h).projections]
  | exclude chunk hits =>
    obtain ⟨d, -, rfl⟩ := map_eq_some_iff.mp h
    simp [eventsOf_congr (sets_settleDispatch db d).projections]
  | expire batch now timeout limit =>
    cases h
    simp [eventsOf_congr (sets_expireBatch hreached.projected _ _ _ _).projections]
  | terminalize chunk => simp [eventsOf_congr (sets_terminalizeUnknown h).projections]
  | report key' =>
    rcases finish_report_cases h with ⟨hnone, rfl⟩ | ⟨m, hm, htarget, rfl⟩
    · refine ⟨.inl, fun hk => hk.resolve_right ?_⟩
      rintro ⟨hop, htarget, -⟩
      cases hop
      rw [hnone] at htarget
      cases htarget
    · rcases projectReport_cases hreached.projected key' with
        ⟨⟨p, hp, hkey⟩, hsame⟩ | ⟨hfresh, hprojections, -⟩
      · rw [hsame]
        refine ⟨.inl, fun hk => hk.resolve_right ?_⟩
        rintro ⟨hop, -, hunseen⟩
        cases hop
        exact hunseen p.messageId (mem_eventsOf.mpr ⟨p, hp, rfl, hkey⟩)
      · rw [mem_eventsOf_insertNew hprojections]
        refine or_congr_right ?_
        constructor
        · rintro ⟨rfl, rfl⟩
          refine ⟨rfl, htarget, fun other hother => ?_⟩
          obtain ⟨p, hp, -, hkey⟩ := mem_eventsOf.mp hother
          exact hfresh p hp hkey
        · rintro ⟨hop, htarget', -⟩
          cases hop
          rw [htarget] at htarget'
          exact ⟨Option.some.inj htarget', rfl⟩

end

end SmsPlatform.Report
