import SmsPlatform.Report.Versions

/-!
# Outcome of a set of finishing operations

What a message has become after a number of finishing operations does not depend on
their order: it shows the greatest of its reports, and without a report the kind of
operation that ended it is determined by its start status.

This needs every operation to take effect when it runs.  An uncertain chunk has to have
an active message, the excluded messages have to be pending, and the pages of a sweep
have to go on until nothing is due.  A batch with an uncertain chunk that has ended has
to lose its last active message to the end of another one.
-/

namespace SmsPlatform.Report

open Support Schema Table List

/-! ## Conditions -/

/-- The batch of the chunk. -/
def Db.batchOf (db : Db) (chunk : ChunkId) : Option BatchId :=
  (db.chunks.find? chunk).map Chunk.batchId

/-- A batch with nothing active left ends with the settlement of an exclusion. -/
def canComplete (status : BatchStatus) : Bool :=
  status.isActive || decide (status = .completed ∨ status = .completedUnknown)

section

variable (book : EventKey → Event) (phones : EventKey → List String) (db : Db)

/-- The operation does not end the last active message of a batch one of whose chunks has
ended as unknown. -/
def Db.KeepsLast (op : Finishing) : Prop :=
  ∀ db' ∈ db.finish book phones op, ∀ c ∈ db.chunks.rows, c.status = .unknownTerminal →
    db'.count c.batchId isActive = 0 → db.count c.batchId isActive = 0

/-- The operation takes full effect on the batch:

* an uncertain chunk that is ended has active messages, and only such an operation ends
  the last message of a batch with a chunk that has ended as unknown;
* the messages of an exclusion are pending and not yet excluded, and if nothing remains
  active the batch is queued, sending or completed. -/
def EndsCleanly : Finishing → Prop
  | .terminalize chunk =>
    ∃ m ∈ db.messages.rows, m.chunkId = some chunk ∧ isActive m.status = true
  | .exclude chunk hits =>
    (∀ id ∈ hits, id ∈ db.pendingMessages chunk ∧ id ∉ db.exclusions) ∧
    (∀ b ∈ db.batches.rows, some b.id = db.batchOf chunk →
      (db.exclude hits).count b.id isActive = 0 → canComplete b.status = true) ∧
    db.KeepsLast book phones (.exclude chunk hits)
  | op => db.KeepsLast book phones op

instance (op : Finishing) : Decidable (EndsCleanly book phones db op) := by
  unfold EndsCleanly Db.KeepsLast
  cases op <;> infer_instance

end

/-! ## Status without a report -/

namespace Finishing

def excludes (m : Message) : Finishing → Bool
  | .exclude _ hits => decide (m.id ∈ hits)
  | _ => false

def fails (m : Message) : Finishing → Bool
  | .fail chunk => decide (m.chunkId = some chunk)
  | _ => false

def terminalizes (m : Message) : Finishing → Bool
  | .terminalize chunk => decide (m.chunkId = some chunk)
  | _ => false

/-- A sweep for which the report of the message is overdue. -/
def expires (db : Db) (m : Message) : Finishing → Bool
  | .expire batch now timeout _ => decide (m.batchId = batch) && db.isOverdue now timeout m
  | _ => false

end Finishing

/-- The sweeps have left nothing behind that was due. -/
def Db.Swept (db : Db) (ops : List Finishing) : Prop :=
  ∀ op ∈ ops, ∀ m ∈ db.messages.rows, m.status = .sent → op.expires db m = false

instance (db : Db) (ops : List Finishing) : Decidable (db.Swept ops) := by
  unfold Db.Swept
  infer_instance

/-- The status a number of operations leave, if none is a report of the message. -/
def Db.outcome (db : Db) (ops : List Finishing) (m : Message) : MessageStatus :=
  match m.status with
  | .pending =>
    if ops.any (Finishing.excludes m) then .other
    else if ops.any (Finishing.fails m) then .failed
    else if ops.any (Finishing.terminalizes m) then .unknown
    else .pending
  | .sent => if ops.any (Finishing.expires db m) then .unknown else .sent
  | status => status

section

variable {book : EventKey → Event} {phones : EventKey → List String} {db db' : Db}
  {op : Finishing} {m : Message}

theorem mem_excluded_iff {chunk : ChunkId} {hits : List MessageId} {d : Dispatch}
    (hclean : EndsCleanly book phones db (.exclude chunk hits))
    (hplan : db.decideDispatch chunk hits = some d) (id : MessageId) :
    id ∈ d.excluded ↔ id ∈ hits := by
  obtain ⟨c, -, -, -, rfl⟩ := decideDispatch_eq_some hplan
  simp only [mem_filter, decide_eq_true_eq]
  exact ⟨fun h => h.2.1, fun h => ⟨(hclean.1 id h).1, h, (hclean.1 id h).2⟩⟩

/-- A chunk that has not been submitted has no sent messages. -/
theorem Db.SentSubmitted.not_sent (h : db.SentSubmitted) {p : ChunkStatus → Bool} {c : Chunk}
    (hc : c ∈ db.chunks) (hp : p c.status = true) (hsubmitted : p .submitted = false)
    (hm : m ∈ db.messages) (hsent : m.status = .sent) : m.chunkId ≠ some c.id := by
  intro hchunk
  rw [h m hm hsent c hc hchunk, hsubmitted] at hp
  cases hp

/-- A message without a report after an operation had none before. -/
theorem eventsOf_nil_of_finish (hreached : db.Reached book) {id : MessageId}
    (h : db.finish book phones op = some db') (hevents : db'.eventsOf id = []) :
    db.eventsOf id = [] := by
  refine eq_nil_iff_forall_not_mem.mpr (fun key hk => ?_)
  have hk' := (finish_events hreached h key id).mpr (.inl hk)
  rw [hevents] at hk'
  cases hk'

/-- What an operation makes of a message that has no report afterwards.  A sweep may leave
a sent message to its next page. -/
theorem finish_status (hreached : db.Reached book) (hclean : EndsCleanly book phones db op)
    (h : db.finish book phones op = some db') {m' : Message} (hm : m ∈ db.messages)
    (hm' : m' ∈ db'.messages) (hid : m'.id = m.id) (hevents : db'.eventsOf m.id = []) :
    m'.status = db.outcome [op] m ∨ m.status = .sent ∧ m'.status = .sent := by
  have hprojected := hreached.projected
  have hnone := hprojected.of_eventsOf_nil hm (eventsOf_nil_of_finish hreached h hevents)
  have hrow : ∀ {p : Message → Bool} {status : MessageStatus},
      db'.messages = db.messages.apply (statusUpdate p status) →
      m'.status = if p m then status else m.status := by
    intro p status hmessages
    rw [hmessages] at hm'
    rw [eq_row_of_mem_apply hm hm' hid]
    exact apply_ite Message.status (p m = true) _ _
  unfold Db.outcome
  cases op with
  | fail chunk =>
    left
    rw [hrow (sets_failChunk h).messages]
    obtain ⟨c, hc, rfl, hpre, -⟩ := failChunk_eq_some h
    cases hstatus : m.status with
    | sent =>
      have hchunk := hreached.sentSubmitted.not_sent hc hpre rfl hm hstatus
      simp [Message.failsWith, Finishing.expires, hchunk]
    | pending =>
      simp [Message.failsWith, Finishing.excludes, Finishing.fails, Finishing.terminalizes,
        isActive, hnone, hstatus]
    | _ => simp [Message.failsWith, hstatus, isActive]
  | exclude chunk hits =>
    left
    obtain ⟨d, hplan, rfl⟩ := Option.map_eq_some_iff.mp h
    rw [hrow (sets_settleDispatch db d).messages]
    have hmem := mem_excluded_iff hclean hplan m.id
    cases hstatus : m.status with
    | pending =>
      simp [Message.isExcluded, Finishing.excludes, Finishing.fails,
        Finishing.terminalizes, hmem, hstatus]
    | _ => simp [Message.isExcluded, hstatus, Finishing.expires]
  | expire batch now timeout limit =>
    cases h
    rw [hrow (expireBatch_same hprojected batch now timeout limit).1]
    cases hstatus : m.status with
    | sent =>
      split
      · rename_i happ
        simp only [Bool.and_eq_true, decide_eq_true_eq] at happ
        exact .inl (by simp [Finishing.expires, happ.1.1.2.1, happ.2])
      · exact .inr ⟨rfl, rfl⟩
    | pending => simp [Finishing.excludes, Finishing.fails, Finishing.terminalizes]
    | _ => simp
  | terminalize chunk =>
    left
    rw [hrow (sets_terminalizeUnknown h).messages]
    obtain ⟨c, hc, rfl, huncertain, -⟩ := terminalizeUnknown_eq_some h
    cases hstatus : m.status with
    | sent =>
      have hchunk := hreached.sentSubmitted.not_sent hc huncertain rfl hm hstatus
      simp [Message.endsWith, Finishing.expires, hchunk]
    | pending =>
      simp [Message.endsWith, Finishing.excludes, Finishing.fails, Finishing.terminalizes,
        isActive, hstatus]
    | _ => simp [Message.endsWith, hstatus, isActive]
  | report key =>
    have hsame : m' = m := by
      rcases finish_report_cases h with ⟨-, rfl⟩ | ⟨x, hx, -, rfl⟩
      · exact eq_of_key_eq hm' hm hid
      rcases projectReport_cases hprojected key with
        ⟨-, hdup⟩ | ⟨_, hprojections, -⟩
      · rw [hdup] at hm'
        exact eq_of_key_eq hm' hm hid
      refine projectReport_other hprojected hm hm' hid (fun heq => ?_)
      have hmem := (mem_eventsOf_insertNew hprojections).mpr (.inr ⟨rfl, rfl⟩)
      rw [← heq, hevents] at hmem
      cases hmem
    left
    rw [hsame]
    cases hstatus : m.status <;>
      simp [Finishing.excludes, Finishing.fails, Finishing.terminalizes, Finishing.expires]

end

/-! ## Runs -/

/-- What is known of a database `t` after some operations on `s`. -/
structure Db.Follows (book : EventKey → Event) (phones : EventKey → List String) (s : Db)
    (done : List Finishing) (t : Db) : Prop where
  reached : t.Reached book
  chunks : Rel Chunk.SameButStatus s.chunks t.chunks
  messages : Rel (Message.Later book) s.messages t.messages
  failed : ∀ c ∈ t.chunks, .fail c.id ∈ done → c.status = .failed
  terminal : ∀ c ∈ t.chunks, .terminalize c.id ∈ done → c.status = .unknownTerminal
  source : ∀ c ∈ t.chunks, c.status = .unknownTerminal →
    .terminalize c.id ∈ done ∨ ∃ c₀ ∈ s.chunks, c₀.id = c.id ∧ c₀.status = .unknownTerminal
  events : ∀ key id, key ∈ t.eventsOf id ↔ key ∈ s.eventsOf id ∨
    (.report key ∈ done ∧ s.target book phones key = some id ∧ ∀ other, key ∉ s.eventsOf other)
  outcomes : ∀ m ∈ s.messages, ∀ m' ∈ t.messages, m'.id = m.id → t.eventsOf m.id = [] →
    m'.status = s.outcome done m ∨ m.status = .sent ∧ m'.status = .sent

section

variable {book : EventKey → Event} {phones : EventKey → List String} {s t t' : Db}
  {done : List Finishing} {op : Finishing} {m m' : Message}

theorem outcome_nil (m : Message) : s.outcome [] m = m.status := by
  unfold Db.outcome
  cases m.status <;> rfl

theorem sent_of_outcome (h : s.outcome done m = .sent) : m.status = .sent := by
  unfold Db.outcome at h
  split at h
  · split_ifs at h
  · assumption
  · exact h

theorem Db.Follows.start (h : s.Reached book) : s.Follows book phones [] s where
  reached := h
  chunks := .refl (R := Chunk.SameButStatus) (fun _ => rfl) s.chunks
  messages := later_same s.messages
  failed c _ hmem := by cases hmem
  terminal c _ hmem := by cases hmem
  source c hc hstatus := .inr ⟨c, hc, rfl, hstatus⟩
  events key id := ⟨.inl, fun h => h.resolve_right (fun hr => by cases hr.1)⟩
  outcomes m hm m' hm' hid _ := by
    rw [eq_of_key_eq hm' hm hid, outcome_nil]
    exact .inl rfl

theorem isOverdue_eq (hchunks : Rel Chunk.SameButStatus s.chunks t.chunks)
    (hchunk : m'.chunkId = m.chunkId) (now timeout : Time) :
    t.isOverdue now timeout m' = s.isOverdue now timeout m := by
  have hsubmitted := hchunks.find?_any_eq
    (p := fun c => c.submittedAt.any (fun t => decide (t + timeout < now)))
    (fun c c' hsame => ⟨hsame.columns.1, by rw [hsame.columns.2.2.2.1]⟩)
  simp [Db.isOverdue, hsubmitted, hchunk]

theorem Db.Follows.not_fails (hfollows : s.Follows book phones done t)
    (hstep : Rel (Chunk.After op) t.chunks t'.chunks) (hchunk : m'.chunkId = m.chunkId)
    (hm' : m' ∈ t.messages) (hterminalized : done.any (Finishing.terminalizes m) = true) :
    op.fails m = false := by
  obtain ⟨op', hop', hterm⟩ := any_eq_true.mp hterminalized
  cases op' with
  | terminalize chunk =>
    have hmchunk : m.chunkId = some chunk := of_decide_eq_true hterm
    obtain ⟨c, hc, rfl, -⟩ := hfollows.reached.placed m' hm' chunk (hchunk.trans hmchunk)
    have hstatus := hfollows.terminal c hc hop'
    obtain ⟨c', -, hafter⟩ := hstep.exists_right hc
    cases op with
    | fail chunk' =>
      refine decide_eq_false (fun heq => ?_)
      obtain rfl : c.id = chunk' := Option.some.inj (hmchunk.symm.trans heq)
      have hpre := (hafter.failed rfl).1
      rw [hstatus] at hpre
      cases hpre
    | _ => rfl
  | _ => cases hterm

theorem excludes_congr (hid : m'.id = m.id) : op.excludes m' = op.excludes m := by
  cases op <;> simp [Finishing.excludes, hid]

theorem expires_eq (hfollows : s.Follows book phones done t) (hlater : m.Later book m') :
    op.expires t m' = op.expires s m := by
  cases op <;> simp [Finishing.expires, hlater.batch_eq,
    isOverdue_eq hfollows.chunks hlater.chunk_eq]

theorem outcome_append (hfollows : s.Follows book phones done t)
    (hstep : Rel (Chunk.After op) t.chunks t'.chunks) (hlater : m.Later book m')
    (hm' : m' ∈ t.messages)
    (hstatus : m'.status = s.outcome done m ∨ m.status = .sent ∧ m'.status = .sent)
    (hexcludes : op.excludes m = true → m'.status = .pending) :
    t.outcome [op] m' = s.outcome (done ++ [op]) m ∨
      m.status = .sent ∧ t.outcome [op] m' = .sent := by
  have hexcludes_eq := @excludes_congr op _ _ hlater.id_eq
  have hfails_eq : op.fails m' = op.fails m := by
    cases op <;> simp [Finishing.fails, hlater.chunk_eq]
  have hterminalizes_eq : op.terminalizes m' = op.terminalizes m := by
    cases op <;> simp [Finishing.terminalizes, hlater.chunk_eq]
  have hexpires_eq := @expires_eq _ _ _ _ _ op _ _ hfollows hlater
  have hnot : m'.status ≠ .pending → op.excludes m = false :=
    fun hne => Bool.eq_false_iff.mpr (fun he => hne (hexcludes he))
  cases hm : m.status with
  | pending =>
    simp only [Db.outcome, hm, any_append, any_cons, any_nil, Bool.or_false, reduceCtorEq,
      false_and, or_false] at hstatus ⊢
    cases hE : done.any (Finishing.excludes m) with
    | true => simp [hstatus, hE]
    | false =>
      cases hF : done.any (Finishing.fails m) with
      | true => simp [hstatus, hE, hF, hnot]
      | false =>
        cases hT : done.any (Finishing.terminalizes m) with
        | true =>
          have hfails := hfollows.not_fails hstep hlater.chunk_eq hm' hT
          simp [hstatus, hE, hF, hT, hnot, hfails]
        | false =>
          simp [hstatus, hE, hF, hT, hexcludes_eq, hfails_eq, hterminalizes_eq]
  | sent =>
    simp only [Db.outcome, hm, any_append, any_cons, any_nil, Bool.or_false, true_and] at hstatus ⊢
    -- a message that no sweep has taken is taken by this one or left again
    rcases hstatus with hstatus | hstatus
    · cases hX : done.any (Finishing.expires s m) with
      | true => simp [hstatus, hX]
      | false => simp [hstatus, hX, hexpires_eq]
    · cases hX : op.expires s m <;> simp [hstatus, hX, hexpires_eq]
  | _ =>
    simp only [Db.outcome, hm, reduceCtorEq, false_and, or_false] at hstatus ⊢
    simp [hstatus]

theorem pending_of_excludes (hclean : EndsCleanly book phones t op) (hm : m ∈ t.messages)
    (h : op.excludes m = true) : m.status = .pending := by
  cases op with
  | exclude chunk hits =>
    obtain ⟨x, hx, hid, -, hpending⟩ :=
      mem_pendingMessages.mp (hclean.1 m.id (of_decide_eq_true h)).1
    rw [← eq_of_key_eq hx hm hid]
    exact hpending
  | _ => cases h

theorem Db.Follows.step (hfollows : s.Follows book phones done t)
    (hclean : EndsCleanly book phones t op) (h : t.finish book phones op = some t') :
    s.Follows book phones (done ++ [op]) t' := by
  have hchunks := finish_chunks hfollows.reached h
  have hmessages := finish_messages hfollows.reached h
  have hlater : Rel (Message.Later book) s.messages t'.messages :=
    hfollows.messages.trans (fun _ _ _ => .trans) hmessages
  refine ⟨reached_finish hfollows.reached h, ?_, hlater, ?_, ?_, ?_, ?_, ?_⟩
  · exact hfollows.chunks.trans (fun _ _ _ => .trans)
      (hchunks.mono (fun _ _ hafter => hafter.same))
  · intro c' hc' hmem
    obtain ⟨c, hc, hafter⟩ := hchunks.exists_left hc'
    rw [hafter.same] at hmem
    rcases mem_append.mp hmem with hold | hnew
    · have hstatus := hfollows.failed c hc hold
      exact (hafter.ended (.inl hstatus)).trans hstatus
    · exact (hafter.failed (mem_singleton.mp hnew).symm).2
  · intro c' hc' hmem
    obtain ⟨c, hc, hafter⟩ := hchunks.exists_left hc'
    rw [hafter.same] at hmem
    rcases mem_append.mp hmem with hold | hnew
    · have hstatus := hfollows.terminal c hc hold
      exact (hafter.ended (.inr hstatus)).trans hstatus
    · exact (hafter.terminal (mem_singleton.mp hnew).symm).2
  · intro c' hc' hstatus
    obtain ⟨c, hc, hafter⟩ := hchunks.exists_left hc'
    have hid : c'.id = c.id := by rw [hafter.same]
    rw [hid]
    rcases hafter.source hstatus with hold | hnew
    · rcases hfollows.source c hc hold with hdone | hstart
      · exact .inl (mem_append_left _ hdone)
      · exact .inr hstart
    · exact .inl (mem_append_right _ (mem_singleton.mpr hnew.symm))
  · intro key id
    rw [finish_events hfollows.reached h, target_eq hfollows.chunks hfollows.messages]
    constructor
    · rintro (hold | ⟨rfl, htarget, hunseen⟩)
      · rcases (hfollows.events key id).mp hold with hstart | ⟨hdone, hrest⟩
        · exact .inl hstart
        · exact .inr ⟨mem_append_left _ hdone, hrest⟩
      · refine .inr ⟨mem_append_right _ (mem_singleton.mpr rfl), htarget, ?_⟩
        exact fun other hother => hunseen other ((hfollows.events key other).mpr (.inl hother))
    · rintro (hstart | ⟨hmem, htarget, hunseen⟩)
      · exact .inl ((hfollows.events key id).mpr (.inl hstart))
      · by_cases hdone : .report key ∈ done
        · exact .inl ((hfollows.events key id).mpr (.inr ⟨hdone, htarget, hunseen⟩))
        have hop := mem_singleton.mp ((mem_append.mp hmem).resolve_left hdone)
        refine .inr ⟨hop.symm, htarget, fun other hother => ?_⟩
        rcases (hfollows.events key other).mp hother with hold | ⟨hold, -⟩
        · exact hunseen other hold
        · exact hdone hold
  · intro m hm m'' hm'' hid hevents
    obtain ⟨m', hm', hlater'⟩ := hfollows.messages.exists_right hm
    have hevents' := eventsOf_nil_of_finish hfollows.reached h hevents
    have hstatus := hfollows.outcomes m hm m' hm' hlater'.id_eq hevents'
    have hexcludes : op.excludes m = true → m'.status = .pending := by
      intro he
      refine pending_of_excludes hclean hm' ?_
      rw [excludes_congr hlater'.id_eq]
      exact he
    rw [← hlater'.id_eq] at hevents
    rcases finish_status hfollows.reached hclean h hm' hm'' (hid.trans hlater'.id_eq.symm)
      hevents with hnow | ⟨hsent, hnow⟩
    · rw [hnow]
      exact outcome_append hfollows hchunks hlater' hm' hstatus hexcludes
    · exact .inr ⟨hstatus.elim (fun h => sent_of_outcome (h.symm.trans hsent)) And.left, hnow⟩

/-- After a run whose sweeps are complete, every message without a report has come out. -/
theorem Db.Follows.outcome_of_swept (hfollows : s.Follows book phones done t)
    (hswept : t.Swept done) (hm : m ∈ s.messages) (hm' : m' ∈ t.messages) (hid : m'.id = m.id)
    (hevents : t.eventsOf m.id = []) : m'.status = s.outcome done m := by
  rcases hfollows.outcomes m hm m' hm' hid hevents with hstatus | ⟨hsent, hsent'⟩
  · exact hstatus
  obtain ⟨m₁, hm₁, hlater⟩ := hfollows.messages.exists_right hm
  obtain rfl : m₁ = m' := eq_of_key_eq hm₁ hm' (hlater.id_eq.trans hid.symm)
  have hnone : done.any (Finishing.expires s m) = false := by
    refine any_eq_false.mpr (fun op hop hexpires => ?_)
    have hleft := hswept op hop m₁ hm₁ hsent'
    rw [expires_eq hfollows hlater, hexpires] at hleft
    cases hleft
  simp [Db.outcome, hsent, hsent', hnone]

end

end SmsPlatform.Report
