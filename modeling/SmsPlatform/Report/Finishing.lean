import SmsPlatform.Report.Counters

/-!
# Operations that end messages

A message ends by a report, with the failure of its chunk, by an exclusion, by the
sweep over missing reports or with the end of its uncertain chunk.  Here these are run
one after another on the database.  Each of them is a transaction of the concurrent
system without another one in between, so what holds of reachable states holds after
any number of them.
-/

namespace SmsPlatform.Report

open Support Schema Table Table.Update List

/-! ## Sent messages belong to submitted chunks -/

def Db.SentSubmitted (db : Db) : Prop :=
  ∀ m ∈ db.messages, m.status = .sent → ∀ c ∈ db.chunks, m.chunkId = some c.id →
    c.status = .submitted

/-- A version of the chunk that is still submitted if it was. -/
def Chunk.StaysSubmitted (c c' : Chunk) : Prop :=
  c'.id = c.id ∧ (c.status = .submitted → c'.status = .submitted)

section

variable {db db' : Db} {chunk : ChunkId} {book : EventKey → Event}

theorem Db.SentSubmitted.of_versions (h : db.SentSubmitted)
    (hmessages : ∀ m' ∈ db'.messages, m'.status = .sent →
      ∃ m ∈ db.messages, m.status = .sent ∧ m.chunkId = m'.chunkId)
    (hchunks : Rel Chunk.StaysSubmitted db.chunks db'.chunks) : db'.SentSubmitted := by
  intro m' hm' hsent c' hc' hchunk
  obtain ⟨m, hm, hsent₀, hsame⟩ := hmessages m' hm' hsent
  obtain ⟨c, hc, hid, hstays⟩ := hchunks.exists_left hc'
  exact hstays (h m hm hsent₀ c hc (by rw [hsame, hchunk, hid]))

theorem staysSubmitted_same (t : Table Chunk.id) : Rel Chunk.StaysSubmitted t t :=
  .refl (fun _ => ⟨rfl, id⟩) t

variable {submittedAt : Option Time → Option Time} {expected : ChunkStatus → Bool}

theorem staysSubmitted_chunkUpdate {t : Table Chunk.id} {status : ChunkStatus}
    (h : expected .submitted = false ∨ status = .submitted) :
    Rel Chunk.StaysSubmitted t (t.apply (chunkUpdate chunk expected status submittedAt)) := by
  refine .apply (fun c _ => ⟨key_row _ c, fun hsubmitted => ?_⟩)
  refine row_cases (P := fun c : Chunk => c.status = .submitted) hsubmitted (fun happ => ?_)
  rcases h with hexpected | rfl
  · simp [chunkUpdate, hsubmitted, hexpected] at happ
  · rfl

variable {p : Message → Bool}

theorem sent_of_statusUpdate {t : Table Message.id}
    {status : MessageStatus} (hstatus : status ≠ .sent) :
    ∀ m' ∈ t.apply (statusUpdate p status), m'.status = .sent →
      ∃ m ∈ t, m.status = .sent ∧ m.chunkId = m'.chunkId := by
  intro m' hm' hsent
  rcases mem_apply_cases hm' with ⟨hm, -⟩ | ⟨m, -, -, rfl⟩
  · exact ⟨m', hm, hsent, rfl⟩
  · exact absurd hsent hstatus

theorem sent_same (t : Table Message.id) : ∀ m' ∈ t, m'.status = .sent →
    ∃ m ∈ t, m.status = .sent ∧ m.chunkId = m'.chunkId :=
  fun m hm hsent => ⟨m, hm, hsent, rfl⟩

/-- The submission of a chunk and its pending messages. -/
theorem Db.SentSubmitted.submit (h : db.SentSubmitted)
    (hp : ∀ m, p m = true → m.chunkId = some chunk)
    (happ : ∃ c ∈ db.chunks, c.id = chunk ∧ expected c.status = true)
    (hchunks : db'.chunks = db.chunks.apply (chunkUpdate chunk expected .submitted submittedAt))
    (hmessages : db'.messages = db.messages.apply (statusUpdate p .sent)) : db'.SentSubmitted := by
  intro m' hm' hsent c' hc' hchunk
  rw [hmessages] at hm'
  rw [hchunks] at hc'
  rcases mem_apply_cases hc' with ⟨hc, hnot⟩ | ⟨c, -, -, rfl⟩
  · rcases mem_apply_cases hm' with ⟨hm, -⟩ | ⟨m, -, hq, rfl⟩
    · exact h m' hm hsent c' hc hchunk
    · obtain ⟨c₀, hc₀, hid₀, hexpected⟩ := happ
      have hthis : c'.id = chunk := Option.some.inj (hchunk.symm.trans (hp m hq))
      obtain rfl : c₀ = c' := eq_of_key_eq hc₀ hc (hid₀.trans hthis.symm)
      simp [chunkUpdate, hthis, hexpected] at hnot
  · rfl

theorem sentSubmitted_plan {batch : BatchId} {customId : String} {ids : List MessageId}
    (hplaced : db.Placed) (h : db.SentSubmitted)
    (hdb : db.plan chunk batch customId ids = some db') : db'.SentSubmitted := by
  obtain ⟨hfresh, hunsent, rfl⟩ := plan_eq_some hdb
  intro m' hm' hsent c hc hchunk
  rcases mem_apply_cases hm' with ⟨hm, -⟩ | ⟨m, hm, happ, rfl⟩
  · rcases (mem_insertNew_iff hfresh).mp hc with hold | rfl
    · exact h m' hm hsent c hold hchunk
    · obtain ⟨c₀, hc₀, hid₀, -⟩ := hplaced m' hm _ hchunk
      exact absurd hid₀ (hfresh c₀ hc₀)
  · simp only [assignUpdate, decide_eq_true_eq] at happ
    exact absurd hsent (hunsent m hm happ.1)

/-- Waiting dispatch decisions have found their chunk before it was sent. -/
def World.DispatchesPreSend (w : World) : Prop :=
  ∀ tx chunk d, ⟨tx, .dispatch chunk (some d)⟩ ∈ w.txs → isPreSend d.status = true

theorem sentSubmitted_settleDispatch (h : db.SentSubmitted) {d : Dispatch}
    (hd : isPreSend d.status = true) : (db.settleDispatch d).SentSubmitted := by
  obtain ⟨excluded, hmessages, -, -, hchunks, heq⟩ := settleDispatch_eq db d
  have hexcluded : excluded.SentSubmitted := by
    refine h.of_versions ?_ ?_
    · rw [hmessages]
      exact sent_of_statusUpdate (by decide)
    · rcases hchunks with hsame | hfailed
      · rw [hsame]
        exact staysSubmitted_same db.chunks
      rw [hfailed]
      refine staysSubmitted_chunkUpdate (.inl ?_)
      rw [decide_eq_false_iff_not]
      rintro ⟨heq, -⟩
      rw [← heq] at hd
      exact absurd hd (by decide)
  rw [heq]
  split <;> exact hexcluded

theorem sentSubmitted_projectReport (hprojected : db.Projected book) (h : db.SentSubmitted)
    (m : Message) (key : EventKey) : (db.projectReport book m key).SentSubmitted := by
  refine h.of_versions ?_
    (by rw [projectReport_chunks hprojected]; exact staysSubmitted_same db.chunks)
  rcases projectReport_cases hprojected key with ⟨-, hsame⟩ | ⟨-, -, -, hmessages⟩
  · rw [hsame]
    exact sent_same db.messages
  rw [hmessages]
  split
  · intro m' hm' hsent
    rcases mem_apply_cases hm' with ⟨hm, -⟩ | ⟨x, -, -, rfl⟩
    · exact ⟨m', hm, hsent, rfl⟩
    · have hactive := isActive_messageStatus (book key)
      rw [show (book key).messageStatus = .sent from hsent] at hactive
      exact absurd hactive (by decide)
  · exact sent_same db.messages

theorem sentSubmitted_expireBatch (hprojected : db.Projected book) (h : db.SentSubmitted)
    (batch : BatchId) (now timeout limit : ℕ) :
    (db.expireBatch book batch now timeout limit).SentSubmitted := by
  obtain ⟨hmessages, -, hchunks⟩ := expireBatch_same hprojected batch now timeout limit
  refine h.of_versions ?_ (by rw [hchunks]; exact staysSubmitted_same db.chunks)
  rw [hmessages]
  exact sent_of_statusUpdate (by decide)

theorem sentSubmitted_commits {w : World} {a : Action} (hsound : w.Sound book)
    (hpre : w.DispatchesPreSend) (h : w.db.SentSubmitted) (hdb : Commits book w a db') :
    db'.SentSubmitted := by
  cases hdb with
  | idle | batchStatus | legacyWrite => exact h
  | accept hdb =>
    obtain ⟨-, rfl⟩ := accept_eq_some hdb
    refine h.of_versions (fun m' hm' hsent => ?_) (staysSubmitted_same _)
    rcases mem_append.mp hm' with hold | hnew
    · exact ⟨m', hold, hsent, rfl⟩
    · obtain ⟨recipient, -, rfl⟩ := mem_map.mp hnew
      cases hsent
  | plan hdb => exact sentSubmitted_plan hsound.placed h hdb
  | route =>
    exact h.of_versions (sent_same _) (.apply_change (fun _ => ⟨rfl, id⟩) (fun _ => ⟨rfl, id⟩))
  | moveChunk hdb =>
    obtain ⟨-, -, rfl⟩ := moveChunk_eq_some hdb
    exact h.of_versions (sent_same _) (staysSubmitted_chunkUpdate (.inl rfl))
  | markSubmitted hdb =>
    obtain ⟨happ, rfl⟩ := casChunk_map_eq_some hdb
    refine h.submit (fun m hm => ?_) happ rfl rfl
    simp only [Bool.and_eq_true, decide_eq_true_eq] at hm
    exact hm.1.1
  | resolveSubmitted hdb =>
    obtain ⟨happ, rfl⟩ := casChunk_map_eq_some hdb
    exact h.submit (fun m hm => (of_decide_eq_true hm).1) happ rfl rfl
  | failChunk hdb =>
    obtain ⟨c, -, -, -, ⟨-, rfl⟩ | ⟨-, rfl⟩⟩ := failChunk_eq_some hdb <;>
      exact h.of_versions (sent_of_statusUpdate (by decide)) (staysSubmitted_chunkUpdate (.inl rfl))
  | terminalizeUnknown hdb =>
    obtain ⟨c, -, -, -, rfl⟩ := terminalizeUnknown_eq_some hdb
    exact h.of_versions (sent_of_statusUpdate (by decide)) (staysSubmitted_chunkUpdate (.inl rfl))
  | expireBatch => exact sentSubmitted_expireBatch hsound.projected h _ _ _ _
  | report => exact sentSubmitted_projectReport hsound.projected h _ _
  | dispatch hbody =>
    exact sentSubmitted_settleDispatch h (hpre _ _ _ (body_eq_some hbody))

end

section

variable {book : EventKey → Event} {w w' : World}

theorem dispatchesPreSend_next {a : Action} (h : w.DispatchesPreSend)
    (hnext : (reporting book).next w a = some w') : w'.DispatchesPreSend := by
  intro tx chunk d ht
  rcases (next_spec hnext).2 _ ht with hold | ⟨-, hits, hplan⟩
  · exact h tx chunk d hold
  · obtain ⟨c, -, -, hpre, rfl⟩ := decideDispatch_eq_some hplan.symm
    exact hpre

theorem sentSubmitted_of_reachable (h : (reporting book).Reachable w) : w.db.SentSubmitted := by
  have hall : w.Sound book ∧ w.DispatchesPreSend ∧ w.db.SentSubmitted := by
    refine h.invariant (I := fun w => w.Sound book ∧ w.DispatchesPreSend ∧ w.db.SentSubmitted) ?_ ?_
    · rintro _ rfl
      exact ⟨sound_start, fun tx chunk d ht => absurd ht (not_mem_empty _),
        fun m hm => absurd hm (not_mem_empty m)⟩
    · rintro w a w' ⟨hsound, hpre, hsent⟩ hnext
      exact ⟨sound_next hsound hnext, dispatchesPreSend_next hpre hnext,
        sentSubmitted_commits hsound hpre hsent (next_spec hnext).1⟩
  exact hall.2.2

end

/-! ## The operations -/

inductive Finishing
  | fail (chunk : ChunkId)
  | report (key : EventKey)
  | exclude (chunk : ChunkId) (hits : List MessageId)
  | expire (batch : BatchId) (now timeout limit : ℕ)
  | terminalize (chunk : ChunkId)
  deriving DecidableEq

section

-- The digests under which the number of an event may be stored are its `phones`.
variable (book : EventKey → Event) (phones : EventKey → List String)

def Db.finish (db : Db) : Finishing → Option Db
  | .fail chunk => db.failChunk chunk
  | .report key => some (db.applyReport book (matchReport book db key (phones key)) key)
  | .exclude chunk hits => (db.decideDispatch chunk hits).map db.settleDispatch
  | .expire batch now timeout limit => some (db.expireBatch book batch now timeout limit)
  | .terminalize chunk => db.terminalizeUnknown chunk

/-- The database is reached by the concurrent system, with current settlements. -/
def Db.Reached (db : Db) : Prop :=
  (reporting book).ReachableWhere SettlesCurrent ⟨db, Table.empty Tx.id⟩

def finishing : Machine Db Finishing where
  init := Db.Reached book
  next := Db.finish book phones

variable {book phones} {db db' : Db}

/-- Waiting transactions may be rolled back. -/
theorem reached_of_reachableWhere {w : World}
    (h : (reporting book).ReachableWhere SettlesCurrent w) : w.db.Reached book := by
  generalize hn : w.txs.rows.length = n
  induction n using Nat.strong_induction_on generalizing w with
  | _ n ih =>
    cases htxs : w.txs.rows with
    | nil =>
      have hempty : w.txs = Table.empty Tx.id := Table.ext htxs
      unfold Db.Reached
      rw [← hempty]
      exact h
    | cons t ts =>
      have hstep : (reporting book).ReachableWhere SettlesCurrent (w.commitTx t.id w.db) :=
        h.step (a := Action.rollback t.id) trivial rfl
      have hfewer : (w.commitTx t.id w.db).txs.rows.length < n := by
        have hfilter : (ts.filter (fun t' => !decide (t'.id = t.id))).length ≤ ts.length :=
          length_filter_le _ ts
        have hrows : (w.commitTx t.id w.db).txs.rows =
            ts.filter (fun t' => !decide (t'.id = t.id)) := by
          simp [World.commitTx, Table.keep, htxs]
        rw [hrows, ← hn, htxs, length_cons]
        omega
      have hrest := ih _ hfewer hstep rfl
      exact hrest

/-- The only waiting transaction. -/
def World.single (db : Db) (body : TxBody) : World :=
  ⟨db, (Table.empty Tx.id).insertNew ⟨0, body⟩ (by simp)⟩

theorem World.body_single (body : TxBody) : (World.single db body).body 0 = some body := rfl

theorem World.commitTx_single (body : TxBody) :
    (World.single db body).commitTx 0 db' = ⟨db', Table.empty Tx.id⟩ := by
  rw [World.commitTx, World.mk.injEq]
  exact ⟨rfl, Table.ext (by simp [World.single, Table.keep, Table.insertNew])⟩

section

variable (h : db.Reached book)
include h

/-- Every operation is a transaction of the concurrent system. -/
theorem reached_finish {op : Finishing}
    (hfinish : db.finish book phones op = some db') : db'.Reached book := by
  cases op with
  | fail chunk =>
    refine h.step (a := Action.failChunk chunk) trivial ?_
    simp only [Db.finish] at hfinish
    simp [reporting, World.next, World.onChunk, World.isLocked, hfinish]
  | report key =>
    obtain rfl := Option.some.inj hfinish
    have hbegin := h.step (a := Action.beginReport 0 key (phones key)) trivial
      (t := .single db (.report (matchReport book db key (phones key)) key)) rfl
    refine hbegin.step (a := Action.commitReport 0) trivial ?_
    exact if_neg (by simp [World.single, World.isLocked, Table.insertNew, TxBody.lockedChunk])
  | exclude chunk hits =>
    obtain ⟨d, hplan, rfl⟩ := Option.map_eq_some_iff.mp hfinish
    have hbegin := h.step (a := Action.beginDispatch 0 chunk hits) trivial
      (t := .single db (.dispatch chunk (db.decideDispatch chunk hits))) rfl
    refine hbegin.step (a := Action.commitDispatch 0) ?_ ?_
    · intro d' hd' _
      obtain ⟨chunk', hd'⟩ := waitingDispatch_eq_some.mp hd'
      rw [World.body_single, hplan] at hd'
      obtain ⟨-, rfl⟩ : chunk = chunk' ∧ d = d' := by simpa using hd'
      obtain ⟨c, -, -, -, rfl⟩ := decideDispatch_eq_some hplan
      rfl
    · simp only [reporting, World.next, World.body_single, World.commitTx_single]
      rw [hplan]
      rfl
  | expire batch now timeout limit =>
    obtain rfl := Option.some.inj hfinish
    exact h.step (a := Action.expireBatch batch now timeout limit) trivial rfl
  | terminalize chunk =>
    refine h.step (a := Action.terminalizeUnknown chunk) trivial ?_
    simp only [Db.finish] at hfinish
    simp [reporting, World.next, World.onChunk, World.isLocked, hfinish]

theorem Db.Reached.projected : db.Projected book :=
  projected_of_reachable h.reachable

theorem Db.Reached.placed : db.Placed :=
  (sound_of_reachable h.reachable).placed

theorem Db.Reached.sentSubmitted : db.SentSubmitted :=
  sentSubmitted_of_reachable h.reachable

theorem Db.Reached.countersMatch : db.CountersMatch :=
  (countersMatch_of_reachableWhere h).2

end

end

end SmsPlatform.Report
