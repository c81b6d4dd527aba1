import SmsPlatform.Send.Plan
import SmsPlatform.Send.TornPair

/-!
# Message partition

A batch is cut into chunks once, and chunks are cut in halves when the vendor finds
them too large.  At every commit each message of a prepared batch is in exactly one
chunk, and chunks that have been split hold nothing.
-/

namespace SmsPlatform.Send

open Support Vendor Table Db List

/-! ## Batches and their chunks -/

def Db.chunksOf (db : Db) (batchId : BatchId) : List Chunk :=
  db.chunks.rows.filter (fun c => decide (c.batchId = batchId))

def Db.batchKeys (db : Db) (batchId : BatchId) : List MessageKey :=
  db.messageKeys (fun m => decide (m.batchId = batchId))

variable {db db' : Db} {batchId : BatchId} {c : Chunk}

theorem Db.mem_chunksOf : c ∈ db.chunksOf batchId ↔ c ∈ db.chunks ∧ c.batchId = batchId := by
  simp [chunksOf, mem_rows]

theorem Db.mem_batchKeys {k : MessageKey} :
    k ∈ db.batchKeys batchId ↔ ∃ m ∈ db.messages, m.batchId = batchId ∧ m.key = k := by
  simp [batchKeys, mem_messageKeys]

/-- No chunk has been cut yet. -/
structure Unprepared (db : Db) (batchId : BatchId) : Prop where
  chunks : db.chunksOf batchId = []
  messages : ∀ m ∈ db.messages, m.batchId = batchId → m.chunkId = none

structure Partitioned (db : Db) (batchId : BatchId) : Prop where
  prepared : db.chunksOf batchId ≠ []
  /-- Every message is in exactly one chunk. -/
  single : ∀ k ∈ db.batchKeys batchId, ∃! c, c ∈ db.chunks ∧ k ∈ db.messagesOf c.id
  /-- The chunks that have not been split are disjoint and cover the batch. -/
  disjoint : ∀ c ∈ db.chunksOf batchId, ∀ d ∈ db.chunksOf batchId, db.Live c → db.Live d →
    c ≠ d → (db.messagesOf c.id).Disjoint (db.messagesOf d.id)
  covering : ∀ k, k ∈ db.batchKeys batchId ↔
    ∃ c ∈ db.chunksOf batchId, db.Live c ∧ k ∈ db.messagesOf c.id
  split : ∀ c ∈ db.chunksOf batchId, ¬ db.Live c → db.messagesOf c.id = []
  chunkNo : ∀ c ∈ db.chunksOf batchId, ∀ d ∈ db.chunksOf batchId, c.chunkNo = d.chunkNo → c = d
  customId : ∀ c ∈ db.chunksOf batchId, ∀ d ∈ db.chunksOf batchId, c.customId = d.customId → c = d

section

variable {moving : List MessageKey} {c : Chunk} {k : MessageKey}

theorem customIdFor_injective {text : List Char} : Function.Injective (customIdFor text) := by
  intro m n h
  exact zeroPadded_injective 8 (append_cancel_left h)

theorem Plan.customId_injective (h : Plan db moving) {d : Chunk} (hc : c ∈ db.chunks)
    (hd : d ∈ db.chunks) (hbatch : c.batchId = d.batchId) (hid : c.customId = d.customId) :
    c = d := by
  obtain ⟨b, hb, hbc⟩ := h.chunkBatch c hc
  rw [h.named c hc b hb hbc, h.named d hd b hb (hbc.trans hbatch)] at hid
  exact h.numbered c hc d hd hbatch (customIdFor_injective hid)

/-- The messages of a chunk are messages of its batch. -/
theorem Plan.batchId_of_mem (h : Plan db moving) (hc : c ∈ db.chunks)
    (hk : k ∈ db.messagesOf c.id) :
    ∃ m ∈ db.messages, m.key = k ∧ m.batchId = c.batchId ∧ m.chunkId = some c.id := by
  obtain ⟨m, hm, hlink, hkey⟩ := mem_messagesOf.mp hk
  obtain ⟨d, hd, hid, hbatch, -⟩ := h.linked m hm _ hlink
  obtain rfl : d = c := eq_of_key_eq hd hc hid
  exact ⟨m, hm, hkey, hbatch.symm, hlink⟩

theorem Plan.disjoint (h : Plan db moving) {d : Chunk} (hc : c ∈ db.chunks) (hd : d ∈ db.chunks)
    (hne : c ≠ d) : (db.messagesOf c.id).Disjoint (db.messagesOf d.id) := by
  intro k hkc hkd
  obtain ⟨m, hm, hkey, -, hlink⟩ := h.batchId_of_mem hc hkc
  obtain ⟨m', hm', hkey', -, hlink'⟩ := h.batchId_of_mem hd hkd
  obtain rfl : m = m' := eq_of_key_eq hm hm' (hkey.trans hkey'.symm)
  exact hne (eq_of_key_eq hc hd (Option.some.inj (hlink.symm.trans hlink')))

/-- A chunk that has been split holds no message. -/
theorem Plan.live_of_mem (h : Plan db []) (hc : c ∈ db.chunks) (hk : k ∈ db.messagesOf c.id) :
    db.Live c := by
  obtain ⟨m, hm, -, -, hlink⟩ := h.batchId_of_mem hc hk
  obtain ⟨d, hd, hid, -, hlive⟩ := h.linked m hm _ hlink
  obtain rfl : d = c := eq_of_key_eq hd hc hid
  exact hlive (by simp)

theorem Plan.exists_chunk (h : Plan db [])
    (hprepared : db.chunksOf batchId ≠ []) (hk : k ∈ db.batchKeys batchId) :
    ∃ c ∈ db.chunksOf batchId, k ∈ db.messagesOf c.id := by
  obtain ⟨m, hm, hbatch, rfl⟩ := mem_batchKeys.mp hk
  obtain ⟨c₀, hc₀⟩ := exists_mem_of_ne_nil _ hprepared
  obtain ⟨hmem₀, hbatch₀⟩ := mem_chunksOf.mp hc₀
  cases hlink : m.chunkId with
  | none =>
    have hmoving := h.covered c₀ hmem₀ m hm (hbatch.trans hbatch₀.symm) hlink
    cases hmoving
  | some id =>
    obtain ⟨c, hc, rfl, hcbatch, -⟩ := h.linked m hm id hlink
    exact ⟨c, mem_chunksOf.mpr ⟨hc, hcbatch.trans hbatch⟩, mem_messagesOf.mpr ⟨m, hm, hlink, rfl⟩⟩

theorem Plan.partitioned (h : Plan db [])
    (hprepared : db.chunksOf batchId ≠ []) : Partitioned db batchId := by
  refine ⟨hprepared, ?_, ?_, ?_, ?_, ?_, ?_⟩
  · intro k hk
    obtain ⟨c, hc, hmem⟩ := h.exists_chunk hprepared hk
    have hc' := (mem_chunksOf.mp hc).1
    refine ⟨c, ⟨hc', hmem⟩, ?_⟩
    rintro d ⟨hd, hmem'⟩
    by_contra hne
    exact h.disjoint hd hc' hne hmem' hmem
  · intro c hc d hd _ _ hne
    exact h.disjoint (mem_chunksOf.mp hc).1 (mem_chunksOf.mp hd).1 hne
  · intro k
    constructor
    · intro hk
      obtain ⟨c, hc, hmem⟩ := h.exists_chunk hprepared hk
      exact ⟨c, hc, h.live_of_mem (mem_chunksOf.mp hc).1 hmem, hmem⟩
    · rintro ⟨c, hc, -, hmem⟩
      obtain ⟨hchunk, rfl⟩ := mem_chunksOf.mp hc
      obtain ⟨m, hm, hkey, hbatch, -⟩ := h.batchId_of_mem hchunk hmem
      exact mem_batchKeys.mpr ⟨m, hm, hbatch, hkey⟩
  · intro c hc hsplit
    refine eq_nil_iff_forall_not_mem.mpr (fun k hk => hsplit ?_)
    exact h.live_of_mem (mem_chunksOf.mp hc).1 hk
  · intro c hc d hd hno
    obtain ⟨hchunk, rfl⟩ := mem_chunksOf.mp hc
    obtain ⟨hchunk', hbatch⟩ := mem_chunksOf.mp hd
    exact h.numbered c hchunk d hchunk' hbatch.symm hno
  · intro c hc d hd hid
    obtain ⟨hchunk, rfl⟩ := mem_chunksOf.mp hc
    obtain ⟨hchunk', hbatch⟩ := mem_chunksOf.mp hd
    exact h.customId_injective hchunk hchunk' hbatch.symm hid

/-- A batch is cut as a whole. -/
theorem Plan.unprepared_or_partitioned (h : Plan db []) (batchId : BatchId) :
    Unprepared db batchId ∨ Partitioned db batchId := by
  by_cases hprepared : db.chunksOf batchId = []
  · refine .inl ⟨hprepared, fun m hm hbatch => ?_⟩
    by_contra hlink
    obtain ⟨id, hid⟩ := Option.ne_none_iff_exists'.mp hlink
    obtain ⟨c, hc, -, hcbatch, -⟩ := h.linked m hm id hid
    have hmem : c ∈ db.chunksOf batchId := mem_chunksOf.mpr ⟨hc, hcbatch.trans hbatch⟩
    rw [hprepared] at hmem
    cases hmem
  · exact .inr (h.partitioned hprepared)

end

/-! ## Preparation -/

/-- A new chunk holds between one message and the batch size. -/
theorem Plan.prepared_messages {now : Time} {batchNo : BatchNo} {batchSize : ℕ}
    {newIds ids : List ChunkId} {materialized : Bool} (h : Plan db [])
    (hprepare : prepareChunks db now batchNo batchSize newIds materialized = .ok (ids, db'))
    (hc : c ∈ db'.chunks) : c ∈ db.chunks ∨ 1 ≤ (db'.messagesOf c.id).length ∧
    (db'.messagesOf c.id).length ≤ batchSize := by
  obtain ⟨hplan', hnew⟩ := h.prepare hprepare
  have hadds := prepareChunks_adds hprepare
  by_cases hold : c ∈ db.chunks
  · exact .inl hold
  have hprepared := (hnew c hc).resolve_left hold
  have hfresh : ∀ d ∈ db.chunks, d.id ≠ c.id := by
    intro d hd hid
    obtain rfl : d = c := eq_of_key_eq (hadds.kept d hd) hc hid
    exact hold hd
  have hlive : db'.Live c := by
    intro d hd
    rcases hnew d hd with hd | hd
    · exact h.isChildOf_fresh hfresh hd
    · simp [isChildOf, hd.split]
  rw [hplan'.counted c hc hlive]
  exact .inr ⟨hprepared.nonempty, hprepared.bounded⟩

/-! ## Splits -/

/-- A step that cuts the chunk in two, or leaves all messages where they are. -/
inductive SplitsEvenly (db db' : Db) (chunkId : ChunkId) : Prop
  | kept (h : SameRows db db')
  | halved (c₁ c₂ : Chunk) (h₁ : c₁ ∈ db'.chunks) (h₂ : c₂ ∈ db'.chunks)
      (child₁ : isChildOf chunkId c₁ = true) (child₂ : isChildOf chunkId c₂ = true)
      (order : db'.messagesOf c₁.id ++ db'.messagesOf c₂.id = db.messagesOf chunkId)
      (emptied : db'.messagesOf chunkId = [])
      (first : db'.messagesOf c₁.id ≠ []) (second : db'.messagesOf c₂.id ≠ [])
      (even : (db'.messagesOf c₁.id).length = (db'.messagesOf c₂.id).length ∨
        (db'.messagesOf c₁.id).length = (db'.messagesOf c₂.id).length + 1)

theorem Halves.exists_children {parent : SplitParent} {id₁ id₂ : ChunkId}
    (h : Halves db db' parent id₁ id₂) :
    ∃ c₁ ∈ db'.chunks, ∃ c₂ ∈ db'.chunks, c₁.id = id₁ ∧ c₂.id = id₂ ∧
    isChildOf parent.chunkId c₁ = true ∧ isChildOf parent.chunkId c₂ = true := by
  have hchunks := congrArg Db.chunks h.cleared
  rw [hchunks]
  exact ⟨_, (h.second.chunks _).mpr (.inl ((h.first.chunks _).mpr (.inr rfl))), _,
    (h.second.chunks _).mpr (.inr rfl), rfl, rfl, by simp [isChildOf, childChunk],
    by simp [isChildOf, childChunk]⟩

theorem Plan.splitsEvenly {registry : Registry} {chunkId : ChunkId} {answer : SplitAnswer}
    (h : Plan db []) (hstep : db.next registry (.split chunkId answer) = some db') :
    SplitsEvenly db db' chunkId := by
  obtain ⟨c, hc, rfl, ids, hsplit⟩ := split_eq_some hstep
  rcases completeVendorSplit_halves hsplit with rfl | rfl | ⟨-, ⟨hhalves⟩⟩
  · exact .kept (RowsFollow.refl db').sameRows
  · exact .kept (markSplitCapacityBlocked_sameRows db _)
  · obtain ⟨-, hfirst, hsecond, hemptied⟩ := h.halves hc hhalves
    have hlength : (db'.messagesOf answer.id₁).length = ((db.messagesOf c.id).length + 1) / 2 ∧
        (db'.messagesOf answer.id₂).length =
          (db.messagesOf c.id).length - ((db.messagesOf c.id).length + 1) / 2 := by
      rw [hfirst, hsecond, firstHalf, secondHalf, length_take, length_drop]
      omega
    have henough : 2 ≤ (db.messagesOf c.id).length := hhalves.enough
    obtain ⟨c₁, hc₁, c₂, hc₂, hid₁, hid₂, hchild₁, hchild₂⟩ := hhalves.exists_children
    rw [← hid₁, ← hid₂] at hlength
    rw [← hid₁] at hfirst
    rw [← hid₂] at hsecond
    refine .halved c₁ c₂ hc₁ hc₂ hchild₁ hchild₂ ?_ hemptied ?_ ?_ ?_
    · rw [hfirst, hsecond, firstHalf_append_secondHalf]
    · exact ne_nil_of_length_pos (by omega)
    · exact ne_nil_of_length_pos (by omega)
    · omega

/-! ## The partition -/

/-- In every reachable state a batch is either not prepared or partitioned.  A
preparation keeps to the batch size, a split cuts in half, and a pass over the
chunks that wait for capacity is a sequence of splits. -/
theorem message_partition (registry : Registry) {db : Db} (h : (store registry).Reachable db) :
    (∀ batchId, Unprepared db batchId ∨ Partitioned db batchId) ∧
    (∀ action db', db.next registry action = some db' →
      ∀ batchId, Partitioned db batchId → Partitioned db' batchId) ∧
    (∀ now batchNo batchSize newIds materialized db',
      db.next registry (.prepare now batchNo batchSize newIds materialized) = some db' →
      ∀ c ∈ db'.chunks, c ∈ db.chunks ∨ 1 ≤ (db'.messagesOf c.id).length ∧
        (db'.messagesOf c.id).length ≤ batchSize) ∧
    (∀ chunkId answer db', db.next registry (.split chunkId answer) = some db' →
      SplitsEvenly db db' chunkId) ∧
    (∀ answers db', db.next registry (.retrySplits answers) = some db' →
      ∃ actions, (∀ action ∈ actions, ∃ c ∈ db.chunks,
          c.state.status = .splitCapacityBlocked ∧ ∃ answer, action = .split c.id answer) ∧
        (store registry).run db actions = some db') := by
  have hplan := plan_of_reachable h
  refine ⟨hplan.unprepared_or_partitioned, ?_, ?_, fun _ _ _ => hplan.splitsEvenly, ?_⟩
  · intro action db' hstep batchId hpartitioned
    refine (plan_step hplan hstep).partitioned ?_
    obtain ⟨c, hc⟩ := exists_mem_of_ne_nil _ hpartitioned.prepared
    obtain ⟨hmem, hbatch⟩ := mem_chunksOf.mp hc
    obtain ⟨c', hc', hsame, -⟩ := chunksStay_of_step hstep c hmem
    exact ne_nil_of_mem (mem_chunksOf.mpr ⟨hc', hsame.batchId_eq.trans hbatch⟩)
  · intro now batchNo batchSize newIds materialized db' hstep c hc
    obtain ⟨ids, hprepare⟩ := committed_eq_some hstep
    exact hplan.prepared_messages hprepare hc
  · intro answers db' hstep
    obtain ⟨retried, hretry⟩ := committed_eq_some hstep
    exact retryCapacityBlockedSplits_run registry hretry

/-- Three messages in one chunk, which the vendor finds too large. -/
def splitRun : List Action :=
  [ .accept noticeBatch [(1, "a"), (2, "b"), (3, "c")] 0, .prepare 0 noticeBatch.batchNo 3 [1] true,
    .claim 0 1 0 .notEnforced,
    .begin 0 1 1 primaryVendorId,
    .split 1 ⟨.granted, 2, 3⟩ ]

theorem chunks_splitRun : ((store defaultVendorRegistry).run Db.start splitRun).map (fun db =>
      ((db.chunksOf 1).map (fun c => (c.id, db.messagesOf c.id)))) =
      some [(1, []), (2, [toLex (1, 0), toLex (2, 0)]), (3, [toLex (3, 0)])] := by
  decide

theorem message_partition_splitRun :
    ∃ db, (store defaultVendorRegistry).run Db.start splitRun = some db ∧
      (db.chunksOf 1).map (fun c => (c.id, db.messagesOf c.id)) =
        [(1, []), (2, [toLex (1, 0), toLex (2, 0)]), (3, [toLex (3, 0)])] ∧ Partitioned db 1 := by
  obtain ⟨db, hrun, hchunks⟩ := Option.map_eq_some_iff.mp chunks_splitRun
  refine ⟨db, hrun, hchunks, ?_⟩
  rcases (message_partition defaultVendorRegistry (.run (.init rfl) hrun)).1 1
    with hunprepared | hpartitioned
  · rw [hunprepared.chunks] at hchunks
    cases hchunks
  · exact hpartitioned

end SmsPlatform.Send
