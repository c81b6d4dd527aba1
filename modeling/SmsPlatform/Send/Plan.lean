import SmsPlatform.Send.AttemptSteps

/-!
# The plan of a batch

`Plan` is what holds of chunks and messages between transactions: how chunks are
numbered and named, that every message is linked to a chunk of its batch which has
not been split, and that a batch with chunks has no message left over.

In the middle of a preparation or a split some messages are on the way to their
chunk.  The invariant carries the list of those.
-/

namespace SmsPlatform.Send

open Support Vendor Table List Db

/-! ## Rows that stay -/

/-- No row is added or removed, and no message changes its chunk. -/
structure SameRows (db db' : Db) : Prop where
  batches : Rel Batch.Follows db.batches db'.batches
  chunks : Rel Chunk.Same db.chunks db'.chunks
  messages : Rel Message.Follows db.messages db'.messages

variable {batch : Batch} {db db' : Db} {phones : List (ℕ × String)} {registry : Registry}
  {now : Time}

theorem RowsFollow.sameRows (h : RowsFollow db db') : SameRows db db' :=
  ⟨h.batches, .imp (fun _ _ hc => hc.identity) h.chunks, h.messages⟩

theorem Quiet.sameRows (h : Quiet db db') : SameRows db db' :=
  h.toRowsFollow.sameRows

/-- A chunk that waits for capacity is the same chunk. -/
theorem markSplitCapacityBlocked_sameRows (db : Db) (chunkId : ChunkId) :
    SameRows db (markSplitCapacityBlocked db chunkId) := by
  unfold markSplitCapacityBlocked
  split
  · exact (RowsFollow.refl db).sameRows
  rename_i hcas
  obtain ⟨c, -, -, -, rfl⟩ := casChunk_eq_some hcas
  refine { (RowsFollow.refl db).sameRows with chunks := .apply (fun d _ => ?_) }
  unfold Update.row
  split <;> rfl

/-! ## Ordered message keys -/

namespace Db

variable {db : Db}

theorem sortedLT_messageKeys (db : Db) (p : Message → Bool) : (db.messageKeys p).SortedLT := by
  have hnodup : ((db.messages.rows.filter p).map Message.key).Nodup :=
    db.messages.nodup.sublist ((filter_sublist).map Message.key)
  exact sortedLE_insertionSort.sortedLT_of_nodup
    ((perm_insertionSort _ _).nodup_iff.mpr hnodup)

theorem mem_messagesOf {id : ChunkId} {k : MessageKey} :
    k ∈ db.messagesOf id ↔ ∃ m ∈ db.messages, m.chunkId = some id ∧ m.key = k := by
  simp [messagesOf, mem_messageKeys]

/-- Message lists are determined by their members. -/
theorem messagesOf_eq {id : ChunkId} {keys : List MessageKey} (hsorted : keys.SortedLT)
    (h : ∀ k, (∃ m ∈ db.messages, m.chunkId = some id ∧ m.key = k) ↔ k ∈ keys) :
    db.messagesOf id = keys :=
  (db.sortedLT_messageKeys _).eq_of_mem_iff hsorted (fun k => mem_messagesOf.trans (h k))

theorem messagesOf_eq_of_sameRows (h : SameRows db db') (id : ChunkId) :
    db'.messagesOf id = db.messagesOf id := by
  unfold messagesOf messageKeys
  rw [h.messages.filter_map_eq (fun a b hab => ⟨?_, hab.key_eq.symm⟩)]
  rw [hab.chunkId_eq]

end Db

/-! ## The invariant -/

/-- The chunk has not been replaced by two halves. -/
def Db.Live (db : Db) (c : Chunk) : Prop := ∀ d ∈ db.chunks, isChildOf c.id d = false

structure Plan (db : Db) (moving : List MessageKey) : Prop where
  /-- Chunks and messages belong to accepted batches. -/
  chunkBatch : ∀ c ∈ db.chunks, ∃ b ∈ db.batches, b.id = c.batchId
  messageBatch : ∀ m ∈ db.messages, ∃ b ∈ db.batches, b.id = m.batchId
  /-- The custom id of a chunk is made from the number of its batch and its own. -/
  named : ∀ c ∈ db.chunks, ∀ b ∈ db.batches, b.id = c.batchId →
    c.customId = customIdFor b.batchNo.text c.chunkNo
  numbered : ∀ c ∈ db.chunks, ∀ d ∈ db.chunks, c.batchId = d.batchId →
    c.chunkNo = d.chunkNo → c = d
  /-- Halves have a parent, and one generation only. -/
  parent : ∀ c ∈ db.chunks, ∀ s, c.split = some s → s.splitGeneration = splitGeneration ∧
    ∃ p ∈ db.chunks, p.id = s.parentChunkId
  linked : ∀ m ∈ db.messages, ∀ id, m.chunkId = some id →
    ∃ c ∈ db.chunks, c.id = id ∧ c.batchId = m.batchId ∧ (m.key ∉ moving → db.Live c)
  counted : ∀ c ∈ db.chunks, db.Live c → (db.messagesOf c.id).length = c.phoneCount
  covered : ∀ c ∈ db.chunks, ∀ m ∈ db.messages, m.batchId = c.batchId → m.chunkId = none →
    m.key ∈ moving

theorem plan_start : Plan Db.start [] := by
  constructor <;> intro x hx <;> exact absurd hx (not_mem_empty x)

theorem Plan.mono {keys keys' : List MessageKey} (h : Plan db keys) (hsub : ∀ k ∈ keys, k ∈ keys') :
    Plan db keys' := by
  refine { h with linked := ?_, covered := ?_ }
  · intro m hm id hlink
    obtain ⟨c, hc, hid, hbatch, hlive⟩ := h.linked m hm id hlink
    exact ⟨c, hc, hid, hbatch, fun hkey => hlive (fun hk => hkey (hsub _ hk))⟩
  · exact fun c hc m hm hbatch hnone => hsub _ (h.covered c hc m hm hbatch hnone)

/-! ## Transactions that keep the plan -/

theorem isChildOf_eq_of_same {c c' : Chunk} (h : c.Same c') (parent : ChunkId) :
    isChildOf parent c' = isChildOf parent c := by
  rw [h]
  rfl

theorem live_iff_of_rel (h : Rel Chunk.Same db.chunks db'.chunks) {c c' : Chunk}
    (hid : c'.id = c.id) : db'.Live c' ↔ db.Live c := by
  unfold Db.Live
  rw [hid]
  constructor
  · intro hlive d hd
    obtain ⟨d', hd', hfollows⟩ := h.exists_right hd
    rw [← isChildOf_eq_of_same hfollows]
    exact hlive d' hd'
  · intro hlive d' hd'
    obtain ⟨d, hd, hfollows⟩ := h.exists_left hd'
    rw [isChildOf_eq_of_same hfollows]
    exact hlive d hd

theorem Plan.of_sameRows {keys : List MessageKey} (h : Plan db keys) (hrows : SameRows db db') :
    Plan db' keys := by
  have hbatch : ∀ id, (∃ b ∈ db.batches, b.id = id) → ∃ b ∈ db'.batches, b.id = id := by
    rintro id ⟨b, hb, rfl⟩
    obtain ⟨b', hb', hfollows⟩ := hrows.batches.exists_right hb
    exact ⟨b', hb', by rw [hfollows]⟩
  constructor
  · intro c' hc'
    obtain ⟨c, hc, hfollows⟩ := hrows.chunks.exists_left hc'
    rw [hfollows.batchId_eq]
    exact hbatch _ (h.chunkBatch c hc)
  · intro m' hm'
    obtain ⟨m, hm, hfollows⟩ := hrows.messages.exists_left hm'
    rw [hfollows.batchId_eq]
    exact hbatch _ (h.messageBatch m hm)
  · intro c' hc' b' hb' hid
    obtain ⟨c, hc, hfollows⟩ := hrows.chunks.exists_left hc'
    obtain ⟨b, hb, hbatch'⟩ := hrows.batches.exists_left hb'
    rw [hfollows, hbatch'] at hid ⊢
    exact h.named c hc b hb hid
  · intro c' hc' d' hd' hbatch' hno
    obtain ⟨c, hc, hfollows⟩ := hrows.chunks.exists_left hc'
    obtain ⟨d, hd, hfollows'⟩ := hrows.chunks.exists_left hd'
    have heq : c = d := by
      refine h.numbered c hc d hd ?_ ?_
      · rw [← hfollows.batchId_eq, hbatch', hfollows'.batchId_eq]
      · rw [hfollows, hfollows'] at hno
        exact hno
    refine eq_of_key_eq hc' hd' ?_
    rw [hfollows.id_eq, heq, hfollows'.id_eq]
  · intro c' hc' s hs
    obtain ⟨c, hc, hfollows⟩ := hrows.chunks.exists_left hc'
    rw [hfollows] at hs
    obtain ⟨hgeneration, p, hp, hpid⟩ := h.parent c hc s hs
    obtain ⟨p', hp', hfollows'⟩ := hrows.chunks.exists_right hp
    exact ⟨hgeneration, p', hp', hfollows'.id_eq.trans hpid⟩
  · intro m' hm' id hlink
    obtain ⟨m, hm, hfollows⟩ := hrows.messages.exists_left hm'
    rw [hfollows.chunkId_eq] at hlink
    obtain ⟨c, hc, hid, hbatch', hlive⟩ := h.linked m hm id hlink
    obtain ⟨c', hc', hfollows'⟩ := hrows.chunks.exists_right hc
    refine ⟨c', hc', hfollows'.id_eq.trans hid, ?_, fun hkey => ?_⟩
    · rw [hfollows'.batchId_eq, hfollows.batchId_eq, hbatch']
    · exact (live_iff_of_rel hrows.chunks hfollows'.id_eq).mpr
        (hlive (hfollows.key_eq ▸ hkey))
  · intro c' hc' hlive
    obtain ⟨c, hc, hfollows⟩ := hrows.chunks.exists_left hc'
    rw [messagesOf_eq_of_sameRows hrows, hfollows.id_eq,
      h.counted c hc ((live_iff_of_rel hrows.chunks hfollows.id_eq).mp hlive), hfollows]
  · intro c' hc' m' hm' hbatch' hnone
    obtain ⟨c, hc, hfollows⟩ := hrows.chunks.exists_left hc'
    obtain ⟨m, hm, hfollows'⟩ := hrows.messages.exists_left hm'
    rw [hfollows'.key_eq]
    refine h.covered c hc m hm ?_ (hfollows'.chunkId_eq ▸ hnone)
    rw [← hfollows'.batchId_eq, hbatch', hfollows.batchId_eq]

/-! ## Acceptance -/

theorem acceptBatch_eq_some (h : acceptBatch db batch phones now = some db') :
    (∀ b ∈ db.batches, b.id ≠ batch.id) ∧ phones ≠ [] ∧
    (∀ b, b ∈ db'.batches ↔ b ∈ db.batches ∨ b = batch) ∧
    (∀ m, m ∈ db'.messages ↔ m ∈ db.messages ∨
      ∃ p ∈ phones, m = ⟨toLex (p.1, now), batch.id, none, p.2, .pending, false⟩) ∧
    db'.chunks = db.chunks ∧ db'.exclusions = db.exclusions ∧
    db'.allocations = db.allocations := by
  unfold acceptBatch at h
  dsimp only at h
  split at h
  · rename_i hfresh
    split at h
    · rename_i hphones
      cases h
      refine ⟨hfresh.1, hphones.1, fun b => mem_insertNew_iff hfresh.1, fun m => ?_, rfl,
        rfl, rfl⟩
      simp [← mem_rows, eq_comm]
    · cases h
  · cases h

theorem messagesOf_acceptBatch (h : acceptBatch db batch phones now = some db') (id : ChunkId) :
    db'.messagesOf id = db.messagesOf id := by
  obtain ⟨-, -, -, hmessages, -, -, -⟩ := acceptBatch_eq_some h
  refine messagesOf_eq (db.sortedLT_messageKeys _) (fun k => ?_)
  rw [mem_messagesOf]
  constructor
  · rintro ⟨m, hm, hlink, rfl⟩
    rcases (hmessages m).mp hm with hm | ⟨p, -, rfl⟩
    · exact ⟨m, hm, hlink, rfl⟩
    · cases hlink
  · rintro ⟨m, hm, hlink, rfl⟩
    exact ⟨m, (hmessages m).mpr (.inl hm), hlink, rfl⟩

theorem Plan.accept (h : Plan db []) (haccept : acceptBatch db batch phones now = some db') :
    Plan db' [] := by
  obtain ⟨hfresh, -, hbatches, hmessages, hchunks, -, -⟩ := acceptBatch_eq_some haccept
  have hnew : ∀ c ∈ db.chunks, c.batchId ≠ batch.id := by
    intro c hc heq
    obtain ⟨b, hb, hid⟩ := h.chunkBatch c hc
    exact hfresh b hb (hid.trans heq)
  have hlive : ∀ c, db'.Live c ↔ db.Live c := fun c => by rw [Db.Live, Db.Live, hchunks]
  have hlinks := messagesOf_acceptBatch haccept
  constructor
  · intro c hc
    rw [hchunks] at hc
    obtain ⟨b, hb, hid⟩ := h.chunkBatch c hc
    exact ⟨b, (hbatches b).mpr (.inl hb), hid⟩
  · intro m hm
    rcases (hmessages m).mp hm with hm | ⟨p, -, rfl⟩
    · obtain ⟨b, hb, hid⟩ := h.messageBatch m hm
      exact ⟨b, (hbatches b).mpr (.inl hb), hid⟩
    · exact ⟨batch, (hbatches batch).mpr (.inr rfl), rfl⟩
  · intro c hc b hb hid
    rw [hchunks] at hc
    rcases (hbatches b).mp hb with hb | rfl
    · exact h.named c hc b hb hid
    · exact absurd hid.symm (hnew c hc)
  · rw [hchunks]
    exact h.numbered
  · rw [hchunks]
    exact h.parent
  · intro m hm id hlink
    rcases (hmessages m).mp hm with hm | ⟨p, -, rfl⟩
    · obtain ⟨c, hc, hid, hbatch, hlive'⟩ := h.linked m hm id hlink
      exact ⟨c, hchunks ▸ hc, hid, hbatch, fun hkey => (hlive c).mpr (hlive' hkey)⟩
    · cases hlink
  · intro c hc hlive'
    rw [hlinks]
    exact h.counted c (hchunks ▸ hc) ((hlive c).mp hlive')
  · intro c hc m hm hbatch hnone
    rw [hchunks] at hc
    rcases (hmessages m).mp hm with hm | ⟨p, -, rfl⟩
    · exact h.covered c hc m hm hbatch hnone
    · exact absurd hbatch.symm (hnew c hc)

/-! ## Planting a chunk -/

/-- Everything `plant_chunk` does. -/
structure Planted (db db' : Db) (batch : Batch) (chunk : Chunk) (group : List MessageKey)
    (requests : ℕ) : Prop where
  batches : db'.batches = db.batches
  exclusions : db'.exclusions = db.exclusions
  fresh : ∀ c ∈ db.chunks, c.id ≠ chunk.id
  chunks : ∀ c, c ∈ db'.chunks ↔ c ∈ db.chunks ∨ c = chunk
  number : ∀ c ∈ db.chunks, ¬ (c.batchId = chunk.batchId ∧ c.chunkNo = chunk.chunkNo)
  messages : db'.messages = db.messages.apply (messageChunkUpdate group chunk.id)
  allocations : db'.allocations = (db.insertAllocation ⟨chunk.id, batch.id, group.length,
    batch.segments * group.length, requests⟩).allocations

variable {group : List MessageKey} {requests : ℕ} {chunk : Chunk}

theorem plantChunk_planted (h : plantChunk db batch chunk group requests = some db') :
    Planted db db' batch chunk group requests := by
  unfold plantChunk at h
  split at h
  · cases h
  rename_i db₁ hinsert
  cases h
  unfold Db.insertChunk at hinsert
  split at hinsert
  · rename_i hfresh
    obtain ⟨hunique, ⟨⟩⟩ := Option.ite_none_right_eq_some.mp hinsert
    have hframe := insertAllocation_frame { db with
      chunks := db.chunks.insertNew chunk hfresh } ⟨chunk.id, batch.id, group.length,
        batch.segments * group.length, requests⟩
    refine ⟨hframe.2.2.2.2, hframe.2.2.2.1, hfresh, fun c => ?_, fun c hc => ?_, ?_, ?_⟩
    · change c ∈ (Db.insertAllocation _ _).chunks ↔ _
      rw [hframe.1]
      exact mem_insertNew_iff hfresh
    · have hrow := all_eq_true.mp hunique.2 c hc
      simp only [decide_eq_true_eq] at hrow
      exact hrow.2.1
    · change (Db.insertAllocation _ _).messages.apply _ = _
      rw [hframe.2.2.1]
    · change (Db.insertAllocation _ _).allocations = (Db.insertAllocation _ _).allocations
      unfold Db.insertAllocation
      split <;> rfl
  · cases hinsert

theorem messageChunkUpdate_row (group : List MessageKey) (id : ChunkId) (m : Message) :
    (messageChunkUpdate group id).row m =
      if m.key ∈ group then { m with chunkId := some id } else m := by
  simp [Update.row, messageChunkUpdate]

theorem Planted.mem_messages
    (h : Planted db db' batch chunk group requests) {m' : Message} : m' ∈ db'.messages ↔
      ∃ m ∈ db.messages, m' = if m.key ∈ group then { m with chunkId := some chunk.id } else m := by
  rw [h.messages, mem_apply_iff]
  simp [messageChunkUpdate_row, eq_comm]

/-- What the new chunk has to satisfy for the plan to go on. -/
structure Plantable (db : Db) (batch : Batch) (chunk : Chunk) (group moving : List MessageKey) :
    Prop where
  accepted : batch ∈ db.batches
  batchId : chunk.batchId = batch.id
  customId : chunk.customId = customIdFor batch.batchNo.text chunk.chunkNo
  phoneCount : chunk.phoneCount = group.length
  sorted : group.SortedLT
  stored : ∀ k ∈ group, ∃ m ∈ db.messages, m.key = k ∧ m.batchId = batch.id
  /-- The group comes from nowhere or from the parent. -/
  source : ∀ m ∈ db.messages, m.key ∈ group → m.chunkId = none ∨
    ∃ s, chunk.split = some s ∧ m.chunkId = some s.parentChunkId
  /-- All messages of the parent are on the move. -/
  split : ∀ s, chunk.split = some s → s.splitGeneration = splitGeneration ∧
    (∃ p ∈ db.chunks, p.id = s.parentChunkId) ∧
    ∀ m ∈ db.messages, m.chunkId = some s.parentChunkId → m.key ∈ moving
  waiting : ∀ m ∈ db.messages, m.batchId = batch.id → m.chunkId = none → m.key ∈ moving

section

variable {db : Db} {chunk : Chunk} {group moving rest : List MessageKey} {requests : ℕ}

variable {id : ChunkId} {d : Chunk}

theorem isChildOf_eq_false
    (h : ∀ s, d.split = some s → s.parentChunkId ≠ id) : isChildOf id d = false := by
  unfold isChildOf
  cases hsplit : d.split with
  | none => rfl
  | some s => simp [h s hsplit]

theorem Plan.isChildOf_fresh (h : Plan db moving)
    (hfresh : ∀ c ∈ db.chunks, c.id ≠ id) (hd : d ∈ db.chunks) : isChildOf id d = false := by
  refine isChildOf_eq_false (fun s hs => ?_)
  obtain ⟨-, p, hp, hpid⟩ := h.parent d hd s hs
  exact hpid ▸ hfresh p hp

variable (hplantable : Plantable db batch chunk group moving)
  (hplanted : Planted db db' batch chunk group requests)

include hplantable hplanted

theorem Plan.plant_messagesOf_new (h : Plan db moving) : db'.messagesOf chunk.id = group := by
  refine messagesOf_eq hplantable.sorted (fun k => ⟨?_, ?_⟩)
  · rintro ⟨m', hm', hlink, rfl⟩
    obtain ⟨m, hm, rfl⟩ := hplanted.mem_messages.mp hm'
    by_cases hkey : m.key ∈ group
    · rwa [if_pos hkey]
    · rw [if_neg hkey] at hlink
      obtain ⟨c, hc, hid, -⟩ := h.linked m hm _ hlink
      exact absurd hid (hplanted.fresh c hc)
  · intro hk
    obtain ⟨m, hm, rfl, -⟩ := hplantable.stored k hk
    exact ⟨_, hplanted.mem_messages.mpr ⟨m, hm, rfl⟩, by rw [if_pos hk], by rw [if_pos hk]⟩

theorem Plan.plant_messagesOf_old (hid : id ≠ chunk.id)
    (hparent : ∀ s, chunk.split = some s → s.parentChunkId ≠ id) :
    db'.messagesOf id = db.messagesOf id := by
  refine messagesOf_eq (db.sortedLT_messageKeys _) (fun k => ?_)
  rw [mem_messagesOf]
  constructor
  · rintro ⟨m', hm', hlink, rfl⟩
    obtain ⟨m, hm, rfl⟩ := hplanted.mem_messages.mp hm'
    by_cases hkey : m.key ∈ group
    · rw [if_pos hkey] at hlink
      exact absurd (Option.some.inj hlink).symm hid
    · rw [if_neg hkey] at hlink ⊢
      exact ⟨m, hm, hlink, rfl⟩
  · rintro ⟨m, hm, hlink, rfl⟩
    have hkey : m.key ∉ group := by
      intro hkey
      rcases hplantable.source m hm hkey with hnone | ⟨s, hs, hsome⟩
      · rw [hnone] at hlink
        cases hlink
      · exact hparent s hs (Option.some.inj (hsome.symm.trans hlink))
    exact ⟨_, hplanted.mem_messages.mpr ⟨m, hm, rfl⟩, by rwa [if_neg hkey], by rw [if_neg hkey]⟩

theorem Plan.plant (h : Plan db moving)
    (hrest : ∀ k ∈ moving, k ∈ group ∨ k ∈ rest) : Plan db' rest := by
  have hmessage : ∀ {P : Message → Prop}, (∀ m ∈ db.messages, m.key ∈ group →
      P { m with chunkId := some chunk.id }) → (∀ m ∈ db.messages, m.key ∉ group → P m) →
      ∀ m' ∈ db'.messages, P m' := by
    intro P hmoved hkept m' hm'
    obtain ⟨m, hm, rfl⟩ := hplanted.mem_messages.mp hm'
    split
    · exact hmoved m hm ‹_›
    · exact hkept m hm ‹_›
  have hlive_old : ∀ c : Chunk, db.Live c → isChildOf c.id chunk = false → db'.Live c := by
    intro c hlive hchunk d hd
    rcases (hplanted.chunks d).mp hd with hd | rfl
    · exact hlive d hd
    · exact hchunk
  have hlive_new : db'.Live chunk := by
    refine hlive_old chunk (fun d hd => h.isChildOf_fresh hplanted.fresh hd)
      (isChildOf_eq_false (fun s hs => ?_))
    obtain ⟨-, ⟨p, hp, hpid⟩, -⟩ := hplantable.split s hs
    exact hpid ▸ hplanted.fresh p hp
  constructor
  · intro c hc
    rw [hplanted.batches]
    rcases (hplanted.chunks c).mp hc with hc | rfl
    · exact h.chunkBatch c hc
    · exact ⟨batch, hplantable.accepted, hplantable.batchId.symm⟩
  · rw [hplanted.batches]
    exact hmessage (fun m hm _ => h.messageBatch m hm) (fun m hm _ => h.messageBatch m hm)
  · intro c hc b hb hid
    rw [hplanted.batches] at hb
    rcases (hplanted.chunks c).mp hc with hc | rfl
    · exact h.named c hc b hb hid
    · obtain rfl : b = batch :=
        eq_of_key_eq hb hplantable.accepted (hid.trans hplantable.batchId)
      exact hplantable.customId
  · intro c hc d hd hbatch hno
    rcases (hplanted.chunks c).mp hc with hc | rfl <;>
      rcases (hplanted.chunks d).mp hd with hd | rfl
    · exact h.numbered c hc d hd hbatch hno
    · exact absurd ⟨hbatch, hno⟩ (hplanted.number c hc)
    · exact absurd ⟨hbatch.symm, hno.symm⟩ (hplanted.number d hd)
    · rfl
  · intro c hc s hs
    have hexists : ∀ {p}, (∃ x ∈ db.chunks, x.id = p) → ∃ x ∈ db'.chunks, x.id = p := by
      rintro p ⟨x, hx, hid⟩
      exact ⟨x, (hplanted.chunks x).mpr (.inl hx), hid⟩
    rcases (hplanted.chunks c).mp hc with hc | rfl
    · exact ⟨(h.parent c hc s hs).1, hexists (h.parent c hc s hs).2⟩
    · exact ⟨(hplantable.split s hs).1, hexists (hplantable.split s hs).2.1⟩
  · refine hmessage (fun m hm hkey id hlink => ?_) (fun m hm hkey id hlink => ?_)
    · cases hlink
      refine ⟨chunk, (hplanted.chunks chunk).mpr (.inr rfl), rfl, ?_, fun _ => hlive_new⟩
      obtain ⟨m₀, hm₀, hkey₀, hbatch⟩ := hplantable.stored _ hkey
      rw [eq_of_key_eq hm₀ hm hkey₀] at hbatch
      exact hplantable.batchId.trans hbatch.symm
    · obtain ⟨c, hc, hid, hbatch, hlive⟩ := h.linked m hm id hlink
      refine ⟨c, (hplanted.chunks c).mpr (.inl hc), hid, hbatch, fun hrest' => ?_⟩
      have hmoving : m.key ∉ moving := fun hm' => (hrest _ hm').elim hkey hrest'
      refine hlive_old c (hlive hmoving) (isChildOf_eq_false (fun s hs heq => ?_))
      exact hmoving ((hplantable.split s hs).2.2 m hm (by rw [hlink, heq, hid]))
  · intro c hc hlive
    rcases (hplanted.chunks c).mp hc with hc | rfl
    · rw [Plan.plant_messagesOf_old hplantable hplanted (hplanted.fresh c hc)]
      · exact h.counted c hc (fun d hd => hlive d ((hplanted.chunks d).mpr (.inl hd)))
      · intro s hs heq
        have hchild := hlive chunk ((hplanted.chunks chunk).mpr (.inr rfl))
        simp [isChildOf, hs, heq, (hplantable.split s hs).1] at hchild
    · rw [h.plant_messagesOf_new hplantable hplanted, hplantable.phoneCount]
  · intro c hc
    refine hmessage (fun m hm _ _ hnone => by cases hnone) (fun m hm hkey hbatch hnone => ?_)
    have hmoving : m.key ∈ moving := by
      rcases (hplanted.chunks c).mp hc with hc | rfl
      · exact h.covered c hc m hm hbatch hnone
      · exact hplantable.waiting m hm (hbatch.trans hplantable.batchId) hnone
    exact (hrest _ hmoving).resolve_left hkey

end

/-! ## Preparation -/

section

variable {batchSize : ℕ} {rows : List MessageKey}
variable {db : Db} {ids : List ChunkId} {keys : List MessageKey} {offset : ℕ}

/-- The messages from an offset on wait for their chunk. -/
structure Waiting (db : Db) (batch : Batch) (keys : List MessageKey) : Prop where
  accepted : batch ∈ db.batches
  stored : ∀ k ∈ keys, ∃ m ∈ db.messages, m.key = k ∧ m.batchId = batch.id ∧ m.chunkId = none
  all : ∀ m ∈ db.messages, m.batchId = batch.id → m.chunkId = none → m.key ∈ keys

theorem Waiting.plantable (h : Waiting db batch keys)
    (hgroup : group.Sublist keys) (hsorted : keys.SortedLT) (hbatchId : chunk.batchId = batch.id)
    (hcustomId : chunk.customId = customIdFor batch.batchNo.text chunk.chunkNo)
    (hcount : chunk.phoneCount = group.length) (hsplit : chunk.split = none) :
    Plantable db batch chunk group keys := by
  refine ⟨h.accepted, hbatchId, hcustomId, hcount, (hsorted.pairwise.sublist hgroup).sortedLT,
    ?_, ?_, ?_, h.all⟩
  · intro k hk
    obtain ⟨m, hm, hkey, hbatch, -⟩ := h.stored k (hgroup.subset hk)
    exact ⟨m, hm, hkey, hbatch⟩
  · intro m hm hk
    obtain ⟨m₀, hm₀, hkey, -, hnone⟩ := h.stored _ (hgroup.subset hk)
    rw [eq_of_key_eq hm₀ hm hkey] at hnone
    exact .inl hnone
  · intro s hs
    rw [hsplit] at hs
    cases hs

/-- Once a group is linked the rest waits. -/
theorem Waiting.plant {size : ℕ} (h : Waiting db batch keys)
    (hsorted : keys.SortedLT) (hplanted : Planted db db' batch chunk (keys.take size) requests) :
    Waiting db' batch (keys.drop size) := by
  have hdisjoint : ∀ k ∈ keys.drop size, k ∉ keys.take size := fun k hdrop htake =>
    disjoint_take_drop hsorted.nodup le_rfl htake hdrop
  refine ⟨hplanted.batches ▸ h.accepted, ?_, ?_⟩
  · intro k hk
    obtain ⟨m, hm, rfl, hbatch, hnone⟩ := h.stored k (mem_of_mem_drop hk)
    refine ⟨m, hplanted.mem_messages.mpr ⟨m, hm, ?_⟩, rfl, hbatch, hnone⟩
    rw [if_neg (hdisjoint _ hk)]
  · intro m' hm' hbatch hnone
    obtain ⟨m, hm, rfl⟩ := hplanted.mem_messages.mp hm'
    split at hnone
    · cases hnone
    rename_i hkey
    rw [if_neg hkey] at hbatch ⊢
    have hmem := h.all m hm hbatch hnone
    rw [← take_append_drop size keys] at hmem
    exact (mem_append.mp hmem).resolve_left hkey

/-- A chunk as `prepare_chunks` makes it. -/
structure Prepared (batchSize : ℕ) (c : Chunk) : Prop where
  split : c.split = none
  nonempty : 1 ≤ c.phoneCount
  bounded : c.phoneCount ≤ batchSize

theorem Waiting.preparedChunk (h : Waiting db batch keys) (hsorted : keys.SortedLT)
    (batchSize offset : ℕ) (id : ChunkId) :
    Plantable db batch (preparedChunk batch batchSize offset id (keys.take batchSize))
      (keys.take batchSize) keys :=
  h.plantable (take_sublist batchSize _) hsorted rfl rfl rfl rfl

theorem prepareLoop_cons {id : ChunkId}
    (h : prepareLoop batch batchSize rows (id :: ids) offset db = some db') :
    ∃ db₁, offset < rows.length ∧ Planted db db₁ batch (preparedChunk batch batchSize offset id
        ((rows.drop offset).take batchSize)) ((rows.drop offset).take batchSize)
        (if offset / batchSize + 1 = 1 then 1 else 0) ∧
    prepareLoop batch batchSize rows ids (offset + batchSize) db₁ = some db' := by
  unfold prepareLoop at h
  dsimp only at h
  split at h
  · cases h
  rename_i hmore
  split at h
  · cases h
  · rename_i db₁ hplant
    exact ⟨db₁, not_le.mp hmore, plantChunk_planted hplant, h⟩

theorem Plan.prepareLoop_step {db₁ : Db} {id : ChunkId}
    (h : Plan db (rows.drop offset)) (hwaiting : Waiting db batch (rows.drop offset))
    (hsorted : (rows.drop offset).SortedLT)
    (hplanted : Planted db db₁ batch (Send.preparedChunk batch batchSize offset id
      ((rows.drop offset).take batchSize)) ((rows.drop offset).take batchSize) requests) :
    Plan db₁ (rows.drop (offset + batchSize)) ∧
    Waiting db₁ batch (rows.drop (offset + batchSize)) := by
  have hplan : Plan db₁ ((rows.drop offset).drop batchSize) :=
    h.plant (hwaiting.preparedChunk hsorted batchSize offset id) hplanted
      (fun k hk => by rwa [← take_append_drop batchSize (rows.drop offset),
        mem_append] at hk)
  have hwaiting' := hwaiting.plant hsorted hplanted
  rw [drop_drop] at hplan hwaiting'
  exact ⟨hplan, hwaiting'⟩

theorem Plan.prepareLoop (hsize : 1 ≤ batchSize) (hsorted : rows.SortedLT)
    (h : Plan db (rows.drop offset)) (hwaiting : Waiting db batch (rows.drop offset))
    (hloop : prepareLoop batch batchSize rows ids offset db = some db') :
    Plan db' [] ∧ ∀ c ∈ db'.chunks, c ∈ db.chunks ∨ Prepared batchSize c := by
  induction ids generalizing offset db with
  | nil =>
    unfold Send.prepareLoop at hloop
    split at hloop
    · rename_i hdone
      cases hloop
      rw [drop_eq_nil_of_le hdone] at h
      exact ⟨h, fun _ => .inl⟩
    · cases hloop
  | cons id ids ih =>
    obtain ⟨db₁, hmore, hplanted, hrest⟩ := prepareLoop_cons hloop
    obtain ⟨hplan, hwaiting'⟩ := h.prepareLoop_step hwaiting
      (hsorted.pairwise.sublist (drop_sublist _ _)).sortedLT hplanted
    obtain ⟨hfinal, hnew⟩ := ih hplan hwaiting' hrest
    refine ⟨hfinal, fun c hc => ?_⟩
    rcases hnew c hc with hc | hc
    · rcases (hplanted.chunks c).mp hc with hc | rfl
      · exact .inl hc
      refine .inr ⟨rfl, ?_, ?_⟩
      · simp [Send.preparedChunk]
        omega
      · simp only [Send.preparedChunk, length_take, length_drop]
        omega
    · exact .inr hc

theorem waiting_unlinked (hbatch : batch ∈ db.batches) : Waiting db batch (db.messageKeys (fun m =>
      decide (m.batchId = batch.id ∧ m.chunkId = none))) := by
  refine ⟨hbatch, fun k hk => ?_, fun m hm hbatch' hunlinked => ?_⟩
  · obtain ⟨m, hm, hp, hkey⟩ := mem_messageKeys.mp hk
    rw [decide_eq_true_eq] at hp
    exact ⟨m, hm, hkey, hp.1, hp.2⟩
  · exact mem_messageKeys.mpr ⟨m, hm, by simp [hbatch', hunlinked], rfl⟩

/-- Preparation gives every waiting message a chunk, within the batch size. -/
theorem Plan.prepare {batchNo : BatchNo} {newIds : List ChunkId} {materialized : Bool}
    (h : Plan db [])
    (hprepare : prepareChunks db now batchNo batchSize newIds materialized = .ok (ids, db')) :
    Plan db' [] ∧ ∀ c ∈ db'.chunks, c ∈ db.chunks ∨ Prepared batchSize c := by
  rcases prepareChunks_cases hprepare with
    ⟨batchId, rfl | rfl⟩ | ⟨batch, hbatch, db₁, hsize, hnone, hloop, rfl⟩
  · exact ⟨h, fun _ => .inl⟩
  · exact ⟨h.of_sameRows (quiet_setBatch _ _ _).sameRows, fun _ => .inl⟩
  · obtain ⟨hplan, hnew⟩ := Plan.prepareLoop hsize (db.sortedLT_messageKeys _)
      (h.mono (by simp)) (waiting_unlinked hbatch) hloop
    exact ⟨hplan.of_sameRows (quiet_setBatch _ _ _).sameRows, fun c hc => hnew c hc⟩

end

/-! ## Splits -/

theorem customIdFor_customIdFor {text : List Char} (htext : text.length = 32) (n k : ℕ) :
    customIdFor (customIdFor text n) k = customIdFor text k := by
  unfold customIdFor
  rw [take_append_of_le_length (by simp [htext]), take_take, Nat.min_self]

/-- `messages[:middle]`. -/
def firstHalf (keys : List MessageKey) : List MessageKey := keys.take ((keys.length + 1) / 2)

/-- `messages[middle:]`. -/
def secondHalf (keys : List MessageKey) : List MessageKey := keys.drop ((keys.length + 1) / 2)

theorem firstHalf_sublist (keys : List MessageKey) : (firstHalf keys).Sublist keys :=
  take_sublist _ _

theorem firstHalf_append_secondHalf (keys : List MessageKey) :
    firstHalf keys ++ secondHalf keys = keys :=
  take_append_drop _ _

/-- The steps of `_create_split_children`: the parent is closed, and the two halves
of its messages go to the new chunks. -/
structure Halves (db db' : Db) (parent : SplitParent) (id₁ id₂ : ChunkId) where
  closed : Db
  middle : Db
  last : Db
  batch : Batch
  quiet : Quiet db closed
  splittable : ∃ c ∈ db.chunks, c.id = parent.chunkId
  enough : 2 ≤ (db.messagesOf parent.chunkId).length
  accepted : batch ∈ closed.batches
  batchId : batch.id = parent.batchId
  first : Planted closed middle batch
    (childChunk parent id₁ (nextChunkNo closed parent.batchId) 1
      (firstHalf (db.messagesOf parent.chunkId))) (firstHalf (db.messagesOf parent.chunkId)) 0
  second : Planted middle last batch
    (childChunk parent id₂ (nextChunkNo closed parent.batchId + 1) 2
      (secondHalf (db.messagesOf parent.chunkId))) (secondHalf (db.messagesOf parent.chunkId)) 0
  cleared : db' = { last with
    allocations := last.allocations.apply (allocationClear parent.chunkId) }

variable {parent : SplitParent} {ids : List ChunkId}

theorem createSplitChildren_halves {id₁ id₂ : ChunkId}
    (h : createSplitChildren db parent id₁ id₂ = .ok (ids, db')) :
    ids = [id₁, id₂] ∧ Nonempty (Halves db db' parent id₁ id₂) := by
  unfold createSplitChildren at h
  dsimp only at h
  split at h
  · cases h
  rename_i db₁ hcas
  have hquiet : Quiet db (settleSplitVendorAttempt db₁ parent.chunkId) :=
    (quiet_casChunk hcas (fun _ _ => ⟨fun _ => rfl, fun hblocked => by cases hblocked⟩)).trans
      (quiet_settleAttempts _ _)
  have hmessages := messagesOf_eq_of_sameRows hquiet.sameRows parent.chunkId
  obtain ⟨c, hc, hid, -⟩ := casChunk_eq_some hcas
  rw [hmessages] at h
  split at h
  · cases h
  rename_i henough
  split at h
  · cases h
  rename_i batch hfind
  obtain ⟨hbatch, hbatchId⟩ := find?_eq_some_iff.mp hfind
  split at h
  · cases h
  rename_i db₂ hplant₁
  split at h
  · cases h
  rename_i db₃ hplant₂
  cases h
  exact ⟨rfl, ⟨⟨_, db₂, db₃, batch, hquiet, ⟨c, hc, hid⟩, not_lt.mp henough, hbatch,
    hbatchId, plantChunk_planted hplant₁, plantChunk_planted hplant₂, rfl⟩⟩⟩

/-- The three ways in which a split commits. -/
theorem completeVendorSplit_halves {capacity : SplitCapacity} {id₁ id₂ : ChunkId}
    (h : completeVendorSplit db parent capacity id₁ id₂ = .ok (ids, db')) :
    db' = db ∨ db' = markSplitCapacityBlocked db parent.chunkId ∨
      existingSplitChildren db parent.chunkId = [] ∧ Nonempty (Halves db db' parent id₁ id₂) := by
  unfold completeVendorSplit at h
  split at h
  · cases h
    exact .inl rfl
  · cases h
  · rename_i hnone
    split at h
    · cases h
      exact .inl rfl
    split at h
    · cases h
      exact .inl rfl
    split at h
    · cases h
    · cases h
      exact .inr (.inl rfl)
    · exact .inr (.inr ⟨hnone, (createSplitChildren_halves h).2⟩)

section

variable {db : Db} {c : Chunk} {id₁ id₂ : ChunkId}

/-- What a half has to satisfy, where the messages still to be moved are all that is
left of the parent. -/
theorem Plan.half_plantable {moving : List MessageKey} (h : Plan db moving)
    (hc : ∃ c' ∈ db.chunks, c.Same c') (hbatch : batch ∈ db.batches)
    (hbatchId : batch.id = c.batchId) (hmoving : db.messagesOf c.id = moving)
    (hgroup : group.Sublist moving) (id : ChunkId) (number ordinal : ℕ) :
    Plantable db batch (childChunk c.asParent id number ordinal group) group moving := by
  obtain ⟨c', hc', hsame⟩ := hc
  refine ⟨hbatch, hbatchId.symm, ?_, rfl, ?_, ?_, ?_, ?_, ?_⟩
  · have hnamed := h.named c' hc' batch hbatch (hbatchId.trans hsame.batchId_eq.symm)
    rw [hsame] at hnamed
    change customIdFor c.customId number = _
    rw [show c.customId = _ from hnamed, customIdFor_customIdFor batch.batchNo.length_eq]
    rfl
  · rw [← hmoving] at hgroup
    exact ((db.sortedLT_messageKeys _).pairwise.sublist hgroup).sortedLT
  · intro k hk
    obtain ⟨m, hm, hlink, hkey⟩ := mem_messagesOf.mp (hmoving ▸ hgroup.subset hk)
    obtain ⟨d, hd, hid, hdbatch, -⟩ := h.linked m hm _ hlink
    obtain rfl : d = c' := eq_of_key_eq hd hc' (hid.trans hsame.id_eq.symm)
    exact ⟨m, hm, hkey, by rw [← hdbatch, hsame.batchId_eq, hbatchId]⟩
  · intro m hm hk
    obtain ⟨m', hm', hlink, hkey⟩ := mem_messagesOf.mp (hmoving ▸ hgroup.subset hk)
    obtain rfl : m' = m := eq_of_key_eq hm' hm hkey
    exact .inr ⟨_, rfl, hlink⟩
  · rintro s ⟨⟩
    exact ⟨rfl, ⟨c', hc', hsame.id_eq⟩,
      fun m hm hlink => hmoving ▸ mem_messagesOf.mpr ⟨m, hm, hlink, rfl⟩⟩
  · intro m hm hmbatch hnone
    refine h.covered c' hc' m hm ?_ hnone
    rw [hmbatch, hbatchId, hsame.batchId_eq]

/-- The parent keeps what has not been moved. -/
theorem Plan.half_parent {messages : List MessageKey} {middle : ℕ} {number ordinal : ℕ}
    {id : ChunkId} (hmessages : db.messagesOf c.id = messages)
    (hplanted : Planted db db' batch (childChunk c.asParent id number ordinal
      (messages.take middle)) (messages.take middle) 0) (hne : c.id ≠ id) :
    db'.messagesOf c.id = messages.drop middle := by
  have hsorted : messages.SortedLT := hmessages ▸ db.sortedLT_messageKeys _
  refine messagesOf_eq (hsorted.pairwise.sublist (drop_sublist _ _)).sortedLT (fun k => ?_)
  have hsplit : k ∈ messages ↔ k ∈ messages.take middle ∨ k ∈ messages.drop middle := by
    rw [← mem_append, take_append_drop]
  have hdisjoint : k ∈ messages.drop middle → k ∉ messages.take middle := fun hdrop htake =>
    disjoint_take_drop hsorted.nodup le_rfl htake hdrop
  constructor
  · rintro ⟨m', hm', hlink, rfl⟩
    obtain ⟨m, hm, rfl⟩ := hplanted.mem_messages.mp hm'
    by_cases hkey : m.key ∈ messages.take middle
    · rw [if_pos hkey] at hlink
      exact absurd (Option.some.inj hlink).symm hne
    · rw [if_neg hkey] at hlink hsplit ⊢
      exact (hsplit.mp (hmessages ▸ mem_messagesOf.mpr ⟨m, hm, hlink, rfl⟩)).resolve_left hkey
  · intro hk
    obtain ⟨m, hm, hlink, rfl⟩ := mem_messagesOf.mp (hmessages ▸ hsplit.mpr (.inr hk))
    exact ⟨m, hplanted.mem_messages.mpr ⟨m, hm, by rw [if_neg (hdisjoint hk)]⟩, hlink, rfl⟩

theorem Plan.halves_steps (h : Plan db []) (hc : c ∈ db.chunks)
    (hhalves : Halves db db' c.asParent id₁ id₂) : Plan hhalves.closed (db.messagesOf c.id) ∧
    Plantable hhalves.closed hhalves.batch
      (childChunk c.asParent id₁ (nextChunkNo hhalves.closed c.batchId) 1
        (firstHalf (db.messagesOf c.id))) (firstHalf (db.messagesOf c.id)) (db.messagesOf c.id) ∧
    Plan hhalves.middle (secondHalf (db.messagesOf c.id)) ∧ Plantable hhalves.middle hhalves.batch
      (childChunk c.asParent id₂ (nextChunkNo hhalves.closed c.batchId + 1) 2
        (secondHalf (db.messagesOf c.id))) (secondHalf (db.messagesOf c.id))
      (secondHalf (db.messagesOf c.id)) ∧ Plan hhalves.last [] := by
  obtain ⟨db₁, db₂, db₃, batch, hquiet, -, -, haccepted, hbatchId, hfirst, hsecond, -⟩ := hhalves
  have hmessages₁ := messagesOf_eq_of_sameRows hquiet.sameRows c.id
  have hplan₁ : Plan db₁ (db.messagesOf c.id) :=
    (h.of_sameRows hquiet.sameRows).mono (by simp)
  obtain ⟨c₁, hc₁, hsame₁⟩ := hquiet.sameRows.chunks.exists_right hc
  have hc₂ : c₁ ∈ db₂.chunks := (hfirst.chunks c₁).mpr (.inl hc₁)
  have hne₁ : c.id ≠ id₁ := hsame₁.id_eq ▸ hfirst.fresh c₁ hc₁
  -- the first half leaves the parent, the second half is still to come
  have hplantable₁ := hplan₁.half_plantable ⟨c₁, hc₁, hsame₁⟩ haccepted hbatchId hmessages₁
    (firstHalf_sublist _) id₁ (nextChunkNo db₁ c.asParent.batchId) 1
  have hplan₂ : Plan db₂ (secondHalf (db.messagesOf c.id)) :=
    hplan₁.plant hplantable₁ hfirst (fun k hk => by
      rwa [← firstHalf_append_secondHalf (db.messagesOf c.id), mem_append] at hk)
  have hmessages₂ : db₂.messagesOf c.id = secondHalf (db.messagesOf c.id) :=
    Plan.half_parent hmessages₁ hfirst hne₁
  have hplantable₂ := hplan₂.half_plantable ⟨c₁, hc₂, hsame₁⟩ (hfirst.batches ▸ haccepted)
    hbatchId hmessages₂ (.refl _) id₂ (nextChunkNo db₁ c.asParent.batchId + 1) 2
  have hplan₃ : Plan db₃ [] := hplan₂.plant hplantable₂ hsecond (fun k hk => .inl hk)
  exact ⟨hplan₁, hplantable₁, hplan₂, hplantable₂, hplan₃⟩

/-- A split keeps the plan, and the halves hold what the parent held. -/
theorem Plan.halves (h : Plan db []) (hc : c ∈ db.chunks)
    (hhalves : Halves db db' c.asParent id₁ id₂) :
    Plan db' [] ∧ db'.messagesOf id₁ = firstHalf (db.messagesOf c.id) ∧
    db'.messagesOf id₂ = secondHalf (db.messagesOf c.id) ∧ db'.messagesOf c.id = [] := by
  obtain ⟨hplan₁, hplantable₁, hplan₂, hplantable₂, hplan₃⟩ := h.halves_steps hc hhalves
  have hne : id₁ ≠ id₂ :=
    hhalves.second.fresh _ ((hhalves.first.chunks _).mpr (.inr rfl))
  have hne₁ : c.id ≠ id₁ := by
    obtain ⟨c₁, hc₁, hsame₁⟩ := hhalves.quiet.sameRows.chunks.exists_right hc
    exact hsame₁.id_eq ▸ hhalves.first.fresh c₁ hc₁
  have hmessages₃ : hhalves.last.messagesOf c.id = [] := by
    refine eq_nil_iff_forall_not_mem.mpr (fun k hk => ?_)
    obtain ⟨m, hm, hlink, -⟩ := mem_messagesOf.mp hk
    obtain ⟨d, hd, hid, -, hlive⟩ := hplan₃.linked m hm _ hlink
    have hchild := hlive (by simp) _ ((hhalves.second.chunks _).mpr (.inr rfl))
    rw [hid] at hchild
    simp [isChildOf, childChunk, Chunk.asParent] at hchild
  have hmessages₂ := hplan₂.plant_messagesOf_new hplantable₂ hhalves.second
  rw [hhalves.cleared]
  refine ⟨{ hplan₃ with }, ?_, hmessages₂, hmessages₃⟩
  · refine (Plan.plant_messagesOf_old hplantable₂ hhalves.second hne ?_).trans
      (hplan₁.plant_messagesOf_new hplantable₁ hhalves.first)
    rintro s ⟨⟩
    exact hne₁

end

/-! ## Every step -/

theorem Plan.split {chunkId : ChunkId} {answer : SplitAnswer} (h : Plan db [])
    (hstep : db.next registry (.split chunkId answer) = some db') : Plan db' [] := by
  obtain ⟨c, hc, -, ids, hsplit⟩ := split_eq_some hstep
  rcases completeVendorSplit_halves hsplit with rfl | rfl | ⟨-, ⟨hhalves⟩⟩
  · exact h
  · exact h.of_sameRows (markSplitCapacityBlocked_sameRows db _)
  · exact (h.halves hc hhalves).1

theorem plan_step {action : Action} (h : Plan db []) (hstep : db.next registry action = some db') :
    Plan db' [] := by
  by_cases hquiet : action.changesPlan = false
  · exact h.of_sameRows (quiet_of_step hquiet hstep).sameRows
  cases action with
  | accept batch phones now => exact h.accept hstep
  | prepare now batchNo batchSize newIds materialized =>
    obtain ⟨ids, hprepare⟩ := committed_eq_some hstep
    exact (h.prepare hprepare).1
  | split chunkId answer => exact h.split hstep
  | retrySplits answers => exact retrySplits_preserves h hstep (fun _ _ _ _ _ _ => Plan.split)
  | dispatch chunkId appFlag =>
    obtain ⟨decision, hdispatch⟩ := committed_eq_some hstep
    exact h.of_sameRows (decideDispatch_dispatches hdispatch).rows.sameRows
  | _ => exact absurd rfl hquiet

theorem plan_of_reachable (h : (store registry).Reachable db) : Plan db [] := by
  refine h.invariant (I := fun db => Plan db []) ?_ (fun _ _ _ => plan_step)
  rintro _ rfl
  exact plan_start

end SmsPlatform.Send
