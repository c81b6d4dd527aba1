import SmsPlatform.Send.Planning

/-!
# Transactions that leave the plan of a batch alone

All transactions but acceptance, preparation, split and blacklist exclusion keep
the plan of every batch: which chunks there are, which messages they hold, what
is allocated to them and who is excluded.  `Quiet` says so, together with the two
facts about chunk states that are needed throughout: a chunk that has left the
send pipeline does not return to it, and only a split blocks a chunk on
capacity.
-/

namespace SmsPlatform.Send

open Support Schema Table Update

/-! ## Later versions of the rows -/

/-- A later version of a chunk, in whatever state. -/
def Chunk.Same (c c' : Chunk) : Prop := c' = { c with state := c'.state }

structure ChunkState.Follows (s s' : ChunkState) : Prop where
  left : s.isPreSend = false → s'.isPreSend = false
  blocked : s'.status = .splitCapacityBlocked → s.status = .splitCapacityBlocked

structure Chunk.Follows (c c' : Chunk) : Prop where
  identity : c.Same c'
  state : c.state.Follows c'.state

structure Message.Follows (m m' : Message) : Prop where
  identity : m' = { m with status := m'.status, reported := m'.reported }
  pending : m'.status = .pending → m.status = .pending

/-- Everything but the status of a batch is fixed on acceptance. -/
def Batch.Follows (b b' : Batch) : Prop := b' = { b with status := b'.status }

variable {c c' : Chunk} {s : ChunkState} {m m' : Message}

theorem Chunk.Same.trans {c₁ c₂ c₃ : Chunk} (h : c₁.Same c₂) (h' : c₂.Same c₃) : c₁.Same c₃ := by
  unfold Chunk.Same at *
  rw [h', h]

theorem Chunk.Same.id_eq (h : c.Same c') : c'.id = c.id := by
  rw [h]

theorem Chunk.Same.batchId_eq (h : c.Same c') : c'.batchId = c.batchId := by
  rw [h]

theorem Chunk.Same.asParent_eq (h : c.Same c') : c'.asParent = c.asParent := by
  rw [h]
  rfl

theorem ChunkState.Follows.refl (s : ChunkState) : s.Follows s := ⟨id, id⟩

theorem ChunkState.Follows.trans {s₁ s₂ s₃ : ChunkState} (h : s₁.Follows s₂)
    (h' : s₂.Follows s₃) : s₁.Follows s₃ :=
  ⟨fun hs => h'.left (h.left hs), fun hs => h.blocked (h'.blocked hs)⟩

/-- A chunk on its way to the vendor may move anywhere but to
`split_capacity_blocked`. -/
theorem ChunkState.Follows.of_preSend {s' : ChunkState} (h : s.isPreSend = true)
    (h' : s'.status ≠ .splitCapacityBlocked) : s.Follows s' :=
  ⟨fun hs => absurd (h.symm.trans hs) (by decide), fun hs => absurd hs h'⟩

theorem ChunkState.Follows.of_status_eq {s' : ChunkState} (h : s'.status = s.status) :
    s.Follows s' :=
  ⟨by simp [isPreSend, isWaiting, isSubmitting, h], by simp [h]⟩

theorem ChunkState.isPreSend_of_isSubmitting (s : ChunkState) (h : s.isSubmitting = true) :
    s.isPreSend = true := by
  simp [isPreSend, h]

theorem ChunkState.isPreSend_of_isWaiting (s : ChunkState) (h : s.isWaiting = true) :
    s.isPreSend = true := by
  simp [isPreSend, h]

theorem Chunk.Follows.refl (c : Chunk) : c.Follows c := ⟨rfl, .refl _⟩

theorem Chunk.Follows.trans (c₁ c₂ c₃ : Chunk) (h : c₁.Follows c₂) (h' : c₂.Follows c₃) :
    c₁.Follows c₃ :=
  ⟨h.identity.trans h'.identity, h.state.trans h'.state⟩

theorem Message.Follows.refl (m : Message) : m.Follows m := ⟨rfl, id⟩

theorem Message.Follows.trans (m₁ m₂ m₃ : Message) (h : m₁.Follows m₂)
    (h' : m₂.Follows m₃) : m₁.Follows m₃ := by
  refine ⟨?_, fun hm => h.pending (h'.pending hm)⟩
  rw [h'.identity, h.identity]

theorem Message.Follows.key_eq (h : m.Follows m') : m'.key = m.key := by
  rw [h.identity]

theorem Message.Follows.chunkId_eq (h : m.Follows m') : m'.chunkId = m.chunkId := by
  rw [h.identity]

theorem Message.Follows.batchId_eq (h : m.Follows m') : m'.batchId = m.batchId := by
  rw [h.identity]

theorem Batch.Follows.refl (b : Batch) : b.Follows b := rfl

theorem Batch.Follows.trans (b₁ b₂ b₃ : Batch) (h : b₁.Follows b₂) (h' : b₂.Follows b₃) :
    b₁.Follows b₃ := by
  unfold Batch.Follows at *
  rw [h', h]

/-- Rows are neither added nor removed, and their identities are kept. -/
structure RowsFollow (db db' : Db) : Prop where
  batches : Rel Batch.Follows db.batches db'.batches
  chunks : Rel Chunk.Follows db.chunks db'.chunks
  messages : Rel Message.Follows db.messages db'.messages

/-- The plan of every batch is the same, and statuses have only moved on. -/
structure Quiet (db db' : Db) : Prop extends RowsFollow db db' where
  exclusions : db'.exclusions = db.exclusions
  allocations : db'.allocations = db.allocations

theorem RowsFollow.refl (db : Db) : RowsFollow db db := ⟨.refl .refl _, .refl .refl _,
    .refl .refl _⟩

theorem RowsFollow.trans {db₁ db₂ db₃ : Db} (h : RowsFollow db₁ db₂)
    (h' : RowsFollow db₂ db₃) : RowsFollow db₁ db₃ :=
  ⟨h.batches.trans .trans h'.batches, h.chunks.trans .trans h'.chunks,
    h.messages.trans .trans h'.messages⟩

theorem Quiet.refl (db : Db) : Quiet db db := ⟨.refl db, rfl, rfl⟩

theorem Quiet.trans {db₁ db₂ db₃ : Db} (h : Quiet db₁ db₂) (h' : Quiet db₂ db₃) : Quiet db₁ db₃ :=
  ⟨h.toRowsFollow.trans h'.toRowsFollow, h'.exclusions.trans h.exclusions,
    h'.allocations.trans h.allocations⟩

/-! ## Statements -/

namespace Db

variable {id : ChunkId} {guard : ChunkState → Bool} {f : ChunkState → ChunkState} {db db' : Db}

section

variable (h : db.casChunk id guard f = some db')
include h

theorem casChunk_eq_some : ∃ c ∈ db.chunks, c.id = id ∧ guard c.state = true ∧ db' = { db with
        chunks := db.chunks.apply (chunkUpdate (fun c => decide (c.id = id)) f) } := by
  unfold casChunk at h
  split at h
  · cases h
  rename_i c hc
  obtain ⟨hmem, hid⟩ := find?_eq_some_iff.mp hc
  split at h
  · rename_i hguard
    cases h
    exact ⟨c, hmem, hid, hguard, rfl⟩
  · cases h

theorem attempts_casChunk : db'.attempts = db.attempts := by
  obtain ⟨_, _, _, _, rfl⟩ := casChunk_eq_some h
  rfl

theorem exists_chunk_casChunk : ∃ c ∈ db.chunks, c.id = id ∧ guard c.state = true ∧
    { c with state := f c.state } ∈ db'.chunks := by
  obtain ⟨c, hc, hid, hguard, rfl⟩ := casChunk_eq_some h
  refine ⟨c, hc, hid, hguard, mem_apply_iff.mpr ⟨c, hc, ?_⟩⟩
  exact row_of_applies (by simp [chunkUpdate, hid])

theorem quiet_casChunk (hf : ∀ s, guard s = true → s.Follows (f s)) : Quiet db db' := by
  obtain ⟨c, hc, hid, hguard, rfl⟩ := casChunk_eq_some h
  refine { Quiet.refl db with chunks := .apply ?_ }
  intro d hd
  by_cases hdid : d.id = id
  · obtain rfl : d = c := eq_of_key_eq hd hc (hdid.trans hid.symm)
    rw [row_of_applies (by simp [chunkUpdate, hid])]
    exact ⟨rfl, hf _ hguard⟩
  · rw [row_of_not_applies (by simp [chunkUpdate, hdid])]
    exact .refl d

/-- The same with the guard that nearly all transactions use. -/
theorem quiet_casChunk_submitting (hguard : ∀ s, guard s = true → s.isPreSend = true)
    (hf : ∀ s, (f s).status ≠ .splitCapacityBlocked) : Quiet db db' :=
  quiet_casChunk h (fun s hs => .of_preSend (hguard s hs) (hf s))

end

theorem quiet_settleAttempts (db : Db) (f : Attempt → Option Settlement) :
    Quiet db (db.settleAttempts f) :=
  { Quiet.refl db with }

theorem quiet_setMessages (db : Db) (p : Message → Bool) {status : MessageStatus}
    (h : status ≠ .pending) : Quiet db (db.setMessages p status) := by
  refine { Quiet.refl db with messages := .apply ?_ }
  intro m _
  by_cases hp : p m = true
  · rw [row_of_applies hp]
    exact ⟨rfl, fun hs => absurd hs h⟩
  · rw [row_of_not_applies (by simpa [messageStatusUpdate] using hp)]
    exact .refl m

theorem quiet_setBatch (db : Db) (id : BatchId) (f : BatchStatus → BatchStatus) :
    Quiet db (db.setBatch id f) := by
  refine { Quiet.refl db with batches := .apply ?_ }
  intro b _
  by_cases hb : b.id = id
  · rw [row_of_applies (by simp [batchStatusUpdate, hb])]
    exact rfl
  · rw [row_of_not_applies (by simp [batchStatusUpdate, hb])]
    exact rfl

theorem quiet_finalizeFailedMessages (db : Db) (chunkId : ChunkId) (batchId : BatchId) :
    Quiet db (db.finalizeFailedMessages chunkId batchId) := by
  unfold finalizeFailedMessages
  dsimp only
  split
  · exact .refl db
  · exact (quiet_setMessages db _ (by decide)).trans (quiet_setBatch _ _ _)

@[simp] theorem attempts_finalizeFailedMessages (db : Db) (chunkId : ChunkId)
    (batchId : BatchId) : (db.finalizeFailedMessages chunkId batchId).attempts = db.attempts := by
  unfold finalizeFailedMessages
  dsimp only
  split <;> rfl

theorem insertAttempt_eq_some {a : Attempt} (h : db.insertAttempt a = some db') :
    ∃ hfresh : ∀ x ∈ db.attempts.rows, x.id ≠ a.id,
      db' = { db with attempts := db.attempts.insertNew a hfresh } := by
  unfold insertAttempt at h
  split at h
  · rename_i hfresh
    split at h
    · cases h
      exact ⟨hfresh, rfl⟩
    · cases h
  · cases h

theorem quiet_insertAttempt {a : Attempt} (h : db.insertAttempt a = some db') : Quiet db db' := by
  obtain ⟨_, rfl⟩ := insertAttempt_eq_some h
  exact { Quiet.refl db with }

end Db

end SmsPlatform.Send
