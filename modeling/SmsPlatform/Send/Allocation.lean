import SmsPlatform.Send.Partition

/-!
# Usage allocation

Every chunk has one allocation row.  Preparation fills it, an exclusion takes the
excluded messages off it and a split moves it to the halves.  The halves are counted
anew from all messages of the parent, so what an exclusion took off comes back when
such a chunk is split.  Without such splits the allocation of a batch is that of its
messages which are not excluded.
-/

namespace SmsPlatform.Send

open Support Vendor Table List Db Update

/-! ## Excluded messages -/

def Db.isExcluded (db : Db) (k : MessageKey) : Bool :=
  db.exclusions.rows.any (fun x => decide (x.message = k))

/-- The messages of a chunk that are still to be paid for. -/
def Db.remainingOf (db : Db) (chunkId : ChunkId) : List MessageKey :=
  (db.messagesOf chunkId).filter (fun k => !db.isExcluded k)

def Db.batchRemaining (db : Db) (batchId : BatchId) : List MessageKey :=
  (db.batchKeys batchId).filter (fun k => !db.isExcluded k)

def Db.allocationsOf (db : Db) (batchId : BatchId) : List Allocation :=
  db.allocations.rows.filter (fun a => decide (a.batchId = batchId))

variable {a : Allocation} {c : Chunk} {chunkId : ChunkId} {db db' : Db} {k : MessageKey}

theorem Db.isExcluded_iff : db.isExcluded k = true ↔ ∃ x ∈ db.exclusions, x.message = k := by
  simp [isExcluded, mem_rows]

theorem Db.isExcluded_congr (h : db'.exclusions = db.exclusions) (k : MessageKey) :
    db'.isExcluded k = db.isExcluded k := by
  rw [isExcluded, isExcluded, h]

theorem Db.mem_remainingOf :
    k ∈ db.remainingOf chunkId ↔ k ∈ db.messagesOf chunkId ∧ db.isExcluded k = false := by
  simp [remainingOf]

theorem Db.mem_allocationsOf {batchId : BatchId} :
    a ∈ db.allocationsOf batchId ↔ a ∈ db.allocations ∧ a.batchId = batchId := by
  simp [allocationsOf, mem_rows]

theorem Db.remainingOf_congr (hexclusions : db'.exclusions = db.exclusions)
    (hmessages : db'.messagesOf chunkId = db.messagesOf chunkId) :
    db'.remainingOf chunkId = db.remainingOf chunkId := by
  rw [remainingOf, remainingOf, hmessages]
  exact filter_congr (fun k _ => by rw [isExcluded_congr hexclusions])

theorem Db.remainingOf_of_clean (h : ∀ k ∈ db.messagesOf chunkId, db.isExcluded k = false) :
    db.remainingOf chunkId = db.messagesOf chunkId :=
  filter_eq_self.mpr (fun k hk => by simp [h k hk])

/-! ## The invariant -/

/-- The allocation row of a chunk. -/
structure AllocatedAt (db : Db) (c : Chunk) (a : Allocation) : Prop where
  mem : a ∈ db.allocations
  chunkId : a.chunkId = c.id
  batchId : a.batchId = c.batchId
  recipients : a.recipientCount = (db.remainingOf c.id).length
  segments : ∀ b ∈ db.batches, b.id = c.batchId →
    a.segmentCount = b.segments * (db.remainingOf c.id).length
  requests : a.requestCount = if c.chunkNo = 1 then 1 else 0

/-- The chunk of an allocation row. -/
def OwnedIn (db : Db) (a : Allocation) : Prop :=
  ∃ c ∈ db.chunks, c.id = a.chunkId ∧ c.batchId = a.batchId ∧
    a.requestCount = if c.chunkNo = 1 then 1 else 0

/-- Chunks are numbered from one. -/
structure FromOne (db : Db) : Prop where
  pos : ∀ c ∈ db.chunks, 1 ≤ c.chunkNo
  first : ∀ c ∈ db.chunks, ∃ d ∈ db.chunks, d.batchId = c.batchId ∧ d.chunkNo = 1

/-- What holds between transactions.  In the middle of a split the row of the parent
is out of date. -/
structure Allocated (db : Db) (parent : Option ChunkId) : Prop where
  row : ∀ c ∈ db.chunks, parent ≠ some c.id → ∃ a, AllocatedAt db c a
  owner : ∀ a ∈ db.allocations, OwnedIn db a
  /-- Exclusions are about messages that have a chunk and are no longer pending. -/
  excluded : ∀ k, db.isExcluded k = true →
    ∃ m ∈ db.messages, m.key = k ∧ m.status ≠ .pending ∧ m.chunkId ≠ none
  fromOne : FromOne db

theorem allocated_start : Allocated Db.start none := by
  refine ⟨?_, ?_, fun k hk => absurd hk (by simp [Db.isExcluded, Db.start]), ⟨?_, ?_⟩⟩ <;>
    intro x hx <;> exact absurd hx (not_mem_empty x)

variable {parent : Option ChunkId} {m : Message}

theorem Allocated.not_excluded (h : Allocated db parent)
    (hm : m ∈ db.messages) (hopen : m.status = .pending ∨ m.chunkId = none) :
    db.isExcluded m.key = false := by
  by_contra hexcluded
  obtain ⟨m', hm', hkey, hstatus, hlink⟩ := h.excluded m.key (by simpa using hexcluded)
  obtain rfl : m' = m := eq_of_key_eq hm' hm hkey
  exact hopen.elim hstatus hlink

/-! ## Transactions that keep the rows -/

/-- The row of a chunk after a transaction that leaves it as many messages as it says. -/
theorem AllocatedAt.of_sameRows (hrows : SameRows db db') {c' : Chunk} (hsame : c.Same c')
    {a' : Allocation} (h : AllocatedAt db c a) (hmem : a' ∈ db'.allocations)
    (hids : a'.chunkId = a.chunkId ∧ a'.batchId = a.batchId ∧ a'.requestCount = a.requestCount)
    (hrecipients : a'.recipientCount = (db'.remainingOf c.id).length)
    (hsegments : ∀ b ∈ db.batches, b.id = c.batchId →
      a'.segmentCount = b.segments * (db'.remainingOf c.id).length) : AllocatedAt db' c' a' := by
  refine ⟨hmem, (hids.1.trans h.chunkId).trans hsame.id_eq.symm,
    (hids.2.1.trans h.batchId).trans hsame.batchId_eq.symm, by rw [hsame.id_eq, hrecipients],
    fun b' hb' hid => ?_, ?_⟩
  · obtain ⟨b, hb, hfollows⟩ := hrows.batches.exists_left hb'
    rw [hfollows, hsame.batchId_eq] at hid
    rw [hsame.id_eq, hsegments b hb hid, hfollows]
  · rw [hsame]
    exact hids.2.2.trans h.requests

theorem OwnedIn.of_sameRows (hrows : SameRows db db') {a' : Allocation} (h : OwnedIn db a)
    (hchunk : a'.chunkId = a.chunkId) (hbatch : a'.batchId = a.batchId)
    (hrequests : a'.requestCount = a.requestCount) : OwnedIn db' a' := by
  obtain ⟨c, hc, hid, hcbatch, hcrequests⟩ := h
  obtain ⟨c', hc', hsame⟩ := hrows.chunks.exists_right hc
  refine ⟨c', hc', ?_, ?_, ?_⟩
  · rw [hsame.id_eq, hid, hchunk]
  · rw [hsame.batchId_eq, hcbatch, hbatch]
  · rw [hrequests, hcrequests, hsame]

theorem FromOne.of_sameRows (h : FromOne db) (hrows : SameRows db db') : FromOne db' := by
  constructor
  · intro c' hc'
    obtain ⟨c, hc, hsame⟩ := hrows.chunks.exists_left hc'
    rw [hsame]
    exact h.pos c hc
  · intro c' hc'
    obtain ⟨c, hc, hsame⟩ := hrows.chunks.exists_left hc'
    obtain ⟨d, hd, hbatch, hno⟩ := h.first c hc
    obtain ⟨d', hd', hsame'⟩ := hrows.chunks.exists_right hd
    refine ⟨d', hd', ?_, ?_⟩
    · rw [hsame'.batchId_eq, hbatch, hsame.batchId_eq]
    · rw [hsame']
      exact hno

theorem Allocated.of_sameRows (h : Allocated db parent)
    (hrows : SameRows db db') (hexclusions : db'.exclusions = db.exclusions)
    (hallocations : db'.allocations = db.allocations) : Allocated db' parent := by
  refine ⟨?_, ?_, ?_, ?_⟩
  · intro c' hc' hparent
    obtain ⟨c, hc, hsame⟩ := hrows.chunks.exists_left hc'
    obtain ⟨a, ha⟩ := h.row c hc (hsame.id_eq ▸ hparent)
    have hremaining := remainingOf_congr hexclusions (messagesOf_eq_of_sameRows hrows c.id)
    refine ⟨a, ha.of_sameRows hrows hsame (hallocations ▸ ha.mem) ⟨rfl, rfl, rfl⟩ ?_ ?_⟩ <;>
      rw [hremaining]
    · exact ha.recipients
    · exact ha.segments
  · intro a ha
    exact (h.owner a (hallocations ▸ ha)).of_sameRows hrows rfl rfl rfl
  · intro k hexcluded
    rw [isExcluded_congr hexclusions] at hexcluded
    obtain ⟨m, hm, hkey, hstatus, hlink⟩ := h.excluded k hexcluded
    obtain ⟨m', hm', hfollows⟩ := hrows.messages.exists_right hm
    exact ⟨m', hm', hfollows.key_eq.trans hkey, fun hpending => hstatus (hfollows.pending hpending),
      hfollows.chunkId_eq ▸ hlink⟩
  · exact h.fromOne.of_sameRows hrows

theorem markSplitCapacityBlocked_frame (db : Db) (chunkId : ChunkId) :
    (markSplitCapacityBlocked db chunkId).exclusions = db.exclusions ∧
    (markSplitCapacityBlocked db chunkId).allocations = db.allocations := by
  unfold markSplitCapacityBlocked
  split
  · exact ⟨rfl, rfl⟩
  rename_i hcas
  obtain ⟨c, -, -, -, rfl⟩ := casChunk_eq_some hcas
  exact ⟨rfl, rfl⟩

/-! ## Acceptance and planting -/

theorem Allocated.accept {batch : Batch} {phones : List (ℕ × String)} {now : Time}
    (h : Allocated db none) (hplan : Plan db [])
    (haccept : acceptBatch db batch phones now = some db') : Allocated db' none := by
  obtain ⟨hfresh, -, hbatches, hmessages, hchunks, hexclusions, hallocations⟩ :=
    acceptBatch_eq_some haccept
  have hlinks : ∀ id, db'.messagesOf id = db.messagesOf id := messagesOf_acceptBatch haccept
  refine ⟨?_, ?_, ?_, ⟨hchunks ▸ h.fromOne.pos, hchunks ▸ h.fromOne.first⟩⟩
  · intro c hc hparent
    rw [hchunks] at hc
    obtain ⟨a, ha⟩ := h.row c hc hparent
    have hremaining := remainingOf_congr hexclusions (hlinks c.id)
    refine ⟨a, hallocations ▸ ha.mem, ha.chunkId, ha.batchId, by rw [hremaining, ha.recipients],
      fun b hb hid => ?_, ha.requests⟩
    rw [hremaining]
    rcases (hbatches b).mp hb with hb | rfl
    · exact ha.segments b hb hid
    · obtain ⟨b, hb, hbid⟩ := hplan.chunkBatch c hc
      exact absurd (hbid.trans hid.symm) (hfresh b hb)
  · unfold OwnedIn
    rw [hallocations, hchunks]
    exact h.owner
  · intro k hexcluded
    rw [isExcluded_congr hexclusions] at hexcluded
    obtain ⟨m, hm, hrest⟩ := h.excluded k hexcluded
    exact ⟨m, (hmessages m).mpr (.inl hm), hrest⟩

section

variable {db : Db} {batch : Batch} {chunk : Chunk} {group moving : List MessageKey}
  {requests : ℕ} {parent : Option ChunkId}

/-- A new chunk has no row yet, so that the insert goes through. -/
theorem Allocated.mem_planted (h : Allocated db parent)
    (hplanted : Planted db db' batch chunk group requests) :
    a ∈ db'.allocations ↔ a ∈ db.allocations ∨
      a = ⟨chunk.id, batch.id, group.length, batch.segments * group.length, requests⟩ := by
  have hfresh : ∀ x ∈ db.allocations.rows, x.chunkId ≠ chunk.id := by
    intro x hx heq
    obtain ⟨c, hc, hid, -⟩ := h.owner x hx
    exact hplanted.fresh c hc (hid.trans heq)
  rw [hplanted.allocations]
  unfold Db.insertAllocation
  rw [dif_pos hfresh]
  exact mem_insertNew_iff hfresh

theorem FromOne.plant (h : FromOne db)
    (hplanted : Planted db db' batch chunk group requests) (hpos : 1 ≤ chunk.chunkNo)
    (hfirst : chunk.chunkNo = 1 ∨
      ∃ d ∈ db.chunks, d.batchId = chunk.batchId ∧ d.chunkNo = 1) : FromOne db' := by
  have hkept : ∀ d ∈ db.chunks, d ∈ db'.chunks := fun d hd => (hplanted.chunks d).mpr (.inl hd)
  constructor
  · intro c hc
    rcases (hplanted.chunks c).mp hc with hc | rfl
    · exact h.pos c hc
    · exact hpos
  · intro c hc
    rcases (hplanted.chunks c).mp hc with hc | rfl
    · obtain ⟨d, hd, hrest⟩ := h.first c hc
      exact ⟨d, hkept d hd, hrest⟩
    · rcases hfirst with hone | ⟨d, hd, hrest⟩
      · exact ⟨c, hc, rfl, hone⟩
      · exact ⟨d, hkept d hd, hrest⟩

theorem Allocated.plant (h : Allocated db parent) (hplan : Plan db moving)
    (hplantable : Plantable db batch chunk group moving)
    (hplanted : Planted db db' batch chunk group requests)
    (hclean : ∀ k ∈ group, db.isExcluded k = false)
    (hsplit : ∀ s, chunk.split = some s → parent = some s.parentChunkId)
    (hrequests : requests = if chunk.chunkNo = 1 then 1 else 0) (hpos : 1 ≤ chunk.chunkNo)
    (hfirst : chunk.chunkNo = 1 ∨
      ∃ d ∈ db.chunks, d.batchId = chunk.batchId ∧ d.chunkNo = 1) : Allocated db' parent := by
  have hexcluded := isExcluded_congr hplanted.exclusions
  refine ⟨?_, ?_, ?_, ?_⟩
  · intro c hc hparent
    rcases (hplanted.chunks c).mp hc with hc | rfl
    · obtain ⟨a, ha⟩ := h.row c hc hparent
      have hmessages : db'.messagesOf c.id = db.messagesOf c.id :=
        Plan.plant_messagesOf_old hplantable hplanted (hplanted.fresh c hc)
          (fun s hs heq => hparent (heq ▸ hsplit s hs))
      have hremaining := remainingOf_congr hplanted.exclusions hmessages
      refine ⟨a, (h.mem_planted hplanted).mpr (.inl ha.mem), ha.chunkId, ha.batchId,
        by rw [hremaining, ha.recipients], ?_, ha.requests⟩
      rw [hplanted.batches, hremaining]
      exact ha.segments
    · have hmessages := hplan.plant_messagesOf_new hplantable hplanted
      have hremaining : db'.remainingOf c.id = group := by
        rw [remainingOf_of_clean, hmessages]
        intro k hk
        rw [hexcluded]
        exact hclean k (hmessages ▸ hk)
      refine ⟨_, (h.mem_planted hplanted).mpr (.inr rfl), rfl, hplantable.batchId.symm,
        by rw [hremaining], fun b hb hid => ?_, hrequests⟩
      rw [hplanted.batches] at hb
      obtain rfl : b = batch := eq_of_key_eq hb hplantable.accepted (hid.trans hplantable.batchId)
      rw [hremaining]
  · intro a ha
    rcases (h.mem_planted hplanted).mp ha with ha | rfl
    · obtain ⟨c, hc, hrest⟩ := h.owner a ha
      exact ⟨c, (hplanted.chunks c).mpr (.inl hc), hrest⟩
    · exact ⟨chunk, (hplanted.chunks chunk).mpr (.inr rfl), rfl, hplantable.batchId, hrequests⟩
  · intro k hk
    rw [hexcluded] at hk
    obtain ⟨m, hm, rfl, hstatus, hlink⟩ := h.excluded k hk
    have hkey : m.key ∉ group := fun hgroup => by simp [hclean _ hgroup] at hk
    exact ⟨m, hplanted.mem_messages.mpr ⟨m, hm, by rw [if_neg hkey]⟩, rfl, hstatus, hlink⟩
  · exact h.fromOne.plant hplanted hpos hfirst

end

/-! ## Preparation -/

section

variable {batch : Batch} {batchSize : ℕ} {rows : List MessageKey} {ids : List ChunkId}

theorem Allocated.prepareLoop (hsorted : rows.SortedLT) {offset : ℕ}
    (h : Allocated db none) (hplan : Plan db (rows.drop offset))
    (hwaiting : Waiting db batch (rows.drop offset))
    (hfirst : offset = 0 ∨ ∃ d ∈ db.chunks, d.batchId = batch.id ∧ d.chunkNo = 1)
    (hloop : prepareLoop batch batchSize rows ids offset db = some db') : Allocated db' none := by
  induction ids generalizing offset db with
  | nil =>
    unfold Send.prepareLoop at hloop
    split at hloop
    · cases hloop
      exact h
    · cases hloop
  | cons id ids ih =>
    obtain ⟨db₁, -, hplanted, hrest⟩ := prepareLoop_cons hloop
    have hdropped : (rows.drop offset).SortedLT :=
      (hsorted.pairwise.sublist (drop_sublist _ _)).sortedLT
    have hplantable := hwaiting.preparedChunk hdropped batchSize offset id
    have hclean : ∀ k ∈ (rows.drop offset).take batchSize, db.isExcluded k = false := by
      intro k hk
      obtain ⟨m, hm, rfl, -, hlink⟩ := hwaiting.stored k (mem_of_mem_take hk)
      exact h.not_excluded hm (.inr hlink)
    have hone : (preparedChunk batch batchSize offset id
        ((rows.drop offset).take batchSize)).chunkNo = 1 ∨
        ∃ d ∈ db.chunks, d.batchId = batch.id ∧ d.chunkNo = 1 := by
      refine hfirst.imp_left (fun hzero => ?_)
      rw [hzero]
      simp [preparedChunk]
    have hallocated := h.plant hplan hplantable hplanted hclean (by rintro s ⟨⟩) rfl
      (Nat.le_add_left 1 _) hone
    obtain ⟨hplan', hwaiting'⟩ := hplan.prepareLoop_step hwaiting hdropped hplanted
    refine ih hallocated hplan' hwaiting' (.inr ?_) hrest
    exact hallocated.fromOne.first _ ((hplanted.chunks _).mpr (.inr rfl))

theorem Allocated.prepare {now : Time} {batchNo : BatchNo} {newIds : List ChunkId}
    {materialized : Bool} (h : Allocated db none) (hplan : Plan db [])
    (hprepare : prepareChunks db now batchNo batchSize newIds materialized = .ok (ids, db')) :
    Allocated db' none := by
  have hbatch : ∀ {db : Db} id f,
      Allocated db none → Allocated (db.setBatch id f) none :=
    fun id f hallocated => hallocated.of_sameRows (quiet_setBatch _ id f).sameRows rfl rfl
  rcases prepareChunks_cases hprepare with
    ⟨batchId, rfl | rfl⟩ | ⟨batch, haccepted, db₁, -, -, hloop, rfl⟩
  · exact h
  · exact hbatch _ _ h
  · exact hbatch _ _ (.prepareLoop (db.sortedLT_messageKeys _) h
      (hplan.mono (by simp)) (waiting_unlinked haccepted) (.inl rfl) hloop)

end

/-! ## Exclusion -/

/-- The list of a chunk without the excluded keys. -/
theorem length_filter_exclude {msgs keys : List MessageKey} {p : MessageKey → Bool}
    (hmsgs : msgs.Nodup) (hkeys : keys.Nodup) (hsub : ∀ k ∈ keys, k ∈ msgs ∧ p k = false) :
    (msgs.filter (fun k => !(p k || decide (k ∈ keys)))).length + keys.length =
      (msgs.filter (fun k => !p k)).length := by
  have hperm : (msgs.filter (fun k => !(p k || decide (k ∈ keys))) ++ keys).Perm
      (msgs.filter (fun k => !p k)) := by
    refine (perm_ext_iff_of_nodup ?_ (hmsgs.filter _)).mpr (fun k => ?_)
    · refine nodup_append.mpr ⟨hmsgs.filter _, hkeys, ?_⟩
      rintro k hk _ hk' rfl
      simp [hk'] at hk
    · by_cases hk : k ∈ keys
      · simp [hk, hsub k hk]
      · simp [hk]
  rw [← length_append, hperm.length_eq]

section

variable (batchId : BatchId) (generation : ℕ)

/-- A pending message that is not excluded yet is taken out. -/
theorem excludeOne_spec (hm : m ∈ db.messages) (hpending : m.status = .pending)
    (hfresh : db.isExcluded m.key = false) : (excludeOne db batchId generation m.key).1 = true ∧
    (∀ k, (excludeOne db batchId generation m.key).2.isExcluded k =
      (db.isExcluded k || decide (k = m.key))) ∧
    (∀ x ∈ db.messages, x.key ≠ m.key → x ∈ (excludeOne db batchId generation m.key).2.messages) ∧
    (∀ x ∈ (excludeOne db batchId generation m.key).2.messages,
      x.key = m.key → x.status ≠ .pending) ∧
    (excludeOne db batchId generation m.key).2.allocations = db.allocations := by
  have hnone : ∀ x ∈ db.exclusions.rows, x.message ≠ m.key := by
    intro x hx heq
    rw [isExcluded_iff.mpr ⟨x, hx, heq⟩] at hfresh
    cases hfresh
  have hcount : 0 < db.messages.rows.countP
      (fun x => decide (x.key = m.key ∧ x.status = .pending)) :=
    countP_pos_iff.mpr ⟨m, hm, by simp [hpending]⟩
  unfold excludeOne
  rw [dif_pos hnone]
  refine ⟨by simpa using hcount, ?_, ?_, ?_, rfl⟩
  · intro k
    simp [Db.isExcluded, Db.setMessages, Table.insertNew, eq_comm]
  · intro x hx hne
    refine mem_apply_iff.mpr ⟨x, hx, row_of_not_applies ?_⟩
    simp [messageStatusUpdate, hne]
  · intro x hx hkey hstatus
    obtain ⟨y, hy, rfl⟩ := mem_apply_iff.mp hx
    by_cases happ : y.key = m.key ∧ y.status = .pending
    · rw [row_of_applies (by simp [messageStatusUpdate, happ])] at hstatus
      cases hstatus
    · rw [row_of_not_applies (decide_eq_false happ)] at hkey hstatus
      exact happ ⟨hkey, hstatus⟩

/-- The loop excludes every message it is given, and counts them. -/
theorem excludeAll_spec {keys : List MessageKey} (hnodup : keys.Nodup)
    (hpending : ∀ k ∈ keys, ∃ m ∈ db.messages, m.key = k ∧ m.status = .pending)
    (hfresh : ∀ k ∈ keys, db.isExcluded k = false) :
    (excludeAll batchId generation keys db).1 = keys.length ∧
    (∀ k, (excludeAll batchId generation keys db).2.isExcluded k =
      (db.isExcluded k || decide (k ∈ keys))) ∧
    (∀ x ∈ (excludeAll batchId generation keys db).2.messages,
      x.key ∈ keys → x.status ≠ .pending) ∧
    (excludeAll batchId generation keys db).2.allocations = db.allocations := by
  induction keys generalizing db with
  | nil => simp [excludeAll]
  | cons key keys ih =>
    obtain ⟨hkey, htail⟩ := nodup_cons.mp hnodup
    obtain ⟨m, hm, rfl, hstatus⟩ := hpending key mem_cons_self
    obtain ⟨htaken, hexcluded, hkept, hdone, hallocations⟩ :=
      excludeOne_spec batchId generation hm hstatus (hfresh m.key mem_cons_self)
    have hne : ∀ k ∈ keys, k ≠ m.key := fun k hk heq => hkey (heq ▸ hk)
    obtain ⟨hcount, hrest, hdone', hallocations'⟩ := ih htail (fun k hk => by
        obtain ⟨x, hx, rfl, hx'⟩ := hpending k (mem_cons_of_mem _ hk)
        exact ⟨x, hkept x hx (hne _ hk), rfl, hx'⟩)
      (fun k hk => by
        rw [hexcluded, hfresh k (mem_cons_of_mem _ hk)]
        simp [hne k hk])
    refine ⟨?_, fun k => ?_, fun x hx hmem => ?_, hallocations'.trans hallocations⟩
    · simp only [excludeAll, htaken, hcount, length_cons]
      simp only [ite_true]
      omega
    · simp [excludeAll]
      rw [hrest, hexcluded]
      simp [Bool.or_assoc]
    · rcases mem_cons.mp hmem with hkey' | hmem
      · obtain ⟨y, hy, hfollows⟩ :=
          (excludeAll_dispatches batchId generation keys _).rows.messages.exists_left hx
        intro hpending'
        exact hdone y hy (hfollows.key_eq.symm.trans hkey') (hfollows.pending hpending')
      · exact hdone' x hx hmem

end

/-! ## Dispatch -/

theorem apply_allocationCut_zero (t : Table Allocation.chunkId) (chunkId : ChunkId) :
    t.apply (allocationCut chunkId 0 0) = t := by
  refine Table.ext ((map_congr_left (fun a _ => ?_)).trans (map_id _))
  unfold Update.row
  split <;> rfl

theorem releaseExcluded_frame (db : Db) (chunkId : ChunkId) (batch : Batch) (excluded : ℕ) :
    (releaseExcluded db chunkId batch excluded).messages = db.messages ∧
    (releaseExcluded db chunkId batch excluded).exclusions = db.exclusions ∧
    (releaseExcluded db chunkId batch excluded).allocations = db.allocations.apply
      (allocationCut chunkId excluded (batch.segments * excluded)) := by
  unfold releaseExcluded
  split
  · rename_i hzero
    rw [hzero, Nat.mul_zero, apply_allocationCut_zero]
    exact ⟨rfl, rfl, rfl⟩
  · rw [calculateQuotaCost, ← batch.segments_eq]
    exact ⟨rfl, rfl, rfl⟩

section

variable {db : Db} {batch : Batch} {keys : List MessageKey}

/-- The keys of a chunk are taken off the chunk and off its row. -/
structure Excludes (db db' : Db) (c : Chunk) (batch : Batch) (keys : List MessageKey) : Prop where
  rows : RowsFollow db db'
  nodup : keys.Nodup
  stored : ∀ k ∈ keys, k ∈ db.messagesOf c.id ∧ db.isExcluded k = false
  excluded : ∀ k, db'.isExcluded k = (db.isExcluded k || decide (k ∈ keys))
  done : ∀ x ∈ db'.messages, x.key ∈ keys → x.status ≠ .pending
  allocations : db'.allocations = db.allocations.apply
    (allocationCut c.id keys.length (batch.segments * keys.length))

theorem Excludes.remainingOf (h : Excludes db db' c batch keys) (id : ChunkId) :
    db'.remainingOf id =
      (db.messagesOf id).filter (fun k => !(db.isExcluded k || decide (k ∈ keys))) := by
  unfold Db.remainingOf
  rw [messagesOf_eq_of_sameRows h.rows.sameRows]
  exact filter_congr (fun k _ => by rw [h.excluded])

theorem Excludes.length_remainingOf (h : Excludes db db' c batch keys) :
    (db'.remainingOf c.id).length = (db.remainingOf c.id).length - keys.length := by
  have hlength := length_filter_exclude (db.sortedLT_messageKeys _).nodup h.nodup h.stored
  rw [h.remainingOf]
  exact Nat.eq_sub_of_add_eq hlength

theorem Excludes.remainingOf_of_ne (h : Excludes db db' c batch keys) (hplan : Plan db [])
    {d : Chunk} (hc : c ∈ db.chunks) (hd : d ∈ db.chunks) (hne : d ≠ c) :
    db'.remainingOf d.id = db.remainingOf d.id := by
  rw [h.remainingOf]
  refine filter_congr (fun k hk => ?_)
  have hkey : k ∉ keys := fun hkey => hplan.disjoint hd hc hne hk (h.stored k hkey).1
  simp [hkey]

theorem Allocated.excludes (h : Allocated db none) (hplan : Plan db []) (hc : c ∈ db.chunks)
    (hbatch : batch ∈ db.batches) (hid : batch.id = c.batchId)
    (hexcludes : Excludes db db' c batch keys) : Allocated db' none := by
  have hrows := hexcludes.rows.sameRows
  refine ⟨?_, ?_, ?_, ?_⟩
  · intro d' hd' hnone
    obtain ⟨d, hd, hsame⟩ := hrows.chunks.exists_left hd'
    obtain ⟨a, ha⟩ := h.row d hd (by simp)
    have hmem := row_mem_apply (u := allocationCut c.id keys.length
      (batch.segments * keys.length)) ha.mem
    rw [← hexcludes.allocations] at hmem
    by_cases hdc : d = c
    · subst hdc
      rw [row_of_applies (by simp [allocationCut, ha.chunkId])] at hmem
      refine ⟨_, ha.of_sameRows hrows hsame hmem ⟨rfl, rfl, rfl⟩ ?_ (fun b hb hid' => ?_)⟩
      · rw [hexcludes.length_remainingOf, ← ha.recipients]
        rfl
      · obtain rfl : b = batch := eq_of_key_eq hb hbatch (hid'.trans hid.symm)
        rw [hexcludes.length_remainingOf, Nat.mul_sub, ← ha.segments b hb hid']
        rfl
    · have hchunk : a.chunkId ≠ c.id := by
        intro heq
        exact hdc (eq_of_key_eq hd hc (ha.chunkId.symm.trans heq))
      rw [row_of_not_applies (by simp [allocationCut, hchunk])] at hmem
      have hremaining := hexcludes.remainingOf_of_ne hplan hc hd hdc
      refine ⟨a, ha.of_sameRows hrows hsame hmem ⟨rfl, rfl, rfl⟩ ?_ ?_⟩ <;> rw [hremaining]
      · exact ha.recipients
      · exact ha.segments
  · intro a' ha'
    rw [hexcludes.allocations] at ha'
    obtain ⟨a, ha, rfl⟩ := mem_apply_iff.mp ha'
    refine (h.owner a ha).of_sameRows hrows (key_row _ a) ?_ ?_ <;>
      unfold Update.row <;> split <;> rfl
  · intro k hk
    rw [hexcludes.excluded, Bool.or_eq_true, decide_eq_true_eq] at hk
    rcases hk with hk | hk
    · obtain ⟨m, hm, hkey, hstatus, hlink⟩ := h.excluded k hk
      obtain ⟨m', hm', hfollows⟩ := hrows.messages.exists_right hm
      exact ⟨m', hm', hfollows.key_eq.trans hkey, fun hp => hstatus (hfollows.pending hp),
        hfollows.chunkId_eq ▸ hlink⟩
    · obtain ⟨m, hm, hlink, rfl⟩ := mem_messagesOf.mp (hexcludes.stored k hk).1
      obtain ⟨m', hm', hfollows⟩ := hrows.messages.exists_right hm
      refine ⟨m', hm', hfollows.key_eq, hexcludes.done m' hm' (hfollows.key_eq ▸ hk), ?_⟩
      rw [hfollows.chunkId_eq, hlink]
      simp
  · exact h.fromOne.of_sameRows hrows

/-- The blacklisted messages of a chunk are excluded. -/
theorem Allocated.excludes_blacklisted (h : Allocated db none) (c : Chunk) (batch : Batch) :
    Excludes db (excludeBlacklisted db c.id batch).2 c batch
      ((pendingMessages db c.id).filter (isBlacklisted db c.id)) := by
  have hrows : RowsFollow db (excludeBlacklisted db c.id batch).2 :=
    ((excludeAll_dispatches _ _ _ db).trans (releaseExcluded_dispatches _ _ _ _)).rows
  have hnodup : ((pendingMessages db c.id).filter (isBlacklisted db c.id)).Nodup :=
    (db.sortedLT_messageKeys _).nodup.filter _
  have hpending : ∀ k ∈ (pendingMessages db c.id).filter (isBlacklisted db c.id),
      ∃ m ∈ db.messages, m.key = k ∧ m.status = .pending ∧ m.chunkId = some c.id := by
    intro k hk
    obtain ⟨m, hm, hp, hkey⟩ := mem_messageKeys.mp (mem_filter.mp hk).1
    rw [decide_eq_true_eq] at hp
    exact ⟨m, hm, hkey, hp.2, hp.1⟩
  have hfresh : ∀ k ∈ (pendingMessages db c.id).filter (isBlacklisted db c.id),
      db.isExcluded k = false := by
    intro k hk
    obtain ⟨m, hm, rfl, hstatus, -⟩ := hpending k hk
    exact h.not_excluded hm (.inl hstatus)
  obtain ⟨hcount, hexcluded, hdone, hallocations⟩ :=
    excludeAll_spec batch.id db.blacklistGeneration hnodup
      (fun k hk => (hpending k hk).imp (fun m hm => ⟨hm.1, hm.2.1, hm.2.2.1⟩)) hfresh
  have hrelease : (excludeBlacklisted db c.id batch).2 = releaseExcluded _ c.id batch _ := rfl
  obtain ⟨hmessages, hexclusions, hcut⟩ := releaseExcluded_frame (excludeAll batch.id
    db.blacklistGeneration ((pendingMessages db c.id).filter (isBlacklisted db c.id)) db).2 c.id
    batch (excludeAll batch.id db.blacklistGeneration
      ((pendingMessages db c.id).filter (isBlacklisted db c.id)) db).1
  rw [← hrelease] at hmessages hexclusions hcut
  refine ⟨hrows, hnodup, fun k hk => ⟨?_, hfresh k hk⟩, fun k => ?_, ?_, ?_⟩
  · obtain ⟨m, hm, hkey, -, hlink⟩ := hpending k hk
    exact mem_messagesOf.mpr ⟨m, hm, hlink, hkey⟩
  · rw [isExcluded_congr hexclusions, hexcluded]
  · rw [hmessages]
    exact hdone
  · rw [hcut, hallocations, hcount]

theorem Allocated.dispatch (h : Allocated db none) (hplan : Plan db []) {appFlag : Option Bool}
    {decision : DispatchDecision}
    (hdispatch : decideDispatch db chunkId appFlag = .ok (decision, db')) : Allocated db' none := by
  have hsettled : ∀ {db : Db} {c : Chunk}, c.state.isPreSend = true → Allocated db none →
      Allocated (settleBatch (failUnchunked db chunkId c.state.status) c.batchId) none := by
    intro db c hpre hallocated
    have hquiet : Quiet db (settleBatch (failUnchunked db chunkId c.state.status) c.batchId) :=
      (quietWrite_failUnchunked hpre).quiet.trans (quiet_setBatch _ _ _)
    exact hallocated.of_sameRows hquiet.sameRows hquiet.exclusions hquiet.allocations
  unfold decideDispatch at hdispatch
  dsimp only at hdispatch
  split at hdispatch
  · cases hdispatch
  rename_i ctx hlock
  obtain ⟨hc, rfl, hbatch, hid, -⟩ := lockSendContext_eq_some hlock
  split at hdispatch
  · cases hdispatch
    exact h
  rename_i hpre
  have hpre : ctx.chunk.state.isPreSend = true := by simpa using hpre
  split at hdispatch
  · cases hdispatch
    rw [hid]
    exact hsettled hpre h
  split at hdispatch
  · cases hdispatch
    exact h
  have hexcluded := h.excludes hplan hc hbatch hid (h.excludes_blacklisted ctx.chunk ctx.batch)
  split at hdispatch
  · cases hdispatch
    rw [hid]
    exact hsettled hpre hexcluded
  · cases hdispatch
    exact hexcluded

end

/-! ## Splits -/

theorem le_foldl_max (xs : List ℕ) (x₀ : ℕ) :
    x₀ ≤ xs.foldl max x₀ ∧ ∀ x ∈ xs, x ≤ xs.foldl max x₀ := by
  induction xs generalizing x₀ with
  | nil => simp
  | cons x xs ih =>
    obtain ⟨hstart, hall⟩ := ih (max x₀ x)
    refine ⟨le_trans (le_max_left _ _) hstart, fun y hy => ?_⟩
    rcases mem_cons.mp hy with rfl | hy
    · exact le_trans (le_max_right _ _) hstart
    · exact hall y hy

theorem chunkNo_lt_nextChunkNo (hc : c ∈ db.chunks) : c.chunkNo < nextChunkNo db c.batchId := by
  have hmem : c.chunkNo ∈ ((db.chunks.rows.filter (fun d =>
      decide (d.batchId = c.batchId))).map Chunk.chunkNo) :=
    mem_map.mpr ⟨c, mem_filter.mpr ⟨hc, by simp⟩, rfl⟩
  exact Nat.lt_succ_of_le ((le_foldl_max _ 0).2 _ hmem)

theorem Allocated.weaken (h : Allocated db none) (parent : Option ChunkId) : Allocated db parent :=
  { h with row := fun c hc _ => h.row c hc (by simp) }

section

variable {db : Db} {id₁ id₂ : ChunkId}

/-- The row of the parent is there all along, out of date. -/
theorem Allocated.last (h : Allocated db none) (hplan : Plan db []) (hc : c ∈ db.chunks)
    (hclean : ∀ k ∈ db.messagesOf c.id, db.isExcluded k = false)
    (hhalves : Halves db db' c.asParent id₁ id₂) :
    Allocated hhalves.last (some c.id) ∧ hhalves.last.exclusions = db.exclusions ∧
    ∃ a ∈ hhalves.last.allocations, a.chunkId = c.id := by
  obtain ⟨hplan₁, hplantable₁, hplan₂, hplantable₂, -⟩ := hplan.halves_steps hc hhalves
  have hquiet := hhalves.quiet
  have h₁ : Allocated hhalves.closed (some c.id) :=
    (h.of_sameRows hquiet.sameRows hquiet.exclusions hquiet.allocations).weaken _
  obtain ⟨c₁, hc₁, hsame⟩ := hquiet.sameRows.chunks.exists_right hc
  have hnumber : 1 < nextChunkNo hhalves.closed c.batchId := by
    rw [← hsame.batchId_eq]
    exact lt_of_le_of_lt (h₁.fromOne.pos c₁ hc₁) (chunkNo_lt_nextChunkNo hc₁)
  have hfirst : ∃ d ∈ hhalves.closed.chunks, d.batchId = c.batchId ∧ d.chunkNo = 1 := by
    rw [← hsame.batchId_eq]
    exact h₁.fromOne.first c₁ hc₁
  have hclean₁ : ∀ k ∈ db.messagesOf c.id, hhalves.closed.isExcluded k = false := by
    intro k hk
    rw [isExcluded_congr hquiet.exclusions]
    exact hclean k hk
  have hclean₂ : ∀ k ∈ db.messagesOf c.id, hhalves.middle.isExcluded k = false := by
    intro k hk
    rw [isExcluded_congr hhalves.first.exclusions]
    exact hclean₁ k hk
  have h₂ : Allocated hhalves.middle (some c.id) := by
    refine h₁.plant hplan₁ hplantable₁ hhalves.first
      (fun k hk => hclean₁ k ((firstHalf_sublist _).subset hk)) (by rintro s ⟨⟩; rfl) ?_
      (le_of_lt hnumber) (.inr hfirst)
    exact (if_neg (ne_of_gt hnumber)).symm
  have h₃ : Allocated hhalves.last (some c.id) := by
    refine h₂.plant hplan₂ hplantable₂ hhalves.second
      (fun k hk => hclean₂ k (mem_of_mem_drop hk)) (by rintro s ⟨⟩; rfl) ?_
      (Nat.le_add_left 1 _) (.inr ?_)
    · exact (if_neg (by simp only [childChunk]; omega)).symm
    · obtain ⟨d, hd, hrest⟩ := hfirst
      exact ⟨d, (hhalves.first.chunks d).mpr (.inl hd), hrest⟩
  obtain ⟨a, ha⟩ := h.row c hc (by simp)
  refine ⟨h₃, ?_, a, ?_, ha.chunkId⟩
  · rw [hhalves.second.exclusions, hhalves.first.exclusions, hquiet.exclusions]
  · exact (h₂.mem_planted hhalves.second).mpr (.inl ((h₁.mem_planted hhalves.first).mpr
      (.inl (hquiet.allocations ▸ ha.mem))))

/-- Where nothing is excluded, a split moves the row of the parent to the halves. -/
theorem Allocated.halves (h : Allocated db none) (hplan : Plan db []) (hc : c ∈ db.chunks)
    (hclean : ∀ k ∈ db.messagesOf c.id, db.isExcluded k = false)
    (hhalves : Halves db db' c.asParent id₁ id₂) : Allocated db' none := by
  obtain ⟨hlast, -, a₀, ha₀, hid₀⟩ := h.last hplan hc hclean hhalves
  have hempty : hhalves.last.messagesOf c.id = [] := by
    have hmessages := (hplan.halves hc hhalves).2.2.2
    rw [hhalves.cleared] at hmessages
    exact hmessages
  have hrow : ∀ a ∈ hhalves.last.allocations, ∃ a' ∈
      (hhalves.last.allocations.apply (allocationClear c.id)),
      a' = if a.chunkId = c.id then { a with recipientCount := 0, segmentCount := 0 } else a := by
    intro a ha
    refine ⟨_, row_mem_apply ha, ?_⟩
    simp [Update.row, allocationClear]
  rw [hhalves.cleared]
  refine ⟨?_, ?_, hlast.excluded, ⟨hlast.fromOne.pos, hlast.fromOne.first⟩⟩
  · intro d hd _
    by_cases hdc : d.id = c.id
    · obtain ⟨a', ha', heq⟩ := hrow a₀ ha₀
      rw [if_pos hid₀] at heq
      obtain ⟨e, he, heid, hebatch, hrequests⟩ := hlast.owner a₀ ha₀
      obtain rfl : d = e := eq_of_key_eq hd he (hdc.trans (hid₀.symm.trans heid.symm))
      have hremaining : hhalves.last.remainingOf d.id = [] := by
        rw [Db.remainingOf, hdc, hempty]
        rfl
      refine ⟨a', ha', ?_, ?_, ?_, fun b _ _ => ?_, ?_⟩
      · rw [heq]
        exact heid.symm
      · rw [heq]
        exact hebatch.symm
      · rw [heq]
        exact (congrArg List.length hremaining).symm
      · rw [heq]
        change 0 = b.segments * (hhalves.last.remainingOf d.id).length
        rw [hremaining]
        rfl
      · rw [heq]
        exact hrequests
    · obtain ⟨a, ha⟩ := hlast.row d hd (fun heq => hdc (Option.some.inj heq).symm)
      obtain ⟨a', ha', heq⟩ := hrow a ha.mem
      rw [if_neg (fun hchunk => hdc (ha.chunkId.symm.trans hchunk))] at heq
      subst heq
      exact ⟨a', ha', ha.chunkId, ha.batchId, ha.recipients, ha.segments, ha.requests⟩
  · intro a' ha'
    obtain ⟨a, ha, rfl⟩ := mem_apply_iff.mp ha'
    refine (hlast.owner a ha).of_sameRows
      { (RowsFollow.refl hhalves.last).sameRows with } (key_row _ a) ?_ ?_ <;>
      unfold Update.row <;> split <;> rfl

theorem Planted.mem_messagesOf {batch : Batch} {chunk : Chunk} {group : List MessageKey}
    {requests : ℕ} (h : Planted db db' batch chunk group requests) {id : ChunkId}
    (hid : id ≠ chunk.id) (hk : k ∈ db'.messagesOf id) : k ∈ db.messagesOf id := by
  obtain ⟨m', hm', hlink, rfl⟩ := Db.mem_messagesOf.mp hk
  obtain ⟨m, hm, rfl⟩ := h.mem_messages.mp hm'
  by_cases hkey : m.key ∈ group
  · rw [if_pos hkey] at hlink
    exact absurd (Option.some.inj hlink).symm hid
  · rw [if_neg hkey] at hlink ⊢
    exact Db.mem_messagesOf.mpr ⟨m, hm, hlink, rfl⟩

/-- A split gives no chunk that is already there new messages. -/
theorem Halves.mem_messagesOf (h : Halves db db' c.asParent id₁ id₂) {d : Chunk}
    (hd : d ∈ db.chunks) (hk : k ∈ db'.messagesOf d.id) : k ∈ db.messagesOf d.id := by
  rw [h.cleared] at hk
  obtain ⟨d₁, hd₁, hsame⟩ := h.quiet.sameRows.chunks.exists_right hd
  have hne₁ : d.id ≠ id₁ := hsame.id_eq ▸ h.first.fresh d₁ hd₁
  have hne₂ : d.id ≠ id₂ := hsame.id_eq ▸ h.second.fresh d₁ ((h.first.chunks d₁).mpr (.inl hd₁))
  rw [← messagesOf_eq_of_sameRows h.quiet.sameRows]
  exact h.first.mem_messagesOf hne₁ (h.second.mem_messagesOf hne₂ hk)

theorem existingSplitChildren_eq_nil {parent : ChunkId} : existingSplitChildren db parent = [] ↔
    ∀ c ∈ db.chunks, isChildOf parent c = false := by
  rw [existingSplitChildren, map_eq_nil_iff, ← length_eq_zero_iff, length_insertionSort,
    length_eq_zero_iff, filter_eq_nil_iff]
  exact forall₂_congr (fun _ _ => Bool.eq_false_iff.symm)

theorem Halves.children_ne_nil (h : Halves db db' c.asParent id₁ id₂) :
    existingSplitChildren db' c.id ≠ [] := by
  intro hnil
  rw [h.cleared] at hnil
  have hchild := existingSplitChildren_eq_nil.mp hnil _ ((h.second.chunks _).mpr (.inr rfl))
  simp [isChildOf, childChunk, Chunk.asParent] at hchild

theorem Allocated.split {registry : Registry} {answer : SplitAnswer} (h : Allocated db none)
    (hplan : Plan db []) (hclean : existingSplitChildren db chunkId = [] →
      existingSplitChildren db' chunkId ≠ [] → ∀ k ∈ db.messagesOf chunkId, db.isExcluded k = false)
    (hstep : db.next registry (.split chunkId answer) = some db') :
    Allocated db' none ∧ db'.exclusions = db.exclusions ∧
    ∀ d ∈ db.chunks, ∀ k ∈ db'.messagesOf d.id, k ∈ db.messagesOf d.id := by
  obtain ⟨c, hc, rfl, ids, hsplit⟩ := split_eq_some hstep
  rcases completeVendorSplit_halves hsplit with rfl | rfl | ⟨hnone, ⟨hhalves⟩⟩
  · exact ⟨h, rfl, fun _ _ _ => id⟩
  · have hsame := markSplitCapacityBlocked_sameRows db c.id
    obtain ⟨hexclusions, hallocations⟩ := markSplitCapacityBlocked_frame db c.id
    exact ⟨h.of_sameRows hsame hexclusions hallocations, hexclusions,
      fun d _ k hk => messagesOf_eq_of_sameRows hsame d.id ▸ hk⟩
  · have hclean := hclean hnone hhalves.children_ne_nil
    refine ⟨h.halves hplan hc hclean hhalves, ?_, fun d hd k => hhalves.mem_messagesOf hd⟩
    have hexclusions := (h.last hplan hc hclean hhalves).2.1
    rw [hhalves.cleared]
    exact hexclusions

end

/-! ## Every step -/

/-- A chunk that has got its halves between two states held no excluded message. -/
def CutsClean (db db' : Db) : Prop :=
  ∀ parent, existingSplitChildren db parent = [] → existingSplitChildren db' parent ≠ [] →
    ∀ k ∈ db.messagesOf parent, db.isExcluded k = false

/-- No chunk is split that holds an excluded message. -/
def SplitsClean (registry : Registry) (db : Db) (action : Action) : Prop :=
  ∀ db', db.next registry action = some db' → CutsClean db db'

theorem ChunksStay.children_eq_nil {parent : ChunkId} (h : ChunksStay db db')
    (hnil : existingSplitChildren db' parent = []) : existingSplitChildren db parent = [] := by
  refine existingSplitChildren_eq_nil.mpr (fun c hc => ?_)
  obtain ⟨c', hc', hsame, -⟩ := h c hc
  have hchild := existingSplitChildren_eq_nil.mp hnil c' hc'
  rw [hsame] at hchild
  exact hchild

/-- What a pass over waiting chunks keeps, seen from the state it started in. -/
structure PassFrom (db db₁ : Db) : Prop where
  allocated : Allocated db₁ none
  plan : Plan db₁ []
  exclusions : db₁.exclusions = db.exclusions
  messages : ∀ c ∈ db.chunks, ∀ k ∈ db₁.messagesOf c.id, k ∈ db.messagesOf c.id

theorem PassFrom.split {registry : Registry} {db₁ db₂ : Db} {answer : SplitAnswer}
    (h : PassFrom db db₁) (hstay : ChunksStay db db₁) (hc : c ∈ db.chunks)
    (hclean : CutsClean db db₂)
    (hstep : db₁.next registry (.split c.id answer) = some db₂) : PassFrom db db₂ := by
  obtain ⟨hallocated, hexclusions, hmessages⟩ := h.allocated.split h.plan
    (fun hnone hsome k hk => by
      rw [isExcluded_congr h.exclusions]
      exact hclean c.id (hstay.children_eq_nil hnone) hsome k (h.messages c hc k hk)) hstep
  refine ⟨hallocated, h.plan.split hstep, hexclusions.trans h.exclusions,
    fun d hd k hk => h.messages d hd k ?_⟩
  obtain ⟨d₁, hd₁, hsame, -⟩ := hstay d hd
  have hmem := hmessages d₁ hd₁ k
  rw [hsame.id_eq] at hmem
  exact hmem hk

theorem allocated_step {registry : Registry} {action : Action} (h : Allocated db none)
    (hplan : Plan db []) (hok : SplitsClean registry db action)
    (hstep : db.next registry action = some db') : Allocated db' none := by
  by_cases hquiet : action.changesPlan = false
  · have hquiet := quiet_of_step hquiet hstep
    exact h.of_sameRows hquiet.sameRows hquiet.exclusions hquiet.allocations
  cases action with
  | accept batch phones now => exact h.accept hplan hstep
  | prepare now batchNo batchSize newIds materialized =>
    obtain ⟨ids, hprepare⟩ := committed_eq_some hstep
    exact h.prepare hplan hprepare
  | split chunkId answer => exact (h.split hplan (hok db' hstep chunkId) hstep).1
  | retrySplits answers =>
    -- halves are not taken back, so what is clean at the end was clean all along
    have hpass := retrySplits_preserves
      (P := fun db₁ => ChunksStay db db₁ ∧ (CutsClean db db₁ → PassFrom db db₁))
      ⟨.refl db, fun _ => ⟨h, hplan, rfl, fun _ _ _ => id⟩⟩ hstep
      (fun c hc _ db₁ _ db₂ ⟨hstay, hfrom⟩ hsplit => by
        have hstay₂ := chunksStay_of_split hsplit
        refine ⟨hstay.trans hstay₂, fun hclean => (hfrom ?_).split hstay hc hclean hsplit⟩
        exact fun parent hnone hsome => hclean parent hnone (mt hstay₂.children_eq_nil hsome))
    exact (hpass.2 (hok db' hstep)).allocated
  | dispatch chunkId appFlag =>
    obtain ⟨decision, hdispatch⟩ := committed_eq_some hstep
    exact h.dispatch hplan hdispatch
  | _ => exact absurd rfl hquiet

end SmsPlatform.Send
