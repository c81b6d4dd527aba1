import SmsPlatform.Send.AttemptSteps

/-!
# Blocking attempts

An attempt whose call may have been accepted blocks further calls for its chunk.  A
chunk never has more than one such attempt, and none that is being invoked while it
waits for split capacity.
-/

namespace SmsPlatform.Send

open Support Vendor Table

def SoleBlocking (db : Db) : Prop :=
  ∀ a ∈ db.attempts, ∀ b ∈ db.attempts, a.chunkId = b.chunkId →
    a.outcome.isBlocking = true → b.outcome.isBlocking = true → a = b

def IdleWhenBlocked (db : Db) : Prop :=
  ∀ c ∈ db.chunks, c.state.status = .splitCapacityBlocked →
    ∀ a ∈ db.attempts, a.chunkId = c.id → a.outcome ≠ .invoking

/-! ## Where attempts come from -/

/-- A row of the table after a step is an old row, perhaps settled, with its identity.
Attempts that were not blocking are not changed. -/
structure Attempt.Later (a a' : Attempt) : Prop where
  id : a'.id = a.id
  chunkId : a'.chunkId = a.chunkId
  generation : a'.generation = a.generation
  blocking : a'.outcome.isBlocking = true → a.outcome.isBlocking = true
  invoking : a'.outcome = .invoking → a.outcome = .invoking

variable {action : Action} {x : Attempt} {db db' : Db} {registry : Registry}

theorem Attempt.Later.refl (a : Attempt) : a.Later a := ⟨rfl, rfl, rfl, fun h => h, fun h => h⟩

theorem Attempt.Later.settledWith {a : Attempt} {s : Settlement} (ha : a.outcome = .invoking)
    (hs : s.outcome ≠ .invoking) : a.Later (a.settledWith s) :=
  ⟨rfl, rfl, rfl, fun _ => by rw [ha]; rfl, fun h => absurd h hs⟩

theorem SoleBlocking.of_later (h : SoleBlocking db)
    (hlater : ∀ x ∈ db'.attempts, x.outcome.isBlocking = true → ∃ a ∈ db.attempts, a.Later x) :
    SoleBlocking db' := by
  intro x hx y hy hchunk hxb hyb
  obtain ⟨a, ha, hax⟩ := hlater x hx hxb
  obtain ⟨b, hb, hby⟩ := hlater y hy hyb
  have heq : a = b := by
    refine h a ha b hb ?_ (hax.blocking hxb) (hby.blocking hyb)
    rw [← hax.chunkId, hchunk, hby.chunkId]
  refine eq_of_key_eq hx hy ?_
  rw [hax.id, heq, hby.id]

/-- A chunk that waits for capacity has waited before, or it has just been split. -/
theorem Descends.blocked {parent : Option ChunkId} (h : Descends db db' parent) {c' : Chunk}
    (hc' : c' ∈ db'.chunks) (hstatus : c'.state.status = .splitCapacityBlocked) :
    ∃ c ∈ db.chunks, c'.id = c.id ∧
    (c.state.status = .splitCapacityBlocked ∨ parent = some c.id) := by
  rcases h c' hc' with ⟨c, hc, hsame, hblocked⟩ | ⟨hstate, -⟩
  · exact ⟨c, hc, hsame.id_eq, hblocked hstatus⟩
  · rw [hstate] at hstatus
    cases hstatus

theorem IdleWhenBlocked.of_later (h : IdleWhenBlocked db) (hdescends : Descends db db' none)
    (hlater : ∀ x ∈ db'.attempts, x.outcome = .invoking → ∃ a ∈ db.attempts, a.Later x) :
    IdleWhenBlocked db' := by
  intro c' hc' hstatus x hx hchunk hinvoking
  obtain ⟨c, hc, hid, hstatus'⟩ := hdescends.blocked hc' hstatus
  obtain ⟨a, ha, hlater⟩ := hlater x hx hinvoking
  refine h c hc (hstatus'.resolve_right (by simp)) a ha ?_ (hlater.invoking hinvoking)
  rw [← hlater.chunkId, hchunk, hid]

theorem Settles.later {a : Attempt} {s : Settlement} (h : Settles db db' a s)
    (hx : x ∈ db'.attempts) : ∃ y ∈ db.attempts, y.Later x := by
  rcases (h.rows x).mp hx with ⟨hx, -⟩ | rfl
  · exact ⟨x, hx, .refl x⟩
  refine ⟨a, h.mem, .settledWith h.invoking (fun hinvoking => ?_)⟩
  have hresult := h.result
  rw [hinvoking] at hresult
  revert hresult
  decide

theorem recoverStalled_later {now : Time} (hx : x ∈ (recoverStalled db now).attempts) :
    ∃ y ∈ db.attempts, y.Later x := by
  rcases mem_recoverStalled hx with hx | ⟨a, ha, hinvoking, s, hs, rfl⟩
  · exact ⟨x, hx, .refl x⟩
  · obtain ⟨-, -, -, -, hne, -⟩ := recoveredOutcome_eq_some hs
    exact ⟨a, ha, .settledWith hinvoking hne⟩

/-- The attempts of the parent are settled, all others stay. -/
theorem Cuts.mem_attempts {parent : ChunkId} (h : Cuts db db' parent) (hx : x ∈ db'.attempts) :
    x ∈ db.attempts ∧ (x.chunkId = parent → x.outcome ≠ .invoking) ∨
      ∃ a ∈ db.attempts, a.outcome = .invoking ∧ a.chunkId = parent ∧
        x = a.settledWith ⟨.rejected, a.safeToFailover, some 1006⟩ := by
  rw [h.attempts] at hx
  obtain ⟨a, ha, rfl⟩ := mem_apply_iff.mp hx
  by_cases hinvoking : a.outcome = .invoking
  · by_cases hchunk : a.chunkId = parent
    · exact .inr ⟨a, ha, hinvoking, hchunk, attemptUpdate_row_of_some hinvoking (by simp [hchunk])⟩
    · rw [attemptUpdate_row_of_none (by simp [hchunk])]
      exact .inl ⟨ha, fun heq => absurd heq hchunk⟩
  · rw [attemptUpdate_row_of_ne hinvoking]
    exact .inl ⟨ha, fun _ => hinvoking⟩

theorem Cuts.later {parent : ChunkId} (h : Cuts db db' parent) (hx : x ∈ db'.attempts) :
    ∃ y ∈ db.attempts, y.Later x := by
  rcases h.mem_attempts hx with ⟨hx, -⟩ | ⟨a, ha, hinvoking, -, rfl⟩
  · exact ⟨x, hx, .refl x⟩
  · exact ⟨a, ha, .settledWith hinvoking (by simp)⟩

/-! ## Both invariants -/

theorem SoleBlocking.attemptStep (h : SoleBlocking db) (hstep : AttemptStep db db' action) :
    SoleBlocking db' := by
  cases hstep with
  | same _ _ attempts => exact h.of_later (fun x hx _ => ⟨x, attempts ▸ hx, .refl x⟩)
  | opened a hopens =>
    intro x hx y hy hchunk hxb hyb
    rcases (hopens.rows x).mp hx with hx | rfl <;> rcases (hopens.rows y).mp hy with hy | rfl
    · exact h x hx y hy hchunk hxb hyb
    · exact absurd hxb (by rw [hopens.clear x hx hchunk]; decide)
    · exact absurd hyb (by rw [hopens.clear y hy hchunk.symm]; decide)
    · rfl
  | noted a hnotes =>
    refine h.of_later (fun x hx hblocking => ?_)
    rcases (hnotes.rows x).mp hx with hx | rfl
    · exact ⟨x, hx, .refl x⟩
    · rw [hnotes.cancelled] at hblocking
      cases hblocking
  | settled a s _ hsettles => exact h.of_later (fun x hx _ => hsettles.later hx)
  | recovered now _ hrecover =>
    subst hrecover
    exact h.of_later (fun x hx _ => recoverStalled_later hx)
  | cut parent _ _ hcuts => exact h.of_later (fun x hx _ => hcuts.later hx)

theorem IdleWhenBlocked.attemptStep (h : IdleWhenBlocked db) (hstep : AttemptStep db db' action) :
    IdleWhenBlocked db' := by
  cases hstep with
  | same _ descends attempts =>
    exact h.of_later descends (fun x hx _ => ⟨x, attempts ▸ hx, .refl x⟩)
  | opened a hopens =>
    intro c hc hstatus x hx hchunk hinvoking
    rcases (hopens.rows x).mp hx with hx | rfl
    · obtain ⟨c₀, hc₀, hid, hstatus₀⟩ := hopens.quiet.descends.blocked hc hstatus
      exact h c₀ hc₀ (hstatus₀.resolve_right (by simp)) x hx (hchunk.trans hid) hinvoking
    obtain ⟨d, hd, hdid, hsubmitting⟩ := hopens.chunk
    obtain rfl : d = c := eq_of_key_eq hd hc (hdid.trans hchunk)
    rw [hsubmitting] at hstatus
    cases hstatus
  | noted a hnotes =>
    refine h.of_later hnotes.quiet.descends (fun x hx hinvoking => ?_)
    rcases (hnotes.rows x).mp hx with hx | rfl
    · exact ⟨x, hx, .refl x⟩
    · rw [hnotes.cancelled] at hinvoking
      cases hinvoking
  | settled a s _ hsettles =>
    exact h.of_later hsettles.quiet.descends (fun x hx _ => hsettles.later hx)
  | recovered now _ hrecover =>
    subst hrecover
    exact h.of_later (quiet_recoverStalled db now).descends (fun x hx _ => recoverStalled_later hx)
  | cut parent _ _ hcuts =>
    intro c' hc' hstatus x hx hchunk hinvoking
    rcases hcuts.mem_attempts hx with ⟨hx, hparent⟩ | ⟨a, -, -, -, rfl⟩
    · obtain ⟨c, hc, hid, hwaited | hcut⟩ := hcuts.origin.blocked hc' hstatus
      · exact h c hc hwaited x hx (hchunk.trans hid) hinvoking
      · exact hparent (hchunk.trans (hid.trans (Option.some.inj hcut).symm)) hinvoking
    · cases hinvoking

theorem blocking_step (h : SoleBlocking db ∧ IdleWhenBlocked db)
    (hstep : db.next registry action = some db') : SoleBlocking db' ∧ IdleWhenBlocked db' := by
  by_cases hpass : ∃ answers, action = .retrySplits answers
  · obtain ⟨answers, rfl⟩ := hpass
    refine retrySplits_preserves (P := fun db => SoleBlocking db ∧ IdleWhenBlocked db) h hstep
      (fun c _ _ db₁ answer db₂ h₁ hsplit => ?_)
    have hstep₁ := attemptStep_of_step (by simp) hsplit
    exact ⟨h₁.1.attemptStep hstep₁, h₁.2.attemptStep hstep₁⟩
  · have hstep' := attemptStep_of_step (fun answers hans => hpass ⟨answers, hans⟩) hstep
    exact ⟨h.1.attemptStep hstep', h.2.attemptStep hstep'⟩

theorem blocking_of_reachable (h : (store registry).Reachable db) :
    SoleBlocking db ∧ IdleWhenBlocked db := by
  refine h.invariant (I := fun db => SoleBlocking db ∧ IdleWhenBlocked db) ?_
    (fun _ _ _ => blocking_step)
  rintro _ rfl
  exact ⟨fun a ha => absurd ha (not_mem_empty a), fun c hc => absurd hc (not_mem_empty c)⟩

/-- A pass over waiting chunks finds no call to settle. -/
theorem attempts_retrySplits {answers : List SplitAnswer} (h : IdleWhenBlocked db)
    (hstep : db.next registry (.retrySplits answers) = some db') : db'.attempts = db.attempts := by
  refine retrySplits_preserves (P := fun db₁ => db₁.attempts = db.attempts) rfl hstep ?_
  intro c hc hblocked db₁ answer db₂ hsame hsplit
  obtain ⟨c₁, -, hid, ids, hsplit⟩ := split_eq_some hsplit
  rcases completeVendorSplit_cases hsplit with rfl | hcuts
  · exact hsame
  rw [hcuts.attempts, ← hsame]
  refine Table.ext ((List.map_congr_left (fun a ha => ?_)).trans (List.map_id _))
  have ha : a ∈ db.attempts := hsame ▸ ha
  by_cases hchunk : a.chunkId = c₁.id
  · exact attemptUpdate_row_of_ne (h c hc hblocked a ha (hchunk.trans hid))
  · exact attemptUpdate_row_of_none (by simp [Chunk.asParent, hchunk])

end SmsPlatform.Send
