import SmsPlatform.Send.Blocking
import SmsPlatform.Send.Worker

/-!
# Workers and the attempts they hold

From the transaction that opens an attempt to the one that settles it, the attempt is
held by one worker.  As long as it is held it blocks, and it is settled as anything
but a possible acceptance only if its call, if there was one, ended with an error of
the vendor.
-/

namespace SmsPlatform.Send

open Support Vendor Table

/-! ## Attempts across a step -/

/-- Attempts stay, and blocking ones stay blocking but for the one that is settled. -/
def Keeps (db db' : Db) (settled : Option AttemptId) : Prop :=
  ∀ a ∈ db.attempts, ∃ a' ∈ db'.attempts, a'.id = a.id ∧ a'.chunkId = a.chunkId ∧
    a'.generation = a.generation ∧
    (settled ≠ some a.id → a.outcome.isBlocking = true → a'.outcome.isBlocking = true)

variable {chunkId : ChunkId} {db db' : Db} {auth : InvokeAuthorization} {calls : List Call}
  {settled : Option AttemptId} {pc : Pc}

theorem Keeps.of_mem (h : ∀ a ∈ db.attempts, a ∈ db'.attempts) (settled : Option AttemptId) :
    Keeps db db' settled :=
  fun a ha => ⟨a, h a ha, rfl, rfl, rfl, fun _ hblocking => hblocking⟩

theorem Keeps.refl (db : Db) (settled : Option AttemptId) : Keeps db db settled :=
  .of_mem (fun _ => id) settled

theorem keeps_recoverStalled (db : Db) (now : Time) : Keeps db (recoverStalled db now) none := by
  intro a ha
  refine ⟨_, row_mem_apply ha, ?_⟩
  rcases attemptUpdate_row_cases (recoveredOutcome db now (stalledCandidates db)) a with
    heq | ⟨-, s, hs, heq⟩
  · rw [heq]
    exact ⟨rfl, rfl, rfl, fun _ h => h⟩
  · rw [heq]
    obtain ⟨-, -, -, hblocking, -⟩ := recoveredOutcome_eq_some hs
    exact ⟨rfl, rfl, rfl, fun _ _ => hblocking⟩

variable {registry : Registry}

theorem keeps_of_step {action : Action} (hsettles : action.settles = false)
    (hstep : db.next registry action = some db') : Keeps db db' none := by
  have hpass : ∀ answers, action ≠ .retrySplits answers := by
    rintro answers rfl
    cases hsettles
  cases attemptStep_of_step hpass hstep with
  | same _ _ attempts => exact .of_mem (fun a ha => attempts ▸ ha) none
  | opened a hopens => exact .of_mem (fun x hx => (hopens.rows x).mpr (.inl hx)) none
  | noted a hnotes => exact .of_mem (fun x hx => (hnotes.rows x).mpr (.inl hx)) none
  | settled a s haction _ => exact absurd (haction.symm.trans hsettles) (by decide)
  | recovered now _ hrecover =>
    subst hrecover
    exact keeps_recoverStalled db now
  | cut parent answer haction _ =>
    subst haction
    cases hsettles

/-- A finalization settles the attempt it names. -/
theorem keeps_finalize {now : Time} {req : FinalizeRequest}
    {report : FinalizeReport} (h : finalizeVendorAttempt registry db now req = .ok (report, db')) :
    Keeps db db' (some req.attemptId) ∧ (req.result.isBlocking = true → Keeps db db' none) := by
  rcases finalizeVendorAttempt_cases h with rfl | ⟨a, s, hsettles, hid, -, houtcome⟩
  · exact ⟨.refl db' _, fun _ => .refl db' _⟩
  have hkept : ∀ x ∈ db.attempts, x.id ≠ a.id → x ∈ db'.attempts :=
    fun x hx hne => (hsettles.rows x).mpr (.inl ⟨hx, hne⟩)
  have hsettled : a.settledWith s ∈ db'.attempts := (hsettles.rows _).mpr (.inr rfl)
  constructor
  · intro x hx
    by_cases hxa : x.id = a.id
    · obtain rfl : x = a := eq_of_key_eq hx hsettles.mem hxa
      exact ⟨_, hsettled, rfl, rfl, rfl, fun hne => absurd (congrArg some hid.symm) hne⟩
    · exact ⟨x, hkept x hx hxa, rfl, rfl, rfl, fun _ hblocking => hblocking⟩
  · intro hblocking x hx
    by_cases hxa : x.id = a.id
    · obtain rfl : x = a := eq_of_key_eq hx hsettles.mem hxa
      refine ⟨_, hsettled, rfl, rfl, rfl, fun _ _ => ?_⟩
      rcases houtcome with heq | ⟨hdelayed, -⟩
      · rw [← heq] at hblocking
        exact hblocking
      · rw [hdelayed] at hblocking
        cases hblocking
    · exact ⟨x, hkept x hx hxa, rfl, rfl, rfl, fun _ hb => hb⟩

/-- A split settles the one call of its chunk that may still be out. -/
theorem keeps_split {parent : SplitParent} {capacity : SplitCapacity} {id₁ id₂ : ChunkId}
    {ids : List ChunkId} (hsole : SoleBlocking db) {a : Attempt} (ha : a ∈ db.attempts)
    (hchunk : a.chunkId = parent.chunkId) (hblocking : a.outcome.isBlocking = true)
    (h : completeVendorSplit db parent capacity id₁ id₂ = .ok (ids, db')) :
    Keeps db db' (some a.id) := by
  rcases completeVendorSplit_cases h with rfl | hcuts
  · exact .refl db' _
  intro x hx
  rw [hcuts.attempts]
  refine ⟨_, row_mem_apply hx, ?_⟩
  rcases attemptUpdate_row_cases (fun b => if b.chunkId = parent.chunkId then
    some ⟨.rejected, b.safeToFailover, some 1006⟩ else none) x with heq | ⟨hinvoking, s, hs, heq⟩
  · rw [heq]
    exact ⟨rfl, rfl, rfl, fun _ hb => hb⟩
  rw [heq]
  have hxchunk : x.chunkId = parent.chunkId := by
    by_contra hne
    rw [if_neg hne] at hs
    cases hs
  obtain rfl : x = a :=
    hsole x hx a ha (hxchunk.trans hchunk.symm) (by rw [hinvoking]; rfl) hblocking
  exact ⟨rfl, rfl, rfl, fun hne => absurd rfl hne⟩

/-! ## Held attempts -/

/-- The attempt of an authorization is there. -/
def Known (db : Db) (chunkId : ChunkId) (auth : InvokeAuthorization) : Prop :=
  ∃ a ∈ db.attempts, a.id = auth.attemptId ∧ a.chunkId = chunkId ∧ a.generation = auth.generation

/-- It blocks further calls. -/
def Held (db : Db) (chunkId : ChunkId) (auth : InvokeAuthorization) : Prop :=
  ∃ a ∈ db.attempts, a.id = auth.attemptId ∧ a.chunkId = chunkId ∧
    a.generation = auth.generation ∧ a.outcome.isBlocking = true

theorem Held.known (h : Held db chunkId auth) : Known db chunkId auth := by
  obtain ⟨a, ha, hid, hchunk, hgeneration, -⟩ := h
  exact ⟨a, ha, hid, hchunk, hgeneration⟩

theorem Known.keeps (h : Known db chunkId auth) (hkeeps : Keeps db db' settled) :
    Known db' chunkId auth := by
  obtain ⟨a, ha, hid, hchunk, hgeneration⟩ := h
  obtain ⟨a', ha', hid', hchunk', hgeneration', -⟩ := hkeeps a ha
  exact ⟨a', ha', hid'.trans hid, hchunk'.trans hchunk, hgeneration'.trans hgeneration⟩

theorem Held.keeps (h : Held db chunkId auth) (hkeeps : Keeps db db' settled)
    (hne : settled ≠ some auth.attemptId) : Held db' chunkId auth := by
  obtain ⟨a, ha, hid, hchunk, hgeneration, hblocking⟩ := h
  obtain ⟨a', ha', hid', hchunk', hgeneration', hblocking'⟩ := hkeeps a ha
  exact ⟨a', ha', hid'.trans hid, hchunk'.trans hchunk, hgeneration'.trans hgeneration,
    hblocking' (hid ▸ hne) hblocking⟩

/-- The attempt a worker holds. -/
def Pc.hold : Pc → Option InvokeAuthorization
  | .filtering (.invoke auth) _ | .comparing (.invoke auth) _ _ | .authorized auth
  | .sending auth | .inFlight auth | .finalizing auth _ _ | .splitting auth => some auth
  | _ => none

/-- Every call of the attempt ended with an error of the vendor. -/
def Cleared (calls : List Call) (attemptId : AttemptId) : Prop :=
  ∀ e ∈ calls, e.attemptId = attemptId → ∃ code, e.result = some (.apiError code)

def Uncalled (calls : List Call) (attemptId : AttemptId) : Prop :=
  ∀ e ∈ calls, e.attemptId ≠ attemptId

/-- Every call is for a stored attempt. -/
def CallsStored (db : Db) (calls : List Call) : Prop :=
  ∀ e ∈ calls, ∃ a ∈ db.attempts, a.id = e.attemptId

theorem Uncalled.cleared {attemptId : AttemptId} (h : Uncalled calls attemptId) :
    Cleared calls attemptId :=
  fun e he hid => absurd hid (h e he)

/-- What holds of a worker at each place of the program. -/
def PcOk (db : Db) (calls : List Call) (chunkId : ChunkId) : Pc → Prop
  | .filtering (.invoke auth) _ | .comparing (.invoke auth) _ _ | .authorized auth
  | .sending auth => Held db chunkId auth ∧ Uncalled calls auth.attemptId
  | .inFlight auth =>
    Held db chunkId auth ∧ ∀ e ∈ calls, e.attemptId = auth.attemptId → e.result = none
  | .finalizing auth req _ => Held db chunkId auth ∧ req.attemptId = auth.attemptId ∧
      req.chunkId = chunkId ∧ (req.result.isBlocking = true ∨ Cleared calls auth.attemptId)
  | .splitting auth => Held db chunkId auth ∧ Cleared calls auth.attemptId
  | .reloading auth _ => Known db chunkId auth
  | .unreported => False
  | _ => True

/-- Places where a worker has nothing to do with an attempt. -/
def Pc.isFree (pc : Pc) : Prop := pc.hold = none ∧ ∀ db calls chunkId, PcOk db calls chunkId pc

theorem PcOk.held (h : PcOk db calls chunkId pc) (hhold : pc.hold = some auth) :
    Held db chunkId auth := by
  unfold Pc.hold at hhold
  split at hhold
  all_goals first
    | (cases hhold; exact h.1)
    | cases hhold

theorem PcOk.keeps (h : PcOk db calls chunkId pc) (hkeeps : Keeps db db' settled)
    (hne : ∀ auth, pc.hold = some auth → settled ≠ some auth.attemptId) :
    PcOk db' calls chunkId pc := by
  cases pc with
  | filtering purpose tries | comparing purpose decision tries =>
    cases purpose with
    | claim vendorId => trivial
    | invoke auth => exact ⟨h.1.keeps hkeeps (hne auth rfl), h.2⟩
  | authorized auth | sending auth | inFlight auth | finalizing auth req after | splitting auth =>
    exact ⟨h.1.keeps hkeeps (hne auth rfl), h.2⟩
  | reloading auth after => exact .keeps h hkeeps
  | unreported => exact h
  | _ => trivial

/-- A change of the log that does not concern the attempt that is held. -/
theorem PcOk.relog {calls' : List Call} (h : PcOk db calls chunkId pc)
    (hsame : ∀ auth, pc.hold = some auth → ∀ e ∈ calls', e.attemptId = auth.attemptId → e ∈ calls) :
    PcOk db calls' chunkId pc := by
  have huncalled : ∀ auth, pc.hold = some auth → Uncalled calls auth.attemptId →
      Uncalled calls' auth.attemptId :=
    fun auth hauth hun e he hid => hun e (hsame auth hauth e he hid) hid
  have hcleared : ∀ auth, pc.hold = some auth → Cleared calls auth.attemptId →
      Cleared calls' auth.attemptId :=
    fun auth hauth hclear e he hid => hclear e (hsame auth hauth e he hid) hid
  cases pc with
  | filtering purpose tries | comparing purpose decision tries =>
    cases purpose with
    | claim vendorId => trivial
    | invoke auth => exact ⟨h.1, huncalled auth rfl h.2⟩
  | authorized auth | sending auth => exact ⟨h.1, huncalled auth rfl h.2⟩
  | inFlight auth => exact ⟨h.1, fun e he hid => h.2 e (hsame auth rfl e he hid) hid⟩
  | finalizing auth req after =>
    exact ⟨h.1, h.2.1, h.2.2.1, h.2.2.2.imp_right (hcleared auth rfl)⟩
  | splitting auth => exact ⟨h.1, hcleared auth rfl h.2⟩
  | reloading | unreported => exact h
  | _ => trivial

end SmsPlatform.Send
