import SmsPlatform.Send.Holding

/-!
# What a step of a worker does

Every step of a worker runs at most one transaction of the store.  It settles no
attempt but the worker's own, and it holds no attempt afterwards but the one it held
before or one that it has just opened.
-/

namespace SmsPlatform.Send

open Support Vendor Table List Db

/-! ## Payloads of existing chunks -/

def OfChunk (db : Db) (p : ChunkPayload) : Prop := ∃ c ∈ db.chunks, c.asParent = p.asParent

variable {p : ChunkPayload} {db db' : Db} {registry : Registry}

theorem OfChunk.stay (h : OfChunk db p) (hstay : ChunksStay db db') : OfChunk db' p := by
  obtain ⟨c, hc, hp⟩ := h
  obtain ⟨c', hc', hsame, -⟩ := hstay c hc
  exact ⟨c', hc', hsame.asParent_eq.trans hp⟩

variable {chunkId : ChunkId}

theorem Db.payload_eq_some (h : db.payload chunkId = some p) :
    p.chunkId = chunkId ∧ OfChunk db p := by
  obtain ⟨c, hc, rfl⟩ := Option.map_eq_some_iff.mp h
  obtain ⟨hc, hid⟩ := find?_eq_some_iff.mp hc
  exact ⟨hid, c, hc, rfl⟩

theorem Db.loadChunk_eq_some {now : Time}
    (h : db.loadChunk now chunkId = some p) : db.payload chunkId = some p := by
  unfold Db.loadChunk at h
  split at h
  · cases h
  split at h
  · exact h
  · cases h

/-- The payloads of a worker that runs are those of chunks. -/
structure Worker.Grounded (db : Db) (w : Worker) : Prop where
  payload : w.pc ≠ .idle → OfChunk db w.payload
  children : ∀ p ∈ w.children, OfChunk db p

namespace Worker.Grounded

variable {db : Db} {w : Worker}

theorem stay (h : w.Grounded db) (hstay : ChunksStay db db') : w.Grounded db' :=
  ⟨fun hpc => (h.payload hpc).stay hstay, fun p hp => (h.children p hp).stay hstay⟩

theorem goto (h : w.Grounded db) (hpc : w.pc ≠ .idle) (pc : Pc) : (w.goto pc).Grounded db :=
  ⟨fun _ => h.payload hpc, h.children⟩

theorem stop (db : Db) (w : Worker) : w.stop.Grounded db :=
  ⟨fun hpc => absurd rfl hpc, fun _ hp => absurd hp not_mem_nil⟩

theorem finish (h : ∀ p ∈ w.children, OfChunk db p) : w.finish.Grounded db := by
  unfold Worker.finish
  split
  · exact stop db w
  rename_i child children heq
  rw [heq] at h
  exact ⟨fun _ => h child mem_cons_self, fun p hp => h p (mem_cons_of_mem _ hp)⟩

end Worker.Grounded

/-! ## Transactions of a worker -/

/-- At most one transaction, and at most one attempt is settled. -/
structure Advances (registry : Registry) (db db' : Db) (settled : Option AttemptId) : Prop where
  reachable : (store registry).Reachable db → (store registry).Reachable db'
  stay : ChunksStay db db'
  keeps : Keeps db db' settled

variable {settled : Option AttemptId} {action : Action}

theorem Advances.commit
    (hstep : db.next registry action = some db') (hkeeps : Keeps db db' settled) :
    Advances registry db db' settled :=
  ⟨fun h => h.step hstep, chunksStay_of_step hstep, hkeeps⟩

/-- No attempt is settled and no chunk is split. -/
structure Plain (registry : Registry) (db db' : Db) : Prop
    extends Advances registry db db' none where
  descends : Descends db db' none

theorem Plain.refl : Plain registry db db :=
  ⟨⟨id, .refl db, .refl db none⟩, (RowsFollow.refl db).descends⟩

theorem descends_of_settles (hsettles : action.settles = false)
    (hstep : db.next registry action = some db') : Descends db db' none := by
  cases action with
  | finalize | split | retrySplits => cases hsettles
  | _ => exact (attemptStep_of_step (by simp) hstep).descends

theorem Plain.of_step (action : Action) (hsettles : action.settles = false)
    (hstep : db.next registry action = some db') : Plain registry db db' :=
  ⟨.commit hstep (keeps_of_step hsettles hstep), descends_of_settles hsettles hstep⟩

/-- The chunk a worker is about to split. -/
def Worker.splitParent (w : Worker) : Option ChunkId :=
  match w.pc with
  | .splitting _ => some w.payload.chunkId
  | _ => none

/-- What is needed of a step of a worker to keep all workers and calls in order. -/
structure Effect (registry : Registry) (db : Db) (calls : List Call) (w : Worker)
    (settled : Option AttemptId) (w' : Worker) (db' : Db) : Prop where
  advances : Advances registry db db' settled
  descends : Descends db db' w.splitParent
  own : ∀ id, settled = some id →
    Cleared calls id ∧ ∃ auth, w.pc.hold = some auth ∧ auth.attemptId = id
  grounded : w'.Grounded db'
  place : PcOk db' calls w'.payload.chunkId w'.pc
  hold : ∀ auth, w'.pc.hold = some auth →
    w.pc.hold = some auth ∨ ∀ a ∈ db.attempts, a.id ≠ auth.attemptId
  unsplit : w'.splitParent = none

/-- The effect of a step that settles no attempt. -/
abbrev Proceeds (registry : Registry) (db : Db) (calls : List Call) (w : Worker)
    (result : Worker × Db) : Prop :=
  Effect registry db calls w none result.1 result.2

theorem Worker.finish_isFree (w : Worker) : w.finish.pc.isFree := by
  unfold Worker.finish
  split <;> exact ⟨rfl, fun _ _ _ => trivial⟩

theorem Worker.Grounded.afterReport {w : Worker} (h : w.Grounded db) (hpc : w.pc ≠ .idle)
    (after : After) (report : FinalizeReport) : (w.afterReport after report).Grounded db := by
  unfold Worker.afterReport
  split
  · exact .finish h.children
  · exact .stop db w
  · split
    · exact h.goto hpc _
    · exact .finish h.children

theorem Worker.afterReport_isFree (w : Worker) (after : After) (report : FinalizeReport) :
    (w.afterReport after report).pc.isFree := by
  unfold Worker.afterReport
  split
  · exact w.finish_isFree
  · exact ⟨rfl, fun _ _ _ => trivial⟩
  · split
    · exact ⟨rfl, fun _ _ _ => trivial⟩
    · exact w.finish_isFree

namespace Effect

variable {db : Db} {calls : List Call} {w w' : Worker}

theorem release (h : Advances registry db db' settled) (hdescends : Descends db db' w.splitParent)
    (hown : ∀ id, settled = some id →
      Cleared calls id ∧ ∃ auth, w.pc.hold = some auth ∧ auth.attemptId = id)
    (hgrounded : w'.Grounded db') (hhold : w'.pc.hold = none)
    (hplace : PcOk db' calls w'.payload.chunkId w'.pc) :
    Effect registry db calls w settled w' db' := by
  refine ⟨h, hdescends, hown, hgrounded, hplace, by simp [hhold], ?_⟩
  unfold Worker.splitParent
  split
  · rename_i hpc
    rw [hpc] at hhold
    cases hhold
  · rfl

section

variable (h : Plain registry db db')
include h

theorem free (hgrounded : w'.Grounded db')
    (hfree : w'.pc.isFree) : Effect registry db calls w none w' db' :=
  release h.toAdvances (h.descends.mono _) (by simp) hgrounded hfree.1 (hfree.2 _ _ _)

theorem stop : Effect registry db calls w none w.stop db' :=
  free h (.stop db' w) ⟨rfl, fun _ _ _ => trivial⟩

variable (hgrounded : w.Grounded db)
include hgrounded

theorem goto (hpc : w.pc ≠ .idle) {pc : Pc} (hfree : pc.isFree) :
    Effect registry db calls w none (w.goto pc) db' :=
  free h ((hgrounded.goto hpc pc).stay h.stay) hfree

theorem finish : Effect registry db calls w none w.finish db' :=
  free h (.finish (hgrounded.stay h.stay).children) w.finish_isFree

theorem keep {auth : InvokeAuthorization} (hhold : w.pc.hold = some auth) {pc : Pc}
    (hpc : pc.hold = some auth) (hunsplit : (w.goto pc).splitParent = none)
    (hplace : PcOk db' calls w.payload.chunkId pc) :
    Effect registry db calls w none (w.goto pc) db' where
  advances := h.toAdvances
  descends := h.descends.mono _
  own := by simp
  grounded := by
    refine (hgrounded.goto (fun hidle => ?_) pc).stay h.stay
    rw [hidle] at hhold
    cases hhold
  place := hplace
  hold := fun auth' hauth' => .inl (hhold.trans (hpc.symm.trans hauth'))
  unsplit := hunsplit

/-- The worker goes on with an attempt it has just opened. -/
theorem opened (hpc : w.pc ≠ .idle) {a : Attempt} (hopens : Opens db db' a)
    (hchunk : a.chunkId = w.payload.chunkId)
    (hcalls : CallsStored db calls) :
    Effect registry db calls w none (w.goto (.authorized a.authorization)) db' where
  advances := h.toAdvances
  descends := h.descends.mono _
  own := by simp
  grounded := (hgrounded.goto hpc _).stay h.stay
  place := by
    refine ⟨⟨a, (hopens.rows a).mpr (.inr rfl), rfl, hchunk, rfl, ?_⟩, fun e he hid => ?_⟩
    · rw [hopens.invoking]
      rfl
    · obtain ⟨x, hx, hxe⟩ := hcalls e he
      exact hopens.fresh x hx (hxe.trans hid)
  hold := by
    rintro auth hauth
    cases hauth
    exact .inr hopens.fresh
  unsplit := rfl

end

end Effect

/-! ## One lemma for each step -/

section

variable {config : WorkerConfig} {calls : List Call} {w : Worker}
variable {after : After} {req : FinalizeRequest} {auth : InvokeAuthorization}
  {purpose : Purpose} {tries : ℕ}

section

variable (hgrounded : w.Grounded db) (hpc : w.pc ≠ .idle)
include hgrounded hpc

theorem Worker.route_effect (attempts : List VendorAttempt) (paused : Bool)
    (health : List VendorHealth) (newId : AttemptId) :
    Proceeds config.registry db calls w (w.route config db attempts paused health newId) := by
  unfold Worker.route
  split
  · exact .finish .refl hgrounded
  dsimp only
  split
  · split
    · exact .goto .refl hgrounded hpc ⟨rfl, fun _ _ _ => trivial⟩
    split
    · rename_i vendorId _ _ _ _ _ _ hrecord
      exact .finish (.of_step (.recordCancelled newId w.payload.chunkId vendorId _) rfl
        (congrArg committed hrecord)) hgrounded
    · exact .stop .refl
  · exact .finish .refl hgrounded

theorem Worker.preflight_effect {next : Pc} (hnext : next.isFree) (answer : Preflight) :
    Proceeds config.registry db calls w (w.preflight db next answer) := by
  cases answer with
  | passed => exact .goto .refl hgrounded hpc hnext
  | paused => exact .finish .refl hgrounded
  | rejected count =>
    exact .finish (.of_step (.write (.rejectDisallowedRecipient w.payload.chunkId count))
      rfl rfl) hgrounded
  | raised => exact .stop .refl

theorem Worker.handOver_effect (report : FinalizeReport) (answer : Preflight) :
    Proceeds config.registry db calls w (w.handOver db report answer) := by
  unfold Worker.handOver
  split
  · refine w.preflight_effect hgrounded hpc ?_ answer
    exact ⟨rfl, fun _ _ _ => trivial⟩
  · exact .finish .refl hgrounded

end

/-- An authorized call that is not made is settled without one. -/
theorem abort_place (h : PcOk db calls chunkId (.authorized auth))
    (hattempt : req.attemptId = auth.attemptId) (hchunk : req.chunkId = chunkId) :
    PcOk db calls chunkId (.finalizing auth req after) :=
  ⟨h.1, hattempt, hchunk, .inr h.2.cleared⟩

theorem Worker.preflightAuthorized_effect (hgrounded : w.Grounded db)
    (hhold : w.pc.hold = some auth) (hplace : PcOk db calls w.payload.chunkId (.authorized auth))
    (answer : Preflight) :
    Effect config.registry db calls w none (w.preflightAuthorized config auth answer) db := by
  have habort : ∀ result after, Effect config.registry db calls w none
      (w.goto (.finalizing auth (finalizeRequest w.payload auth result) after)) db :=
    fun result after => .keep .refl hgrounded hhold rfl rfl (abort_place hplace rfl rfl)
  cases answer with
  | passed =>
    unfold Worker.preflightAuthorized
    dsimp only
    split
    · exact .keep .refl hgrounded hhold rfl rfl hplace
    · exact habort .failed .leave
  | raised => exact habort _ .raise
  | _ => exact habort _ .leave

/-- What holds while the phones are checked for a purpose. -/
theorem Worker.decided_effect (hplain : Plain config.registry db db') (hgrounded : w.Grounded db)
    (hpc : w.pc ≠ .idle) (hhold : w.pc.hold = (Pc.filtering purpose tries).hold)
    (hplace : PcOk db' calls w.payload.chunkId (.filtering purpose tries))
    (decision : DispatchDecision) :
    Effect config.registry db calls w none (w.decided purpose decision) db' := by
  unfold Worker.decided
  cases purpose with
  | claim vendorId =>
    dsimp only
    split
    · exact .goto hplain hgrounded hpc ⟨rfl, fun _ _ _ => trivial⟩
    · exact .finish hplain hgrounded
  | invoke auth =>
    dsimp only
    split
    · exact .finish hplain hgrounded
    split
    · exact .keep hplain hgrounded hhold rfl rfl hplace
    · exact .keep hplain hgrounded hhold rfl rfl (abort_place hplace rfl rfl)

/-- Checking goes on with the same attempt, or with none. -/
theorem Worker.checking_effect (hplain : Plain config.registry db db') (hgrounded : w.Grounded db)
    (hpc : w.pc ≠ .idle) (hhold : w.pc.hold = (Pc.filtering purpose tries).hold)
    (hplace : PcOk db' calls w.payload.chunkId (.filtering purpose tries)) {pc : Pc}
    (hnext : pc = .filtering purpose (tries - 1) ∨
      ∃ decision, pc = .comparing purpose decision tries) :
    Effect config.registry db calls w none (w.goto pc) db' := by
  cases purpose with
  | claim vendorId =>
    refine .goto hplain hgrounded hpc ?_
    rcases hnext with rfl | ⟨decision, rfl⟩ <;> exact ⟨rfl, fun _ _ _ => trivial⟩
  | invoke auth =>
    rcases hnext with rfl | ⟨decision, rfl⟩ <;>
      exact .keep hplain hgrounded hhold rfl rfl hplace

section

variable (hgrounded : w.Grounded db)
include hgrounded

theorem Worker.dispatch_effect (hpc : w.pc = .filtering purpose tries)
    (hplace : PcOk db calls w.payload.chunkId w.pc) (appFlag : Option Bool) :
    Proceeds config.registry db calls w (w.dispatch db purpose tries appFlag) := by
  have hidle : w.pc ≠ .idle := by simp [hpc]
  unfold Worker.dispatch
  split
  · exact .stop .refl
  rename_i decision db' hdecide
  have hplain : Plain config.registry db db' :=
    .of_step (.dispatch w.payload.chunkId appFlag) rfl (congrArg committed hdecide)
  have hplace' := hplace.keeps hplain.keeps (by simp)
  rw [hpc] at hplace'
  split
  · exact w.checking_effect hplain hgrounded hidle (congrArg Pc.hold hpc) hplace'
      (.inr ⟨decision, rfl⟩)
  · exact w.decided_effect hplain hgrounded hidle (congrArg Pc.hold hpc) hplace' decision

theorem Worker.compare_effect {decision : DispatchDecision}
    (hpc : w.pc = .comparing purpose decision tries)
    (hplace : PcOk db calls w.payload.chunkId w.pc) : Effect config.registry db calls w none
      (w.compare db purpose decision tries) db := by
  have hidle : w.pc ≠ .idle := by simp [hpc]
  have hhold : w.pc.hold = (Pc.filtering purpose tries).hold := by
    rw [hpc]
    cases purpose <;> rfl
  have hplace' : PcOk db calls w.payload.chunkId (.filtering purpose tries) := by
    rw [hpc] at hplace
    cases purpose <;> exact hplace
  unfold Worker.compare
  split
  · exact w.decided_effect .refl hgrounded hidle hhold hplace' decision
  split
  · exact w.decided_effect .refl hgrounded hidle hhold hplace' _
  · exact w.checking_effect .refl hgrounded hidle hhold hplace' (.inl rfl)

theorem Worker.claim_effect (hpc : w.pc ≠ .idle)
    (vendorId : VendorId) (now : Time) (budget : SubmissionBudget) :
    Proceeds config.registry db calls w (w.claim db vendorId now budget) := by
  have hplain : Plain config.registry db
      (claimSubmission db now w.payload.chunkId w.payload.retryCount budget).2 :=
    .of_step (.claim now w.payload.chunkId w.payload.retryCount budget) rfl rfl
  unfold Worker.claim
  split <;> rename_i hclaim <;> rw [hclaim] at hplain
  · exact .goto hplain hgrounded hpc ⟨rfl, fun _ _ _ => trivial⟩
  · exact .goto hplain hgrounded hpc ⟨rfl, fun _ _ _ => trivial⟩
  · exact .finish hplain hgrounded

theorem Worker.begin_effect (hpc : w.pc ≠ .idle) (hcalls : CallsStored db calls)
    (vendorId : VendorId) (now : Time) (newId : AttemptId) :
    Proceeds config.registry db calls w (w.begin db vendorId now newId) := by
  unfold Worker.begin
  split
  · rename_i attempt db' hbegin
    obtain ⟨hopens, hchunk⟩ := beginVendorInvoke_opens hbegin
    exact .opened (.of_step (.begin now newId w.payload.chunkId vendorId) rfl
      (congrArg committed hbegin)) hgrounded hpc hopens hchunk hcalls
  · exact .finish .refl hgrounded

theorem Worker.claimNext_effect (hpc : w.pc ≠ .idle) (hcalls : CallsStored db calls)
    (vendorId : VendorId) (previous : AttemptId) (report : FinalizeReport) (now : Time)
    (newId : AttemptId) (budget : SubmissionBudget) : Proceeds config.registry db calls w
      (w.claimNext config db vendorId previous report now newId budget) := by
  have hplain : Plain config.registry db (claimNextVendorInvoke config.registry db now newId
      (claimRequest w.payload vendorId previous report) budget).2 :=
    .of_step (.claimNext now newId (claimRequest w.payload vendorId previous report) budget)
      rfl rfl
  unfold Worker.claimNext
  cases hclaim : claimNextVendorInvoke config.registry db now newId
      (claimRequest w.payload vendorId previous report) budget with
  | mk claim db' =>
    rw [hclaim] at hplain
    dsimp only
    split
    · rename_i auth hkind hauth
      rcases claimNextVendorInvoke_cases hclaim with ⟨hne, -⟩ | ⟨a, hopens, hchunk, hauth'⟩
      · exact absurd hkind hne
      · obtain rfl : a.authorization = auth := Option.some.inj (hauth'.symm.trans hauth)
        exact .opened hplain hgrounded hpc hopens hchunk hcalls
    · split
      · exact .goto hplain hgrounded hpc ⟨rfl, fun _ _ _ => trivial⟩
      · exact .finish hplain hgrounded

end

/-- A finalization settles the worker's own attempt, and as anything but a possible
acceptance only if its call is known to have failed. -/
theorem finalize_advances {report : FinalizeReport} {now : Time} (hhold : w.pc.hold = some auth)
    (hplace : PcOk db calls w.payload.chunkId (.finalizing auth req after))
    (h : finalizeVendorAttempt config.registry db now req = .ok (report, db')) :
    Descends db db' none ∧ ∃ settled, Advances config.registry db db' settled ∧
    ∀ id, settled = some id →
      Cleared calls id ∧ ∃ auth, w.pc.hold = some auth ∧ auth.attemptId = id := by
  obtain ⟨-, hattempt, -, hresult⟩ := hplace
  have hstep : db.next config.registry (.finalize now req) = some db' := congrArg committed h
  obtain ⟨hkeeps, hkeepsAll⟩ := keeps_finalize h
  refine ⟨(attemptStep_of_step (by simp) hstep).descends, ?_⟩
  rcases hresult with hblocking | hcleared
  · exact ⟨none, .commit hstep (hkeepsAll hblocking), by simp⟩
  refine ⟨some req.attemptId, .commit hstep hkeeps, ?_⟩
  rintro id hid
  cases hid
  rw [hattempt]
  exact ⟨hcleared, auth, hhold, rfl⟩

theorem Worker.finalize_effect (hgrounded : w.Grounded db)
    (hpc : w.pc = .finalizing auth req after) (hplace : PcOk db calls w.payload.chunkId w.pc)
    (now : Time) (fate : Fate) : ∃ settled, Effect config.registry db calls w settled
      (w.finalize config db auth req after now fate).1
      (w.finalize config db auth req after now fate).2 := by
  have hidle : w.pc ≠ .idle := by simp [hpc]
  have hhold : w.pc.hold = some auth := congrArg Pc.hold hpc
  rw [hpc] at hplace
  have hknown : Known db w.payload.chunkId auth := hplace.1.known
  have hrefl : Plain config.registry db db := .refl
  have hunchanged : Effect config.registry db calls w none (w.goto (.reloading auth after)) db :=
    .release hrefl.toAdvances (hrefl.descends.mono _) (by simp) (hgrounded.goto hidle _) rfl hknown
  unfold Worker.finalize
  cases hfinalize : finalizeVendorAttempt config.registry db now req with
  | error message => exact ⟨none, hunchanged⟩
  | ok result =>
    obtain ⟨report, db'⟩ := result
    obtain ⟨hdescends, settled, hadvances, hown⟩ := finalize_advances hhold hplace hfinalize
    cases fate with
    | returned =>
      have hfree := w.afterReport_isFree after report
      exact ⟨settled, .release hadvances (hdescends.mono _) hown
        ((hgrounded.afterReport hidle after report).stay hadvances.stay) hfree.1
        (hfree.2 _ _ _)⟩
    | raisedBefore => exact ⟨none, hunchanged⟩
    | raisedAfter =>
      exact ⟨settled, .release hadvances (hdescends.mono _) hown
        ((hgrounded.goto hidle _).stay hadvances.stay)
        rfl (hknown.keeps hadvances.keeps)⟩

theorem loadAuthoritativeNextAction_isSome (hknown : Known db p.chunkId auth)
    (hchunk : OfChunk db p) :
    ∃ report, loadAuthoritativeNextAction db p.chunkId auth.attemptId auth.generation =
      some report := by
  obtain ⟨a, ha, hid, hachunk, hgeneration⟩ := hknown
  obtain ⟨c, hc, hp⟩ := hchunk
  have hcid : c.id = p.chunkId := congrArg SplitParent.chunkId hp
  unfold loadAuthoritativeNextAction
  rw [find?_eq_some_iff.mpr ⟨ha, hid⟩, find?_eq_some_iff.mpr ⟨hc, hcid⟩]
  exact ⟨_, if_pos ⟨hachunk, hgeneration⟩⟩

theorem Worker.reload_effect (hgrounded : w.Grounded db) (hpc : w.pc = .reloading auth after)
    (hplace : PcOk db calls w.payload.chunkId w.pc) :
    Effect config.registry db calls w none (w.reload db auth after) db := by
  have hidle : w.pc ≠ .idle := by simp [hpc]
  rw [hpc] at hplace
  obtain ⟨report, hreport⟩ :=
    loadAuthoritativeNextAction_isSome hplace (hgrounded.payload hidle)
  unfold Worker.reload
  rw [hreport]
  exact .free .refl (hgrounded.afterReport hidle after report)
    (w.afterReport_isFree after report)

theorem Worker.split_effect (hsole : SoleBlocking db) (hgrounded : w.Grounded db)
    (hpc : w.pc = .splitting auth) (hplace : PcOk db calls w.payload.chunkId w.pc)
    (answer : SplitAnswer) : ∃ settled, Effect config.registry db calls w settled
      (w.split db answer).1 (w.split db answer).2 := by
  have hidle : w.pc ≠ .idle := by simp [hpc]
  have hhold : w.pc.hold = some auth := congrArg Pc.hold hpc
  rw [hpc] at hplace
  obtain ⟨⟨a, ha, hid, hchunk, -, hblocking⟩, hcleared⟩ := hplace
  unfold Worker.split
  split
  · exact ⟨none, .finish .refl hgrounded⟩
  split
  · exact ⟨none, .stop .refl⟩
  rename_i ids db' hsplit
  obtain ⟨c, hc, hp⟩ := hgrounded.payload hidle
  have hstep : db.next config.registry (.split c.id answer) = some db' := by
    rw [next_split config.registry hc, hp, hsplit]
    rfl
  have hstay := chunksStay_of_step hstep
  have hkeeps := keeps_split hsole ha hchunk hblocking hsplit
  have hdescends : Descends db db' w.splitParent := by
    have hparent : w.splitParent = some c.id := by
      rw [Worker.splitParent, hpc]
      exact congrArg some (congrArg SplitParent.chunkId hp).symm
    rw [hparent]
    exact (attemptStep_of_step (by simp) hstep).descends
  refine ⟨some a.id, .release (.commit hstep hkeeps) hdescends ?_ ?_
    (Worker.finish_isFree _).1 ((Worker.finish_isFree _).2 _ _ _)⟩
  · rintro id hid'
    cases hid'
    rw [hid]
    exact ⟨hcleared, auth, hhold, rfl⟩
  · refine .finish (fun p hp => ?_)
    rcases mem_append.mp hp with hp | hp
    · obtain ⟨id, -, hpayload⟩ := mem_filterMap.mp hp
      exact (payload_eq_some hpayload).2
    · exact (hgrounded.children p hp).stay hstay

theorem Worker.step_effect {step : WorkerStep} {w' : Worker}
    (hreach : (store config.registry).Reachable db) (hgrounded : w.Grounded db)
    (hplace : PcOk db calls w.payload.chunkId w.pc) (hcalls : CallsStored db calls)
    (hstep : w.step config db step = some (w', db')) :
    ∃ settled, Effect config.registry db calls w settled w' db' := by
  have hdone : ∀ {x : Worker × Db}, some x = some (w', db') → (∃ settled,
      Effect config.registry db calls w settled x.1 x.2) →
      ∃ settled, Effect config.registry db calls w settled w' db' := by
    rintro _ ⟨⟩ heffect
    exact heffect
  cases step <;> dsimp only [Worker.step] at hstep
  case crash =>
    cases hstep
    exact ⟨none, .stop .refl⟩
  case start now chunkId =>
    split at hstep
    · obtain ⟨p, hload, hp⟩ := Option.map_eq_some_iff.mp hstep
      cases hp
      have hchunk := (payload_eq_some (loadChunk_eq_some hload)).2
      exact ⟨none, .free .refl ⟨fun _ => hchunk, by simp⟩ ⟨rfl, fun _ _ _ => trivial⟩⟩
    · cases hstep
  case loadAttempts =>
    split at hstep
    · rename_i hpc
      split at hstep
      all_goals
        cases hstep
        exact ⟨none, .goto .refl hgrounded (by simp [hpc]) ⟨rfl, fun _ _ _ => trivial⟩⟩
    · cases hstep
  case route paused health newId =>
    split at hstep
    · rename_i attempts hpc
      exact hdone hstep ⟨none,
        w.route_effect hgrounded (by simp [hpc]) attempts paused health newId⟩
    · cases hstep
  case preflight answer =>
    split at hstep
    · rename_i vendorId hpc
      exact hdone hstep ⟨none, w.preflight_effect hgrounded (by simp [hpc])
        (by exact ⟨rfl, fun _ _ _ => trivial⟩) answer⟩
    · rename_i report hpc
      exact hdone hstep ⟨none, w.handOver_effect hgrounded (by simp [hpc]) report answer⟩
    · rename_i auth hpc
      exact hdone hstep ⟨none, w.preflightAuthorized_effect hgrounded (congrArg Pc.hold hpc)
        (hpc ▸ hplace) answer⟩
    · cases hstep
  case dispatch appFlag =>
    split at hstep
    · rename_i purpose tries hpc
      exact hdone hstep ⟨none, w.dispatch_effect hgrounded hpc hplace appFlag⟩
    · cases hstep
  case compare =>
    split at hstep
    · rename_i purpose decision tries hpc
      exact hdone hstep ⟨none, w.compare_effect hgrounded hpc hplace⟩
    · cases hstep
  case claim now budget =>
    split at hstep
    · rename_i vendorId hpc
      exact hdone hstep ⟨none, w.claim_effect hgrounded (by simp [hpc]) vendorId now budget⟩
    · cases hstep
  case defer resetAt =>
    split at hstep
    · cases hstep
      exact ⟨none, .finish (.of_step (.write (.deferDailyLimit w.payload.chunkId resetAt))
        rfl rfl) hgrounded⟩
    · cases hstep
  case begin now newId =>
    split at hstep
    · rename_i vendorId hpc
      exact hdone hstep ⟨none, w.begin_effect hgrounded (by simp [hpc]) hcalls vendorId now newId⟩
    · cases hstep
  case claimNext now newId budget =>
    split at hstep
    · rename_i vendorId previous report hpc
      exact hdone hstep ⟨none,
        w.claimNext_effect hgrounded (by simp [hpc]) hcalls vendorId previous report
        now newId budget⟩
    · cases hstep
  case finalize now fate =>
    split at hstep
    · rename_i auth req after hpc
      exact hdone hstep (w.finalize_effect hgrounded hpc hplace now fate)
    · cases hstep
  case reload =>
    split at hstep
    · rename_i auth after hpc
      exact hdone hstep ⟨none, w.reload_effect hgrounded hpc hplace⟩
    · cases hstep
  case split answer =>
    split at hstep
    · rename_i auth hpc
      exact hdone hstep (w.split_effect (blocking_of_reachable hreach).1 hgrounded hpc
        hplace answer)
    · cases hstep

end

end SmsPlatform.Send
