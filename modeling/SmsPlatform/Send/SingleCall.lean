import SmsPlatform.Send.WorkerSteps

/-!
# At most one call that the vendor may have accepted

However the steps of workers, recovery passes and all other parties interleave, the
vendor is called for a chunk only after every earlier call for it has come back with
an error of the vendor and its attempt has been settled accordingly.
-/

namespace SmsPlatform.Send

open Support World List Option

/-! ## The invariant -/

/-- Workers hold different attempts, and an attempt blocks as long as its call may have
been accepted. -/
structure Sound (config : WorkerConfig) (world : World) : Prop where
  store : (store config.registry).Reachable world.db
  grounded : ∀ pid, (world.workers pid).Grounded world.db
  place : ∀ pid, PcOk world.db world.calls (world.workers pid).payload.chunkId
    (world.workers pid).pc
  holder : ∀ p q auth auth', (world.workers p).pc.hold = some auth →
    (world.workers q).pc.hold = some auth' → auth.attemptId = auth'.attemptId → p = q
  calls : ∀ e ∈ world.calls, ∃ a ∈ world.db.attempts, a.id = e.attemptId ∧ a.chunkId = e.chunkId ∧
    ((∃ code, e.result = some (.apiError code)) ∨ a.outcome.isBlocking = true)

variable {db' : Db} {auth : InvokeAuthorization} {pid : ℕ}

theorem World.workers_setWorker (world : World) (pid q : ℕ) (w : Worker) :
    (world.setWorker pid w).workers q = if q = pid then w else world.workers q := by
  simp [World.setWorker, Function.update_apply]

variable {config : WorkerConfig} {world : World}

section

variable (h : Sound config world)
include h

theorem Sound.held (hhold : (world.workers pid).pc.hold = some auth) :
    Held world.db (world.workers pid).payload.chunkId auth :=
  (h.place pid).held hhold

/-- A step that only concerns one worker and the database. -/
theorem Sound.advance (pid : ℕ) {settled : Option AttemptId}
    {w' : Worker} (hadvances : Advances config.registry world.db db' settled)
    (hown : ∀ id, settled = some id → Cleared world.calls id ∧
      ∃ auth, (world.workers pid).pc.hold = some auth ∧ auth.attemptId = id)
    (hgrounded : w'.Grounded db') (hplace : PcOk db' world.calls w'.payload.chunkId w'.pc)
    (hhold : ∀ auth, w'.pc.hold = some auth → (world.workers pid).pc.hold = some auth ∨
      ∀ a ∈ world.db.attempts, a.id ≠ auth.attemptId) :
    Sound config { (world.setWorker pid w') with db := db' } := by
  -- an attempt held by somebody else is not the one that is settled
  have hother : ∀ q, q ≠ pid → ∀ auth, (world.workers q).pc.hold = some auth →
      settled ≠ some auth.attemptId := by
    intro q hq auth hauth hsettled
    obtain ⟨-, auth', hauth', hid⟩ := hown _ hsettled
    exact hq (h.holder q pid auth auth' hauth hauth' hid.symm)
  -- nor is it the one the worker holds now
  have hnew : ∀ q, q ≠ pid → ∀ auth auth', w'.pc.hold = some auth →
      (world.workers q).pc.hold = some auth' → auth.attemptId ≠ auth'.attemptId := by
    intro q hq auth auth' hauth hauth' hid
    rcases hhold auth hauth with hold | hfresh
    · exact hq (h.holder q pid auth' auth hauth' hold hid.symm)
    · obtain ⟨a, ha, haid, -⟩ := h.held hauth'
      exact hfresh a ha (haid.trans hid.symm)
  refine ⟨hadvances.reachable h.store, fun q => ?_, fun q => ?_, fun p q auth auth' => ?_,
    fun e he => ?_⟩
  · rw [workers_setWorker]
    split
    · exact hgrounded
    · exact (h.grounded q).stay hadvances.stay
  · rw [workers_setWorker]
    split
    · exact hplace
    · rename_i hq
      exact (h.place q).keeps hadvances.keeps (hother q hq)
  · rw [workers_setWorker, workers_setWorker]
    intro hp hq hid
    split at hp <;> rename_i hpid <;> split at hq <;> rename_i hqid
    · exact hpid.trans hqid.symm
    · exact absurd hid (hnew q hqid auth auth' hp hq)
    · exact absurd hid.symm (hnew p hpid auth' auth hq hp)
    · exact h.holder p q auth auth' hp hq hid
  · obtain ⟨a, ha, haid, hachunk, hresult⟩ := h.calls e he
    obtain ⟨a', ha', haid', hachunk', -, hblocking⟩ := hadvances.keeps a ha
    refine ⟨a', ha', haid'.trans haid, hachunk'.trans hachunk, ?_⟩
    by_cases hsettled : settled = some a.id
    · exact .inl ((hown _ hsettled).1 e he haid.symm)
    · exact hresult.imp_right (hblocking hsettled)

/-! ## Calls and answers -/

/-- The log changes only where one worker's attempt is concerned. -/
theorem Sound.log (hhold : (world.workers pid).pc.hold = some auth)
    {pc : Pc} {calls : List Call} (hpc : pc.hold = some auth)
    (hplace : PcOk world.db calls (world.workers pid).payload.chunkId pc)
    (hsame : ∀ e ∈ calls, e.attemptId ≠ auth.attemptId → e ∈ world.calls)
    (hown : ∀ e ∈ calls, e.attemptId = auth.attemptId →
      e.chunkId = (world.workers pid).payload.chunkId) :
    Sound config { (world.setWorker pid ((world.workers pid).goto pc)) with calls := calls } := by
  have hidle : (world.workers pid).pc ≠ .idle := by
    intro hidle
    rw [hidle] at hhold
    cases hhold
  have hplace' : ∀ q, q ≠ pid → PcOk world.db calls (world.workers q).payload.chunkId
      (world.workers q).pc := by
    intro q hq
    refine (h.place q).relog (fun auth' hauth' e he hid => hsame e he (fun heq => hq ?_))
    exact h.holder q pid auth' auth hauth' hhold (hid.symm.trans heq)
  refine ⟨h.store, fun q => ?_, fun q => ?_, fun p q auth₁ auth₂ => ?_, fun e he => ?_⟩
  · rw [workers_setWorker]
    split
    · exact (h.grounded pid).goto hidle pc
    · exact h.grounded q
  · rw [workers_setWorker]
    split
    · exact hplace
    · rename_i hq
      exact hplace' q hq
  · have hkeep : ∀ r, ((world.setWorker pid ((world.workers pid).goto pc)).workers r).pc.hold =
        (world.workers r).pc.hold := by
      intro r
      rw [workers_setWorker]
      split
      · rename_i hr
        rw [hr, hhold]
        exact hpc
      · rfl
    rw [hkeep, hkeep]
    exact h.holder p q auth₁ auth₂
  · by_cases hid : e.attemptId = auth.attemptId
    · obtain ⟨a, ha, haid, hachunk, -, hblocking⟩ := h.held hhold
      exact ⟨a, ha, haid.trans hid.symm, hachunk.trans (hown e he hid).symm, .inr hblocking⟩
    · exact h.calls e (hsame e he hid)

theorem Sound.call (hpc : (world.workers pid).pc = .sending auth) :
    Sound config { (world.setWorker pid ((world.workers pid).goto (.inFlight auth))) with
      calls := world.calls ++ [⟨(world.workers pid).payload.chunkId, auth.attemptId, none⟩] } := by
  have hplace := h.place pid
  rw [hpc] at hplace
  obtain ⟨hheld, huncalled⟩ := hplace
  -- the new entry is the only one for the attempt
  have hentry : ∀ e ∈ world.calls ++
        [(⟨(world.workers pid).payload.chunkId, auth.attemptId, none⟩ : Call)],
      e ∈ world.calls ∨ e = ⟨(world.workers pid).payload.chunkId, auth.attemptId, none⟩ := by
    intro e he
    simpa using he
  refine h.log (congrArg Pc.hold hpc) rfl ⟨hheld, fun e he hid => ?_⟩ (fun e he hne => ?_)
    (fun e he hid => ?_) <;> rcases hentry e he with he | rfl
  · exact absurd hid (huncalled e he)
  · rfl
  · exact he
  · exact absurd rfl hne
  · exact absurd hid (huncalled e he)
  · rfl

end

theorem Worker.answered_place (w : Worker) (auth : InvokeAuthorization) (answer : CallAnswer) :
    ∃ pc, w.answered auth answer = w.goto pc ∧ pc.hold = some auth ∧
    ∀ db calls, Held db w.payload.chunkId auth →
      (∀ code, answer = .apiError code → Cleared calls auth.attemptId) →
      PcOk db calls w.payload.chunkId pc := by
  cases answer with
  | apiError code =>
    refine ⟨_, rfl, ?_, fun db calls hheld hclear => ?_⟩
    · unfold handleTerminalApiError
      dsimp only
      repeat' split
      all_goals rfl
    · have hcleared := hclear code rfl
      unfold handleTerminalApiError
      dsimp only
      split
      · exact ⟨hheld, rfl, rfl, .inr hcleared⟩
      split
      · exact ⟨hheld, hcleared⟩
      split <;> exact ⟨hheld, rfl, rfl, .inr hcleared⟩
  | _ => exact ⟨_, rfl, rfl, fun db calls hheld _ => ⟨hheld, rfl, rfl, .inl rfl⟩⟩

theorem Sound.answer (h : Sound config world) (hpc : (world.workers pid).pc = .inFlight auth)
    (answer : CallAnswer) :
    Sound config { (world.setWorker pid ((world.workers pid).answered auth answer)) with
      calls := world.calls.map (Call.answered auth answer) } := by
  have hhold : (world.workers pid).pc.hold = some auth := congrArg Pc.hold hpc
  have hplace := h.place pid
  rw [hpc] at hplace
  obtain ⟨hheld, hopen⟩ := hplace
  have hattempt : ∀ e, (Call.answered auth answer e).attemptId = e.attemptId ∧
      (Call.answered auth answer e).chunkId = e.chunkId := by
    intro e
    unfold Call.answered
    split <;> exact ⟨rfl, rfl⟩
  obtain ⟨pc, heq, hpc', hnext⟩ := (world.workers pid).answered_place auth answer
  rw [heq]
  refine h.log hhold hpc' (hnext _ _ hheld ?_) (fun e he hne => ?_) (fun e he hid => ?_)
  · rintro code rfl e he hid
    obtain ⟨e₀, he₀, rfl⟩ := mem_map.mp he
    rw [(hattempt e₀).1] at hid
    exact ⟨code, by simp [Call.answered, hid, hopen e₀ he₀ hid, CallAnswer.result]⟩
  · obtain ⟨e₀, he₀, rfl⟩ := mem_map.mp he
    rw [(hattempt e₀).1] at hne
    rw [Call.answered, if_neg (fun hand => hne hand.1)]
    exact he₀
  · obtain ⟨e₀, he₀, rfl⟩ := mem_map.mp he
    rw [(hattempt e₀).1] at hid
    rw [(hattempt e₀).2]
    -- the attempt of the entry is the one that is held
    obtain ⟨a, ha, haid, hachunk, -⟩ := h.calls e₀ he₀
    obtain ⟨b, hb, hbid, hbchunk, -⟩ := hheld
    obtain rfl : a = b := Table.eq_of_key_eq ha hb (haid.trans (hid.trans hbid.symm))
    exact hachunk.symm.trans hbchunk

/-! ## Every step -/

theorem keeps_of_foreign {db : Db} {action : Action}
    (hreach : (store config.registry).Reachable db) (hforeign : action.isForeign = true)
    (hstep : db.next config.registry action = some db') : Keeps db db' none := by
  cases hsettles : action.settles with
  | false => exact keeps_of_step hsettles hstep
  | true =>
    cases action with
    | retrySplits answers =>
      have hattempts := attempts_retrySplits (blocking_of_reachable hreach).2 hstep
      exact .of_mem (fun a ha => hattempts ▸ ha) none
    | finalize | split => cases hforeign
    | _ => cases hsettles

theorem Sound.foreign (h : Sound config world) {action : Action}
    (hforeign : action.isForeign = true) (hstep : world.db.next config.registry action = some db') :
    Sound config { world with db := db' } := by
  have hadvances : Advances config.registry world.db db' none :=
    .commit hstep (keeps_of_foreign h.store hforeign hstep)
  have hsound := h.advance 0 hadvances (by simp) ((h.grounded 0).stay hadvances.stay)
    ((h.place 0).keeps hadvances.keeps (by simp)) (fun _ => .inl)
  rw [World.setWorker, Function.update_eq_self] at hsound
  exact hsound

theorem Sound.step_effect (h : Sound config world) {step : WorkerStep} {w' : Worker}
    (hstep : (world.workers pid).step config world.db step = some (w', db')) :
    ∃ settled, Effect config.registry world.db world.calls (world.workers pid) settled w' db' := by
  have hcalls : CallsStored world.db world.calls := by
    intro e he
    obtain ⟨a, ha, hid, -⟩ := h.calls e he
    exact ⟨a, ha, hid⟩
  exact Worker.step_effect h.store (h.grounded pid) (h.place pid) hcalls hstep

theorem sound_step {label : Label} {world' : World} (h : Sound config world)
    (hstep : world.next config label = some world') : Sound config world' := by
  cases label with
  | foreign action =>
    dsimp only [World.next] at hstep
    split at hstep
    · rename_i hforeign
      obtain ⟨db', hnext, rfl⟩ := map_eq_some_iff.mp hstep
      exact h.foreign hforeign hnext
    · cases hstep
  | work pid step =>
    obtain ⟨⟨w', db'⟩, hwork, rfl⟩ := map_eq_some_iff.mp hstep
    obtain ⟨settled, heffect⟩ := h.step_effect hwork
    exact h.advance pid heffect.advances heffect.own heffect.grounded heffect.place heffect.hold
  | call pid =>
    dsimp only [World.next] at hstep
    split at hstep
    · rename_i auth hpc
      cases hstep
      exact h.call hpc
    · cases hstep
  | answer pid answer =>
    dsimp only [World.next] at hstep
    split at hstep
    · rename_i auth hpc
      cases hstep
      exact h.answer hpc answer
    · cases hstep

theorem sound_start (config : WorkerConfig) : Sound config World.start where
  store := .init rfl
  grounded := fun _ => ⟨fun hpc => absurd rfl hpc, fun _ hp => absurd hp not_mem_nil⟩
  place := fun _ => trivial
  holder := fun _ _ _ _ hhold => by cases hhold
  calls := fun _ he => absurd he not_mem_nil

theorem sound_of_reachable (h : (sendSystem config).Reachable world) : Sound config world := by
  refine h.invariant ?_ (fun _ _ _ => sound_step)
  rintro _ rfl
  exact sound_start config

/-! ## Calls for a chunk -/

/-- A worker calls the vendor for a chunk only if all earlier calls for the chunk have
ended with an error of the vendor, and their attempts are settled as such. -/
theorem call_only_after_api_errors (config : WorkerConfig) {world world' : World} {pid : ℕ}
    (h : (sendSystem config).Reachable world)
    (hcall : (sendSystem config).next world (.call pid) = some world') :
    ∃ auth, (world.workers pid).pc = .sending auth ∧ world'.calls = world.calls ++
        [⟨(world.workers pid).payload.chunkId, auth.attemptId, none⟩] ∧
      ∀ e ∈ world.calls, e.chunkId = (world.workers pid).payload.chunkId →
        (∃ code, e.result = some (.apiError code)) ∧
        ∃ a ∈ world.db.attempts, a.id = e.attemptId ∧ a.chunkId = e.chunkId ∧
          a.outcome.isBlocking = false := by
  have hsound := sound_of_reachable h
  dsimp only [sendSystem, World.next] at hcall
  split at hcall
  · rename_i auth hpc
    cases hcall
    refine ⟨auth, hpc, rfl, fun e he hchunk => ?_⟩
    have hplace := hsound.place pid
    rw [hpc] at hplace
    obtain ⟨⟨b, hb, hbid, hbchunk, -, hbblocking⟩, huncalled⟩ := hplace
    obtain ⟨a, ha, haid, hachunk, hresult⟩ := hsound.calls e he
    -- the attempt about to be called is the only one of the chunk that blocks
    have hsettled : a.outcome.isBlocking = false := by
      rw [← Bool.not_eq_true]
      intro hblocking
      obtain rfl : a = b := (blocking_of_reachable hsound.store).1 a ha b hb
        (hachunk.trans (hchunk.trans hbchunk.symm)) hblocking hbblocking
      exact huncalled e he (haid.symm.trans hbid)
    refine ⟨hresult.resolve_right ?_, a, ha, haid, hachunk, hsettled⟩
    rw [hsettled]
    decide
  · cases hcall

/-- The vendor is busy, and another worker takes the chunk up again later. -/
def busyRun : List Label :=
  [ .foreign (.accept noticeBatch [(1, "a"), (2, "b")] 0),
    .foreign (.prepare 0 noticeBatch.batchNo 2 [1] true) ] ++ submitUntilCall 0 0 1 1 ++
  [ .call 0, .answer 0 (.apiError 429), .work 0 (.finalize 0 .returned) ] ++
    submitUntilCall 1 100 1 2

theorem calls_busyRun : ((sendSystem soleVendor).run World.start busyRun).map (fun world =>
      (world.calls, ((sendSystem soleVendor).next world (.call 1)).map World.calls)) =
      some ([⟨1, 1, some (.apiError 429)⟩], some [⟨1, 1, some (.apiError 429)⟩, ⟨1, 2, none⟩]) := by
  decide

theorem call_only_after_api_errors_busyRun :
    ∃ world world', (sendSystem soleVendor).run World.start busyRun = some world ∧
      (sendSystem soleVendor).next world (.call 1) = some world' ∧
      world'.calls = [⟨1, 1, some (.apiError 429)⟩, ⟨1, 2, none⟩] ∧
      ∃ a ∈ world.db.attempts, a.id = 1 ∧ a.chunkId = 1 ∧ a.outcome.isBlocking = false := by
  obtain ⟨world, hrun, hcalls⟩ := map_eq_some_iff.mp calls_busyRun
  rw [Prod.mk.injEq] at hcalls
  obtain ⟨hbefore, hafter⟩ := hcalls
  obtain ⟨world', hcall, hcalls'⟩ := map_eq_some_iff.mp hafter
  obtain ⟨auth, -, hnew, hearlier⟩ :=
    call_only_after_api_errors soleVendor (.run (.init rfl) hrun) hcall
  -- the new entry is for chunk 1
  have hchunk : (world.workers 1).payload.chunkId = 1 := by
    rw [hcalls', hbefore] at hnew
    simp only [cons_append, nil_append, List.cons.injEq, Call.mk.injEq] at hnew
    exact hnew.2.1.1.symm
  rw [hbefore, hchunk] at hearlier
  obtain ⟨-, hsettled⟩ := hearlier _ (mem_singleton.mpr rfl) rfl
  exact ⟨world, world', hrun, hcall, hcalls', hsettled⟩

/-! ## Workers for a chunk -/

/-- At most one worker holds an attempt for a chunk. -/
theorem one_worker_per_chunk {world : World} (h : (sendSystem config).Reachable world) :
    Set.InjOn (fun p => (world.workers p).payload.chunkId)
      {p | (world.workers p).pc.hold.isSome = true} := by
  intro p hp q hq hchunk
  obtain ⟨auth, hp⟩ := isSome_iff_exists.mp hp
  obtain ⟨auth', hq⟩ := isSome_iff_exists.mp hq
  have hsound := sound_of_reachable h
  obtain ⟨a, ha, haid, hachunk, -, hblocking⟩ := hsound.held hp
  obtain ⟨b, hb, hbid, hbchunk, -, hblocking'⟩ := hsound.held hq
  obtain rfl : a = b := (blocking_of_reachable hsound.store).1 a ha b hb
    (hachunk.trans (hchunk.trans hbchunk.symm)) hblocking hblocking'
  exact hsound.holder p q auth auth' hp hq (haid.symm.trans hbid)

theorem one_worker_per_chunk_busyRun :
    ∃ world, (sendSystem soleVendor).run World.start busyRun = some world ∧
      (world.workers 1).pc.hold.isSome = true ∧
      ∀ p, (world.workers p).pc.hold.isSome = true →
        (world.workers p).payload.chunkId = (world.workers 1).payload.chunkId → p = 1 := by
  have hheld : ((sendSystem soleVendor).run World.start busyRun).map
      (fun world => (world.workers 1).pc.hold.isSome) = some true := by decide
  obtain ⟨world, hrun, hheld⟩ := map_eq_some_iff.mp hheld
  exact ⟨world, hrun, hheld, fun p hp hchunk =>
    one_worker_per_chunk (.run (.init rfl) hrun) hp hheld hchunk⟩

end SmsPlatform.Send
