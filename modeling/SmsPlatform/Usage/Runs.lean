import SmsPlatform.Usage.Exactness

/-!
# Steps of the ledger and what they do to the database
-/

namespace SmsPlatform.Usage

open Support

/-- What a step does to the database: elementary changes, the reservation of a quota, or the
decisions of a chunk after its recipients have been resolved. -/
inductive DbStep (db : Db) : Action → Db → Prop
  | moves {a : Action} {db' : Db} (h : Moves db db') : DbStep db a db'
  | quota {id : ℕ} {q : QuotaRequest} {db' : Db} (h : ReservesQuota db id q db') :
      DbStep db (.reserveQuota id q) db'
  | decides {q : FrequencyRequest} {items : List FrequencyItem} {observed : ℕ} {db₁ db' : Db}
      {subjects : List ResolvedSubject}
      (hensure : ensureFrequencySubjectsMany db items observed = .ok (db₁, subjects))
      (hchunk : ResolvesChunk db db₁ items subjects)
      (h : Decides db₁ q (newSubjects db₁ q subjects) db') :
      DbStep db (.allowFrequency q items observed) db'

theorem dbStep_of_next {w w' : World} {a : Action} (hfresh : w.db.Fresh)
    (h : w.next a = some w') : DbStep w.db a w'.db := by
  cases a with
  | start request now =>
    obtain ⟨result, hok, rfl⟩ := map_toOption_eq_some.mp h
    exact .moves (moves_startReservation hok)
  | reserveQuota id q =>
    obtain ⟨db', hok, rfl⟩ := map_toOption_eq_some.mp h
    rcases reserveQuota_eq_ok hok with rfl | hquota
    · exact .moves .refl
    · exact .quota hquota
  | allowFrequency q items observed =>
    obtain ⟨result, hok, rfl⟩ := map_toOption_eq_some.mp h
    unfold allowFrequency at hok
    split at hok
    · cases hok
      exact .moves .refl
    obtain ⟨db₁, subjects, hensure, hchunk, hdecides⟩ := decides_of_allowFrequencyChunk hfresh hok
    exact .decides hensure hchunk hdecides
  | insertBatch reservationId =>
    obtain ⟨db', hok, rfl⟩ := map_toOption_eq_some.mp h
    exact .moves (moves_insertBatch hok)
  | markUncertain id =>
    cases h
    exact .moves (moves_markUncertain w.db id)
  | releaseForBatch batchId reason observed =>
    obtain ⟨result, hok, rfl⟩ := map_toOption_eq_some.mp h
    exact .moves (moves_requestUsageReleaseForBatch hok)
  | releaseUnlinked id reason observed =>
    obtain ⟨result, hok, rfl⟩ := map_toOption_eq_some.mp h
    exact .moves (moves_requestUnlinkedRelease hok)
  | finishRelease id =>
    obtain ⟨db', hok, rfl⟩ := map_toOption_eq_some.mp h
    exact .moves (moves_finishRelease hok)
  | exclude batchId phoneHmac segments =>
    obtain ⟨db', hok, rfl⟩ := map_toOption_eq_some.mp h
    exact .moves (moves_releaseOne hok)

/-! ## Well-formed runs -/

theorem WellFormed.dbStep {db db' : Db} {a : Action} (h : WellFormed db) (hstep : DbStep db a db') :
    WellFormed db' := by
  cases hstep with
  | moves hmoves => exact h.moves hmoves
  | quota hquota => exact h.quota hquota
  | decides _ hchunk hdecides => exact (h.moves hchunk.moves).decides hdecides

theorem wellFormed_initial : WellFormed Db.initial := by
  constructor <;> (intro _ hmem; cases hmem)

theorem wellFormed_of_reachable {w : World} (h : usage.Reachable w) : WellFormed w.db := by
  refine h.invariant (I := fun w => WellFormed w.db) ?_ ?_
  · rintro _ rfl
    exact wellFormed_initial
  · intro w a w' hwf hnext
    exact hwf.dbStep (dbStep_of_next hwf.fresh hnext)

end SmsPlatform.Usage
