import SmsPlatform.Usage.Books
import SmsPlatform.Usage.System

/-!
# Elementary changes of the ledger

Every transaction is made of a few elementary changes, and says of each what it has checked
before.  Facts about all transactions are proved for the elementary changes.  The two that count
something stand apart: the reservation of a quota, and the insertion of frequency decisions.
-/

namespace SmsPlatform.Usage

open Support Table Bool
open Relation (ReflTransGen)

/-- The change of a reservation leaves its amounts counted or not counted. -/
def Advances (r r' : Reservation) : Prop :=
  r'.state.isLive = r.state.isLive ∧ (r'.state.isActive = true → r.state.isActive = true)

/-- The elementary changes. -/
inductive Move (db : Db) : Db → Prop
  | start {reservations : Table Reservation.id} {r : Reservation}
      (hrows : reservations.rows = db.reservations.rows ++ [r]) :
      Move db { db with
        reservations := reservations
        nextReservationId := db.nextReservationId + 1 }
  | batch {batches : Table Batch.id} :
      Move db { db with batches := batches, nextBatchId := db.nextBatchId + 1 }
  | reservation {u : Update Reservation.id}
      (hu : ∀ r, u.applies r = true → Advances r (u.change r)) :
      Move db { db with reservations := db.reservations.apply u }
  | release {id observed : ℕ} {event : ReleaseEvent} {r : Reservation} {projections : Projections}
      {applied : List ProjectionChange}
      (hr : db.reservations.find? id = some r) (hlive : r.state.isLive = true)
      (happlied : applyReleaseProjectionChanges db id observed = .ok (projections, applied)) :
      Move db (db.release id event projections)
  | exclude {id phoneHmac segments : ℕ} {r : Reservation} {projections : Projections}
      (hr : db.reservations.find? id = some r) (hstate : r.state.isReleasable = true)
      (hprojections : db.projections.change
        (uniqueChanges (exclusionChanges db id phoneHmac segments)) = .ok projections) :
      Move db (db.exclude id phoneHmac segments projections)
  | subject {projectionHmac : ℕ} {db' : Db} (h : createSubject db projectionHmac = .ok db') :
      Move db db'
  | bind {a : FrequencyAlias} {db' : Db} (h : bindAlias db a = .ok db') : Move db db'
  | merge {canonical : FrequencySubject} {subjects : List FrequencySubject} {observed : ℕ}
      {db' : Db}
      (hcanonical : canonical ∈ subjects) (hsubjects : ∀ s ∈ subjects, s ∈ db.subjects)
      (hnodup : (subjects.map FrequencySubject.id).Nodup)
      (h : mergeSubjects db canonical subjects observed = .ok db') : Move db db'

/-- The reservation of a quota for a reservation that is reserved. -/
structure ReservesQuota (db : Db) (id : ℕ) (q : QuotaRequest) (db' : Db) : Prop where
  reserved : ∃ r, db.reservations.find? id = some r ∧ r.state = .reserved
  app : exceeds q.appLimit (db.projections.valueAt (.quota q.appKey)) q.cost = false
  dept : exceeds q.deptLimit (db.projections.valueAt (.quota q.deptKey)) q.cost = false
  inserted : ∃ quotaEntries projections,
    db.quotaEntries.insertAll? (q.entries id) = some quotaEntries ∧
    db.projections.change q.changes = .ok projections ∧
    db' = { db with
      reservations := db.reservations.apply (recordQuota id q)
      quotaEntries := quotaEntries
      projections := projections }

/-- The insertion of frequency decisions for a reservation that is reserved, with the digests
that the recipients have. -/
structure Decides (db : Db) (q : FrequencyRequest) (subjects : List ResolvedSubject) (db' : Db) :
    Prop where
  reserved : ∃ r, db.reservations.find? q.reservationId = some r ∧ r.state = .reserved
  hmac : ∀ s ∈ subjects, ∀ t ∈ db.subjects, t.id = s.subjectId →
    t.projectionHmac = s.projectionHmac
  inserted : insertFrequencyDecisions db q subjects = .ok db'

/-- A sequence of elementary changes. -/
abbrev Moves : Db → Db → Prop := ReflTransGen Move

/-! ## Transactions on reservations -/

section

variable {db db' : Db} {id : ℕ}
variable {result : Db × Option (List ProjectionChange)} {reservationId : Option ℕ}
  {batchId observed : ℕ}

theorem moves_startReservation {request : ReservationRequest} {now : ℕ}
    (h : startReservation db request now = .ok (db', id)) : Moves db db' := by
  obtain ⟨-, h⟩ := require_bind_eq_ok.mp h
  split at h
  · obtain ⟨-, h⟩ := require_bind_eq_ok.mp h
    cases h
    exact .refl
  · obtain ⟨reservations, hinsert, h⟩ := orFail_bind_eq_ok.mp h
    cases h
    exact .single (.start (rows_of_insertAll? hinsert))

theorem reserveQuota_eq_ok {q : QuotaRequest} (h : reserveQuota db id q = .ok db') :
    db' = db ∨ ReservesQuota db id q db' := by
  obtain ⟨r, hr, h⟩ := orFail_bind_eq_ok.mp h
  obtain ⟨hstate, h⟩ := require_bind_eq_ok.mp h
  obtain ⟨-, h⟩ := require_bind_eq_ok.mp h
  split at h
  · unfold reserveNewQuota at h
    obtain ⟨⟨happ, hdept⟩, h⟩ := require_bind_eq_ok.mp h
    obtain ⟨quotaEntries, hentries, h⟩ := orFail_bind_eq_ok.mp h
    obtain ⟨projections, hprojections, ⟨⟩⟩ := bind_eq_ok.mp h
    exact .inr ⟨⟨r, hr, hstate⟩, happ, hdept, quotaEntries, projections, hentries,
      hprojections, rfl⟩
  · obtain ⟨-, h⟩ := require_bind_eq_ok.mp h
    cases h
    exact .inl rfl

/-- A commit finds the reservation reserved, or committed already. -/
theorem commitUsageReservation_eq_ok (h : commitUsageReservation db id batchId = .ok db') :
    db.isLive id = true ∧ (db' = db ∨ db' = { db with
      reservations := db.reservations.apply (commitReservation db id batchId) }) := by
  unfold commitUsageReservation at h
  split at h
  · rename_i hcount
    cases h
    obtain ⟨r, hmem, happ⟩ := exists_applies_of_rowcount_pos (hcount ▸ Nat.one_pos)
    simp only [commitReservation, and_eq_true, decide_eq_true_eq] at happ
    refine ⟨Db.isLive_iff.mpr ⟨r, find?_eq_some_iff.mpr ⟨hmem, happ.1.1⟩, ?_⟩, .inr rfl⟩
    rw [happ.1.2]
    rfl
  · obtain ⟨r, hr, h⟩ := orFail_bind_eq_ok.mp h
    obtain ⟨⟨hstate, -⟩, ⟨⟩⟩ := require_bind_eq_ok.mp h
    refine ⟨Db.isLive_iff.mpr ⟨r, hr, ?_⟩, .inl rfl⟩
    rw [hstate]
    rfl

theorem advances_commitReservation (r : Reservation)
    (h : (commitReservation db id batchId).applies r = true) :
    Advances r ((commitReservation db id batchId).change r) := by
  simp only [commitReservation, and_eq_true, decide_eq_true_eq] at h
  rw [Advances, h.1.2]
  exact ⟨rfl, fun _ => rfl⟩

theorem advances_uncertainMark (r : Reservation) (h : (uncertainMark id).applies r = true) :
    Advances r ((uncertainMark id).change r) := by
  simp only [uncertainMark, decide_eq_true_eq] at h
  rw [Advances, h.2]
  exact ⟨rfl, fun _ => rfl⟩

theorem advances_releaseMark (r : Reservation) (h : (releaseMark id).applies r = true) :
    Advances r ((releaseMark id).change r) := by
  simp only [releaseMark, decide_eq_true_eq] at h
  rw [Advances, h.2]
  exact ⟨rfl, fun _ => rfl⟩

theorem moves_commitUsageReservation (h : commitUsageReservation db id batchId = .ok db') :
    Moves db db' := by
  rcases (commitUsageReservation_eq_ok h).2 with rfl | rfl
  · exact .refl
  · exact .single (.reservation advances_commitReservation)

theorem moves_insertBatch (h : insertBatch db reservationId = .ok db') : Moves db db' := by
  obtain ⟨batches, -, h⟩ := orFail_bind_eq_ok.mp h
  split at h
  · cases h
    exact .single .batch
  · obtain ⟨-, h⟩ := require_bind_eq_ok.mp h
    exact (ReflTransGen.single .batch).trans (moves_commitUsageReservation h)

theorem moves_markUncertain (db : Db) (id : ℕ) : Moves db (markUncertain db id) :=
  .single (.reservation advances_uncertainMark)

variable {event : ReleaseEvent}

/-- A release that changes something has found the reservation live. -/
theorem requestRelease_eq_ok (h : requestRelease db id event observed = .ok result) :
    result = (db, none) ∨ ∃ r projections applied,
      db.reservations.find? id = some r ∧ r.state.isLive = true ∧
      applyReleaseProjectionChanges db id observed = .ok (projections, applied) ∧
      result = (db.release id event projections, some applied) := by
  obtain ⟨r, hr, h⟩ := orFail_bind_eq_ok.mp h
  split at h
  · rename_i hlive
    obtain ⟨-, h⟩ := require_bind_eq_ok.mp h
    obtain ⟨-, h⟩ := require_bind_eq_ok.mp h
    obtain ⟨⟨projections, applied⟩, happlied, ⟨⟩⟩ := bind_eq_ok.mp h
    exact .inr ⟨r, projections, applied, hr, hlive, happlied, rfl⟩
  · split at h
    all_goals
      obtain ⟨-, ⟨⟩⟩ := require_bind_eq_ok.mp h
      exact .inl rfl

theorem moves_requestRelease
    (h : requestRelease db id event observed = .ok result) : Moves db result.1 := by
  rcases requestRelease_eq_ok h with rfl | ⟨r, projections, applied, hr, hlive, happlied, rfl⟩
  · exact .refl
  · exact .single (.release hr hlive happlied)

theorem moves_requestUsageReleaseForBatch {reason : LinkedReason}
    (h : requestUsageReleaseForBatch db batchId reason observed = .ok result) :
    Moves db result.1 := by
  unfold requestUsageReleaseForBatch at h
  split at h
  · cases h
    exact .refl
  · exact moves_requestRelease h

theorem moves_requestUnlinkedRelease {reason : UnlinkedReason}
    (h : requestUnlinkedRelease db id reason observed = .ok result) : Moves db result.1 := by
  obtain ⟨-, h⟩ := require_bind_eq_ok.mp h
  split at h
  · cases h
    exact .refl
  · exact moves_requestRelease h

theorem finishRelease_eq_ok (h : finishRelease db id = .ok db') :
    db' = db ∨ db' = { db with reservations := db.reservations.apply (releaseMark id) } := by
  unfold finishRelease at h
  split at h
  · obtain ⟨r, -, h⟩ := orFail_bind_eq_ok.mp h
    obtain ⟨-, ⟨⟩⟩ := require_bind_eq_ok.mp h
    exact .inl rfl
  · cases h
    exact .inr rfl

theorem moves_finishRelease (h : finishRelease db id = .ok db') : Moves db db' := by
  rcases finishRelease_eq_ok h with rfl | rfl
  · exact .refl
  · exact .single (.reservation advances_releaseMark)

/-- An exclusion that changes something has found the reservation reserved or committed. -/
theorem releaseOne_eq_ok {phoneHmac segments : ℕ}
    (h : releaseOne db reservationId phoneHmac segments = .ok db') :
    db' = db ∨ ∃ id r projections, db.reservations.find? id = some r ∧ r.state.isReleasable = true ∧
      db.projections.change (uniqueChanges (exclusionChanges db id phoneHmac segments)) =
        .ok projections ∧ db' = db.exclude id phoneHmac segments projections := by
  unfold releaseOne at h
  split at h
  · cases h
    exact .inl rfl
  rename_i id
  split at h
  · cases h
    exact .inl rfl
  split at h
  · cases h
    exact .inl rfl
  rename_i hstate
  obtain ⟨projections, hprojections, ⟨⟩⟩ := bind_eq_ok.mp h
  rw [not_eq_false, Option.any_eq_true] at hstate
  obtain ⟨r, hr, hstate⟩ := hstate
  exact .inr ⟨id, r, projections, hr, hstate, hprojections, rfl⟩

theorem moves_releaseOne {phoneHmac segments : ℕ}
    (h : releaseOne db reservationId phoneHmac segments = .ok db') : Moves db db' := by
  rcases releaseOne_eq_ok h with rfl | ⟨id, r, projections, hr, hstate, hprojections, rfl⟩
  · exact .refl
  · exact .single (.exclude hr hstate hprojections)

end

end SmsPlatform.Usage
