import SmsPlatform.Idempotency.System

/-!
# What a step does

`Step` lists the transactions around the idempotency claims with what each of them has found.
Every invariant is proved by cases on it.
-/

namespace SmsPlatform.Idempotency

open Support Option

variable {now : Time} {w w' : World} {x : ℕ}

theorem Claim.isOwned_iff {q : Claim} {h : Holding} : q.isOwned h = true ↔
      q.key = h.key ∧ q.token = h.token ∧ q.generation = h.generation ∧ q.state = .active := by
  simp [Claim.isOwned]

inductive Step (w : World) : Action → World → Prop
  | ticked {seconds} : Step w (.tick seconds) { w with clock := w.clock + seconds }
  | reserved {x key fingerprint ttl now} (hnew : ∀ q ∈ w.claims.rows, q.key ≠ key) :
      Step w (.reserve x key fingerprint ttl none now) ({ w with
          claims := w.claims.insertNew (newClaim key w.nextToken fingerprint (now + ttl)) hnew
          }.setHeld x (w.granted key fingerprint 1))
  | takenOver {x key fingerprint ttl now generation} :
      Step w (.reserve x key fingerprint ttl none now) ({ w with
          claims := w.claims.apply (takeOverUpdate key w.nextToken fingerprint (now + ttl) now)
          }.setHeld x (w.granted key fingerprint generation))
  | reclaimed {x key fingerprint ttl batchId now generation q}
      (hq : q ∈ w.claims) (hkey : q.key = key) (hstate : q.state = .completed batchId)
      (hprotected : q.resultProtected w.operations (w.resultOf key batchId)
        (w.batches.find? batchId) now = false) :
      Step w (.reserve x key fingerprint ttl (some batchId) now)
        ((w.retire key fingerprint (now + ttl) batchId).setHeld x
          (w.granted key fingerprint generation))
  | renewed {x ttl margin now h} (hheld : w.held x = some h) : Step w (.renew x ttl margin now)
        { w with claims := w.claims.apply (renewUpdate h ttl margin now) }
  | released {x now h} (hheld : w.held x = some h) :
      Step w (.release x now) { w with claims := w.claims.apply (releaseUpdate h w.records now) }
  | committed {x command now h q} (hheld : w.held x = some h)
      (hbatch : ∀ b ∈ w.batches.rows, b.id ≠ w.nextBatch)
      (hrecord : ∀ r ∈ (w.recordsFor h.key now).rows, r.key ≠ h.key)
      (hq : q ∈ w.claims) (howned : q.isOwned h = true) (hlease : now < q.expiresAt) :
      Step w (.commit x command now) (w.complete x h command now hbatch hrecord)
  | worked {b} : Step w (.work b) { w with batches := w.batches.put b }
  | operated {operations} : Step w (.operate operations) { w with operations := operations }
  | rescheduled {batchId scheduledAt w'} (hnext : w.reschedule batchId scheduledAt = some w') :
      Step w (.reschedule batchId scheduledAt) w'
  | cleaned {page cutoff now} : Step w (.cleanup page cutoff now) (w.cleanup page cutoff now)

variable {fingerprint : String} {ttl : Time} {key : Key}

theorem step_of_reserve (h : w.reserve x key fingerprint ttl now = some w') :
    Step w (.reserve x key fingerprint ttl none now) w' := by
  unfold World.reserve at h
  split at h
  · cases h
    exact .reserved _
  · obtain ⟨q, -, rfl⟩ := map_eq_some_iff.mp h
    exact .takenOver

theorem step_of_reclaim {batchId : BatchId}
    (h : w.reclaim x key fingerprint ttl now batchId = some w') :
    Step w (.reserve x key fingerprint ttl (some batchId) now) w' := by
  unfold World.reclaim at h
  split at h
  · cases h
  obtain ⟨q, hq, h⟩ := bind_eq_some_iff.mp h
  obtain ⟨hfind, hstate⟩ := filter_eq_some_iff.mp hq
  obtain ⟨hmem, hkey⟩ := Table.find?_eq_some_iff.mp hfind
  dsimp only at h
  split at h
  · cases h
  rename_i hguard
  cases h
  simp only [Bool.or_eq_true, not_or, Bool.not_eq_true] at hguard
  exact .reclaimed hmem hkey (by simpa using hstate) hguard.1.2

theorem step_of_commit {command : BatchCommand} (h : w.commit x command now = some w') :
    Step w (.commit x command now) w' := by
  obtain ⟨held, hheld, h⟩ := bind_eq_some_iff.mp h
  split at h
  · rename_i hbatch
    split at h
    · rename_i hrecord
      split at h
      · rename_i hcount
        cases h
        obtain ⟨q, hq, happ⟩ := Table.exists_applies_of_rowcount_pos hcount
        obtain ⟨howned, hlease⟩ := Bool.and_eq_true_iff.mp happ
        exact .committed hheld hbatch hrecord hq howned (by simpa using hlease)
      · cases h
    · cases h
  · cases h

theorem step_of_next {a : Action} (h : w.next a = some w') : a.began ≤ w.clock ∧ Step w a w' := by
  obtain ⟨hbegan, h⟩ := ite_none_right_eq_some.mp h
  refine ⟨hbegan, ?_⟩
  cases a with
  | tick => cases h; exact .ticked
  | reserve x key fingerprint ttl seen now =>
    cases seen with
    | none => exact step_of_reserve h
    | some batchId => exact step_of_reclaim h
  | renew =>
    obtain ⟨held, hheld, rfl⟩ := map_eq_some_iff.mp h
    exact .renewed hheld
  | release =>
    obtain ⟨held, hheld, rfl⟩ := map_eq_some_iff.mp h
    exact .released hheld
  | commit => exact step_of_commit h
  | work b =>
    simp only [World.effect, World.work] at h
    split at h
    · cases h
      exact .worked
    · cases h
  | operate => cases h; exact .operated
  | reschedule => exact .rescheduled h
  | cleanup => cases h; exact .cleaned

theorem reschedule_frame {batchId : BatchId} {scheduledAt : Time}
    (h : w.reschedule batchId scheduledAt = some w') :
    w'.clock = w.clock ∧ w'.claims = w.claims ∧ w'.commits = w.commits ∧
    w'.retirements = w.retirements ∧ w'.held = w.held ∧ w'.nextToken = w.nextToken ∧
    w'.nextBatch = w.nextBatch := by
  obtain ⟨b, -, rfl⟩ := map_eq_some_iff.mp h
  exact ⟨rfl, rfl, rfl, rfl, rfl, rfl, rfl⟩

end SmsPlatform.Idempotency
