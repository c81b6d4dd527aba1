import SmsPlatform.Usage.MergeExactness

/-!
# Transactions keep the database well formed and the rows exact

Each elementary change keeps the database well formed.  The rows of quota keys follow the
amounts through all of them.  The rows of frequency keys follow through all of them as well,
except for decisions whose window is older than the stored one.
-/

namespace SmsPlatform.Usage

open Support Table List Projections Option Db Update

/-! ## Rows that stay -/

section

variable {ps qs : Projections} {cs : List ProjectionChange}

theorem isSome_of_raised (h : ps.Raised qs cs) {c : ProjectionChange} (hc : c ∈ cs) :
    (qs.counter c.key).isSome = true := by
  by_cases hv : ∃ v, ps.counter c.key = some (c.windowKey, v)
  · obtain ⟨v, hv⟩ := hv
    rw [h.same c hc v hv]
    rfl
  · rw [h.reset c hc (fun v heq => hv ⟨v, heq⟩)]
    rfl

theorem Projections.Raised.isSome (h : ps.Raised qs cs) {k : DimensionKey}
    (hk : (ps.counter k).isSome = true) : (qs.counter k).isSome = true := by
  by_cases hc : ∃ c ∈ cs, c.key = k
  · obtain ⟨c, hc, rfl⟩ := hc
    exact isSome_of_raised h hc
  · rw [h.other k (fun c hmem heq => hc ⟨c, hmem, heq⟩)]
    exact hk

theorem Projections.Lowered.isSome (h : ps.Lowered qs cs) {k : DimensionKey}
    (hk : (ps.counter k).isSome = true) : (qs.counter k).isSome = true := by
  by_cases hc : ∃ c ∈ cs, c.key = k
  · obtain ⟨c, hc, rfl⟩ := hc
    rw [h.lowered c hc, isSome_map]
    exact hk
  · rw [h.other k (fun c hmem heq => hc ⟨c, hmem, heq⟩)]
    exact hk

end

/-! ## Well-formed databases -/

section

variable {db db' : Db}
variable {subjects : List ResolvedSubject} {c : ProjectionChange} {q : QuotaRequest}
  {r : Reservation} {id : ℕ}

/-- The recipients stay, amounts only become smaller unless they have a row, and no row and no
reservation is lost. -/
theorem WellFormed.of_postings (h : WellFormed db)
    (hpostings : ∀ p' ∈ db'.postings, (∃ p ∈ db.postings,
        p.owner = p'.owner ∧ p.account = p'.account ∧ p'.amount ≤ p.amount) ∨
      ((db.reservations.find? p'.owner).isSome = true ∧
        (0 < p'.amount → (db'.projections.counter p'.account.1).isSome = true)))
    (hrows : ∀ k, (db.projections.counter k).isSome = true →
      (db'.projections.counter k).isSome = true) (hshaped : ∀ p ∈ db'.projections.rows, p.Shaped)
    (howned : ∀ id, (db.reservations.find? id).isSome = true →
      (db'.reservations.find? id).isSome = true)
    (hactive : ∀ id, (db.reservations.find? id).isSome = true → db'.isActive id = true →
      db.isActive id = true) (hsubjects : db'.subjects = db.subjects)
    (hnext : db'.nextSubjectId = db.nextSubjectId)
    (hentries : ∀ e ∈ db'.frequencyEntries, ∃ s ∈ db.subjects,
      s.id = e.subjectId ∧ s.projectionHmac = e.key.hmac) : WellFormed db' := by
  constructor
  · intro p' hp'
    rcases hpostings p' hp' with ⟨p, hp, howner, -⟩ | ⟨hsome, -⟩
    · exact howned _ (howner ▸ h.owned p hp)
    · exact howned _ hsome
  · intro s hs
    rw [hsubjects] at hs
    rw [hnext]
    exact h.fresh s hs
  · rw [hsubjects]
    exact h.hmac_inj
  · rw [hsubjects]
    exact hentries
  · exact hshaped
  · intro p' hp' hact hpos
    rcases hpostings p' hp' with ⟨p, hp, howner, haccount, hle⟩ | ⟨-, hrow⟩
    · rw [← howner] at hact
      rw [← haccount]
      exact hrows _ (h.rowed p hp (hactive _ (h.owned p hp) hact) (hpos.trans_le hle))
    · exact hrow hpos

theorem isSome_find?_of_subset {t u : Table Reservation.id} (h : ∀ r, r ∈ t → r ∈ u)
    (hid : (t.find? id).isSome = true) : (u.find? id).isSome = true := by
  obtain ⟨r, hr⟩ := isSome_iff_exists.mp hid
  rw [find?_of_subset h hr]
  rfl

theorem mem_of_rows_append {t u : Table Reservation.id} (hrows : u.rows = t.rows ++ [r]) :
    ∀ s, s ∈ t → s ∈ u := by
  intro s hs
  rw [← mem_rows, hrows]
  exact mem_append_left _ hs

theorem wellFormed_start (h : WellFormed db) {reservations : Table Reservation.id}
    (hrows : reservations.rows = db.reservations.rows ++ [r]) : WellFormed { db with
      reservations := reservations, nextReservationId := db.nextReservationId + 1 } := by
  have hsubset := mem_of_rows_append hrows
  refine h.of_postings (fun p hp => .inl ⟨p, hp, rfl, rfl, le_rfl⟩) (fun _ => id) h.shaped
    (fun id hid => isSome_find?_of_subset hsubset hid) (fun id hid hact => ?_) rfl rfl
    h.entry_subject
  obtain ⟨s, hs⟩ := isSome_iff_exists.mp hid
  unfold Db.isActive at hact ⊢
  rw [hs]
  rw [find?_of_subset hsubset hs] at hact
  exact hact

theorem wellFormed_reservation (h : WellFormed db) {u : Update Reservation.id}
    (hu : ∀ r, u.applies r = true → Advances r (u.change r)) :
    WellFormed { db with reservations := db.reservations.apply u } := by
  refine h.of_postings (fun p hp => .inl ⟨p, hp, rfl, rfl, le_rfl⟩) (fun _ => id) h.shaped
    (fun id hid => ?_) (fun id _ hact => ?_) rfl rfl h.entry_subject
  · rw [isSome_find?_apply]
    exact hid
  · obtain ⟨r', hr', hact'⟩ := isActive_iff.mp hact
    rw [find?_apply] at hr'
    obtain ⟨r, hr, rfl⟩ := map_eq_some_iff.mp hr'
    refine isActive_iff.mpr ⟨r, hr, ?_⟩
    revert hact'
    exact row_cases (P := fun s => s.state.isActive = true → r.state.isActive = true)
      (fun hs => hs) (fun happ => (hu r happ).2)

theorem reset_of_mem_changes (hc : c ∈ q.changes) : c.resetOnWindowChange = true ∧ c.Shaped := by
  obtain ⟨key, hkey, rfl⟩ := mem_map.mp hc
  exact ⟨rfl, (date_of_mem_keys hkey).symm⟩

theorem ReservesQuota.perm (h : ReservesQuota db id q db') :
    db'.postings.Perm (db.postings ++ (q.entries id).map fun e => e.fact.posting) := by
  obtain ⟨quotaEntries, projections, hentries, -, rfl⟩ := h.inserted
  exact perm_postings_quota hentries rfl rfl

theorem WellFormed.quota (h : WellFormed db) (hquota : ReservesQuota db id q db') :
    WellFormed db' := by
  obtain ⟨r, hr, -⟩ := hquota.reserved
  have hperm := hquota.perm
  obtain ⟨quotaEntries, projections, -, hprojections, rfl⟩ := hquota.inserted
  have hraised := raised_of_change hprojections (fun c hc => (reset_of_mem_changes hc).1)
  refine h.of_postings (fun p hp => ?_) (fun _ => hraised.isSome)
    (shaped_change (fun c hc => (reset_of_mem_changes hc).2) h.shaped hprojections)
    (fun i hi => (isSome_find?_apply i).trans hi)
    (fun i _ hact => (any_find?_apply (fun _ _ => rfl) i).symm.trans hact) rfl rfl h.entry_subject
  rcases mem_append.mp (hperm.mem_iff.mp hp) with hp | hp
  · exact .inl ⟨p, hp, rfl, rfl, le_rfl⟩
  obtain ⟨e, he, rfl⟩ := mem_map.mp hp
  obtain ⟨key, hkey, rfl⟩ := mem_map.mp he
  exact .inr ⟨isSome_of_eq_some hr, fun _ => isSome_of_raised hraised (mem_map_of_mem hkey)⟩

/-- The expiry of a release change is the one of its window. -/
theorem shaped_of_mem_collect (hc : c ∈ db.collectReleaseProjectionChanges id) :
    c.resetOnWindowChange = false ∧ c.Shaped := by
  obtain ⟨account, hmem, rfl⟩ := mem_map.mp hc
  refine ⟨rfl, ?_⟩
  obtain ⟨f, hf, rfl⟩ := mem_map.mp (mem_dedup.mp (mem_filter.mp hmem).1)
  -- a fact of a frequency key expires with its window
  have hexpiry : ∀ g ∈ db.facts, ∀ key, g.key = .frequency key →
      g.expiresAt = key.scope.expiresAt g.windowKey := by
    intro g hg key hkey
    rcases mem_append.mp hg with hg | hg
    · obtain ⟨e, -, rfl⟩ := mem_map.mp hg
      cases hkey
    · obtain ⟨e, -, rfl⟩ := mem_map.mp hg
      cases hkey
      rfl
  have hfacts := (mem_filter.mp hf).1
  cases hkey : f.key with
  | quota key =>
    rcases mem_append.mp hfacts with hfacts | hfacts
    · obtain ⟨e, -, rfl⟩ := mem_map.mp hfacts
      cases hkey
      rfl
    · obtain ⟨e, -, rfl⟩ := mem_map.mp hfacts
      cases hkey
  | frequency key =>
    have hmax : db.expiryOf id f.account = maxExpiry (((db.factsOf id).filter
        (fun g => decide (g.account = f.account))).map Fact.expiresAt) := by
      unfold Db.expiryOf maxExpiry
      rw [foldl_map]
    have hchange : (db.releaseChange id f.account).key = .frequency key := hkey
    rw [ProjectionChange.Shaped, hchange]
    refine hmax.trans (maxExpiry_eq ?_ (fun x hx => ?_))
    · refine ne_nil_of_mem (a := f.expiresAt) (mem_map_of_mem ?_)
      exact mem_filter.mpr ⟨hf, decide_eq_true rfl⟩
    · obtain ⟨g, hg, rfl⟩ := mem_map.mp hx
      obtain ⟨hgid, hgaccount⟩ := mem_filter.mp hg
      have haccount : g.account = f.account := of_decide_eq_true hgaccount
      have hgkey : g.key = f.key := congrArg Prod.fst haccount
      have hgwindow : g.windowKey = f.windowKey := congrArg Prod.snd haccount
      rw [hexpiry g (mem_filter.mp hgid).1 key (hgkey.trans hkey), hgwindow]
      rfl

variable {event : ReleaseEvent}

theorem isActive_releaseRequest (hr : db.reservations.find? id = some r)
    (hlive : r.state.isLive = true)
    (hreservations : db'.reservations = db.reservations.apply (releaseRequest id event)) {i : ℕ}
    (hi : db'.isActive i = true) : db.isActive i = true := by
  by_cases hid : i = id
  · subst hid
    exact isActive_of_isLive (isLive_iff.mpr ⟨r, hr, hlive⟩)
  rw [isActive, hreservations, any_find?_releaseRequest hr, if_neg hid] at hi
  exact hi

variable {projections : Projections}

theorem wellFormed_release (h : WellFormed db) {observed : ℕ} {applied : List ProjectionChange}
    (hr : db.reservations.find? id = some r) (hlive : r.state.isLive = true)
    (happlied : applyReleaseProjectionChanges db id observed = .ok (projections, applied)) :
    WellFormed (db.release id event projections) := by
  obtain ⟨rfl, hchange⟩ := applyReleaseProjectionChanges_eq_ok happlied
  have hlowered := lowered_of_change hchange
    (fun c hc => (shaped_of_mem_collect (mem_of_mem_filter hc)).1)
  exact h.of_postings (fun p hp => .inl ⟨p, hp, rfl, rfl, le_rfl⟩) (fun _ => hlowered.isSome)
    (shaped_change (fun c hc => (shaped_of_mem_collect (mem_of_mem_filter hc)).2) h.shaped hchange)
    (fun i hi => (isSome_find?_apply i).trans hi) (fun i _ => isActive_releaseRequest hr hlive rfl)
    rfl rfl h.entry_subject

theorem shaped_of_mem_exclusionChanges {phoneHmac segments : ℕ}
    (hc : c ∈ exclusionChanges db id phoneHmac segments) :
    c.resetOnWindowChange = false ∧ c.Shaped := by
  rcases mem_append.mp hc with hc | hc
  · obtain ⟨e, -, rfl⟩ := mem_map.mp hc
    exact ⟨rfl, rfl⟩
  · obtain ⟨e, -, rfl⟩ := mem_map.mp hc
    exact ⟨rfl, rfl⟩

section

variable (h : WellFormed db)
include h

theorem wellFormed_exclude {phoneHmac segments : ℕ} (hprojections : db.projections.change
      (uniqueChanges (exclusionChanges db id phoneHmac segments)) = .ok projections) :
    WellFormed (db.exclude id phoneHmac segments projections) := by
  rw [uniqueChanges_eq nodup_exclusionChanges] at hprojections
  have hlowered := lowered_of_change hprojections
    (fun c hc => (shaped_of_mem_exclusionChanges hc).1)
  refine h.of_postings (fun p' hp' => .inl ?_) (fun _ => hlowered.isSome)
    (shaped_change (fun c hc => (shaped_of_mem_exclusionChanges hc).2) h.shaped hprojections)
    (fun _ hi => hi) (fun _ _ hi => hi) rfl rfl (fun e' he' => ?_)
  · rcases mem_postings.mp hp' with ⟨e', he', rfl⟩ | ⟨e', he', rfl⟩
    · obtain ⟨e, he, rfl⟩ := mem_apply_iff.mp he'
      exact ⟨_, mem_postings.mpr (.inl ⟨e, he, rfl⟩), shrinks_quotaReduction e⟩
    · obtain ⟨e, he, rfl⟩ := mem_apply_iff.mp he'
      exact ⟨_, mem_postings.mpr (.inr ⟨e, he, rfl⟩), shrinks_frequencyExclusion e⟩
  · obtain ⟨e, he, rfl⟩ := mem_apply_iff.mp he'
    exact row_cases (P := fun f : FrequencyEntry => ∃ s ∈ db.subjects,
      s.id = f.subjectId ∧ s.projectionHmac = f.key.hmac) (h.entry_subject e he)
      (fun _ => h.entry_subject e he)

theorem wellFormed_subject {projectionHmac : ℕ}
    (hcreate : createSubject db projectionHmac = .ok db') : WellFormed db' := by
  have hfresh := (keeps_createSubject hcreate).fresh h.fresh
  obtain ⟨hunique, subjects, hrows, rfl⟩ := createSubject_eq_ok hcreate
  have hmem : ∀ s : FrequencySubject,
      s ∈ subjects ↔ s ∈ db.subjects ∨ s = ⟨db.nextSubjectId, projectionHmac⟩ := by
    intro s
    rw [← mem_rows, hrows, mem_append, mem_singleton, mem_rows]
  refine ⟨h.owned, hfresh, ?_, ?_, h.shaped, h.rowed⟩
  · intro s hs t ht heq
    rcases (hmem s).mp hs with hs | rfl
    · rcases (hmem t).mp ht with ht | rfl
      · exact h.hmac_inj s hs t ht heq
      · exact absurd heq (hunique s hs)
    · rcases (hmem t).mp ht with ht | rfl
      · exact absurd heq.symm (hunique t ht)
      · rfl
  · intro e he
    obtain ⟨s, hs, hrest⟩ := h.entry_subject e he
    exact ⟨s, (hmem s).mpr (.inl hs), hrest⟩

theorem wellFormed_bind {a : FrequencyAlias} (hbind : bindAlias db a = .ok db') :
    WellFormed db' := by
  rcases bindAlias_eq_ok hbind with ⟨-, rfl⟩ | ⟨-, -, aliases, -, rfl⟩
  · exact h
  · exact ⟨h.owned, h.fresh, h.hmac_inj, h.entry_subject, h.shaped, h.rowed⟩

/-- Every elementary change keeps the database well formed. -/
theorem WellFormed.move (hmove : Move db db') : WellFormed db' := by
  cases hmove with
  | start hrows => exact wellFormed_start h hrows
  | batch => exact ⟨h.owned, h.fresh, h.hmac_inj, h.entry_subject, h.shaped, h.rowed⟩
  | reservation hu => exact wellFormed_reservation h hu
  | release hr hlive happlied => exact wellFormed_release h hr hlive happlied
  | exclude _ _ hprojections => exact wellFormed_exclude h hprojections
  | subject hcreate => exact wellFormed_subject h hcreate
  | bind hbind => exact wellFormed_bind h hbind
  | merge hcanonical hsubjects hnodup hmerge =>
    exact wellFormed_merge h hcanonical hsubjects hnodup hmerge

theorem WellFormed.moves (hmoves : Moves db db') : WellFormed db' := by
  induction hmoves with
  | refl => exact h
  | tail _ hmove ih => exact ih.move hmove

end

variable {q : FrequencyRequest}

theorem shaped_of_mem_decisionChanges
    (hc : c ∈ decisionChanges db q subjects) : c.resetOnWindowChange = true ∧ c.Shaped := by
  obtain ⟨s, -, hc⟩ := mem_flatMap.mp hc
  obtain ⟨scope, -, rfl⟩ := mem_map.mp hc
  exact ⟨rfl, rfl⟩

theorem mem_decisionEntries {e : FrequencyEntry} :
    e ∈ decisionEntries db q subjects ↔ ∃ s ∈ uniqueSubjects subjects, ∃ scope ∈ q.scopes,
      e = ⟨q.reservationId, s.subjectId, ⟨scope, s.projectionHmac⟩, scope.window q.now,
        q.allows db s.subjectId⟩ := by
  unfold decisionEntries FrequencyRequest.entries
  simp [eq_comm]

theorem WellFormed.decides (h : WellFormed db)
    (hdecides : Decides db q subjects db') : WellFormed db' := by
  obtain ⟨hexists, frequencyEntries, projections, hrows, hchange, rfl⟩ := hdecides.eq h
  have hentry : ∀ e, e ∈ frequencyEntries → e ∈ db.frequencyEntries ∨
    e ∈ decisionEntries db q subjects := by
    intro e he
    rw [← mem_rows, hrows] at he
    exact mem_append.mp he
  have hraised := raised_of_change hchange (fun c hc => (shaped_of_mem_decisionChanges hc).1)
  refine h.of_postings (fun p hp => ?_) (fun _ => hraised.isSome)
    (shaped_change (fun c hc => (shaped_of_mem_decisionChanges hc).2) h.shaped hchange)
    (fun _ => id) (fun _ _ => id) rfl rfl (fun e he => ?_)
  · rcases mem_postings.mp hp with ⟨e, he, rfl⟩ | ⟨e, he, rfl⟩
    · exact .inl ⟨_, mem_postings.mpr (.inl ⟨e, he, rfl⟩), rfl, rfl, le_rfl⟩
    rcases hentry e he with he | he
    · exact .inl ⟨_, mem_postings.mpr (.inr ⟨e, he, rfl⟩), rfl, rfl, le_rfl⟩
    obtain ⟨s, hs, scope, hscope, rfl⟩ := mem_decisionEntries.mp he
    obtain ⟨r, hr, -⟩ := hdecides.reserved
    refine .inr ⟨isSome_of_eq_some hr, fun hpos => ?_⟩
    have hallows : q.allows db s.subjectId = true := counted_of_amount_pos hpos
    exact isSome_of_raised hraised
      (mem_flatMap.mpr ⟨s, mem_filter.mpr ⟨hs, hallows⟩, mem_map_of_mem hscope⟩)
  · rcases hentry e he with he | he
    · exact h.entry_subject e he
    · obtain ⟨s, hs, scope, -, rfl⟩ := mem_decisionEntries.mp he
      obtain ⟨t, ht, htid⟩ := isSome_find?_iff.mp (hexists s hs)
      exact ⟨t, ht, htid, hdecides.hmac s (mem_of_mem_uniqueSubjects hs) t ht htid⟩

end

/-! ## Exact rows -/

section

variable {db db' : Db} {k : DimensionKey} {q : QuotaRequest} {id : ℕ}

/-- A new reservation does not change whether the others are live. -/
theorem isLive_start {r : Reservation} (hrows : db'.reservations.rows = db.reservations.rows ++ [r])
    (hid : (db.reservations.find? id).isSome = true) : db'.isLive id = db.isLive id := by
  obtain ⟨s, hs⟩ := isSome_iff_exists.mp hid
  unfold Db.isLive
  rw [hs, find?_of_subset (mem_of_rows_append hrows) hs]

/-- What an elementary change does to the amounts and the rows. -/
inductive Shift (db db' : Db) : Prop
  | same (hamounts : ∀ k w, db'.liveAmount k w = db.liveAmount k w)
      (hprojections : db'.projections = db.projections)
  | lowers (cs : List ProjectionChange) (hlowered : db.projections.Lowered db'.projections cs)
      (hamounts : ∀ k w, db'.liveAmount k w + moved cs (k, w) = db.liveAmount k w)
  | merges {canonical : ℕ} {subjects : List FrequencySubject} {observed : ℕ}
      (hready : MergeReady db canonical subjects)
      (heffect : MergeEffect db db' canonical subjects observed)

theorem Move.shift (hwf : WellFormed db) (hmove : Move db db') : Shift db db' := by
  cases hmove with
  | start hrows =>
    exact .same (fun k w => balance_congr fun p hp _ => isLive_start hrows (hwf.owned p hp)) rfl
  | batch => exact .same (fun _ _ => rfl) rfl
  | reservation hu =>
    refine .same (fun k w => balance_congr fun p _ _ => ?_) rfl
    exact any_find?_apply (fun r happ => (hu r happ).1) p.owner
  | release hr hlive happlied =>
    have hactive := isActive_of_isLive (isLive_iff.mpr ⟨_, hr, hlive⟩)
    have hcollect := applied_eq_collect hwf.rowed hactive happlied
    have hchange := (applyReleaseProjectionChanges_eq_ok happlied).2
    refine .lowers _ (lowered_of_change hchange (fun c hc => ?_)) (fun k w => ?_)
    · exact (shaped_of_mem_collect (hcollect ▸ hc)).1
    · exact liveAmount_release hr hlive hcollect (by rfl) (by rfl) k w
  | exclude hr hstate hprojections =>
    rw [uniqueChanges_eq nodup_exclusionChanges] at hprojections
    refine .lowers _ (lowered_of_change hprojections (fun c hc => ?_)) (fun k w => ?_)
    · exact (shaped_of_mem_exclusionChanges hc).1
    · exact liveAmount_exclude hr hstate (by rfl) (by rfl) (by rfl) k w
  | subject hcreate =>
    obtain ⟨-, subjects, -, rfl⟩ := createSubject_eq_ok hcreate
    exact .same (fun _ _ => rfl) rfl
  | bind hbind =>
    rcases bindAlias_eq_ok hbind with ⟨-, rfl⟩ | ⟨-, -, aliases, -, rfl⟩ <;>
      exact .same (fun _ _ => rfl) rfl
  | merge hcanonical hsubjects hnodup hmerge =>
    have hready := mergeReady hwf hcanonical hsubjects hnodup
    exact .merges hready (mergeEffect_of_mergeSubjects hready hmerge)

/-- Every elementary change keeps rows exact; a merge takes the rows of all frequency keys
together. -/
theorem Db.Exact.move (h : db.Exact k) (hwf : WellFormed db)
    (hfrequency : ∀ j, k = .frequency j → ∀ i : FrequencyKey, db.Exact (.frequency i))
    (hmove : Move db db') : db'.Exact k := by
  cases hmove.shift hwf with
  | same hamounts hprojections => exact h.congr (hamounts k) (by rw [hprojections])
  | lowers cs hlowered hamounts => exact tracks_lowered hlowered h (hamounts k)
  | merges hready heffect =>
    cases k with
    | quota key => exact heffect.exact_quota hready h
    | frequency key => exact heffect.exact_frequency hready (hfrequency key rfl) key

theorem exact_quota_moves (hwf : WellFormed db) (h : ∀ k, db.Exact (.quota k))
    (hmoves : Moves db db') : ∀ k, db'.Exact (.quota k) := by
  induction hmoves with
  | refl => exact h
  | tail hmoves hmove ih =>
    intro k
    refine (ih k).move (hwf.moves hmoves) (fun j hj => ?_) hmove
    cases hj

/-- The stored window of a quota row is its day. -/
theorem window_eq_of_quota (hwf : WellFormed db) {key : QuotaKey} {w v : ℕ}
    (h : db.projections.counter (.quota key) = some (w, v)) : w = key.date := by
  obtain ⟨p, hp, hpair⟩ := map_eq_some_iff.mp h
  obtain ⟨hmem, hkey⟩ := find?_eq_some_iff.mp hp
  have hshape := hwf.shaped p hmem
  rw [Projection.Shaped, hkey] at hshape
  exact (Prod.mk.inj hpair).1.symm.trans hshape

theorem balance_quota (hquota : ReservesQuota db id q db') (counts : ℕ → Bool)
    (hcounts : counts id = true) (account : DimensionKey × ℕ) :
    balance counts account db'.postings =
      balance counts account db.postings + moved q.changes account := by
  rw [balance_perm hquota.perm, balance_append, balance_entries hcounts]

theorem liveAmount_quota (hquota : ReservesQuota db id q db') (k : DimensionKey) (w : ℕ) :
    db'.liveAmount k w = db.liveAmount k w + moved q.changes (k, w) := by
  obtain ⟨r, hr, hstate⟩ := hquota.reserved
  have hlive : db.isLive id = true := isLive_iff.mpr ⟨r, hr, by rw [hstate]; rfl⟩
  have hsame : ∀ i, db'.isLive i = db.isLive i := by
    obtain ⟨quotaEntries, projections, -, -, rfl⟩ := hquota.inserted
    exact any_find?_apply (fun _ _ => rfl)
  unfold Db.liveAmount
  rw [balance_quota hquota _ ((hsame id).trans hlive)]
  congr 1
  exact balance_congr (fun p _ _ => hsame p.owner)

theorem Db.Exact.quota (h : db.Exact k) (hwf : WellFormed db) (hquota : ReservesQuota db id q db') :
    db'.Exact k := by
  have hamounts := liveAmount_quota hquota k
  obtain ⟨quotaEntries, projections, -, hprojections, rfl⟩ := hquota.inserted
  have hraised := raised_of_change hprojections (fun c hc => (reset_of_mem_changes hc).1)
  refine tracks_raised hraised h (fun c hc hkey w v hcounter => ?_) hamounts
  obtain ⟨key, hmem, rfl⟩ := mem_map.mp hc
  subst hkey
  rw [window_eq_of_quota hwf hcounter]
  exact (date_of_mem_keys hmem).le

/-- Decisions keep the rows exact unless a row is ahead of them. -/
theorem Db.Exact.decides (h : db.Exact k) (hwf : WellFormed db) {q : FrequencyRequest}
    {subjects : List ResolvedSubject} (hdecides : Decides db q subjects db')
    (hwindow : ∀ c ∈ decisionChanges db q subjects, c.key = k → ∀ w v,
      db.projections.counter k = some (w, v) → w ≤ c.windowKey) : db'.Exact k := by
  have hamounts := liveAmount_decide hwf hdecides k
  obtain ⟨-, frequencyEntries, projections, -, hchange, rfl⟩ := hdecides.eq hwf
  exact tracks_raised (raised_of_change hchange
    (fun c hc => (shaped_of_mem_decisionChanges hc).1)) h hwindow hamounts

end

end SmsPlatform.Usage
