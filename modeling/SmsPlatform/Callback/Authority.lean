import SmsPlatform.Callback.Fencing

/-!
# Deliveries and configuration changes

A delivery registers an authority for its application before it reads address and secret, and
confirms it before it sends.  A configuration change takes the lock of the application and goes
ahead only if no authority is registered that has not run out.  Registration and confirmation
need the same lock, heartbeats and releases do not.

The history `grants` says until when each authority was last granted.  It shows what the lease
table protects: as long as a grant has not run out and was not released, its row is there.
-/

namespace SmsPlatform.Callback

open Support Table Function Option Update World

/-! ## The lease table and the grants -/

/-- The lease stands for a grant. -/
def World.Backed (w : World) (r : AuthorityLease) : Prop :=
  ∃ g, w.grants r.leaseId = some g ∧ g.taskId = r.taskId ∧ g.appId = r.appId

/-- The grant is in the lease table. -/
def World.Registered (w : World) (l : LeaseId) (g : Grant) : Prop :=
  ∃ r ∈ w.authorities, r.leaseId = l ∧ r.appId = g.appId ∧ r.expiresAt = g.expiresAt

structure AuthorityRows (w : World) : Prop where
  backed : ∀ r ∈ w.authorities, w.Backed r
  pending_backed : ∀ change ∈ w.changes, ∀ r, change.expired = some r →
    w.Backed r ∧ r.appId = change.appId
  registered : ∀ l g, w.grants l = some g → w.Registered l g ∨ g.expiresAt ≤ w.clock
  locked : ∀ change ∈ w.changes, ∀ r ∈ w.authorities, r.appId ≠ change.appId

/-- What the workers' claims have to do with the grants. -/
structure AuthorityClaims (w : World) : Prop where
  taskId : ∀ x c g, (w.worker x).claim? = some c → w.grants c.leaseId = some g → g.taskId = c.taskId
  claimed : ∀ x c, w.worker x = .claimed c → w.grants c.leaseId = none
  fresh : ∀ l, w.nextLease ≤ l → w.grants l = none

/-! ## Claims -/

variable {a : Action} {setting : Setting} {w w' : World} {l : LeaseId} {g : Grant}

theorem grants_of_update {l₀ : LeaseId} {v : Option Grant}
    (h : update w.grants l₀ v l = some g) :
    (l = l₀ ∧ v = some g) ∨ (l ≠ l₀ ∧ w.grants l = some g) := by
  by_cases hl : l = l₀
  · rw [hl, update_self] at h
    exact .inl ⟨hl, h⟩
  · rw [update_of_ne hl] at h
    exact .inr ⟨hl, h⟩

/-- How a step changes the grant under one lease. -/
theorem Step.grants (h : Step setting w a w') (hg : w'.grants l = some g) :
    (∃ g₀, w.grants l = some g₀ ∧ g₀.taskId = g.taskId ∧ g₀.appId = g.appId) ∨
    ∃ x c, (w.worker x).claim? = some c ∧ c.leaseId = l ∧ g.taskId = c.taskId ∧
    ∀ d, w'.worker x ≠ .claimed d := by
  have hsame : w'.grants = w.grants →
      ∃ g₀, w.grants l = some g₀ ∧ g₀.taskId = g.taskId ∧ g₀.appId = g.appId := fun heq =>
    ⟨g, by rw [← heq]; exact hg, rfl, rfl⟩
  cases h with
  | @beaten x c leaseSeconds now hpc =>
    left
    by_cases hrows : 0 < w.authorities.rowcount (World.extendAuthority c (now + leaseSeconds))
    · simp only [hrows, if_true] at hg
      rcases grants_of_update hg with ⟨rfl, hnew⟩ | ⟨-, hg⟩
      · obtain ⟨g₀, hg₀, rfl⟩ := map_eq_some_iff.mp hnew
        exact ⟨g₀, hg₀, rfl, rfl⟩
      · exact ⟨g, hg, rfl, rfl⟩
    · simp only [hrows, if_false] at hg
      exact ⟨g, hg, rfl, rfl⟩
  | @acquired x c t answered now hpc ht =>
    simp only [World.setWorker] at hg ⊢
    rcases grants_of_update hg with ⟨rfl, ⟨⟩⟩ | ⟨-, hg⟩
    · refine .inr ⟨x, c, by rw [hpc]; rfl, rfl, (find?_eq_some_iff.mp ht).2, ?_⟩
      intro d hd
      rw [update_self] at hd
      cases answered <;> cases hd
    · exact .inl ⟨g, hg, rfl, rfl⟩
  | @confirmed x c material t app now hpc ht =>
    simp only [World.setWorker] at hg ⊢
    rcases grants_of_update hg with ⟨rfl, ⟨⟩⟩ | ⟨-, hg⟩
    · refine .inr ⟨x, c, by rw [hpc]; rfl, rfl, (find?_eq_some_iff.mp ht).2, ?_⟩
      intro d hd
      rw [update_self] at hd
      cases hd
    · exact .inl ⟨g, hg, rfl, rfl⟩
  | @released x c outcome pc =>
    rcases grants_of_update hg with ⟨-, ⟨⟩⟩ | ⟨-, hg⟩
    exact .inl ⟨g, hg, rfl, rfl⟩
  | _ => exact .inl (hsame rfl)

theorem authorityClaims_step (hf : Fenced w) (hc : AuthorityClaims w) (h : Step setting w a w') :
    AuthorityClaims w' := by
  have hnext : w.nextLease ≤ w'.nextLease := by
    rcases h.claims with ⟨heq, -⟩ | ⟨-, -, -, heq, -⟩
    · exact heq.ge
    · exact heq ▸ Nat.le_succ w.nextLease
  refine ⟨?_, ?_, ?_⟩
  · intro x c g hclaim hg
    rcases h.grants hg with ⟨g₀, hg₀, htask, -⟩ | ⟨y, d, hd, hlease, htask, -⟩
    · rcases (h.move x).claim? hclaim with hbefore | hnew
      · exact htask.symm.trans (hc.taskId x c g₀ hbefore hg₀)
      · rw [hnew, hc.fresh w.nextLease le_rfl] at hg₀
        cases hg₀
    · rcases (h.move x).claim? hclaim with hbefore | hnew
      · obtain rfl := hf.distinct y d x c hd hbefore hlease
        rw [hd] at hbefore
        cases hbefore
        exact htask
      · exact absurd (hlease.trans hnew) (hf.claim_lt y d hd).ne
  · intro x c hpc
    have hmove := h.move x
    rw [hpc] at hmove
    by_contra hne
    obtain ⟨g, hg⟩ := ne_none_iff_exists'.mp hne
    rcases h.grants hg with ⟨g₀, hg₀, -⟩ | ⟨y, d, hd, hlease, -, hmoved⟩
    · rcases hmove.claimed with hbefore | hnew
      · rw [hc.claimed x c hbefore] at hg₀
        cases hg₀
      · rw [hnew, hc.fresh w.nextLease le_rfl] at hg₀
        cases hg₀
    · rcases hmove.claimed with hbefore | hnew
      · have hclaim : (w.worker x).claim? = some c := by rw [hbefore]; rfl
        obtain rfl := hf.distinct y d x c hd hclaim hlease
        exact hmoved c hpc
      · exact (hlease.trans hnew).not_lt (hf.claim_lt y d hd)
  · intro l hl
    by_contra hne
    obtain ⟨g, hg⟩ := ne_none_iff_exists'.mp hne
    rcases h.grants hg with ⟨g₀, hg₀, -⟩ | ⟨y, d, hd, hlease, -⟩
    · rw [hc.fresh l (hnext.trans hl)] at hg₀
      cases hg₀
    · exact absurd (hlease ▸ hf.claim_lt y d hd) (not_lt.mpr (hnext.trans hl))

/-! ## Leases -/

variable {now : Time} {appId : AppId}

/-- The leases after the end of those that ran out. -/
theorem registered_unexpired (hnow : now ≤ w.clock) (h : w.Registered l g) :
    (∃ r ∈ w.unexpired appId now, r.leaseId = l ∧ r.appId = g.appId ∧
      r.expiresAt = g.expiresAt) ∨ g.expiresAt ≤ w.clock := by
  obtain ⟨r, hr, hlease, happ, hexpires⟩ := h
  by_cases hold : r.appId = appId ∧ r.expiresAt ≤ now
  · exact .inr (hexpires ▸ hold.2.trans hnow)
  · refine .inl ⟨r, mem_unexpired_iff.mpr ⟨hr, fun heq => ?_⟩, hlease, happ, hexpires⟩
    exact not_le.mp (fun hle => hold ⟨heq, hle⟩)

theorem backed_of_grants_eq (h : w'.grants = w.grants) {r : AuthorityLease} (hr : w.Backed r) :
    w'.Backed r := by
  unfold World.Backed
  rw [h]
  exact hr

theorem World.Backed.update {r : AuthorityLease} {v : Option Grant} (h : w.Backed r)
    (hl : r.leaseId ≠ l) : World.Backed { w with grants := update w.grants l v } r := by
  obtain ⟨g, hg, hsame⟩ := h
  exact ⟨g, (update_of_ne hl _ _).trans hg, hsame⟩

theorem AuthorityRows.frame (hr : AuthorityRows w) (hauthorities : w'.authorities = w.authorities)
    (hchanges : w'.changes = w.changes) (hgrants : w'.grants = w.grants)
    (hclock : w.clock ≤ w'.clock) : AuthorityRows w' where
  backed := by
    rw [hauthorities]
    exact fun r hmem => backed_of_grants_eq hgrants (hr.backed r hmem)
  pending_backed := by
    rw [hchanges]
    exact fun change hmem r hexpired =>
      ⟨backed_of_grants_eq hgrants (hr.pending_backed change hmem r hexpired).1,
        (hr.pending_backed change hmem r hexpired).2⟩
  registered := by
    unfold World.Registered
    rw [hgrants, hauthorities]
    exact fun l g hg => (hr.registered l g hg).imp_right (fun hle => hle.trans hclock)
  locked := by
    rw [hchanges, hauthorities]
    exact hr.locked

section

variable (hr : AuthorityRows w) {appId : AppId}

include hr

/-- Leases that have run out may go. -/
theorem AuthorityRows.prune (hnow : now ≤ w.clock) :
    AuthorityRows { w with authorities := w.unexpired appId now } where
  backed := fun r hmem => hr.backed r (mem_unexpired_iff.mp hmem).1
  pending_backed := hr.pending_backed
  registered := fun l g hg => by
    rcases hr.registered l g hg with hreg | hle
    · exact registered_unexpired hnow hreg
    · exact .inr hle
  locked := fun change hchange r hmem =>
    hr.locked change hchange r (mem_unexpired_iff.mp hmem).1

/-- A new authority under a lease that has none, while no change holds the lock. -/
theorem AuthorityRows.insert {row : AuthorityLease} (hgrant : w.grants row.leaseId = none)
    (hlock : ∀ change ∈ w.changes, change.appId ≠ row.appId)
    (hfree : ∀ r ∈ w.authorities.rows, r.appId ≠ row.appId) :
    AuthorityRows { w with
      authorities := w.authorities.insertNew row hfree
      grants := update w.grants row.leaseId
        (some ⟨row.taskId, row.appId, row.expiresAt, false⟩) } := by
  have hother : ∀ r, w.Backed r → r.leaseId ≠ row.leaseId := by
    rintro r ⟨g, hg, -⟩ heq
    rw [heq, hgrant] at hg
    cases hg
  refine ⟨?_, ?_, ?_, ?_⟩
  · intro r hmem
    rcases (mem_insertNew_iff hfree).mp hmem with hmem | rfl
    · exact (hr.backed r hmem).update (hother r (hr.backed r hmem))
    · exact ⟨_, update_self _ _ _, rfl, rfl⟩
  · intro change hchange r hexpired
    obtain ⟨hback, happ⟩ := hr.pending_backed change hchange r hexpired
    exact ⟨hback.update (hother r hback), happ⟩
  · intro l g hg
    rcases grants_of_update hg with ⟨rfl, ⟨⟩⟩ | ⟨-, hg⟩
    · exact .inl ⟨row, (mem_insertNew_iff hfree).mpr (.inr rfl), rfl, rfl, rfl⟩
    · rcases hr.registered l g hg with ⟨r, hmem, hsame⟩ | hle
      · exact .inl ⟨r, (mem_insertNew_iff hfree).mpr (.inl hmem), hsame⟩
      · exact .inr hle
  · intro change hchange r hmem
    rcases (mem_insertNew_iff hfree).mp hmem with hmem | rfl
    · exact hr.locked change hchange r hmem
    · exact (hlock change hchange).symm

/-- The authority under a lease gets a new end, and its row does too. -/
theorem AuthorityRows.renew {u : Update AuthorityLease.appId} {lease : LeaseId} {g₀ : Grant}
    (hg₀ : w.grants lease = some g₀) (g₁ : Grant) (htask : g₁.taskId = g₀.taskId)
    (happ : g₁.appId = g₀.appId)
    (hchange : ∀ r, (u.change r).leaseId = r.leaseId ∧ (u.change r).taskId = r.taskId ∧
      (u.change r).expiresAt = g₁.expiresAt)
    (happlies : ∀ r, u.applies r = true → r.leaseId = lease)
    (hfound : ∃ r ∈ w.authorities, u.applies r = true) :
    AuthorityRows { w with
      authorities := w.authorities.apply u
      grants := update w.grants lease (some g₁) } := by
  have hbacked : ∀ r, w.Backed r → World.Backed { w with
      grants := update w.grants lease (some g₁) } r := by
    intro r hback
    by_cases hl : r.leaseId = lease
    · obtain ⟨g, hg, hgtask, hgapp⟩ := hback
      rw [hl, hg₀] at hg
      cases hg
      exact ⟨g₁, by rw [hl]; exact update_self _ _ _, htask.trans hgtask, happ.trans hgapp⟩
    · exact hback.update hl
  have hrow : ∀ r, (u.row r).leaseId = r.leaseId ∧ (u.row r).taskId = r.taskId := fun r =>
    row_cases (P := fun s : AuthorityLease =>
      s.leaseId = r.leaseId ∧ s.taskId = r.taskId) ⟨rfl, rfl⟩
      (fun _ => ⟨(hchange r).1, (hchange r).2.1⟩)
  refine ⟨?_, ?_, ?_, ?_⟩
  · intro r' hr'
    obtain ⟨r, hmem, rfl⟩ := mem_apply_iff.mp hr'
    obtain ⟨g, hg, hgtask, hgapp⟩ := hbacked r (hr.backed r hmem)
    refine ⟨g, ?_, hgtask.trans (hrow r).2.symm, hgapp.trans (u.key_row r).symm⟩
    rw [(hrow r).1]
    exact hg
  · intro change hmem r hexpired
    obtain ⟨hback, hsame⟩ := hr.pending_backed change hmem r hexpired
    exact ⟨hbacked r hback, hsame⟩
  · intro l g hg
    rcases grants_of_update hg with ⟨rfl, ⟨⟩⟩ | ⟨hl, hg⟩
    · obtain ⟨r, hmem, hu⟩ := hfound
      obtain ⟨g, hg, -, hgapp⟩ := hr.backed r hmem
      rw [happlies r hu, hg₀] at hg
      cases hg
      refine .inl ⟨u.row r, row_mem_apply hmem, ?_, ?_, ?_⟩
      · rw [(hrow r).1, happlies r hu]
      · exact (u.key_row r).trans (hgapp.symm.trans happ.symm)
      · rw [row_of_applies hu]
        exact (hchange r).2.2
    · rcases hr.registered l g hg with ⟨r, hmem, hlease, hsame⟩ | hle
      · have hnot : u.applies r = false := by
          by_contra hu
          exact hl (hlease.symm.trans (happlies r (by simpa using hu)))
        refine .inl ⟨r, ?_, hlease, hsame⟩
        rw [← row_of_not_applies hnot]
        exact row_mem_apply hmem
      · exact .inr hle
  · intro change hchange r' hr'
    obtain ⟨r, hmem, rfl⟩ := mem_apply_iff.mp hr'
    have hkey : (u.row r).appId = r.appId := u.key_row r
    rw [hkey]
    exact hr.locked change hchange r hmem

theorem AuthorityRows.release {c : CallbackClaim}
    (htask : ∀ g, w.grants c.leaseId = some g → g.taskId = c.taskId)
    (hpending : w.isPending c = false) :
    AuthorityRows { w with
      authorities := w.authorities.keep fun r =>
        !decide (r.taskId = c.taskId ∧ r.leaseId = c.leaseId)
      grants := update w.grants c.leaseId none } := by
  have hbacked : ∀ r, w.Backed r → ¬ (r.taskId = c.taskId ∧ r.leaseId = c.leaseId) →
      World.Backed { w with grants := update w.grants c.leaseId none } r := by
    intro r hback hother
    refine hback.update (fun heq => ?_)
    obtain ⟨g, hg, hgtask, -⟩ := hback
    exact hother ⟨hgtask.symm.trans (htask g (heq ▸ hg)), heq⟩
  refine ⟨?_, ?_, ?_, ?_⟩
  · intro r hr'
    obtain ⟨hmem, hother⟩ := mem_keep_iff.mp hr'
    rw [Bool.not_eq_true', decide_eq_false_iff_not] at hother
    exact hbacked r (hr.backed r hmem) hother
  · intro change hchange r hexpired
    obtain ⟨hback, happ⟩ := hr.pending_backed change hchange r hexpired
    refine ⟨hbacked r hback (fun heq => ?_), happ⟩
    have hany := List.any_eq_false.mp hpending change hchange
    rw [hexpired, any_some, decide_eq_true heq] at hany
    exact hany rfl
  · intro l g hg
    rcases grants_of_update hg with ⟨-, ⟨⟩⟩ | ⟨hl, hg⟩
    rcases hr.registered l g hg with ⟨r, hmem, hlease, hsame⟩ | hle
    · refine .inl ⟨r, mem_keep_iff.mpr ⟨hmem, ?_⟩, hlease, hsame⟩
      simp [hlease, hl]
    · exact .inr hle
  · intro change hchange r hr'
    exact hr.locked change hchange r (mem_keep_iff.mp hr').1

/-- A configuration change begins, after the leases that ran out are gone. -/
theorem AuthorityRows.begin (hnow : now ≤ w.clock)
    (hfree : ∀ change ∈ w.changes.rows, change.appId ≠ appId)
    (hidle : ∀ r ∈ w.unexpired appId now, r.appId ≠ appId) :
    AuthorityRows { w with
      authorities := w.unexpired appId now
      changes := w.changes.insertNew ⟨appId, now,
        (w.authorities.find? appId).filter fun r => decide (r.expiresAt ≤ now)⟩ hfree } where
  backed := (hr.prune hnow).backed
  pending_backed := by
    intro change hchange r hexpired
    rcases (mem_insertNew_iff hfree).mp hchange with hchange | rfl
    · exact hr.pending_backed change hchange r hexpired
    · obtain ⟨hfind, -⟩ := filter_eq_some_iff.mp hexpired
      obtain ⟨hmem, happ⟩ := find?_eq_some_iff.mp hfind
      exact ⟨hr.backed r hmem, happ⟩
  registered := (hr.prune hnow).registered
  locked := by
    intro change hchange r hmem
    rcases (mem_insertNew_iff hfree).mp hchange with hchange | rfl
    · exact (hr.prune hnow).locked change hchange r hmem
    · exact hidle r hmem

theorem AuthorityRows.abort {change : ConfigChange}
    (hchange : w.changes.find? appId = some change) :
    AuthorityRows { w with
      authorities := change.rollback w.authorities
      changes := w.changes.keep fun c => decide (c.appId ≠ appId) } := by
  obtain ⟨hmem, rfl⟩ := find?_eq_some_iff.mp hchange
  have hcases : ∀ r, r ∈ change.rollback w.authorities ↔
      r ∈ w.authorities ∨ change.expired = some r := by
    intro r
    unfold ConfigChange.rollback
    cases hexpired : change.expired with
    | none => simp
    | some r₀ =>
      have happ := (hr.pending_backed change hmem r₀ hexpired).2
      rw [mem_put_iff, Option.some.injEq]
      constructor
      · rintro (⟨hr', -⟩ | rfl)
        · exact .inl hr'
        · exact .inr rfl
      · rintro (hr' | rfl)
        · exact .inl ⟨hr', fun heq => hr.locked change hmem r hr' (heq.trans happ)⟩
        · exact .inr rfl
  refine ⟨?_, ?_, ?_, ?_⟩
  · intro r hr'
    rcases (hcases r).mp hr' with hr' | hexpired
    · exact hr.backed r hr'
    · exact (hr.pending_backed change hmem r hexpired).1
  · intro change' hchange'
    exact hr.pending_backed change' (mem_keep_iff.mp hchange').1
  · intro l g hg
    rcases hr.registered l g hg with ⟨r, hr', hsame⟩ | hle
    · exact .inl ⟨r, (hcases r).mpr (.inl hr'), hsame⟩
    · exact .inr hle
  · intro change' hchange' r hr'
    obtain ⟨hmem', hne⟩ := mem_keep_iff.mp hchange'
    rcases (hcases r).mp hr' with hr' | hexpired
    · exact hr.locked change' hmem' r hr'
    · rw [(hr.pending_backed change hmem r hexpired).2]
      exact (of_decide_eq_true hne).symm

end

theorem not_locked_iff :
    w.isLocked appId = false ↔ ∀ change ∈ w.changes, change.appId ≠ appId := by
  rw [World.isLocked, isSome_eq_false_iff, isNone_iff_eq_none]
  exact find?_eq_none_iff

theorem authorityRows_step (hc : AuthorityClaims w) (hr : AuthorityRows w)
    (hbegan : a.began ≤ w.clock) (h : Step setting w a w') : AuthorityRows w' := by
  cases h with
  | ticked => exact hr.frame rfl rfl rfl (Nat.le_add_right _ _)
  | acquireRefused => exact (hr.prune hbegan).frame rfl rfl rfl le_rfl
  | @acquired x c t answered now hpc ht hlock hfree =>
    have hpruned : AuthorityRows { w with authorities := w.unexpired t.appId now } :=
      hr.prune hbegan
    have hinsert := @AuthorityRows.insert _ hpruned
      ⟨t.appId, t.id, c.leaseId, now + World.authoritySeconds⟩ (hc.claimed x c hpc)
      (not_locked_iff.mp hlock) hfree
    exact hinsert.frame rfl rfl rfl le_rfl
  | @beaten x c leaseSeconds now hpc =>
    by_cases hrows : 0 < w.authorities.rowcount (World.extendAuthority c (now + leaseSeconds))
    · obtain ⟨r, hmem, happ⟩ := exists_applies_of_rowcount_pos hrows
      have hlease : r.leaseId = c.leaseId := (of_decide_eq_true happ).2
      obtain ⟨g, hg, -⟩ := hr.backed r hmem
      rw [hlease] at hg
      have hrenewed := hr.renew hg { g with expiresAt := now + leaseSeconds } rfl rfl
        (fun _ => ⟨rfl, rfl, rfl⟩) (fun _ happ => (of_decide_eq_true happ).2) ⟨r, hmem, happ⟩
      refine hrenewed.frame rfl rfl ?_ le_rfl
      simp only [hrows, if_true, hg, map_some]
    · refine hr.frame ?_ rfl ?_ le_rfl
      · exact apply_of_rowcount_eq_zero (Nat.eq_zero_of_not_pos hrows)
      · simp only [hrows, if_false]
  | @confirmed x c material t app now hpc ht hlock ha hauth hrow =>
    obtain ⟨r, hmem, happ⟩ := exists_applies_of_rowcount_pos hrow
    obtain ⟨hrapp, hrtask, hlease, -⟩ := of_decide_eq_true happ
    obtain ⟨g, hg, hgtask, hgapp⟩ := hr.backed r hmem
    rw [hlease] at hg
    have htask : t.id = g.taskId :=
      (find?_eq_some_iff.mp ht).2.trans (hrtask.symm.trans hgtask.symm)
    have hrenewed := hr.renew hg ⟨t.id, t.appId, now + World.authoritySeconds, true⟩ htask
      (hrapp.symm.trans hgapp.symm) (fun _ => ⟨rfl, rfl, rfl⟩)
      (fun _ happ => (of_decide_eq_true happ).2.2.1) ⟨r, hmem, happ⟩
    exact hrenewed.frame rfl rfl rfl le_rfl
  | @released x c outcome pc hpc hpending h =>
    have hclaim : (w.worker x).claim? = some c := by rw [hpc]; rfl
    exact (hr.release (fun g hg => hc.taskId x c g hclaim hg) hpending).frame rfl rfl rfl le_rfl
  | changeBegun hfree hidle => exact hr.begin hbegan hfree hidle
  | changeCommitted hchange =>
    refine ⟨hr.backed, fun change hmem => ?_, hr.registered, fun change hmem => ?_⟩
    · exact hr.pending_backed change (mem_keep_iff.mp hmem).1
    · exact hr.locked change (mem_keep_iff.mp hmem).1
  | changeAborted hchange => exact hr.abort hchange
  | _ => exact hr.frame rfl rfl rfl le_rfl

/-! ## What is sent -/

/-- What a worker is about to send was current when it was confirmed. -/
structure MaterialCurrent (w : World) : Prop where
  loaded : ∀ x c material, w.worker x = .loaded c material →
    ∃ t ∈ w.tasks, t.id = c.taskId ∧ t.url = material.url ∧
      t.callbackSecretEnc = material.callbackSecretEnc
  confirmed : ∀ x c material current, w.worker x = .confirmed c material current →
    current = ⟨some material.url, some material.callbackSecretEnc⟩
  posts : ∀ p ∈ w.posts, p.current = ⟨some p.url, some p.secret⟩

theorem config_of_authorizes {a : App} {t : CallbackTask} (h : a.authorizes t = true) :
    a.config = ⟨some t.url, some t.callbackSecretEnc⟩ := by
  simp only [App.authorizes, Bool.and_eq_true, decide_eq_true_eq] at h
  rw [App.config, h.1.2.1, h.1.2.2]

theorem materialCurrent_step (hm : MaterialCurrent w) (h : Step setting w a w') :
    MaterialCurrent w' := by
  have hkept : ∀ t ∈ w.tasks, ∃ t' ∈ w'.tasks, t'.id = t.id ∧ t'.url = t.url ∧
      t'.callbackSecretEnc = t.callbackSecretEnc := by
    intro t ht
    obtain ⟨t', ht', hid⟩ := h.task_kept ht
    obtain ⟨-, -, hurl, hsecret⟩ := (h.rowStep ht ht' hid).identity
    exact ⟨t', ht', hid, hurl, hsecret⟩
  refine ⟨?_, ?_, ?_⟩
  · intro x c material hpc
    have hmove := h.move x
    rw [hpc] at hmove
    obtain ⟨t, ht, hid, hurl, hsecret⟩ : ∃ t ∈ w.tasks, t.id = c.taskId ∧ t.url = material.url ∧
        t.callbackSecretEnc = material.callbackSecretEnc := by
      generalize hbefore : w.worker x = before at hmove
      cases hmove with
      | stay => exact hm.loaded x c material hbefore
      | load ht =>
        obtain ⟨hmem, hid⟩ := find?_eq_some_iff.mp ht
        exact ⟨material, hmem, hid, rfl, rfl⟩
      | retreat h => cases h.away
    obtain ⟨t', ht', hid', hurl', hsecret'⟩ := hkept t ht
    exact ⟨t', ht', hid'.trans hid, hurl'.trans hurl, hsecret'.trans hsecret⟩
  · intro x c material current hpc
    have hmove := h.move x
    rw [hpc] at hmove
    generalize hbefore : w.worker x = before at hmove
    cases hmove with
    | stay => exact hm.confirmed x c material current hbefore
    | confirm ht ha hauth =>
      obtain ⟨t, hmem, hid, hurl, hsecret⟩ := hm.loaded x c material hbefore
      obtain ⟨hmem', hid'⟩ := find?_eq_some_iff.mp ht
      rw [config_of_authorizes hauth, eq_of_key_eq hmem' hmem (hid'.trans hid.symm), hurl, hsecret]
    | retreat h => cases h.away
  · cases h with
    | posted hpc =>
      intro p hp
      rcases List.mem_cons.mp hp with rfl | hp
      · exact hm.confirmed _ _ _ _ hpc
      · exact hm.posts p hp
    | _ => exact hm.posts

/-! ## The main result -/

/-- The invariants together. -/
structure AuthoritySound (w : World) : Prop where
  fenced : Fenced w
  claims : AuthorityClaims w
  rows : AuthorityRows w
  material : MaterialCurrent w

theorem authoritySound_of_reachable (h : (callbacks setting).Reachable w) : AuthoritySound w := by
  refine h.invariant ?_ ?_
  · rintro _ ⟨apps, rfl⟩
    have hstart : (callbacks setting).Reachable (.start apps) := .init ⟨apps, rfl⟩
    exact ⟨fenced_of_reachable hstart, ⟨nofun, nofun, fun _ _ => rfl⟩,
      ⟨fun r hr => absurd hr (not_mem_empty r), fun c hc => absurd hc (not_mem_empty c),
        nofun, fun c hc => absurd hc (not_mem_empty c)⟩, ⟨nofun, nofun, nofun⟩⟩
  · intro w a w' hs hnext
    obtain ⟨hbegan, hstep⟩ := step_of_next hnext
    exact ⟨fenced_step hs.fenced hstep, authorityClaims_step hs.fenced hs.claims hstep,
      authorityRows_step hs.claims hs.rows hbegan hstep, materialCurrent_step hs.material hstep⟩

/-- Only a configuration change that commits changes address or secret of an application. -/
theorem Step.config (h : Step setting w a w') {old new : App} (hold : old ∈ w.apps)
    (hnew : new ∈ w'.apps) (hid : new.id = old.id) (hconfig : new.config ≠ old.config) :
    ∃ change ∈ w.changes, change.appId = old.id := by
  have hsame : new ∈ w.apps → ∃ change ∈ w.changes, change.appId = old.id := by
    intro hmem
    rw [eq_of_key_eq hmem hold hid] at hconfig
    exact absurd rfl hconfig
  cases h with
  | appCreated hfresh =>
    rcases (mem_insertNew_iff hfresh).mp hnew with hmem | rfl
    · exact hsame hmem
    · exact absurd hid.symm (hfresh old hold)
  | @changeCommitted new' old' change unseen hchange =>
    rcases mem_put_iff.mp hnew with ⟨hmem, -⟩ | rfl
    · exact hsame hmem
    · obtain ⟨hmem, happ⟩ := find?_eq_some_iff.mp hchange
      exact ⟨change, hmem, happ.trans hid⟩
  | _ => exact hsame hnew

/-- At most one authority of an application has not run out.  Address and secret change only
when all confirmed and unreleased authorities of the application have run out, and what is sent
was current at the confirmation. -/
theorem callback_authority_exclusive {setting : Setting} {w : World}
    (h : (callbacks setting).Reachable w) :
    (∀ l g l' g', w.grants l = some g → w.grants l' = some g' → g.appId = g'.appId →
      w.clock < g.expiresAt → w.clock < g'.expiresAt → l = l') ∧
    (∀ a w', (callbacks setting).next w a = some w' → ∀ old ∈ w.apps, ∀ new ∈ w'.apps,
      new.id = old.id → new.config ≠ old.config → ∀ l g, w.grants l = some g →
        g.confirmed = true → g.appId = old.id → g.expiresAt ≤ w.clock) ∧
    ∀ p ∈ w.posts, p.current = ⟨some p.url, some p.secret⟩ := by
  have hs : AuthoritySound w := authoritySound_of_reachable h
  refine ⟨?_, ?_, hs.material.posts⟩
  · intro l g l' g' hg hg' happ hlive hlive'
    rcases hs.rows.registered l g hg with ⟨r, hr, hlease, hrapp, -⟩ | hle
    · rcases hs.rows.registered l' g' hg' with ⟨r', hr', hlease', hrapp', -⟩ | hle
      · have hsame : r = r' := eq_of_key_eq hr hr' (hrapp.trans (happ.trans hrapp'.symm))
        rw [← hlease, ← hlease', hsame]
      · exact absurd hlive' (not_lt.mpr hle)
    · exact absurd hlive (not_lt.mpr hle)
  · intro a w' hnext old hold new hnew hid hconfig l g hg hconfirmed happ
    obtain ⟨change, hchange, hlock⟩ := (step_of_next hnext).2.config hold hnew hid hconfig
    rcases hs.rows.registered l g hg with ⟨r, hr, -, hrapp, -⟩ | hle
    · exact absurd (hrapp.trans (happ.trans hlock.symm)) (hs.rows.locked change hchange r hr)
    · exact hle

/-- A report is delivered. -/
def deliveredRun : List Action :=
  [.enqueueReport 1 (sampleReport 100) 0, .claim 0 1 30 0, .acquire 0 true 0, .load 0 0,
    .confirm 0 0, .post 0 (.ok 200)]

theorem callback_authority_exclusive_delivered :
    ∃ w, (callbacks sampleSetting).run (World.start sampleApps) deliveredRun = some w ∧
      w.posts.map Post.url = [lit "callback"] ∧
      ∀ p ∈ w.posts, p.current = ⟨some p.url, some p.secret⟩ := by
  have hrun : ∃ w, (callbacks sampleSetting).run (.start sampleApps) deliveredRun = some w ∧
      w.posts.map Post.url = [lit "callback"] := by
    refine ⟨_, rfl, ?_⟩
    decide +kernel
  obtain ⟨w, hrun, hposts⟩ := hrun
  have hstart : (callbacks sampleSetting).Reachable (.start sampleApps) := .init ⟨sampleApps, rfl⟩
  exact ⟨w, hrun, hposts, (callback_authority_exclusive (hstart.run hrun)).2.2⟩

end SmsPlatform.Callback
