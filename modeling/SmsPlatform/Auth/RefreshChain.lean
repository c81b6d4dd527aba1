import SmsPlatform.Auth.Refresh

/-!
# Refresh tokens form a chain

A binding gets at most one successor, since it is replaced only while it is the current one and
it never becomes current again.  Revocation is final: it takes the current binding away, and no
script brings one back.
-/

namespace SmsPlatform.Auth

open Support Option List Bool

/-! ## Neighbours in a list without repetitions -/

section

variable {α : Type*} {x y z : α} {l : List α}

theorem consecutive_cons_iff : [x, y] <:+: z :: l ↔ (x = z ∧ l.head? = some y) ∨ [x, y] <:+: l := by
  rw [infix_cons_iff]
  cases l with
  | nil => simp
  | cons b l => simp [eq_comm]

theorem mem_of_consecutive (h : [x, y] <:+: l) : y ∈ l := h.subset (by simp)

theorem head_ne_of_consecutive (hl : l.Nodup) (h : [x, y] <:+: l) : l.head? ≠ some y := by
  intro hhead
  cases l with
  | nil => cases hhead
  | cons a l =>
    obtain rfl : a = y := Option.some.inj hhead
    obtain ⟨hnot, -⟩ := nodup_cons.mp hl
    rcases consecutive_cons_iff.mp h with ⟨-, hnext⟩ | hrest
    · exact hnot (mem_of_head? hnext)
    · exact hnot (mem_of_consecutive hrest)

theorem left_unique_of_nodup (hl : l.Nodup) (hx : [x, y] <:+: l) (hz : [z, y] <:+: l) : x = z := by
  induction l with
  | nil => simp at hx
  | cons a l ih =>
    obtain ⟨-, htail⟩ := nodup_cons.mp hl
    rcases consecutive_cons_iff.mp hx with ⟨rfl, hhead⟩ | hx
    · rcases consecutive_cons_iff.mp hz with ⟨rfl, -⟩ | hz
      · rfl
      · exact absurd hhead (head_ne_of_consecutive htail hz)
    · rcases consecutive_cons_iff.mp hz with ⟨-, hhead⟩ | hz
      · exact absurd hhead (head_ne_of_consecutive htail hx)
      · exact ih htail hx hz

end

/-! ## What a script does to a family -/

namespace Family

/-- The keys hold bindings, grace values and marks only. -/
structure Proper (f : Family) : Prop where
  current : ∀ k, f.current = some k → ∃ b, k.value = .string b
  session : ∀ k, f.session = some k → k.value = .string revokedMark ∨
      ∃ p r : Binding, k.value = .string (graceValue p.text r.text)

theorem revoke_eq_some {f f' : Family} {now requiredMs : ℕ}
    (h : f.revoke now requiredMs = some f') :
    f'.current = none ∧ ∃ k, f'.session = some k ∧ Marks now requiredMs k := by
  obtain ⟨k, hk, rfl⟩ := map_eq_some_iff.mp h
  exact ⟨rfl, k, rfl, marks_of_applyRevocation hk⟩

theorem Proper.revoke_ne_none {f : Family} (h : f.Proper) (now requiredMs : ℕ) :
    ∃ f', f.revoke now requiredMs = some f' := by
  suffices hs : ∃ k, applySessionRevocation now requiredMs f.session = some k by
    obtain ⟨k, hk⟩ := hs
    exact ⟨⟨none, some k⟩, by rw [revoke, hk]; rfl⟩
  unfold applySessionRevocation applyRevocation
  cases halive : alive now f.session with
  | none => exact ⟨_, rfl⟩
  | some k =>
    obtain ⟨hk, -⟩ := alive_eq_some_iff.mp halive
    rcases h.session k hk with hvalue | ⟨p, r, hvalue⟩
    · simp [hvalue, isGrace_revokedMark]
      cases k.deadline with
      | none => exact ⟨k, rfl⟩
      | some d =>
        by_cases hshort : d - now = 0 ∨ d - now < requiredMs
        · exact ⟨_, by simp [hshort]; rfl⟩
        · exact ⟨k, by simp [hshort]⟩
    · simp only [hvalue, isGrace_graceValue]
      exact ⟨_, rfl⟩

/-- The family after its replacement has become current. -/
def advanced (now : ℕ) (a : RotateArgs) : Family where
  current := some ⟨.string a.replacement.text, some (now + a.familyTtl * 1000)⟩
  session := some ⟨.string (graceValue a.expected.text a.replacement.text),
    some (now + refreshGraceSeconds * 1000)⟩

/-- What a rotation does to a proper family. -/
inductive Rotates (f : Family) (now : ℕ) (a : RotateArgs) : RotateResult → Family → Prop
  | revoked {result : RotateResult} {f' : Family} (hresult : result.isRevoking = true)
      (h : f.revoke now (max a.maxAccessMs (a.operationS * 1000)) = some f') :
      Rotates f now a result f'
  | advanced (hcurrent : f.isCurrent now a.expected.text = true) :
      Rotates f now a (.rotated a.replacement.text) (advanced now a)
  | repeated {k : Key} {r : Text} (hk : f.session = some k)
      (hgraced : f.isGraced now a.expected.text)
      (hvalue : ∃ state, k.value = .string state ∧
        graceBindings state = some (a.expected.text, r)) :
      Rotates f now a (.repeated r) f
  | refused (hcurrent : f.isCurrent now a.expected.text = true) : Rotates f now a .unavailable f

section

variable {f : Family} {now : ℕ} {a : RotateArgs} {out : RotateResult × Family}

theorem Rotates.of_revokeWith {result : RotateResult} (h : f.Proper)
    (hresult : result.isRevoking = true)
    (hout : f.revokeWith now (max a.maxAccessMs (a.operationS * 1000)) result = out) :
    Rotates f now a out.1 out.2 := by
  obtain ⟨f', hf'⟩ := h.revoke_ne_none now (max a.maxAccessMs (a.operationS * 1000))
  rw [revokeWith, hf'] at hout
  subst hout
  exact .revoked hresult hf'

theorem Rotates.of_advance (hcurrent : f.isCurrent now a.expected.text = true)
    (hout : f.advance now a = out) : Rotates f now a out.1 out.2 := by
  unfold advance at hout
  split at hout
  · subst hout
    exact .refused hcurrent
  · subst hout
    exact .advanced hcurrent

theorem rotates (h : f.Proper) (hop : 0 < a.operationS) (hmax : 0 < a.maxAccessMs) :
    Rotates f now a (f.rotate now a).1 (f.rotate now a).2 := by
  generalize hout : f.rotate now a = out
  have hargs : ¬ (a.operationS < 1 ∨ a.maxAccessMs < 1) := by omega
  unfold rotate at hout
  rw [if_neg hargs] at hout
  cases hcur : alive now f.current with
  | none =>
    rw [hcur] at hout
    exact .of_revokeWith h rfl hout
  | some c =>
    obtain ⟨hc, -⟩ := alive_eq_some_iff.mp hcur
    obtain ⟨current, hcurrent⟩ := h.current c hc
    simp only [hcur, map_some, hcurrent] at hout
    by_cases hexpected : current = a.expected.text
    · have his : f.isCurrent now a.expected.text = true := by
        simp [isCurrent, hcur, hcurrent, hexpected]
      rw [if_pos hexpected] at hout
      cases hses : alive now f.session with
      | none =>
        rw [hses] at hout
        exact .of_advance his hout
      | some s =>
        obtain ⟨hs, -⟩ := alive_eq_some_iff.mp hses
        rcases h.session s hs with hvalue | ⟨p, r, hvalue⟩
        · simp only [hses, map_some, hvalue] at hout
          exact .of_revokeWith h rfl hout
        simp only [hses, map_some, hvalue, isGrace_graceValue] at hout
        split at hout
        · exact .of_revokeWith h rfl hout
        · exact .of_advance his hout
    · rw [if_neg hexpected] at hout
      cases hses : alive now f.session with
      | none =>
        rw [hses] at hout
        exact .of_revokeWith h rfl hout
      | some s =>
        obtain ⟨hs, -⟩ := alive_eq_some_iff.mp hses
        rcases h.session s hs with hvalue | ⟨p, r, hvalue⟩
        · simp only [hses, map_some, hvalue] at hout
          exact .of_revokeWith h rfl hout
        simp only [hses, map_some, hvalue, graceBindings_graceValue] at hout
        split at hout
        · rename_i hgrace
          obtain ⟨hr, hp, -⟩ := hgrace
          subst hout
          have hbind : graceBindings (graceValue p.text r.text) =
            some (a.expected.text, r.text) := by
            rw [graceBindings_graceValue, hp]
          refine .repeated hs ?_ ⟨_, hvalue, hbind⟩
          simp [isGraced, hcur, hcurrent, hses, hvalue, hbind, hr]
        · exact .of_revokeWith h rfl hout

end

end Family

/-! ## The invariant -/

namespace World

/-- The current binding is the newest one of the chain, tokens have been handed out for
neighbours in it, and a revoked family has lost its current binding and keeps its mark. -/
structure Chained (w : World) : Prop where
  nodup : w.chain.Nodup
  current : ∀ k, w.family.current = some k → ∃ b, k.value = .string b ∧ w.chain.head? = some b
  session : ∀ k, w.family.session = some k → k.value = .string revokedMark ∨
      ∃ p r : Binding, k.value = .string (graceValue p.text r.text) ∧ (p.text, r.text) ∈ w.grants
  grants : ∀ p r, (p, r) ∈ w.grants → [r, p] <:+: w.chain
  revoked : ∀ t, w.revokedAt = some t → w.family.current = none ∧
    ∃ k, w.family.session = some k ∧ Marks t maxValidAccessLifetimeMs k

variable {w w' : World} {now : ℕ} {act : Action} {a : RotateArgs}

theorem Chained.proper (h : w.Chained) : w.family.Proper where
  current k hk := by
    obtain ⟨b, hb, -⟩ := h.current k hk
    exact ⟨b, hb⟩
  session k hk := by
    rcases h.session k hk with hmark | ⟨p, r, hvalue, -⟩
    · exact .inl hmark
    · exact .inr ⟨p, r, hvalue⟩

theorem chained_issued (now : ℕ) (binding : Binding) (deadline : ℕ) (jtis : ℕ → Option Key) :
    (issued now binding deadline jtis).Chained where
  nodup := pairwise_singleton _ _
  current k hk := by
    cases hk
    exact ⟨binding.text, rfl, rfl⟩
  session k hk := by cases hk
  grants p r hpr := by cases hpr
  revoked t ht := by cases ht

/-- The family has been revoked, and no token handed out. -/
structure Revokes (w w' : World) (now : ℕ) : Prop where
  revoke : ∃ requiredMs, maxValidAccessLifetimeMs ≤ requiredMs ∧
    w.family.revoke now requiredMs = some w'.family
  chain : w'.chain = w.chain
  grants : w'.grants = w.grants
  revokedAt : w'.revokedAt = some now

/-- Nothing but the time and the marks of access tokens differs. -/
structure Rests (w w' : World) : Prop where
  family : w'.family = w.family
  chain : w'.chain = w.chain
  grants : w'.grants = w.grants
  revokedAt : w'.revokedAt = w.revokedAt

theorem Chained.of_revokes (h : w.Chained) (hw : w.Revokes w' now) : w'.Chained := by
  obtain ⟨requiredMs, hrequired, hrevoke⟩ := hw.revoke
  obtain ⟨hnone, k, hk, hmarks⟩ := Family.revoke_eq_some hrevoke
  refine ⟨hw.chain ▸ h.nodup, by simp [hnone], by simp [hk, hmarks.1], ?_, ?_⟩
  · rw [hw.grants, hw.chain]
    exact h.grants
  · rw [hw.revokedAt]
    rintro t ⟨rfl⟩
    refine ⟨hnone, k, hk, hmarks.1, fun d hd => ?_⟩
    exact le_trans (Nat.add_le_add_left hrequired now) (hmarks.2 d hd)

theorem Chained.of_rests (h : w.Chained) (hw : w.Rests w') : w'.Chained := by
  obtain ⟨hfamily, hchain, hgrants, hrevokedAt⟩ := hw
  refine ⟨hchain ▸ h.nodup, ?_, ?_, ?_, ?_⟩
  · rw [hfamily, hchain]
    exact h.current
  · rw [hfamily, hgrants]
    exact h.session
  · rw [hgrants, hchain]
    exact h.grants
  · rw [hrevokedAt, hfamily]
    exact h.revoked

theorem revokes_record {result : RotateResult} {family : Family}
    (hmax : a.maxAccessMs = maxValidAccessLifetimeMs) (hresult : result.isRevoking = true)
    (h : w.family.revoke now (max a.maxAccessMs (a.operationS * 1000)) = some family) :
    w.Revokes (w.record now a.expected.text result family) now := by
  have hrequired : maxValidAccessLifetimeMs ≤ max a.maxAccessMs (a.operationS * 1000) :=
    hmax ▸ Nat.le_max_left _ _
  rcases RotateResult.eq_of_isRevoking hresult with rfl | rfl <;>
    exact ⟨⟨_, hrequired, h⟩, rfl, rfl, rfl⟩

theorem rests_or_revokes (w : World) (now jti jtiRequired sessionRequested : ℕ) :
    w.Rests (w.revoke now jti jtiRequired sessionRequested) ∨
      w.Revokes (w.revoke now jti jtiRequired sessionRequested) now := by
  unfold World.revoke
  split
  · exact .inl ⟨rfl, rfl, rfl, rfl⟩
  split
  · exact .inl ⟨rfl, rfl, rfl, rfl⟩
  split
  · exact .inl ⟨rfl, rfl, rfl, rfl⟩
  · rename_i family hrevoke
    exact .inr ⟨⟨_, Nat.le_max_left _ _, hrevoke⟩, rfl, rfl, rfl⟩

theorem Chained.advanced (h : w.Chained)
    (hcurrent : w.family.isCurrent now a.expected.text = true) (hfresh : w.revokedAt = none →
      a.replacement.text ∉ w.chain ∨ (a.expected.text, a.replacement.text) ∈ w.grants) :
    (w.record now a.expected.text (.rotated a.replacement.text)
      (Family.advanced now a)).Chained := by
  obtain ⟨k, hk, hvalue⟩ := map_eq_some_iff.mp (of_decide_eq_true hcurrent)
  obtain ⟨hk, -⟩ := alive_eq_some_iff.mp hk
  obtain ⟨b, hb, hhead⟩ := h.current k hk
  obtain rfl : a.expected.text = b := Value.string.inj (hvalue.symm.trans hb)
  have hrevoked : ∀ t, w.revokedAt ≠ some t := by
    intro t ht
    obtain ⟨hnone, -⟩ := h.revoked t ht
    rw [hk] at hnone
    cases hnone
  -- The current binding has no successor yet.
  have hnew : a.replacement.text ∉ w.chain :=
    (hfresh (eq_none_iff_forall_ne_some.mpr hrevoked)).resolve_right fun hgrant =>
      head_ne_of_consecutive h.nodup (h.grants _ _ hgrant) hhead
  refine ⟨nodup_cons.mpr ⟨hnew, h.nodup⟩, fun k' hk' => ?_, fun k' hk' => ?_,
    fun p r hpr => ?_, fun t ht => ?_⟩
  · cases hk'
    exact ⟨_, rfl, rfl⟩
  · cases hk'
    exact .inr ⟨a.expected, a.replacement, rfl, mem_cons_self⟩
  · rcases mem_cons.mp hpr with heq | hpr
    · cases heq
      exact consecutive_cons_iff.mpr (.inl ⟨rfl, hhead⟩)
    · exact consecutive_cons_iff.mpr (.inr (h.grants p r hpr))
  · exact absurd ht (hrevoked t)

/-- A repetition of the last rotation hands out the same successor again. -/
theorem Chained.repeated {expected r state : Text} {k : Key} (h : w.Chained)
    (hk : w.family.session = some k) (hvalue : k.value = .string state)
    (hbind : graceBindings state = some (expected, r)) :
    (w.record now expected (.repeated r) w.family).Chained := by
  have hgrant : (expected, r) ∈ w.grants := by
    rcases h.session k hk with hmark | ⟨p, r', hgrace, hmem⟩
    · obtain rfl : state = revokedMark := Value.string.inj (hvalue.symm.trans hmark)
      cases hbind
    · obtain rfl := Value.string.inj (hvalue.symm.trans hgrace)
      rw [graceBindings_graceValue] at hbind
      cases hbind
      exact hmem
  refine ⟨h.nodup, h.current, fun k' hk' => ?_, fun p r' hpr => ?_, h.revoked⟩
  · rcases h.session k' hk' with hmark | ⟨p, r', hgrace, hmem⟩
    · exact .inl hmark
    · exact .inr ⟨p, r', hgrace, mem_cons_of_mem _ hmem⟩
  · rcases mem_cons.mp hpr with heq | hpr
    · cases heq
      exact h.grants _ _ hgrant
    · exact h.grants p r' hpr

theorem Chained.record {result : RotateResult} {family : Family} (h : w.Chained)
    (hmax : a.maxAccessMs = maxValidAccessLifetimeMs) (hfresh : w.revokedAt = none →
      a.replacement.text ∉ w.chain ∨ (a.expected.text, a.replacement.text) ∈ w.grants)
    (hrotates : w.family.Rotates now a result family) :
    (w.record now a.expected.text result family).Chained := by
  cases hrotates with
  | revoked hresult hrevoke => exact h.of_revokes (revokes_record hmax hresult hrevoke)
  | advanced hcurrent => exact h.advanced hcurrent hfresh
  | repeated hk _ hvalue =>
    obtain ⟨state, hstate, hbind⟩ := hvalue
    exact h.repeated hk hstate hbind
  | refused _ => exact h.of_rests ⟨rfl, rfl, rfl, rfl⟩

theorem rotates_rotateArgs {f : Family} (h : f.Proper) (now : ℕ) (expected replacement : Binding)
    (remaining ttl : ℕ) : f.Rotates now (rotateArgs expected replacement remaining ttl)
      (f.rotate now (rotateArgs expected replacement remaining ttl)).1
      (f.rotate now (rotateArgs expected replacement remaining ttl)).2 := by
  have hmax : 0 < maxValidAccessLifetimeMs := by decide
  exact Family.rotates h (lt_of_lt_of_le Nat.one_pos (Nat.le_max_left 1 ttl)) hmax

theorem next_cases (h : w.next act = some w') : (∃ now expected replacement remaining ttl,
      act = .rotate now expected replacement remaining ttl ∧
        w' = w.rotate now (rotateArgs expected replacement remaining ttl)) ∨
    ∃ now jti jtiRequired sessionRequested, act = .revoke now jti jtiRequired sessionRequested ∧
        w' = w.revoke now jti jtiRequired sessionRequested := by
  cases act with
  | rotate now expected replacement remaining ttl =>
    replace h : (if now < w.now then none
      else some (w.rotate now (rotateArgs expected replacement remaining ttl))) = some w' := h
    split at h
    · cases h
    · cases h
      exact .inl ⟨now, expected, replacement, remaining, ttl, rfl, rfl⟩
  | revoke now jti jtiRequired sessionRequested =>
    replace h : (if now < w.now then none
      else some (w.revoke now jti jtiRequired sessionRequested)) = some w' := h
    split at h
    · cases h
    · cases h
      exact .inr ⟨now, jti, jtiRequired, sessionRequested, rfl, rfl⟩

/-- Freshness is needed only as long as the family is not revoked. -/
theorem Chained.next (h : w.Chained) (hfresh : w.revokedAt = none → FreshReplacement w act)
    (hstep : w.next act = some w') : w'.Chained := by
  obtain ⟨now, expected, replacement, remaining, ttl, rfl, rfl⟩ |
    ⟨now, jti, jtiRequired, sessionRequested, rfl, rfl⟩ := next_cases hstep
  · exact h.record rfl hfresh (rotates_rotateArgs h.proper now expected replacement remaining ttl)
  · rcases rests_or_revokes w now jti jtiRequired sessionRequested with hw | hw
    · exact h.of_rests hw
    · exact h.of_revokes hw

/-- A binding that cannot be used revokes the family. -/
theorem Chained.unusable {expected : Binding} (h : w.Chained)
    (hcurrent : w.family.isCurrent now expected.text = false)
    (hgraced : w.family.isGraced now expected.text = false) (replacement : Binding)
    (remaining ttl : ℕ) :
    w.Revokes (w.rotate now (rotateArgs expected replacement remaining ttl)) now := by
  have hrotates := rotates_rotateArgs h.proper now expected replacement remaining ttl
  unfold World.rotate
  generalize w.family.rotate now (rotateArgs expected replacement remaining ttl) = out at hrotates ⊢
  obtain ⟨result, family⟩ := out
  cases hrotates with
  | revoked hresult hrevoke => exact revokes_record rfl hresult hrevoke
  | advanced his | refused his => exact absurd (hcurrent.symm.trans his) false_ne_true
  | repeated _ his _ => exact absurd (hgraced.symm.trans his) false_ne_true

/-- A revoked family stays revoked, and no token is handed out for it. -/
theorem Chained.next_of_revoked (h : w.Chained) (hrevoked : w.revokedAt ≠ none)
    (hstep : w.next act = some w') : w'.revokedAt ≠ none ∧ w'.grants = w.grants := by
  obtain ⟨t, ht⟩ := ne_none_iff_exists'.mp hrevoked
  obtain ⟨hnone, -⟩ := h.revoked t ht
  have hkept : ∀ {u : World} {now : ℕ}, w.Revokes u now →
      u.revokedAt ≠ none ∧ u.grants = w.grants := by
    intro u now hu
    exact ⟨by simp [hu.revokedAt], hu.grants⟩
  obtain ⟨now, expected, replacement, remaining, ttl, rfl, rfl⟩ |
    ⟨now, jti, jtiRequired, sessionRequested, rfl, rfl⟩ := next_cases hstep
  · refine hkept (h.unusable ?_ ?_ replacement remaining ttl)
    · rw [Family.isCurrent, hnone]
      rfl
    · rw [Family.isGraced, hnone]
      rfl
  · rcases rests_or_revokes w now jti jtiRequired sessionRequested with hw | hw
    · exact ⟨hw.revokedAt ▸ hrevoked, hw.grants⟩
    · exact hkept hw

theorem Chained.run_of_revoked {acts : List Action} (h : w.Chained) (hrevoked : w.revokedAt ≠ none)
    (hrun : refresh.run w acts = some w') : w'.grants = w.grants := by
  refine (Machine.run_preserves (fun _ => True)
    (fun u => u.Chained ∧ u.revokedAt ≠ none ∧ u.grants = w.grants) ?_ ⟨h, hrevoked, rfl⟩
    (fun _ _ => trivial) hrun).2.2
  rintro u act u' ⟨hu, hur, hgrants⟩ - hstep
  obtain ⟨hur', hsame⟩ := hu.next_of_revoked hur hstep
  exact ⟨hu.next (fun hnone => absurd hnone hur) hstep, hur', hsame.trans hgrants⟩

end World

theorem chained_of_reachable {w : World} (h : refresh.ReachableWhere FreshReplacement w) :
    w.Chained := by
  refine h.invariant ?_ (fun _ _ _ hw hfresh => hw.next (fun _ => hfresh))
  rintro w ⟨now, binding, deadline, jtis, rfl⟩
  exact World.chained_issued now binding deadline jtis

theorem isRevoked_of_marks {f : Family} {k : Key} {t requiredMs now : ℕ} (hk : f.session = some k)
    (hmarks : Marks t requiredMs k) (hnow : now ≤ t + requiredMs) : f.isRevoked now = true := by
  have halive : alive now f.session = some k :=
    alive_eq_some_iff.mpr ⟨hk, fun d hd => le_trans hnow (hmarks.2 d hd)⟩
  rw [Family.isRevoked, halive, map_some, hmarks.1]
  exact decide_eq_true rfl

/-! ## Rotation of refresh tokens -/

open World in
/-- Over every sequence of scripts with fresh replacements: a binding has at most one successor;
a binding that is neither current nor graced yields no token and revokes the family; and after a
revocation no token is handed out any more, with the mark in place for the lifetime of every
access token. -/
theorem refresh_chain_linear {w : World} (h : refresh.ReachableWhere FreshReplacement w) :
    (∀ binding s s', (binding, s) ∈ w.grants → (binding, s') ∈ w.grants → s = s') ∧
    (∀ now expected replacement remaining ttl w',
      w.next (.rotate now expected replacement remaining ttl) = some w' →
      w.family.isCurrent now expected.text = false → w.family.isGraced now expected.text = false →
      w'.grants = w.grants ∧ w'.revokedAt = some now ∧
        w'.family.current = none ∧ w'.family.isRevoked now = true) ∧
    ∀ t, w.revokedAt = some t → (∀ acts w', refresh.run w acts = some w' → w'.grants = w.grants) ∧
      ∀ now ≤ t + maxValidAccessLifetimeMs, w.family.isRevoked now = true := by
  have hw := chained_of_reachable h
  refine ⟨fun binding s s' hs hs' => ?_, fun now expected replacement remaining ttl w' hstep
    hcurrent hgraced => ?_, fun t ht => ⟨fun acts w' hrun => ?_, fun now hnow => ?_⟩⟩
  · exact left_unique_of_nodup hw.nodup (hw.grants binding s hs) (hw.grants binding s' hs')
  · obtain ⟨_, _, _, _, _, hact, rfl⟩ | ⟨_, _, _, _, hact, -⟩ := next_cases hstep
    · cases hact
      have hrevokes := hw.unusable hcurrent hgraced replacement remaining ttl
      obtain ⟨requiredMs, -, hrevoke⟩ := hrevokes.revoke
      obtain ⟨hnone, k, hk, hmarks⟩ := Family.revoke_eq_some hrevoke
      exact ⟨hrevokes.grants, hrevokes.revokedAt, hnone,
        isRevoked_of_marks hk hmarks (Nat.le_add_right _ _)⟩
    · cases hact
  · exact hw.run_of_revoked (by simp [ht]) hrun
  · obtain ⟨-, k, hk, hmarks⟩ := hw.revoked t ht
    exact isRevoked_of_marks hk hmarks hnow

def firstBinding : Binding := ⟨lit "first", by decide, by decide⟩

def secondBinding : Binding := ⟨lit "second", by decide, by decide⟩

/-- A rotation, its repetition within the grace period and a replay after it. -/
def replayRun : List Action :=
  [.rotate 1000 firstBinding secondBinding 604800 900,
    .rotate 3000 firstBinding secondBinding 604800 900,
    .rotate 9000 firstBinding secondBinding 604800 900]

theorem refresh_chain_linear_replayRun :
    ∃ w, refresh.runWhere FreshReplacement (issued 0 firstBinding 604800000 (fun _ => none))
        replayRun = some w ∧ w.grants = [(lit "first", lit "second"), (lit "first", lit "second")] ∧
      (∀ acts w', refresh.run w acts = some w' → w'.grants = w.grants) ∧
      w.family.isRevoked 909000 = true := by
  have hinit : refresh.ReachableWhere FreshReplacement
      (issued 0 firstBinding 604800000 (fun _ => none)) := .init ⟨_, _, _, _, rfl⟩
  have hrun : ∃ w, refresh.runWhere FreshReplacement
      (issued 0 firstBinding 604800000 (fun _ => none)) replayRun = some w ∧
      w.grants = [(lit "first", lit "second"), (lit "first", lit "second")] ∧
      w.revokedAt = some 9000 := ⟨_, rfl, by decide, rfl⟩
  obtain ⟨w, hw, hgrants, hrevokedAt⟩ := hrun
  refine ⟨w, hw, hgrants, ?_⟩
  obtain ⟨hfinal, hmark⟩ := (refresh_chain_linear (hinit.runWhere hw)).2.2 9000 hrevokedAt
  exact ⟨hfinal, hmark 909000 (by decide)⟩

end SmsPlatform.Auth
