import SmsPlatform.RateLimit.WeightedWindow

/-!
# Safety of the weighted window

Each of the two rings counts the log of accepted requests: its total is the cost
accepted in the last sixty effective seconds plus what was inherited from the
frozen counters.  The limits then hold for every window of sixty effective
seconds.

The rings outlive the window when the clock does not go back.  The effective
second is held at the last one stored while the deadline follows the clock, so
after a step back the rings can expire inside their own window.
-/

namespace SmsPlatform.RateLimit

open Support Expiring List

/-! ## Dimensions -/

/-- One of the two counted quantities of an accepted request. -/
structure Dimension where
  count : Accepted → ℕ
  limit : Accepted → ℕ
  legacy : Accepted → ℕ
  folded : Accepted → ℕ

def recipientDimension : Dimension where
  count a := a.request.recipientCount
  limit a := a.request.recipientLimit
  legacy := Accepted.legacyRecipients
  folded := Accepted.foldedRecipients

def segmentDimension : Dimension where
  count a := a.request.segmentCount
  limit a := a.request.segmentLimit
  legacy := Accepted.legacySegments
  folded := Accepted.foldedSegments

namespace Dimension

/-- What an accepted request adds to the ring. -/
def stored (d : Dimension) (a : Accepted) : ℕ :=
  d.count a + d.folded a

/-- The cost accepted in the window that ends with `now`. -/
def accepted (d : Dimension) (now : ℕ) (log : List Accepted) : ℕ :=
  windowSum Accepted.epoch d.count costWindowSeconds now log

/-- The inherited amount that was added in the window that ends with `now`. -/
def inherited (d : Dimension) (now : ℕ) (log : List Accepted) : ℕ :=
  windowSum Accepted.epoch d.folded costWindowSeconds now log

/-- The amount the frozen counter held when it was last inherited from. -/
def legacyAmount (d : Dimension) : List Accepted → ℕ
  | [] => 0
  | a :: log => if 0 < d.folded a then d.legacy a else legacyAmount d log

/-- The ring of the dimension counts what the log has stored. -/
def Counted (d : Dimension) (last : ℕ) (log : List Accepted) (slots : SlotRing) : Prop :=
  SlotRing.Counts Accepted.epoch d.stored costWindowSeconds last log slots

/-- The log keeps its limits, and inherited amounts do not pile up. -/
structure Sound (d : Dimension) (log : List Accepted) : Prop where
  admitted : Admitted Accepted.epoch d.count d.limit costWindowSeconds log
  inherited_le : ∀ now, (∀ a ∈ log, a.epoch ≤ now) → d.inherited now log ≤ d.legacyAmount log

variable {d : Dimension} {log : List Accepted} {slots : SlotRing} {now last : ℕ}

theorem Counted.total_eq (h : d.Counted last log slots) (hnow : last ≤ now) :
    slots.total costWindowSeconds now = d.accepted now log + d.inherited now log := by
  rw [SlotRing.Counts.total_eq h now hnow]
  exact windowSum_add log

theorem sound_nil (d : Dimension) : d.Sound [] where
  admitted := trivial
  inherited_le := fun _ _ => le_rfl

/-- The sum of a window that ends with the time of the newest entry. -/
theorem windowSum_newest {weight : Accepted → ℕ} (a : Accepted) (log : List Accepted) :
    windowSum Accepted.epoch weight costWindowSeconds a.epoch (a :: log) =
      weight a + windowSum Accepted.epoch weight costWindowSeconds a.epoch log := by
  have hin : InWindow costWindowSeconds a.epoch a.epoch :=
    ⟨le_rfl, Nat.lt_add_of_pos_right (by decide)⟩
  rw [windowSum_cons, if_pos hin]

theorem Sound.accept {a : Accepted} (h : d.Sound log)
    (hcounted : d.Counted a.epoch log slots) (hlate : ∀ b ∈ log, b.epoch ≤ a.epoch)
    (hfolded : d.folded a = foldedShare (d.legacy a) (slots.total costWindowSeconds a.epoch))
    (hlimit : inherit (d.legacy a) (slots.total costWindowSeconds a.epoch) + d.count a ≤
      d.limit a) : d.Sound (a :: log) := by
  have htotal := hcounted.total_eq (Nat.le_refl a.epoch)
  have hnewest : d.accepted a.epoch (a :: log) = d.count a + d.accepted a.epoch log :=
    windowSum_newest a log
  have hfoldedNewest :
      d.inherited a.epoch (a :: log) = d.folded a + d.inherited a.epoch log :=
    windowSum_newest a log
  constructor
  · refine ⟨hlate, ?_, h.admitted⟩
    have hinherit : slots.total costWindowSeconds a.epoch ≤
        inherit (d.legacy a) (slots.total costWindowSeconds a.epoch) := by
      unfold inherit
      split <;> omega
    change d.accepted a.epoch (a :: log) ≤ d.limit a
    omega
  · intro now hnow
    have hanti : d.inherited now (a :: log) ≤ d.inherited a.epoch (a :: log) := by
      refine windowSum_anti ?_ (hnow a mem_cons_self)
      intro b hb
      rcases mem_cons.mp hb with rfl | hb
      · exact le_rfl
      · exact hlate b hb
    by_cases hfold : 0 < d.folded a
    · -- the share fills the ring up to what the frozen counter holds
      rw [legacyAmount, if_pos hfold]
      unfold foldedShare at hfolded
      split at hfolded <;> omega
    · rw [legacyAmount, if_neg hfold]
      have hrest := h.inherited_le a.epoch hlate
      omega

end Dimension

/-! ## The invariant -/

/-- Both rings exist and count the log up to the last effective second. -/
structure RingsCount (w : WindowWorld) (recipients segments : Expiring Ring) (last : ℕ) :
    Prop where
  recipients_last : recipients.value.lastEpoch = some last
  deadline_eq : segments.deadline = recipients.deadline
  recipients_counted : recipientDimension.Counted last w.log recipients.value.slots
  segments_counted : segmentDimension.Counted last w.log segments.value.slots
  late : ∀ a ∈ w.log, a.epoch ≤ last

structure WindowSound (w : WindowWorld) : Prop where
  keys : (w.recipients = none ∧ w.segments = none) ∨
    ∃ recipients segments last, w.recipients = some recipients ∧
      w.segments = some segments ∧ RingsCount w recipients segments last
  recipients : recipientDimension.Sound w.log
  segments : segmentDimension.Sound w.log

/-- A request that finds the rings gone comes after the window of everything
that was counted in them. -/
def RingsOutliveWindow (w : WindowWorld) (call : CostCall) : Prop :=
  Expiring.alive call.nowMs w.recipients = none →
    ∀ a ∈ w.log, a.epoch + costWindowSeconds ≤ call.nowMs / 1000

/-- The state as a request reads it. -/
abbrev WindowWorld.read (w : WindowWorld) (call : CostCall) : WindowWorld :=
  ⟨Expiring.alive call.nowMs w.recipients, Expiring.alive call.nowMs w.segments, w.log⟩

abbrev WindowWorld.second (w : WindowWorld) (call : CostCall) : ℕ :=
  effectiveSecond call.nowMs (w.read call).recipients

/-- What a request finds: the effective second is not before any accepted
request, and both rings count the log. -/
structure Found (w : WindowWorld) (nowSec : ℕ) : Prop where
  late : ∀ a ∈ w.log, a.epoch ≤ nowSec
  recipients : recipientDimension.Counted nowSec w.log (slotsOf w.recipients)
  segments : segmentDimension.Counted nowSec w.log (slotsOf w.segments)

variable {call : CostCall} {legacy : Legacy} {w : WindowWorld}

theorem WindowSound.found (hw : WindowSound w) (hok : RingsOutliveWindow w call) :
    Found (w.read call) (w.second call) := by
  have hgone : Expiring.alive call.nowMs w.recipients = none →
      Expiring.alive call.nowMs w.segments = none → Found (w.read call) (w.second call) := by
    intro hrec hseg
    have hold := hok hrec
    rw [WindowWorld.second, WindowWorld.read, hrec, hseg]
    exact ⟨fun a ha => le_trans (Nat.le_add_right _ _) (hold a ha),
      SlotRing.counts_empty hold, SlotRing.counts_empty hold⟩
  rcases hw.keys with ⟨hrec, hseg⟩ | ⟨recipients, segments, last, hrec, hseg, hrings⟩
  · exact hgone (by rw [hrec, alive_none]) (by rw [hseg, alive_none])
  by_cases halive : call.nowMs ≤ recipients.deadline
  · have hrec' : Expiring.alive call.nowMs w.recipients = some recipients :=
      alive_eq_some_iff.mpr ⟨hrec, halive⟩
    have hseg' : Expiring.alive call.nowMs w.segments = some segments :=
      alive_eq_some_iff.mpr ⟨hseg, by rw [hrings.deadline_eq]; exact halive⟩
    have hlast : last ≤ effectiveSecond call.nowMs (some recipients) := by
      simp only [effectiveSecond, Option.bind_some, hrings.recipients_last]
      split
      · exact le_rfl
      · omega
    rw [WindowWorld.second, WindowWorld.read, hrec', hseg']
    exact ⟨fun a ha => le_trans (hrings.late a ha) hlast,
      .mono hrings.recipients_counted hlast,
      .mono hrings.segments_counted hlast⟩
  · have hpast : recipients.deadline < call.nowMs := Nat.lt_of_not_le halive
    exact hgone (alive_eq_none hrec hpast)
      (alive_eq_none hseg (by rw [hrings.deadline_eq]; exact hpast))

/-! ## One request -/

/-- The cost of the accepted request is within its limits. -/
structure Affords (legacy : Legacy) (w : WindowWorld) (call : CostCall) (a : Accepted) : Prop where
  entry : a = acceptedEntry legacy w call
  recipients : inherit a.legacyRecipients (ringTotal a.epoch (w.read call).recipients) +
    a.request.recipientCount ≤ a.request.recipientLimit
  segments : inherit a.legacySegments (ringTotal a.epoch (w.read call).segments) +
    a.request.segmentCount ≤ a.request.segmentLimit

/-- The rings with the accepted request. -/
def WindowWorld.accept (w : WindowWorld) (call : CostCall) (a : Accepted) : WindowWorld :=
  ⟨ringAdd call.nowMs a.epoch (recipientDimension.stored a) (w.read call).recipients,
    ringAdd call.nowMs a.epoch (segmentDimension.stored a) (w.read call).segments, a :: w.log⟩

/-- What the script does: it leaves both rings, or adds an accepted request to
both. -/
inductive Consumed (legacy : Legacy) (w : WindowWorld) (call : CostCall) :
    ℤ × RingKey × RingKey → Prop
  | rejected {reply : ℤ} (hreply : reply ≤ 0) :
      Consumed legacy w call (reply, (w.read call).recipients, (w.read call).segments)
  | accepted {a : Accepted} (h : Affords legacy w call a) :
      Consumed legacy w call (1, (w.accept call a).recipients, (w.accept call a).segments)

theorem markerReply_nonpos {clockSecond : ℕ} {marker : MarkerKey} {reply : ℤ}
    (h : markerReply clockSecond marker = some reply) : reply ≤ 0 := by
  cases marker with
  | missing =>
    obtain rfl : -3 = reply := by simpa [markerReply] using h
    decide
  | wrongType =>
    obtain rfl : -2 = reply := by simpa [markerReply] using h
    decide
  | hash m =>
    by_cases hactive : m.active clockSecond
    · simp [markerReply, hactive] at h
    · obtain rfl : -4 = reply := by simpa [markerReply, hactive] using h
      decide

theorem weightedWindowScript_consumed (legacy : Legacy) (w : WindowWorld) (call : CostCall) :
    Consumed legacy w call (weightedWindowScript legacy call.marker call.request
      call.nowMs w.recipients w.segments) := by
  unfold weightedWindowScript
  dsimp only
  split
  · next reply hmarker => exact .rejected (markerReply_nonpos hmarker)
  split
  · next v1Rec v1Seg hrec hseg =>
    split
    · next hwithin =>
      rw [withinLimits, Bool.and_eq_true, decide_eq_true_eq, decide_eq_true_eq] at hwithin
      have haffords : Affords legacy w call (acceptedEntry legacy w call) := by
        refine ⟨rfl, ?_, ?_⟩ <;> simp only [acceptedEntry, hrec, hseg, Option.getD_some]
        · exact hwithin.1
        · exact hwithin.2
      have haccepted := Consumed.accepted haffords
      simp only [WindowWorld.accept, acceptedEntry, hrec, hseg, Option.getD_some,
        recipientDimension, segmentDimension, Dimension.stored] at haccepted
      exact haccepted
    · exact .rejected (Int.le_refl 0)
  · exact .rejected (by decide)

/-- A request leaves the state as it was read, or is accepted. -/
theorem step_cases (legacy : Legacy) (w : WindowWorld) (call : CostCall) :
    w.step legacy call = w.read call ∨
    costOutcome (weightedWindowScript legacy call.marker call.request call.nowMs
        w.recipients w.segments).1 = .accepted ∧
      ∃ a, Affords legacy w call a ∧ w.step legacy call = w.accept call a := by
  have hconsumed := weightedWindowScript_consumed legacy w call
  unfold WindowWorld.step
  generalize weightedWindowScript legacy call.marker call.request call.nowMs
    w.recipients w.segments = result at hconsumed ⊢
  cases hconsumed with
  | @rejected reply hreply =>
    have hkeep : costOutcome reply ≠ .accepted := by
      unfold costOutcome
      split
      · simp
      split
      · simp
      · omega
    left
    dsimp only
    split
    · next hout => exact absurd hout hkeep
    · rfl
  | @accepted a h =>
    refine .inr ⟨rfl, a, h, ?_⟩
    rw [← h.entry]
    rfl

/-- Rings that are only read are both kept or both gone. -/
theorem windowSound_read (hw : WindowSound w) (call : CostCall) : WindowSound (w.read call) := by
  refine ⟨?_, hw.recipients, hw.segments⟩
  rcases hw.keys with ⟨hrec, hseg⟩ | ⟨recipients, segments, last, hrec, hseg, hrings⟩
  · rw [WindowWorld.read, hrec, hseg]
    exact .inl ⟨alive_none call.nowMs, alive_none call.nowMs⟩
  by_cases halive : call.nowMs ≤ recipients.deadline
  · refine .inr ⟨recipients, segments, last, ?_, ?_, ?_⟩
    · exact alive_eq_some_iff.mpr ⟨hrec, halive⟩
    · exact alive_eq_some_iff.mpr ⟨hseg, by rw [hrings.deadline_eq]; exact halive⟩
    · exact ⟨hrings.recipients_last, hrings.deadline_eq, hrings.recipients_counted,
        hrings.segments_counted, hrings.late⟩
  · refine .inl ⟨?_, ?_⟩
    · exact alive_eq_none hrec (Nat.lt_of_not_le halive)
    · exact alive_eq_none hseg
        (by rw [hrings.deadline_eq]; exact Nat.lt_of_not_le halive)

theorem windowSound_accept (hw : WindowSound w) (hok : RingsOutliveWindow w call) {a : Accepted}
    (h : Affords legacy w call a) : WindowSound (w.accept call a) := by
  have hepoch : a.epoch = w.second call := by
    rw [h.entry]
    rfl
  have hfound := hw.found hok
  rw [← hepoch] at hfound
  have hfoldRec : a.foldedRecipients =
      foldedShare a.legacyRecipients (ringTotal a.epoch (w.read call).recipients) := by
    rw [h.entry]
    rfl
  have hfoldSeg : a.foldedSegments =
      foldedShare a.legacySegments (ringTotal a.epoch (w.read call).segments) := by
    rw [h.entry]
    rfl
  constructor
  · refine .inr ⟨_, _, a.epoch, rfl, rfl, ?_⟩
    constructor
    · rfl
    · rfl
    · exact .add (by decide) hfound.recipients (le_rfl)
    · exact .add (by decide) hfound.segments (le_rfl)
    · intro b hb
      rcases mem_cons.mp hb with rfl | hb
      · exact le_rfl
      · exact hfound.late b hb
  · exact hw.recipients.accept hfound.recipients hfound.late hfoldRec h.recipients
  · exact hw.segments.accept hfound.segments hfound.late hfoldSeg h.segments

theorem windowSound_step (hw : WindowSound w) (hok : RingsOutliveWindow w call) :
    WindowSound (w.step legacy call) := by
  rcases step_cases legacy w call with hstep | ⟨-, a, haffords, hstep⟩ <;> rw [hstep]
  · exact windowSound_read hw call
  · exact windowSound_accept hw hok haffords

theorem windowSound_of_reachable (h : (windowMachine legacy).ReachableWhere RingsOutliveWindow w) :
    WindowSound w := by
  refine Machine.ReachableWhere.invariant ?_ ?_ h
  · rintro _ rfl
    exact ⟨.inl ⟨rfl, rfl⟩, Dimension.sound_nil _, Dimension.sound_nil _⟩
  · intro s call t hs hok hnext
    obtain rfl : s.step legacy call = t := by simpa [windowMachine] using hnext
    exact windowSound_step hs hok

/-! ## The bounds -/

/-- The ring total is the cost accepted in the last sixty effective seconds plus
an inherited amount, which is at most what the frozen counter held when it was
last inherited from. -/
def Dimension.Exact (d : Dimension) (nowSec : ℕ) (log : List Accepted) (key : RingKey) :
    Prop :=
  ringTotal nowSec key = d.accepted nowSec log + d.inherited nowSec log ∧
    d.inherited nowSec log ≤ d.legacyAmount log

/-- In every window of sixty effective seconds the accepted cost is at most any
bound on the limits of the requests accepted in it. -/
def Dimension.WithinLimits (d : Dimension) (log : List Accepted) : Prop :=
  ∀ now bound, (∀ a ∈ log, InWindow costWindowSeconds now a.epoch → d.limit a ≤ bound) →
    d.accepted now log ≤ bound

/-- A slot that counts a second of the current window keeps counting it, and
its weight does not fall. -/
def LiveSlotsKept (nowSec : ℕ) (before after : RingKey) : Prop :=
  ∀ slot e, (slotsOf before).epoch slot = some e → InWindow costWindowSeconds nowSec e →
    (slotsOf after).epoch slot = some e ∧
      ((slotsOf before).weight slot).getD 0 ≤ ((slotsOf after).weight slot).getD 0 ∧
      (e ≠ nowSec → ((slotsOf after).weight slot).getD 0 =
        ((slotsOf before).weight slot).getD 0)

theorem LiveSlotsKept.refl (nowSec : ℕ) (key : RingKey) : LiveSlotsKept nowSec key key :=
  fun _ _ he _ => ⟨he, le_rfl, fun _ => rfl⟩

theorem liveSlotsKept_ringAdd {nowMs nowSec weight : ℕ} {key : RingKey}
    (h : (slotsOf key).Placed costWindowSeconds nowSec) :
    LiveSlotsKept nowSec key (ringAdd nowMs nowSec weight key) := by
  intro slot e he hlive
  obtain ⟨hepoch, hweight⟩ := h.add_of_inWindow he hlive
  refine ⟨hepoch, ?_, ?_⟩
  · exact le_trans (Nat.le_add_right _ _) (le_of_eq hweight.symm)
  · intro hne
    rw [if_neg hne] at hweight
    exact hweight

/-- The safety of the window in a state, for the next request whatever it is. -/
structure WindowSafe (legacy : Legacy) (w : WindowWorld) (call : CostCall) : Prop where
  recipients_exact : recipientDimension.Exact
    (effectiveSecond call.nowMs (Expiring.alive call.nowMs w.recipients)) w.log
    (Expiring.alive call.nowMs w.recipients)
  segments_exact : segmentDimension.Exact
    (effectiveSecond call.nowMs (Expiring.alive call.nowMs w.recipients)) w.log
    (Expiring.alive call.nowMs w.segments)
  recipients_within : recipientDimension.WithinLimits w.log
  segments_within : segmentDimension.WithinLimits w.log
  rejected_unchanged :
    costOutcome (weightedWindowScript legacy call.marker call.request call.nowMs
        w.recipients w.segments).1 ≠ .accepted →
      w.step legacy call = ⟨Expiring.alive call.nowMs w.recipients,
        Expiring.alive call.nowMs w.segments, w.log⟩
  recipients_kept : LiveSlotsKept
    (effectiveSecond call.nowMs (Expiring.alive call.nowMs w.recipients))
    (Expiring.alive call.nowMs w.recipients) (w.step legacy call).recipients
  segments_kept : LiveSlotsKept
    (effectiveSecond call.nowMs (Expiring.alive call.nowMs w.recipients))
    (Expiring.alive call.nowMs w.segments) (w.step legacy call).segments

variable {log : List Accepted} {d : Dimension}

theorem Dimension.Sound.withinLimits (h : d.Sound log) : d.WithinLimits log :=
  fun _ _ hbound => h.admitted.windowSum_le hbound

theorem Dimension.Sound.exact {nowSec : ℕ}
    {key : RingKey} (h : d.Sound log) (hcounted : d.Counted nowSec log (slotsOf key))
    (hlate : ∀ a ∈ log, a.epoch ≤ nowSec) : d.Exact nowSec log key :=
  ⟨hcounted.total_eq (le_rfl), h.inherited_le nowSec hlate⟩

/-- A request keeps the live slots of both rings. -/
theorem step_keeps_live_slots (legacy : Legacy) (hfound : Found (w.read call) (w.second call)) :
    LiveSlotsKept (w.second call) (w.read call).recipients (w.step legacy call).recipients ∧
    LiveSlotsKept (w.second call) (w.read call).segments (w.step legacy call).segments := by
  rcases step_cases legacy w call with hstep | ⟨-, a, haffords, hstep⟩ <;> rw [hstep]
  · exact ⟨.refl _ _, .refl _ _⟩
  · obtain rfl := haffords.entry
    exact ⟨liveSlotsKept_ringAdd hfound.recipients.placed,
      liveSlotsKept_ringAdd hfound.segments.placed⟩

/-- The window is safe in every run, with readings that may go back and frozen
counters of any content, whose requests find the rings gone only after the window
of everything counted in them. -/
theorem weighted_window_safe (legacy : Legacy) (w : WindowWorld) (call : CostCall)
    (h : (windowMachine legacy).ReachableWhere RingsOutliveWindow w)
    (hok : RingsOutliveWindow w call) : WindowSafe legacy w call := by
  have hsound := windowSound_of_reachable h
  have hfound := hsound.found hok
  have hkept := step_keeps_live_slots legacy hfound
  constructor
  · exact hsound.recipients.exact hfound.recipients hfound.late
  · exact hsound.segments.exact hfound.segments hfound.late
  · exact hsound.recipients.withinLimits
  · exact hsound.segments.withinLimits
  · exact fun hout => (step_cases legacy w call).resolve_right (fun h => hout h.1)
  · exact hkept.1
  · exact hkept.2

/-- A completed change of format. -/
def activeMarker : MarkerKey :=
  .hash
    { state := some "active_v2"
      schemaVersion := some "1"
      generation := some 1
      fieldCount := 11
      targetWriterVersion := some "2"
      minimumWriterVersion := some "2"
      windowSeconds := some "60"
      safetyMarginSeconds := some "5"
      admissionReason := some "writer_cutover"
      fenceTime := some 0
      notBefore := some 65 }

/-- One recipient and one segment, with a limit of two each. -/
def singleCost : CostRequest :=
  ⟨1, 1, 2, 2, le_rfl, le_rfl, one_le_two, one_le_two⟩

def costAt (nowMs : ℕ) : CostCall := ⟨activeMarker, singleCost, nowMs⟩

/-- A frozen counter that held one at second 990. -/
def legacyOne : Legacy where
  recipients := .hash (fun second => if second = 990 then some (some 1) else none)
  segments := .missing

theorem weighted_window_safe_inheriting :
    ((WindowWorld.start.step legacyOne (costAt 1000000)).log.map
        (fun a => (a.epoch, a.foldedRecipients))) = [(1000, 1)] ∧
      WindowSafe legacyOne (WindowWorld.start.step legacyOne (costAt 1000000)) (costAt 999000) := by
  refine ⟨by decide +kernel, weighted_window_safe _ _ _ ?_ ?_⟩
  · exact .step (.init rfl) (fun _ _ ha => absurd ha not_mem_nil) rfl
  · intro hgone
    exact absurd hgone (by decide +kernel)

/-- The clock is set back by 100 seconds after the first request.  The second
request counts for second 1000, but its deadline is second 970 of the clock. -/
def setBackRun : List CostCall :=
  [costAt 1000000, costAt 900000, costAt 970001]

def noLegacy : Legacy := ⟨.missing, .missing⟩

/-- Three recipients are accepted within sixty effective seconds against a limit
of two. -/
theorem window_expires_while_live :
    ∃ w, (windowMachine noLegacy).run WindowWorld.start setBackRun = some w ∧
      (∀ a ∈ w.log, a.request.recipientLimit = 2) ∧ w.log.map Accepted.epoch = [970, 1000, 1000] ∧
      2 < recipientDimension.accepted 1000 w.log := by
  refine ⟨_, rfl, ?_, ?_, ?_⟩ <;> decide +kernel

end SmsPlatform.RateLimit
