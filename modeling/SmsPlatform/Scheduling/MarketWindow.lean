import Mathlib.Order.Bounds.Basic

/-!
# The window of marketing messages

Marketing messages are sent in a daily window of the Shanghai clock only.  A message that
would leave outside of it is put off to the next start of the window.

Instants and readings of a clock are microseconds from the epoch.  Shanghai has moved its
clock by an hour several times, the last time in 1991.  A start of the window in an hour that
was skipped does not exist, and one in an hour that was repeated exists twice.
-/

namespace SmsPlatform.Scheduling

open List

/-! ## Clocks -/

def second : ℤ := 1000000

def day : ℤ := 86400 * second

/-- A time of day. -/
abbrev Clock := {c : ℤ // 0 ≤ c ∧ c < day}

/-- The instants at which the offset has changed, and what it has changed to. -/
def shanghaiChanges : List (ℤ × ℤ) :=
  [(-2177481943, 28800), (-1600675200, 32400), (-1585904400, 28800), (-933667200, 32400),
    (-922093200, 28800), (-908870400, 32400), (-888829200, 28800), (-881049600, 32400),
    (-767869200, 28800), (-745833600, 32400), (-733827600, 28800), (-716889600, 32400),
    (-699613200, 28800), (-683884800, 32400), (-670669200, 28800), (-652348800, 32400),
    (-650019600, 28800), (515527200, 32400), (527014800, 28800), (545162400, 32400),
    (558464400, 28800), (577216800, 32400), (589914000, 28800), (608666400, 32400),
    (621968400, 28800), (640116000, 32400), (653418000, 28800), (671565600, 32400),
    (684867600, 28800)].map (fun c => (c.1 * second, c.2 * second))

/-- The offset at a reading; `edge` is the reading from which on a change is in force. -/
def offsetAfter (edge : ℤ → ℤ → ℤ → ℤ) (before : ℤ) : List (ℤ × ℤ) → ℤ → ℤ
  | [], _ => before
  | (instant, after) :: changes, reading =>
    if reading < edge instant before after then before
    else offsetAfter edge after changes reading

def shanghaiOffset (instant : ℤ) : ℤ :=
  offsetAfter (fun instant _ _ => instant) (29143 * second) shanghaiChanges instant

/-- The offset at a reading of the Shanghai clock.  Of two instants with one reading, `fold`
takes the second. -/
def wallOffset (fold : Bool) (wall : ℤ) : ℤ :=
  offsetAfter (fun instant before after =>
    instant + if fold then min before after else max before after) (29143 * second)
    shanghaiChanges wall

inductive TzInfo
  | shanghai
  | other (utcoffset : ℤ)

/-- A naive datetime has no `tzinfo`. -/
structure Datetime where
  wall : ℤ
  tzinfo : Option TzInfo
  fold : Bool

def Datetime.utcoffset (d : Datetime) : Option ℤ :=
  d.tzinfo.map (fun
    | .shanghai => wallOffset d.fold d.wall
    | .other offset => offset)

def Datetime.instant (d : Datetime) : Option ℤ := d.utcoffset.map (d.wall - ·)

/-- A day from 0001-01-01 to 9999-12-31. -/
def inCalendar (wall : ℤ) : Bool :=
  decide (-719162 ≤ wall / day ∧ wall / day ≤ 2932896)

/-- The reading of the Shanghai clock. -/
def Datetime.astimezone (d : Datetime) : Option ℤ :=
  match d.tzinfo with
  | none => none
  | some .shanghai => some d.wall
  | some (.other offset) =>
    let utc := d.wall - offset
    let wall := utc + shanghaiOffset utc
    if inCalendar utc && inCalendar wall then some wall else none

/-! ## Coercion -/

inductive Dispatch
  | queued
  | scheduled

section

variable (now : Datetime) (start stop : Clock) (scheduledAt : Option Datetime)

/-- The Shanghai clock shows a time of the window. -/
def InWindow (instant : ℤ) : Prop :=
  start ≤ (instant + shanghaiOffset instant) % day ∧ (instant + shanghaiOffset instant) % day < stop

def targetDate (wall : ℤ) : ℤ := if wall % day < start then wall / day else wall / day + 1

/-- The answer for a reference with a reading of the Shanghai clock. -/
def dispatchAt (wall : ℤ) : Except String (Dispatch × Option String × Option Datetime) :=
  if start ≤ wall % day ∧ wall % day < stop then
    .ok (if scheduledAt.isSome then .scheduled else .queued, none, scheduledAt)
  else if inCalendar (targetDate start wall * day) then
    .ok (.scheduled, some "market_window",
      some ⟨targetDate start wall * day + start, some .shanghai, false⟩)
  else .error "date value out of range"

def coerceMarketDispatch : Except String (Dispatch × Option String × Option Datetime) :=
  if now.utcoffset.isNone then .error "now must include timezone"
  else if scheduledAt.any (fun d => d.utcoffset.isNone) then
    .error "scheduled_at must include timezone"
  else if (stop : ℤ) ≤ start then .error "market window must be a same-day half-open interval"
  else (scheduledAt.getD now).astimezone.elim (.error "date value out of range")
    (dispatchAt start stop scheduledAt)

end

/-! ## Days without a change -/

def hour : ℤ := 3600 * second

abbrev IsOffset (offset : ℤ) : Prop := 8 * hour ≤ offset ∧ offset ≤ 9 * hour

/-- The Shanghai clock is not moved from an hour before the instant until a day and an hour
after it. -/
def Steady (t : ℤ) : Prop := ∀ c ∈ shanghaiChanges, c.1 + hour ≤ t ∨ t + day + hour < c.1

theorem le_add_day (t : ℤ) : t ≤ t + day := Int.le_add_of_nonneg_right (by decide)

theorem isOffset_shanghaiChanges : ∀ c ∈ shanghaiChanges, IsOffset c.2 := by decide

section

variable {edge edge' : ℤ → ℤ → ℤ → ℤ} {before reading reading' : ℤ} {changes : List (ℤ × ℤ)}

theorem isOffset_offsetAfter (hbefore : IsOffset before) (h : ∀ c ∈ changes, IsOffset c.2) :
    IsOffset (offsetAfter edge before changes reading) := by
  induction changes generalizing before with
  | nil => exact hbefore
  | cons c changes ih =>
    unfold offsetAfter
    split
    · exact hbefore
    · exact ih (h c mem_cons_self) (fun d hd => h d (mem_cons_of_mem c hd))

theorem isOffset_shanghai :
    IsOffset (offsetAfter edge (29143 * second) shanghaiChanges reading) :=
  isOffset_offsetAfter (by decide) isOffset_shanghaiChanges

theorem offsetAfter_congr (hbefore : IsOffset before) (h : ∀ c ∈ changes, IsOffset c.2 ∧
      ∀ b, IsOffset b → (reading < edge c.1 b c.2 ↔ reading' < edge' c.1 b c.2)) :
    offsetAfter edge before changes reading = offsetAfter edge' before changes reading' := by
  induction changes generalizing before with
  | nil => rfl
  | cons c changes ih =>
    obtain ⟨hafter, hiff⟩ := h c mem_cons_self
    exact if_congr (hiff before hbefore) rfl (ih hafter fun d hd => h d (mem_cons_of_mem c hd))

variable {t x offset : ℤ} (h : Steady t) (hfrom : t ≤ x) (huntil : x ≤ t + day)
include h hfrom huntil

theorem Steady.shanghaiOffset_eq : shanghaiOffset x = shanghaiOffset t := by
  refine offsetAfter_congr (by decide) (fun c hc => ⟨isOffset_shanghaiChanges c hc, fun b _ => ?_⟩)
  have hfar := h c hc
  simp only [hour, second] at hfar
  omega

theorem Steady.wallOffset_eq (hoffset : IsOffset offset) (fold : Bool) :
    wallOffset fold (x + offset) = shanghaiOffset t := by
  refine offsetAfter_congr (by decide) (fun c hc => ⟨isOffset_shanghaiChanges c hc, fun b hb => ?_⟩)
  have hafter := isOffset_shanghaiChanges c hc
  have hfar := h c hc
  simp only [IsOffset, hour, second] at hfar hafter hb hoffset
  split <;> omega

end

theorem astimezone_eq {d : Datetime} {t : ℤ} (h : d.instant = some t) (hsteady : Steady t)
    (hfirst : -719162 * day ≤ t) (hlast : t + shanghaiOffset t < 2932897 * day) :
    d.astimezone = some (t + shanghaiOffset t) := by
  obtain ⟨wall, _ | _ | offset, fold⟩ := d
  · cases h
  · have hwall : wall - wallOffset fold wall = t := Option.some.inj h
    have hoffset : IsOffset (wallOffset fold wall) := isOffset_shanghai
    have heq := hsteady.wallOffset_eq le_rfl (le_add_day t) hoffset fold
    have hreading : t + wallOffset fold wall = wall := by omega
    rw [hreading] at heq
    rw [← heq, hreading]
    rfl
  · obtain rfl : wall - offset = t := Option.some.inj h
    have hoffset : IsOffset (shanghaiOffset (wall - offset)) := isOffset_shanghai
    refine if_pos ?_
    simp only [inCalendar, Bool.and_eq_true, decide_eq_true_eq]
    simp only [IsOffset, hour, day, second] at *
    omega

section

variable {now : Datetime} {start stop : Clock} {scheduledAt : Option Datetime} {t wall : ℤ}

theorem coerceMarketDispatch_eq (hnow : now.utcoffset.isSome = true) (hwindow : start < stop)
    (hwall : (scheduledAt.getD now).astimezone = some wall) :
    coerceMarketDispatch now start stop scheduledAt = dispatchAt start stop scheduledAt wall := by
  have haware : scheduledAt.any (fun d => d.utcoffset.isNone) = false := by
    rcases scheduledAt with _ | ⟨reading, _ | tz, fold⟩
    · rfl
    · cases hwall
    · rfl
  rw [coerceMarketDispatch, Option.isNone_eq_false_iff.mpr hnow, haware, hwall,
    if_neg Bool.false_ne_true, if_neg Bool.false_ne_true, if_neg (Int.not_le.mpr hwindow)]
  rfl

/-- The next start of the window is its first reading from a reading outside of it on. -/
theorem targetDate_least (hout : ¬ (start ≤ wall % day ∧ wall % day < stop)) :
    wall ≤ targetDate start wall * day + start ∧
    targetDate start wall * day + start ≤ wall + day ∧
    (targetDate start wall * day + start) % day = start ∧
    ∀ x, wall ≤ x → start ≤ x % day → x % day < stop →
      targetDate start wall * day + start ≤ x := by
  have hstart := start.2
  unfold targetDate
  split <;> simp only [day, second] at * <;>
    refine ⟨by omega, by omega, by omega, fun x _ _ _ => ?_⟩ <;> omega

/-- If the clock is not moved on that day and the last window of the calendar has not ended,
a message leaves at the first instant of the window that is not before its own time.  It keeps
its time if that lies in the window, and a time that was put off once is not put off again. -/
theorem market_dispatch_least (hnow : now.utcoffset.isSome = true) (hwindow : start < stop)
    (hreference : (scheduledAt.getD now).instant = some t) (hsteady : Steady t)
    (hfirst : -719162 * day ≤ t) (hlast : t + shanghaiOffset t < 2932896 * day + stop) :
    ∃ status reason target,
      coerceMarketDispatch now start stop scheduledAt = .ok (status, reason, target) ∧
      (∃ t', (target.getD now).instant = some t' ∧ IsLeast {x | t ≤ x ∧ InWindow start stop x} t') ∧
      (InWindow start stop t → reason = none ∧ target = scheduledAt) ∧
      coerceMarketDispatch now start stop target = .ok (status, none, target) := by
  have hstop := stop.2.2
  have hoffset : IsOffset (shanghaiOffset t) := isOffset_shanghai
  have hok := coerceMarketDispatch_eq hnow hwindow
    (astimezone_eq hreference hsteady hfirst (by omega))
  have hiff : ∀ {x}, t ≤ x → x ≤ t + day → (InWindow start stop x ↔
      start ≤ (x + shanghaiOffset t) % day ∧ (x + shanghaiOffset t) % day < stop) := by
    intro x hfrom huntil
    rw [InWindow, hsteady.shanghaiOffset_eq hfrom huntil]
  unfold dispatchAt at hok
  by_cases hin : InWindow start stop t
  · rw [if_pos ((hiff le_rfl (le_add_day t)).mp hin)] at hok
    exact ⟨_, _, _, hok, ⟨t, hreference, ⟨le_rfl, hin⟩, fun x hx => hx.1⟩, fun _ => ⟨rfl, rfl⟩, hok⟩
  have hout := mt (hiff le_rfl (le_add_day t)).mpr hin
  obtain ⟨hle, hday, hclock, hleast⟩ := targetDate_least hout
  generalize hdate : targetDate start (t + shanghaiOffset t) = date at *
  have hopen : inCalendar (date * day) = true := by
    simp only [inCalendar, decide_eq_true_eq]
    unfold targetDate at hdate
    split at hdate <;> simp only [IsOffset, hour, day, second] at * <;> omega
  rw [if_neg hout, if_pos hopen] at hok
  have hlater : t ≤ date * day + start - shanghaiOffset t := by omega
  have huntil : date * day + start - shanghaiOffset t ≤ t + day := by omega
  have hwall := hsteady.wallOffset_eq hlater huntil hoffset false
  rw [Int.sub_add_cancel] at hwall
  have hinstant : Datetime.instant ⟨date * day + start, some .shanghai, false⟩ =
      some (date * day + start - shanghaiOffset t) := by
    rw [← hwall]
    rfl
  refine ⟨_, _, _, hok, ⟨_, hinstant, ⟨hlater, ?_⟩, ?_⟩, fun h => absurd h hin, ?_⟩
  · rw [hiff hlater huntil, Int.sub_add_cancel, hclock]
    exact ⟨le_rfl, hwindow⟩
  · rintro x ⟨hx, hxin⟩
    by_cases hsoon : x ≤ t + day
    · obtain ⟨hopened, hclosed⟩ := (hiff hx hsoon).mp hxin
      have hread := hleast (x + shanghaiOffset t) (by omega) hopened hclosed
      omega
    · omega
  · refine (coerceMarketDispatch_eq hnow hwindow rfl).trans (if_pos ?_)
    exact ⟨hclock.ge, hclock.trans_lt hwindow⟩

/-- At 10:00 on 1970-01-01 the window from 8:30 to 9:30 has closed. -/
theorem market_dispatch_least_closed : ∃ status reason target,
    coerceMarketDispatch ⟨36000 * second, some (.other (8 * hour)), false⟩
      ⟨30600 * second, by decide⟩ ⟨34200 * second, by decide⟩ none = .ok (status, reason, target) :=
  (market_dispatch_least (t := 7200 * second) (by decide) (by decide) rfl
    (by unfold Steady; decide) (by decide) (by decide)).imp
      (fun _ ⟨reason, target, hok, _⟩ => ⟨reason, target, hok⟩)

end

/-! ## A start that was skipped -/

/-- On 1986-05-04 the Shanghai clock went from 2:00 to 3:00.  At 1:30 a message for the window
from 2:30 to 2:45 is put off to 2:30, which is the instant of 3:30. -/
theorem market_window_skipped :
    coerceMarketDispatch ⟨515525400 * second, some (.other 0), false⟩ ⟨9000 * second, by decide⟩
      ⟨9900 * second, by decide⟩ none = .ok (.scheduled, some "market_window",
        some ⟨515557800 * second, some .shanghai, false⟩) ∧
    Datetime.instant ⟨515557800 * second, some .shanghai, false⟩ = some (515529000 * second) ∧
    ¬ InWindow ⟨9000 * second, by decide⟩ ⟨9900 * second, by decide⟩ (515529000 * second) :=
  ⟨rfl, rfl, fun h => absurd h.2 (by decide)⟩

end SmsPlatform.Scheduling
