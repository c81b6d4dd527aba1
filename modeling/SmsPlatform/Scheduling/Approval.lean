import SmsPlatform.Schema.Status
import SmsPlatform.Support.Machine
import SmsPlatform.Usage.Schema

/-!
# Approval and schedule of a batch

A batch and its approval are changed by five operations.  Each of them locks the row of the batch
before it decides, so that it is one step on the two rows; a pass over several batches is a
sequence of such steps.  The answer of the market window is part of the label: the next opening,
or none within the window.
-/

namespace SmsPlatform.Scheduling

open Support Schema Option
open Usage (Category)

/-! ## Rows -/

inductive ApprovalStatus
  | pending
  | approved
  | rejected
  | expired
  deriving DecidableEq

/-- A row of `approval`. -/
structure Approval where
  applicantAccountId : Option ℕ
  status : ApprovalStatus
  approverAccountId : Option ℕ
  expiresAt : ℕ
  generation : ℕ
  deriving DecidableEq

inductive ReleaseEvent
  | cancelled
  | rejected
  | expired
  deriving DecidableEq

/-- A row of `sms_batch` with the approval that refers to it, of which there is at most one, and
as history the generations that have been approved and the releases of usage. -/
structure Case where
  isWeb : Bool
  category : Category
  status : BatchStatus
  scheduledAt : Option ℕ
  approval : Option Approval
  approvedGenerations : List ℕ
  releases : List ReleaseEvent
  deriving DecidableEq

/-- What a batch is accepted with: the answer of `_schedule` and, if it requires an approval, the
applicant and the hours until the approval expires. -/
structure BatchCommand where
  isWeb : Bool
  category : Category
  scheduledAt : Option ℕ
  approval : Option (ℕ × ℕ)

/-- The rows that the acceptance inserts; `requires_approval` holds for the web channel only. -/
def BatchCommand.newCase (command : BatchCommand) (now : ℕ) : Option Case :=
  if command.approval.isSome ∧ command.isWeb = false then none
  else some
    { isWeb := command.isWeb
      category := command.category
      status := if command.approval.isSome then .pendingApproval
        else if command.scheduledAt.isSome then .scheduled else .queued
      scheduledAt := command.scheduledAt
      approval := command.approval.map fun (applicant, expireHours) =>
        ⟨some applicant, .pending, none, now + 3600 * expireHours, 1⟩
      approvedGenerations := []
      releases := [] }

/-! ## Operations -/

inductive Operation
  | transition (approves : Bool) (accountId expectedGeneration clock : ℕ) (opening : Option ℕ)
  | expire (now : ℕ)
  | claimDue (now : ℕ) (opening : Option ℕ)
  | cancel
  | reschedule (scheduledAt : ℕ) (opening : Option ℕ) (now expireHours maxScheduleAheadDays : ℕ)

namespace Case

variable (c : Case)

/-- `coerce_market_dispatch` defers what is ready outside of the market window. -/
def dispatch (opening : Option ℕ) : Case :=
  match c.category, opening with
  | .market, some opening => { c with status := .scheduled, scheduledAt := some opening }
  | _, _ => { c with status := .queued }

/-- The rows after an approval. -/
def approve (a : Approval) (accountId : ℕ) (opening : Option ℕ) : Case :=
  let approved := { c with
    approval := some { a with status := .approved, approverAccountId := some accountId }
    approvedGenerations := a.generation :: c.approvedGenerations }
  if c.scheduledAt.isSome then { approved with status := .scheduled } else approved.dispatch opening

/-- The rows after a rejection. -/
def reject (a : Approval) (accountId : ℕ) : Case :=
  { c with
    approval := some { a with status := .rejected, approverAccountId := some accountId }
    status := .rejected
    releases := .rejected :: c.releases }

/-- `transition`. -/
def transition (approves : Bool) (accountId expectedGeneration clock : ℕ) (opening : Option ℕ) :
    Option Case :=
  match c.approval with
  | none => none
  | some a =>
    if a.status = .pending ∧ a.generation = expectedGeneration ∧ clock < a.expiresAt ∧
        a.applicantAccountId.any (fun applicant => decide (applicant ≠ accountId)) = true ∧
        c.status = .pendingApproval then
      some (if approves then c.approve a accountId opening else c.reject a accountId)
    else none

/-- An item of `expire_due`, which does not look at the status of the batch. -/
def expire (now : ℕ) : Option Case :=
  match c.approval with
  | none => none
  | some a =>
    if a.status = .pending ∧ a.expiresAt ≤ now then
      some { c with
        approval := some { a with status := .expired }
        status := .expired
        releases := .expired :: c.releases }
    else none

/-- A row of `claim_due`. -/
def claimDue (now : ℕ) (opening : Option ℕ) : Option Case :=
  if c.status = .scheduled ∧ c.scheduledAt.any (fun due => decide (due ≤ now)) = true then
    some (c.dispatch opening)
  else none

def cancel : Option Case :=
  if c.status = .scheduled then
    some { c with status := .cancelled, releases := .cancelled :: c.releases }
  else none

/-- The time that a batch is scheduled for: the next opening of the market window, if the time is
outside of it. -/
def effective (scheduledAt : ℕ) (opening : Option ℕ) : ℕ :=
  if c.category = .market then opening.getD scheduledAt else scheduledAt

def reschedule (scheduledAt : ℕ) (opening : Option ℕ) (now expireHours maxScheduleAheadDays : ℕ) :
    Option Case :=
  if c.status = .scheduled ∧
      c.effective scheduledAt opening ≤ now + 86400 * maxScheduleAheadDays then
    let moved := { c with scheduledAt := some (c.effective scheduledAt opening) }
    match c.isWeb, c.approval with
    | true, some a =>
      some { moved with
        status := .pendingApproval
        approval := some { a with
          status := .pending
          approverAccountId := none
          generation := a.generation + 1
          expiresAt := now + 3600 * expireHours } }
    | _, _ => some moved
  else none

def next : Operation → Option Case
  | .transition approves accountId expectedGeneration clock opening =>
    c.transition approves accountId expectedGeneration clock opening
  | .expire now => c.expire now
  | .claimDue now opening => c.claimDue now opening
  | .cancel => c.cancel
  | .reschedule scheduledAt opening now expireHours maxScheduleAheadDays =>
    c.reschedule scheduledAt opening now expireHours maxScheduleAheadDays

end Case

/-- All batches by their ids. -/
abbrev World := ℕ → Option Case

inductive Action
  | accept (id : ℕ) (command : BatchCommand) (now : ℕ)
  | operate (id : ℕ) (operation : Operation)

def World.next (w : World) : Action → Option World
  | .accept id command now =>
    if (w id).isNone then
      (command.newCase now).map (fun c => Function.update w id (some c))
    else none
  | .operate id operation =>
    ((w id).bind (fun c => c.next operation)).map (fun c => Function.update w id (some c))

def schedules : Machine World Action where
  init w := w = fun _ => none
  next := World.next

/-! ## Invariant -/

/-- A pending approval belongs to a batch that waits for it, what is dispatched has been approved
in its generation, and a batch whose usage has been released has come to its end. -/
structure Case.Sound (c : Case) : Prop where
  pending : c.status = .pendingApproval ↔ ∃ a, c.approval = some a ∧ a.status = .pending
  current : ∀ a, c.approval = some a → c.status = .scheduled ∨ c.status = .queued →
    a.status = .approved ∧ c.approvedGenerations.head? = some a.generation
  web : c.approval ≠ none → c.isWeb = true
  ended : c.releases ≠ [] → c.releases.length = 1 ∧
    (c.status = .rejected ∨ c.status = .expired ∨ c.status = .cancelled)

section

variable {c c' : Case}

theorem Case.Sound.ready (hstatus : c.status = .scheduled ∨ c.status = .queued)
    (hcurrent : ∀ a, c.approval = some a →
      a.status = .approved ∧ c.approvedGenerations.head? = some a.generation)
    (hweb : c.approval ≠ none → c.isWeb = true) (hreleases : c.releases = []) : c.Sound := by
  refine ⟨⟨fun hpending => ?_, ?_⟩, fun a ha _ => hcurrent a ha, hweb, fun h => absurd hreleases h⟩
  · rcases hstatus with heq | heq <;> simp [heq] at hpending
  · rintro ⟨a, ha, hpending⟩
    simp [(hcurrent a ha).1] at hpending

theorem Case.Sound.finished
    (hstatus : c.status = .rejected ∨ c.status = .expired ∨ c.status = .cancelled)
    (hdecided : ∀ a, c.approval = some a → a.status ≠ .pending)
    (hweb : c.approval ≠ none → c.isWeb = true) (hreleases : c.releases.length = 1) : c.Sound := by
  refine ⟨⟨fun hpending => ?_, ?_⟩, fun a _ hready => ?_, hweb, fun _ => ⟨hreleases, hstatus⟩⟩
  · rcases hstatus with heq | heq | heq <;> simp [heq] at hpending
  · rintro ⟨a, ha, hpending⟩
    exact absurd hpending (hdecided a ha)
  · rcases hstatus with heq | heq | heq <;> simp [heq] at hready

theorem Case.Sound.releases_eq_nil (h : c.Sound)
    (hstatus : c.status = .pendingApproval ∨ c.status = .scheduled) : c.releases = [] := by
  by_contra hne
  rcases hstatus with hstatus | hstatus <;> simpa [hstatus] using (h.ended hne).2

theorem sound_newCase {command : BatchCommand} {now : ℕ} (h : command.newCase now = some c) :
    c.Sound := by
  obtain ⟨hweb, ⟨⟩⟩ := ite_none_left_eq_some.mp h
  cases happroval : command.approval with
  | none =>
    refine .ready ?_ (by simp) (by simp) rfl
    cases command.scheduledAt <;> simp
  | some approval =>
    rw [happroval] at hweb
    exact ⟨by simp, by simp, fun _ => by simpa using hweb, by simp⟩

theorem sound_dispatch (hcurrent : ∀ a, c.approval = some a →
      a.status = .approved ∧ c.approvedGenerations.head? = some a.generation)
    (hweb : c.approval ≠ none → c.isWeb = true) (hreleases : c.releases = []) (opening : Option ℕ) :
    (c.dispatch opening).Sound := by
  unfold Case.dispatch
  split
  · exact .ready (.inl rfl) hcurrent hweb hreleases
  · exact .ready (.inr rfl) hcurrent hweb hreleases

/-- A decision has found the approval pending, in the expected generation and before its expiry,
and has not been made by the applicant. -/
theorem Case.transition_eq_some {approves : Bool} {accountId generation clock : ℕ}
    {opening : Option ℕ} (h : c.transition approves accountId generation clock opening = some c') :
    ∃ a applicant, c.approval = some a ∧ c.status = .pendingApproval ∧ a.generation = generation ∧
    clock < a.expiresAt ∧ a.applicantAccountId = some applicant ∧ applicant ≠ accountId ∧
    c' = if approves then c.approve a accountId opening else c.reject a accountId := by
  unfold Case.transition at h
  split at h
  · cases h
  rename_i a ha
  obtain ⟨⟨-, hgeneration, hclock, happlicant, hstatus⟩, heq⟩ := ite_none_right_eq_some.mp h
  obtain ⟨applicant, hsome, hne⟩ := (any_eq_true _ _).mp happlicant
  exact ⟨a, applicant, ha, hstatus, hgeneration, hclock, hsome, of_decide_eq_true hne,
    (Option.some.inj heq).symm⟩

theorem Case.expire_eq_some {now : ℕ} (h : c.expire now = some c') :
    ∃ a, c.approval = some a ∧ a.status = .pending ∧ c' = { c with
      approval := some { a with status := .expired }
      status := .expired
      releases := .expired :: c.releases } := by
  unfold Case.expire at h
  split at h
  · cases h
  rename_i a ha
  obtain ⟨hdue, heq⟩ := ite_none_right_eq_some.mp h
  exact ⟨a, ha, hdue.1, (Option.some.inj heq).symm⟩

theorem Case.Sound.next (h : c.Sound) {operation : Operation} (hnext : c.next operation = some c') :
    c'.Sound := by
  cases operation with
  | transition approves accountId generation clock opening =>
    obtain ⟨a, applicant, ha, hstatus, -, -, -, -, rfl⟩ := Case.transition_eq_some hnext
    have hweb : c.isWeb = true := h.web (by simp [ha])
    have hnil := h.releases_eq_nil (.inl hstatus)
    split
    · unfold Case.approve
      split
      · exact .ready (.inl rfl) (by simp) (fun _ => hweb) hnil
      · apply sound_dispatch <;> simp [hweb, hnil]
    · exact .finished (.inl rfl) (by simp [Case.reject])
        (fun _ => hweb) (by simp [Case.reject, hnil])
  | expire now =>
    obtain ⟨a, ha, hpending, rfl⟩ := Case.expire_eq_some hnext
    have hstatus := h.pending.mpr ⟨a, ha, hpending⟩
    exact .finished (.inr (.inl rfl)) (by simp) (fun _ => h.web (by simp [ha]))
      (by simp [h.releases_eq_nil (.inl hstatus)])
  | claimDue now opening =>
    obtain ⟨hdue, heq⟩ := ite_none_right_eq_some.mp hnext
    rw [← Option.some.inj heq]
    exact sound_dispatch (fun a ha => h.current a ha (.inl hdue.1)) h.web
      (h.releases_eq_nil (.inr hdue.1)) opening
  | cancel =>
    obtain ⟨hstatus, ⟨⟩⟩ := ite_none_right_eq_some.mp hnext
    refine .finished (.inr (.inr rfl)) (fun a ha => ?_) h.web
      (by simp [h.releases_eq_nil (.inr hstatus)])
    simp [(h.current a ha (.inl hstatus)).1]
  | reschedule scheduledAt opening now expireHours maxScheduleAheadDays =>
    obtain ⟨hcond, heq⟩ := ite_none_right_eq_some.mp hnext
    have hnil := h.releases_eq_nil (.inr hcond.1)
    split at heq
    · rename_i a hweb ha
      cases heq
      exact ⟨by simp, by simp, fun _ => hweb, by simp [hnil]⟩
    · cases heq
      exact .ready (.inl hcond.1) (fun a ha => h.current a ha (.inl hcond.1)) h.web hnil

end

theorem sound_of_reachable {w : World} (h : schedules.Reachable w) :
    ∀ id c, w id = some c → c.Sound := by
  refine h.invariant (I := fun w => ∀ id c, w id = some c → c.Sound) ?_ ?_
  · rintro _ rfl id c hc
    cases hc
  · intro w a w' hsound hnext
    have hupdate : ∀ id c, c.Sound →
        ∀ id' c', Function.update w id (some c) id' = some c' → c'.Sound := by
      intro id c hc id' c' hc'
      rw [Function.update_apply] at hc'
      split at hc'
      · exact Option.some.inj hc' ▸ hc
      · exact hsound id' c' hc'
    cases a with
    | accept id command now =>
      obtain ⟨-, heq⟩ := ite_none_right_eq_some.mp hnext
      obtain ⟨c, hc, rfl⟩ := map_eq_some_iff.mp heq
      exact hupdate id c (sound_newCase hc)
    | operate id operation =>
      obtain ⟨c', hc', rfl⟩ := map_eq_some_iff.mp hnext
      obtain ⟨c, hc, hop⟩ := bind_eq_some_iff.mp hc'
      exact hupdate id c' ((hsound id c hc).next hop)

/-- In every reachable state the approval of a batch is pending exactly when the batch waits for
it; the batch goes on only by an approval of its generation that has not expired and is not the
applicant's own; what is ready or scheduled has been approved in its generation; and usage is
released once at most. -/
theorem approval_governs_dispatch {w : World} (h : schedules.Reachable w) {id : ℕ} {c : Case}
    (hc : w id = some c) :
    (c.status = .pendingApproval ↔ ∃ a, c.approval = some a ∧ a.status = .pending) ∧
    (∀ operation c', c.next operation = some c' → c.status = .pendingApproval →
      c'.status = .queued ∨ c'.status = .scheduled →
      ∃ accountId generation clock opening a applicant,
        operation = .transition true accountId generation clock opening ∧
        c.approval = some a ∧ a.generation = generation ∧ clock < a.expiresAt ∧
        a.applicantAccountId = some applicant ∧ applicant ≠ accountId) ∧
    (∀ a, c.approval = some a → c.status = .scheduled ∨ c.status = .queued →
      a.status = .approved ∧ c.approvedGenerations.head? = some a.generation) ∧
    c.releases.length ≤ 1 := by
  have hsound := sound_of_reachable h id c hc
  refine ⟨hsound.pending, fun operation c' hnext hpending hgoes => ?_, hsound.current, ?_⟩
  · cases operation with
    | transition approves accountId generation clock opening =>
      obtain ⟨a, applicant, ha, -, hgeneration, hclock, happlicant, hne, rfl⟩ :=
        Case.transition_eq_some hnext
      cases approves with
      | true => exact ⟨_, _, _, _, a, applicant, rfl, ha, hgeneration, hclock, happlicant, hne⟩
      | false => simp [Case.reject] at hgoes
    | expire now =>
      obtain ⟨a, -, -, rfl⟩ := Case.expire_eq_some hnext
      simp at hgoes
    | claimDue | cancel | reschedule =>
      obtain ⟨hcond, -⟩ := ite_none_right_eq_some.mp hnext
      simp [hpending] at hcond
  · by_cases hnil : c.releases = []
    · simp [hnil]
    · exact (hsound.ended hnil).1.le

/-- A batch of the web is approved, moved to another day, and approved again. -/
def movedRun : List Action :=
  [.accept 1 ⟨true, .notice, some 100, some (7, 24)⟩ 0,
    .operate 1 (.transition true 8 1 10 none), .operate 1 (.reschedule 500 none 20 24 90),
    .operate 1 (.transition true 8 2 30 none), .operate 1 (.claimDue 500 none)]

theorem approval_governs_dispatch_moved : ∃ w c, schedules.run (fun _ => none) movedRun = some w ∧
    w 1 = some c ∧ c.status = .queued ∧ c.approvedGenerations = [2, 1] ∧ c.releases.length ≤ 1 := by
  have hrun : ∃ w c, schedules.run (fun _ => none) movedRun = some w ∧ w 1 = some c ∧
      c.status = .queued ∧ c.approvedGenerations = [2, 1] :=
    ⟨_, _, rfl, rfl, rfl, rfl⟩
  obtain ⟨w, c, hw, hc, hstatus, hgenerations⟩ := hrun
  exact ⟨w, c, hw, hc, hstatus, hgenerations,
    (approval_governs_dispatch (.run (.init rfl) hw) hc).2.2.2⟩

end SmsPlatform.Scheduling
