import SmsPlatform.Outbox.Budget

/-!
# Lease fencing

A lease id is generated once and handed to one party.  Because every
statement of a lease holder names the lease id it was given, a party whose
lease has been replaced can no longer change the event.

The invariant `Fenced` says that lease ids in the table, in the hands of the
executors and in the settlement history all stem from the generator and do not
repeat.  Each way of touching the lease columns is covered by one lemma about
the ids an update may issue.
-/

namespace SmsPlatform.Outbox

open Support Table List Update World

/-! ## Lease ids in the table -/

/-- The lease ids in the table are old and pairwise distinct. -/
structure LeasesOk (t : EventTable) (next : LeaseId) : Prop where
  bounded : ∀ r ∈ t, ∀ l, r.leaseId = some l → l < next
  distinct : ∀ r ∈ t, ∀ r' ∈ t, ∀ l, r.leaseId = some l → r'.leaseId = some l → r = r'

/-- An update that writes only lease ids from `[lo, hi)`, each to one row. -/
structure Issues (u : EventUpdate) (lo hi : LeaseId) : Prop where
  le : lo ≤ hi
  fresh : ∀ r l, (u.row r).leaseId = some l → r.leaseId = some l ∨ (lo ≤ l ∧ l < hi)
  single : ∀ r r' l, (u.row r).leaseId = some l → (u.row r').leaseId = some l →
    r.leaseId ≠ some l → r'.leaseId ≠ some l → r.id = r'.id

variable {a : Action} {t : EventTable} {u : EventUpdate} {r r' : OutboxEvent} {w w' : World} {x : ℕ}
  {n : LeaseId}

/-- An update that only keeps or clears lease ids issues none. -/
theorem issues_of_keeps
    (h : ∀ r l, u.applies r = true → (u.change r).leaseId = some l → r.leaseId = some l) :
    Issues u n n := by
  have hrow : ∀ r l, (u.row r).leaseId = some l → r.leaseId = some l := by
    intro r l
    refine row_cases (P := fun s : OutboxEvent => s.leaseId = some l → r.leaseId = some l) id ?_
    exact h r l
  refine ⟨le_rfl, ?_, ?_⟩
  · intro r l hl
    exact .inl (hrow r l hl)
  · intro r r' l hl _ hne
    exact absurd (hrow r l hl) hne

variable {lo hi : LeaseId}

theorem LeasesOk.apply (h : LeasesOk t lo) (hu : Issues u lo hi) : LeasesOk (t.apply u) hi := by
  constructor
  · intro r' hr' l hl
    obtain ⟨r, hr, rfl⟩ := mem_apply_iff.mp hr'
    rcases hu.fresh r l hl with hold | ⟨-, hlt⟩
    · exact (h.bounded r hr l hold).trans_le hu.le
    · exact hlt
  · intro r' hr' s' hs' l hrl hsl
    obtain ⟨r, hr, rfl⟩ := mem_apply_iff.mp hr'
    obtain ⟨s, hs, rfl⟩ := mem_apply_iff.mp hs'
    -- An id below `lo` was in the table already, one from `lo` on is new.
    have hnew : ∀ q ∈ t, lo ≤ l → q.leaseId ≠ some l := by
      intro q hq hle hql
      exact absurd (h.bounded q hq l hql) (not_lt.mpr hle)
    rcases hu.fresh r l hrl with hro | ⟨hle, -⟩
    · rcases hu.fresh s l hsl with hso | ⟨hle, -⟩
      · rw [h.distinct r hr s hs l hro hso]
      · exact absurd hro (hnew r hr hle)
    · have hid := hu.single r s l hrl hsl (hnew r hr hle) (hnew s hs hle)
      rw [eq_of_key_eq hr hs hid]

/-- A lease id that an update leaves in the table and that is older than the
generator was in the table before. -/
theorem Issues.old_lease (hu : Issues u lo hi) (hr' : r' ∈ t.apply u)
    {l : LeaseId} (hl : r'.leaseId = some l) (hold : l < lo) : ∃ r ∈ t, r.leaseId = some l := by
  obtain ⟨r, hr, rfl⟩ := mem_apply_iff.mp hr'
  rcases hu.fresh r l hl with hrl | ⟨hle, -⟩
  · exact ⟨r, hr, hrl⟩
  · exact absurd hold (not_lt.mpr hle)

theorem LeasesOk.insertNew (h : LeasesOk t n) (hfresh : ∀ x ∈ t.rows, x.id ≠ r.id)
    (hr : r.leaseId = none) : LeasesOk (t.insertNew r hfresh) n := by
  have hmem : ∀ s ∈ t.insertNew r hfresh, ∀ l, s.leaseId = some l → s ∈ t := by
    intro s hs l hl
    rcases (mem_insertNew_iff hfresh).mp hs with hmem | rfl
    · exact hmem
    · rw [hr] at hl
      cases hl
  constructor
  · intro s hs l hl
    exact h.bounded s (hmem s hs l hl) l hl
  · intro s hs s' hs' l hl hl'
    exact h.distinct s (hmem s hs l hl) s' (hmem s' hs' l hl') l hl hl'

/-! ## The updates of the repository -/

theorem settleUpdate_leaseId (id : EventId) (lease : LeaseId) (now : Time)
    (how : Settlement) (r : OutboxEvent) :
    ((settleUpdate id lease now how).change r).leaseId = none := by
  cases how <;> rfl

/-- An update that writes a lease id of its own to every row. -/
theorem issues_of_writes (hle : lo ≤ hi)
    (hfresh : ∀ r l, u.applies r = true → (u.change r).leaseId = some l → lo ≤ l ∧ l < hi)
    (hsingle : ∀ r r' l, u.applies r = true → u.applies r' = true →
      (u.change r).leaseId = some l → (u.change r').leaseId = some l → r.id = r'.id) :
    Issues u lo hi := by
  have hrow : ∀ r l, (u.row r).leaseId = some l →
      r.leaseId = some l ∨ u.applies r = true ∧ (u.change r).leaseId = some l := by
    intro r l
    exact row_cases (P := fun s : OutboxEvent => s.leaseId = some l → _) .inl
      (fun happ hl => .inr ⟨happ, hl⟩)
  refine ⟨hle, ?_, ?_⟩
  · intro r l hl
    exact (hrow r l hl).imp_right (fun hnew => hfresh r l hnew.1 hnew.2)
  · intro r r' l hl hl' hne hne'
    obtain ⟨happ, hnew⟩ := (hrow r l hl).resolve_left hne
    obtain ⟨happ', hnew'⟩ := (hrow r' l hl').resolve_left hne'
    exact hsingle r r' l happ happ' hnew hnew'

theorem issues_claimUpdate (id : EventId) (n : LeaseId) (leaseSeconds now : Time) :
    Issues (claimUpdate id n leaseSeconds now) n (n + 1) := by
  refine issues_of_writes (Nat.le_succ n) ?_ ?_
  · rintro r _ - ⟨⟩
    exact ⟨le_rfl, Nat.lt_succ_self n⟩
  · intro r r' l happ happ' _ _
    simp only [claimUpdate, decide_eq_true_eq] at happ happ'
    rw [happ.1, happ'.1]

/-- `lease_due` issues one id for each selected row. -/
theorem issues_grantLeases (ids : List EventId) (n : LeaseId) (leaseSeconds now : Time) :
    Issues (grantLeases ids n leaseSeconds now) n (n + ids.length) := by
  refine issues_of_writes (Nat.le_add_right _ _) ?_ ?_
  · rintro r _ happ ⟨⟩
    have hlt := idxOf_lt_length_iff.mpr (contains_iff_mem.mp happ)
    exact ⟨Nat.le_add_right _ _, Nat.add_lt_add_left hlt n⟩
  · rintro r r' _ happ - ⟨⟩ hl'
    exact ((idxOf_inj (contains_iff_mem.mp happ)).mp
      (Nat.add_left_cancel (Option.some.inj hl').symm))

/-! ## The fencing invariant -/

structure Fenced (w : World) : Prop where
  leases : LeasesOk w.table w.nextLease
  claims_bounded : ∀ x c, (w.executor x).claim = some c → c.leaseId < w.nextLease
  claims_distinct : ∀ x y c c', (w.executor x).claim = some c →
    (w.executor y).claim = some c' → c.leaseId = c'.leaseId → x = y
  settled_bounded : ∀ s ∈ w.settlements, s.leaseId < w.nextLease
  settled_gone : ∀ s ∈ w.settlements, ∀ r ∈ w.table, r.leaseId ≠ some s.leaseId
  settled_once : (w.settlements.map SettlementRecord.leaseId).Nodup

theorem Fenced.start : Fenced World.start where
  leases := ⟨fun r hr => absurd hr (not_mem_empty r),
    fun r hr => absurd hr (not_mem_empty r)⟩
  claims_bounded x c h := by cases h
  claims_distinct x y c c' h := by cases h
  settled_bounded s hs := by cases hs
  settled_gone s hs := by cases hs
  settled_once := nodup_nil

/-- Executors only keep or drop their claims. -/
abbrev World.DropsClaims (w w' : World) : Prop :=
  ∀ x c, (w'.executor x).claim = some c → (w.executor x).claim = some c

/-- The common part of all steps without a settlement and without a new claim. -/
theorem Fenced.of_quiet (h : Fenced w) (hnext : w.nextLease ≤ w'.nextLease)
    (hleases : LeasesOk w'.table w'.nextLease)
    (hold : ∀ r' ∈ w'.table, ∀ l, r'.leaseId = some l → l < w.nextLease →
      ∃ r ∈ w.table, r.leaseId = some l)
    (hclaims : w.DropsClaims w')
    (hsettled : w'.settlements = w.settlements) : Fenced w' where
  leases := hleases
  claims_bounded x c hc := (h.claims_bounded x c (hclaims x c hc)).trans_le hnext
  claims_distinct x y c c' hc hc' := h.claims_distinct x y c c' (hclaims x c hc) (hclaims y c' hc')
  settled_bounded s hs := by
    rw [hsettled] at hs
    exact (h.settled_bounded s hs).trans_le hnext
  settled_gone s hs r' hr' hlease := by
    rw [hsettled] at hs
    obtain ⟨r, hr, hl⟩ := hold r' hr' _ hlease (h.settled_bounded s hs)
    exact h.settled_gone s hs r hr hl
  settled_once := by
    rw [hsettled]
    exact h.settled_once

theorem Fenced.of_update (h : Fenced w) (hu : Issues u w.nextLease w'.nextLease)
    (htable : w'.table = w.table.apply u)
    (hclaims : w.DropsClaims w')
    (hsettled : w'.settlements = w.settlements) : Fenced w' := by
  refine h.of_quiet hu.le ?_ ?_ hclaims hsettled
  · rw [htable]
    exact h.leases.apply hu
  · intro r' hr' l hl hlt
    rw [htable] at hr'
    exact hu.old_lease hr' hl hlt

theorem Fenced.of_keeps (h : Fenced w)
    (hu : ∀ r l, u.applies r = true → (u.change r).leaseId = some l → r.leaseId = some l)
    (htable : w'.table = w.table.apply u) (hnext : w'.nextLease = w.nextLease)
    (hclaims : w.DropsClaims w')
    (hsettled : w'.settlements = w.settlements) : Fenced w' :=
  h.of_update (hnext ▸ issues_of_keeps hu) htable hclaims hsettled

variable {record : SettlementRecord}

/-- Giving a lease back: the row loses its id, which enters the history. -/
theorem Fenced.of_settlement (h : Fenced w)
    (hclear : ∀ r, u.applies r = true → (u.change r).leaseId = none)
    (htable : w'.table = w.table.apply u) (hnext : w'.nextLease = w.nextLease)
    (hclaims : w.DropsClaims w')
    (hsettled : w'.settlements = record :: w.settlements)
    (hrow : ∃ r ∈ w.table, u.applies r = true ∧ r.leaseId = some record.leaseId) : Fenced w' := by
  obtain ⟨r, hr, happ, hlease⟩ := hrow
  have hkeeps : ∀ s l, u.applies s = true → (u.change s).leaseId = some l → s.leaseId = some l := by
    intro s l hs hl
    rw [hclear s hs] at hl
    cases hl
  have hv : Fenced { w' with settlements := w.settlements } :=
    h.of_keeps hkeeps htable hnext hclaims rfl
  refine ⟨hv.leases, hv.claims_bounded, hv.claims_distinct, ?_, ?_, ?_⟩
  · rw [hsettled, hnext]
    exact forall_mem_cons.mpr ⟨h.leases.bounded r hr _ hlease, h.settled_bounded⟩
  · rw [hsettled]
    refine forall_mem_cons.mpr ⟨fun q hq hql => ?_, hv.settled_gone⟩
    rw [htable] at hq
    obtain ⟨p, hp, rfl⟩ := mem_apply_iff.mp hq
    have hpl : p.leaseId = some record.leaseId :=
      row_cases (P := fun s : OutboxEvent => s.leaseId = _ → p.leaseId = _) id (hkeeps p _) hql
    -- The row carrying the id is the settled one, and it has been cleared.
    rw [h.leases.distinct p hp r hr _ hpl hlease, row_of_applies happ, hclear r happ] at hql
    cases hql
  · rw [hsettled, map_cons, nodup_cons]
    refine ⟨fun hmem => ?_, h.settled_once⟩
    obtain ⟨s, hs, heq⟩ := mem_map.mp hmem
    exact h.settled_gone s hs r hr (heq ▸ hlease)

/-- Replacing one executor's program counter by one with the same claim or
none. -/
theorem claims_of_setExecutor {pc : ExecutorPc}
    (hpc : ∀ c, pc.claim = some c → (w.executor x).claim = some c) :
    w.DropsClaims (w.setExecutor x pc) := by
  intro y c hc
  by_cases hy : y = x
  · subst hy
    exact hpc c (by simpa [World.setExecutor] using hc)
  · simpa [World.setExecutor, Function.update_of_ne hy] using hc

/-- A successful claim hands a new lease id to one executor. -/
theorem Fenced.of_claim (h : Fenced w) {eventId : EventId} {leaseSeconds now : Time}
    {pc : ExecutorPc} {c : OutboxClaim} (hpc : pc.claim = some c)
    (hlease : c.leaseId = w.nextLease) : Fenced ({ w with
      table := w.table.apply (claimUpdate eventId w.nextLease leaseSeconds now)
      nextLease := w.nextLease + 1 }.setExecutor x pc) := by
  have hu := issues_claimUpdate eventId w.nextLease leaseSeconds now
  have hexec : ∀ y d, ((w.setExecutor x pc).executor y).claim = some d →
      (y = x ∧ d = c) ∨ (y ≠ x ∧ (w.executor y).claim = some d) := by
    intro y d hd
    by_cases hy : y = x
    · subst hy
      have hcd : some c = some d := by
        simpa [World.setExecutor, hpc] using hd
      exact .inl ⟨rfl, (Option.some.inj hcd).symm⟩
    · exact .inr ⟨hy, by simpa [World.setExecutor, Function.update_of_ne hy] using hd⟩
  refine ⟨h.leases.apply hu, ?_, ?_, ?_, ?_, h.settled_once⟩
  · intro y d hd
    rcases hexec y d hd with ⟨-, rfl⟩ | ⟨-, hold⟩
    · rw [hlease]
      exact Nat.lt_succ_self _
    · exact Nat.lt_succ_of_lt (h.claims_bounded y d hold)
  · intro y z d d' hd hd' heq
    rcases hexec y d hd with ⟨rfl, rfl⟩ | ⟨-, hold⟩
    · rcases hexec z d' hd' with ⟨rfl, -⟩ | ⟨-, hold'⟩
      · rfl
      · have hlt := h.claims_bounded z d' hold'
        rw [← heq, hlease] at hlt
        exact absurd hlt (lt_irrefl _)
    · rcases hexec z d' hd' with ⟨rfl, rfl⟩ | ⟨-, hold'⟩
      · have hlt := h.claims_bounded y d hold
        rw [heq, hlease] at hlt
        exact absurd hlt (lt_irrefl _)
      · exact h.claims_distinct y z d d' hold hold' heq
  · intro s hs
    exact Nat.lt_succ_of_lt (h.settled_bounded s hs)
  · intro s hs r' hr' hl
    obtain ⟨r, hr, hrl⟩ := hu.old_lease hr' hl (h.settled_bounded s hs)
    exact h.settled_gone s hs r hr hrl

theorem Fenced.of_insert (h : Fenced w) {id : EventId} {spec : OutboxEventSpec} {now delay : Time}
    (hfresh : ∀ x ∈ w.table.rows, x.id ≠ id) :
    Fenced { w with table := w.table.insertNew (newEvent id spec now delay) hfresh } := by
  refine h.of_quiet le_rfl (h.leases.insertNew hfresh rfl) ?_ (fun _ _ hc => hc) rfl
  intro r' hr' l hl _
  rcases (mem_insertNew_iff hfresh).mp hr' with hmem | rfl
  · exact ⟨r', hmem, hl⟩
  · cases hl

theorem Step.fenced (hstep : Step w a w') (h : Fenced w) : Fenced w' := by
  cases hstep with
  | enqueued hmax hfresh => exact h.of_insert hfresh
  | alreadyEnqueued => exact h
  | reregistered hmax hfresh =>
    exact (h.of_insert hfresh).of_keeps (by rintro _ _ _ ⟨⟩) rfl rfl (fun _ _ => id) rfl
  | reopened | retried | buried =>
    exact h.of_keeps (by rintro _ _ _ ⟨⟩) rfl rfl (fun _ _ => id) rfl
  | adopted | confirmed => exact h.of_keeps (fun _ _ _ => id) rfl rfl (fun _ _ => id) rfl
  | granted pc =>
    exact h.of_update (issues_grantLeases _ _ _ _) rfl (fun _ _ => id) rfl
  | dispatcherMoved pc =>
    exact h.of_quiet le_rfl h.leases (fun r hr l hl _ => ⟨r, hr, hl⟩)
      (fun _ _ => id) rfl
  | refused lease errorType hpc hrow =>
    obtain ⟨r, hr, happ⟩ := hrow
    exact h.of_settlement (fun _ _ => rfl) rfl rfl (fun _ _ => id) rfl
      ⟨r, hr, happ, (heldBy_of_publishFailedUpdate happ).2.2⟩
  | claimed pc c hpc hlease => exact h.of_claim hpc hlease
  | nothingClaimed =>
    refine h.of_quiet (Nat.le_succ _) ?_ (fun r hr l hl _ => ⟨r, hr, hl⟩)
      (claims_of_setExecutor (by rintro c ⟨⟩)) rfl
    exact ⟨fun r hr l hl => Nat.lt_succ_of_lt (h.leases.bounded r hr l hl),
      h.leases.distinct⟩
  | beaten pc c hold hpc =>
    refine h.of_keeps (fun _ _ _ => id) rfl rfl (claims_of_setExecutor ?_) rfl
    intro d hd
    rw [← hpc.symm.trans hd]
    exact hold
  | executorMoved pc hpc =>
    exact h.of_quiet le_rfl h.leases (fun r hr l hl _ => ⟨r, hr, hl⟩)
      (claims_of_setExecutor hpc) rfl
  | settled c how hpc hrow =>
    obtain ⟨r, hr, happ⟩ := hrow
    exact h.of_settlement (fun r _ => settleUpdate_leaseId _ _ _ _ r) rfl rfl
      (claims_of_setExecutor (by rintro d ⟨⟩)) rfl
      ⟨r, hr, happ, (heldBy_of_settleUpdate happ).2.2⟩

theorem reachable_fenced (h : outbox.Reachable w) : Fenced w := by
  refine h.invariant ?_ ?_
  · rintro w rfl
    exact .start
  · intro w a w' hw hnext
    exact (next_step hnext).fenced hw

/-! ## Consequences -/

/-- Executor `x` holds the current execution lease of the event `r`. -/
def HoldsExecution (w : World) (x : ℕ) (r : OutboxEvent) : Prop :=
  r.state = .processing ∧ ∃ c, (w.executor x).claim = some c ∧
    r.id = c.eventId ∧ r.leaseId = some c.leaseId

/-- The party named in a settlement record held the lease it gave back. -/
def HeldByActor (w : World) (r : OutboxEvent) : SettledBy → Prop
  | .executor x how => HoldsExecution w x r ∧
      ∃ c, w.executor x = .settling c how
  | .dispatcher d => r.state = .leased ∧ ∃ lease errorType,
      w.dispatcher d = .refusing lease errorType ∧ r.leaseId = some lease.leaseId

theorem Fenced.holder_unique (h : Fenced w) {y : ℕ} (hx : HoldsExecution w x r)
    (hy : HoldsExecution w y r) : x = y := by
  obtain ⟨-, c, hc, -, hl⟩ := hx
  obtain ⟨-, c', hc', -, hl'⟩ := hy
  exact h.claims_distinct x y c c' hc hc' (Option.some.inj (hl.symm.trans hl'))

/-- An event leaves the hands of its executor through that executor's own
settlement or because the lease ran out. -/
theorem RowStep.leaves_processing (hstep : RowStep w a w' r r') (hok : EventOk r)
    (hprocessing : r.state = .processing)
    (hleft : r'.state ≠ .processing ∨ r'.leaseId ≠ r.leaseId) :
    (∃ x now, a = .settleClaim x true now ∧ HoldsExecution w x r) ∨ LeaseRanOut a r := by
  have hpending : r.state ≠ .pending := by rw [hprocessing]; decide
  cases hstep with
  | same => simp [hprocessing] at hleft
  | reopened ha happ => simp [reopenSettled, hprocessing] at happ
  | adopted happ => simp [closePendingBind, hprocessing] at happ
  | retried ha happ => simp [retryDeadUpdate, hprocessing] at happ
  | buried ha happ =>
    rw [ha]
    exact .inr (leaseRanOut_of_buried hok happ hpending)
  | granted ha hdue =>
    rw [ha]
    exact .inr (leaseRanOut_of_granted hdue hpending)
  | published happ =>
    simp [publishUpdate, heldBy, hprocessing] at happ
  | refused hpc happ hrec =>
    have hleased := (heldBy_of_publishFailedUpdate happ).2.1
    rw [hprocessing] at hleased
    cases hleased
  | claimed happ => simp [claimUpdate, hprocessing] at happ
  | beaten hpc happ =>
    simp [heartbeatUpdate, hprocessing] at hleft
  | @settled x now c how ha hpc happ hrec =>
    obtain ⟨hid, hstate, hlease⟩ := heldBy_of_settleUpdate happ
    have hclaim : (w.executor x).claim = some c := by rw [hpc]; rfl
    exact .inl ⟨x, now, ha, hstate, c, hclaim, hid, hlease⟩

/-- Every new entry of the settlement history was made by the party that held
the lease. -/
theorem Step.settlement_by_holder (hstep : Step w a w')
    (hrec : w'.settlements = record :: w.settlements) :
    ∃ r ∈ w.table, r.id = record.eventId ∧ r.leaseId = some record.leaseId ∧
    HeldByActor w r record.actor := by
  have hsame : w.settlements ≠ record :: w.settlements := by
    intro heq
    have hlen := congrArg List.length heq
    simp at hlen
  cases hstep with
  | @refused d now lease errorType hpc hrow =>
    obtain ⟨r, hr, happ⟩ := hrow
    obtain ⟨hid, hstate, hlease⟩ := heldBy_of_publishFailedUpdate happ
    obtain rfl := (List.cons.inj hrec).1
    exact ⟨r, hr, hid, hlease, hstate, lease, errorType, hpc, hlease⟩
  | @settled x now c how hpc hrow =>
    obtain ⟨r, hr, happ⟩ := hrow
    obtain ⟨hid, hstate, hlease⟩ := heldBy_of_settleUpdate happ
    obtain rfl := (List.cons.inj hrec).1
    have hclaim : (w.executor x).claim = some c := by rw [hpc]; rfl
    exact ⟨r, hr, hid, hlease, ⟨hstate, c, hclaim, hid, hlease⟩, c, hpc⟩
  | _ => exact absurd hrec hsame

/-- A completed event is left alone by everything but its re-registration. -/
theorem RowStep.completed_stable (hstep : RowStep w a w' r r') (hcompleted : r.state = .completed) :
    r' = r ∨ ∃ id spec now, a = .reregister id spec now ∧
    spec.dedupKey = r.spec.dedupKey ∧ spec.eventType = r.spec.eventType := by
  have hnotHeld : ∀ {eventId state leaseId},
      heldBy eventId state leaseId r = true → state = .completed := by
    intro eventId state leaseId h
    exact (heldBy_iff.mp h).2.1.symm.trans hcompleted
  cases hstep with
  | same => exact .inl rfl
  | @reopened id spec now ha happ =>
    simp only [reopenSettled, decide_eq_true_eq] at happ
    exact .inr ⟨id, spec, now, ha, happ.1.symm, happ.2.1.symm⟩
  | adopted happ => simp [closePendingBind, hcompleted] at happ
  | retried ha happ => simp [retryDeadUpdate, hcompleted] at happ
  | buried ha happ =>
    simp [buryExhausted, hcompleted, EventState.holdsLease] at happ
  | granted ha hdue => simp [isDue, hcompleted, EventState.holdsLease] at hdue
  | published happ =>
    simp only [publishUpdate, Bool.and_eq_true] at happ
    cases hnotHeld happ.1
  | refused hpc happ hrec =>
    simp only [publishFailedUpdate, Bool.and_eq_true] at happ
    cases hnotHeld happ.1
  | claimed happ => simp [claimUpdate, hcompleted] at happ
  | beaten hpc happ => cases hnotHeld happ
  | settled ha hpc happ hrec =>
    have hstate := (heldBy_of_settleUpdate happ).2.1
    rw [hcompleted] at hstate
    cases hstate

/-- Lease fencing of the outbox.  In every reachable state an event has at
most one holder of its execution lease; it leaves that lease only through the
holder's own settlement or because the lease ran out; every settlement is made
by the holder of the lease it gives back; no lease is settled twice; and a
completed event changes only by re-registration. -/
theorem lease_fencing {w : World} (h : outbox.Reachable w) : (∀ r ∈ w.table, ∀ x y,
      HoldsExecution w x r → HoldsExecution w y r → x = y) ∧
    (∀ a w', outbox.next w a = some w' → ∀ r ∈ w.table, ∀ r' ∈ w'.table,
      r'.id = r.id → r.state = .processing → (r'.state ≠ .processing ∨ r'.leaseId ≠ r.leaseId) →
      (∃ x now, a = .settleClaim x true now ∧ HoldsExecution w x r) ∨ LeaseRanOut a r) ∧
    (∀ a w', outbox.next w a = some w' → ∀ record, w'.settlements = record :: w.settlements →
      ∃ r ∈ w.table, r.id = record.eventId ∧ r.leaseId = some record.leaseId ∧
        HeldByActor w r record.actor) ∧ ((w.settlements.map SettlementRecord.leaseId).Nodup ∧
      ∀ s ∈ w.settlements, s.leaseId < w.nextLease) ∧
    (∀ a w', outbox.next w a = some w' → ∀ r ∈ w.table, r.state = .completed →
      r ∈ w'.table ∨ ∃ id spec now, a = .reregister id spec now ∧
        spec.dedupKey = r.spec.dedupKey ∧ spec.eventType = r.spec.eventType) := by
  have hfenced := reachable_fenced h
  have hok := reachable_eventsOk h
  refine ⟨?_, ?_, ?_, ⟨hfenced.settled_once, hfenced.settled_bounded⟩, ?_⟩
  · intro r _ x y hx hy
    exact hfenced.holder_unique hx hy
  · intro a w' hnext r hr r' hr' hid hprocessing hleft
    have hrow := (next_step hnext).rowStep hr hr' hid
    exact hrow.leaves_processing (hok r hr) hprocessing hleft
  · intro a w' hnext record hrec
    exact (next_step hnext).settlement_by_holder hrec
  · intro a w' hnext r hr hcompleted
    have hstep := next_step hnext
    obtain ⟨r', hr', hid⟩ := hstep.exists_row hr
    rcases (hstep.rowStep hr hr' hid).completed_stable hcompleted with rfl | hre
    · exact .inl hr'
    · exact .inr hre

/-- A slow executor whose lease ran out while a second one took over. -/
def overtakenRun : List Action :=
  [.enqueue 0 chunkReadySpec 0 0, .bury 0 60 0, .grant 0 [] 60 0,
    .publisherReturns 0 none, .claim 0 0 "chunk.ready" 300 1, .confirm 0 true 2,
    .bury 1 60 400, .grant 1 [] 60 400, .claim 1 0 "chunk.ready" 300 401,
    .effectEnds 0 .returned, .settleClaim 0 true 402]

/-- The late settlement of the overtaken executor is refused: the event is
still processing under the second lease and the history is empty. -/
theorem lease_fencing_overtakenRun : ∃ w, outbox.run World.start overtakenRun = some w ∧
      w.table.rows.map (fun r => (r.state, r.leaseId)) = [(.processing, some 3)] ∧
      w.settlements = [] ∧
      ∀ r ∈ w.table, ∀ x y, HoldsExecution w x r → HoldsExecution w y r → x = y := by
  have hrun : (outbox.run .start overtakenRun).map
      (fun w => (w.table.rows.map (fun r => (r.state, r.leaseId)), w.settlements)) =
      some ([(.processing, some 3)], []) := by
    decide
  obtain ⟨w, hw, hstate⟩ := Option.map_eq_some_iff.mp hrun
  have hreach : outbox.Reachable w := .run (.init rfl) hw
  exact ⟨w, hw, congrArg Prod.fst hstate, congrArg Prod.snd hstate, (lease_fencing hreach).1⟩

end SmsPlatform.Outbox
