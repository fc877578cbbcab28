import AgentRuns.Clocks
import AgentRuns.Passes

/-!
# The fires of a tick

`_fire_due` fires one due schedule after another, each in a transaction of its own.  `_fire` catches what the database
raises when it does not take the run; it does not catch what the contracts raise of the run's fields, what croniter
raises of a cadence without another occurrence, or what the database raises when the schedule is written back.  What it does
not catch ends the tick, and the next one claims the same schedule first.

`fireRow` is `Scheduler.fireRow` with what may be raised (`fireRow_fires`).  Nothing is raised exactly while nothing hinders a
turn (`fires_isolated_iff`).
-/

namespace AgentRuns

open Relational Fallible

/-- The contracts and croniter, where they raise: what the exception says. -/
structure Strict where
  /-- `RunStart(...)` -/
  runStart : RunStart → Option String
  /-- `Schedule.model_validate`, of a row -/
  schedule : ScheduleRow → Option String
  /-- `get_next`: no occurrence of the expression in the zone after the instant -/
  exhausted : String → String → Instant → Option String

/-- What one turn of the loop meets: the rows other tickers hold, the id it mints, and what the database raises of its
statements. -/
structure Meeting where
  held : List String
  runId : String
  /-- of the claim -/
  claim : Option String
  /-- of the run's insert -/
  fault : Option AgentError
  /-- of the schedule's update -/
  record : Option String

namespace Strict

/-- Does arming the row raise? -/
def spent (strict : Strict) (row : ScheduleRow) (after : Instant) : Option String :=
  ((bucket row.cadence).getD (some row.cadence)).bind fun expression => strict.exhausted expression row.timezone after

/-- `_flushed`: the row is written, and read back as a `Schedule`. -/
def flushed (strict : Strict) (row : ScheduleRow) (meeting : Meeting) : Except Raised Unit :=
  match meeting.record with
  | some text => .error (.dbapi text)
  | none =>
    if row.fits = false then .error (.dbapi "the database refused a value")
    else
      match strict.schedule row with
      | some text => .error (.other "ValidationError" text)
      | none => .ok ()

end Strict

/-- The schedule a fire was of. -/
def Fired.scheduleId? : Fired → Option String
  | fired result => some result.scheduleId
  | failed scheduleId _ => some scheduleId
  | idle => none

/-- What a loop of fires comes to. -/
structure Fires where
  after : Scheduler
  fires : List Fired
  raised : Option Raised

namespace Scheduler

/-- The failure is recorded on the schedule. -/
def failing (s : Scheduler) (strict : Strict) (row : ScheduleRow) (error : AgentError) (meeting : Meeting) (now : Instant) :
    Except Raised (Scheduler × Fired) := do
  strict.flushed (ScheduleStore.failureRow row error now) meeting
  .ok ({ s with schedules := s.schedules.put (ScheduleStore.failureRow row error now) }, .failed row.scheduleId error)

/-- `_fire`, of a tick that has come. -/
def firing (s : Scheduler) (store : ScheduleStore) (strict : Strict) (row : ScheduleRow) (t : Instant) (meeting : Meeting)
    (now : Instant) : Except Raised (Scheduler × Fired) :=
  match strict.runStart (fireStart store.calendar row ⟨t, 0⟩ meeting.runId) with
  | some text => .error (.other "ValidationError" text)
  | none =>
    match meeting.fault with
    | some error => s.failing strict row error meeting now
    | none =>
      match s.db.start (fireStart store.calendar row ⟨t, 0⟩ meeting.runId) true false now with
      | .error error =>
        if error.code = .INTERNAL then s.failing strict row (refusedError error.detail) meeting now
        else .error (.other "ServiceError" error.detail)
      | .ok (db, run, _) =>
        match strict.spent row (max t now) with
        | some text => .error (.other "CroniterBadDateError" text)
        | none => do
          strict.flushed (store.successRow row t run.runId now) meeting
          .ok (⟨db, s.schedules.put (store.successRow row t run.runId now)⟩, .fired
            { scheduleId := row.scheduleId
              runId := run.runId
              fireTime := t
              idempotencyKey := idempotencyKey store.calendar row.scheduleId t })

/-- `fire_due`. -/
def turn (s : Scheduler) (store : ScheduleStore) (strict : Strict) (meeting : Meeting) (now : Instant) :
    Except Raised (Scheduler × Fired) :=
  match meeting.claim with
  | some text => .error (.dbapi text)
  | none =>
    match ScheduleStore.claimDue s.schedules meeting.held now with
    | none => .ok (s, .idle)
    | some row =>
      match strict.schedule row with
      | some text => .error (.other "ValidationError" text)
      | none =>
        match row.nextFireAt with
        | none => .ok (s, .idle)
        | some t => s.firing store strict row t meeting now

/-- `_fire_due`: a turn for each of `SWEEP_BATCH` meetings, until one finds nothing due. -/
def fires (store : ScheduleStore) (strict : Strict) (now : Instant) : List Meeting → Scheduler → Fires
  | [], s => ⟨s, [], none⟩
  | meeting :: meetings, s =>
    match s.turn store strict meeting now with
    | .error e => ⟨s, [], some e⟩
    | .ok (s', .idle) => ⟨s', [], none⟩
    | .ok (s', fired) =>
      let rest := fires store strict now meetings s'
      ⟨rest.after, fired :: rest.fires, rest.raised⟩

end Scheduler

/-! ## What a turn rests on -/

/-- What the database and the contracts take. -/
def Strict.Takes (strict : Strict) (meeting : Meeting) (row : ScheduleRow) : Prop :=
  meeting.record = none ∧ row.fits = true ∧ strict.schedule row = none

/-- A fire of the row for `t` raises nothing. -/
structure Unhindered (store : ScheduleStore) (strict : Strict) (s : Scheduler) (row : ScheduleRow) (t : Instant)
    (meeting : Meeting) (now : Instant) : Prop where
  /-- its fields make a valid run -/
  valid : strict.runStart (fireStart store.calendar row ⟨t, 0⟩ meeting.runId) = none
  /-- a run that is refused is refused by the database -/
  refused : meeting.fault = none → ∀ e, s.db.start (fireStart store.calendar row ⟨t, 0⟩ meeting.runId) true false now =
    .error e → e.code = .INTERNAL
  /-- its cadence has another occurrence -/
  recurs : meeting.fault = none → ∀ x, s.db.start (fireStart store.calendar row ⟨t, 0⟩ meeting.runId) true false now = .ok x →
    strict.spent row (max t now) = none
  /-- and the schedule can be written back -/
  failed : ∀ error, meeting.fault = some error → strict.Takes meeting (ScheduleStore.failureRow row error now)
  declined : meeting.fault = none → ∀ e, s.db.start (fireStart store.calendar row ⟨t, 0⟩ meeting.runId) true false now =
    .error e → strict.Takes meeting (ScheduleStore.failureRow row (refusedError e.detail) now)
  fired : meeting.fault = none → ∀ x, s.db.start (fireStart store.calendar row ⟨t, 0⟩ meeting.runId) true false now = .ok x →
    strict.Takes meeting (store.successRow row t x.2.1.runId now)

/-- A turn raises nothing. -/
structure Turns (store : ScheduleStore) (strict : Strict) (s : Scheduler) (meeting : Meeting) (now : Instant) : Prop where
  claims : meeting.claim = none
  reads : ∀ row, ScheduleStore.claimDue s.schedules meeting.held now = some row → strict.schedule row = none
  fires : ∀ row t, ScheduleStore.claimDue s.schedules meeting.held now = some row → row.nextFireAt = some t →
    Unhindered store strict s row t meeting now

namespace Scheduler

section
variable {store : ScheduleStore} {strict : Strict} {s s' : Scheduler} {row : ScheduleRow} {t now : Instant} {meeting : Meeting}
  {fired : Fired} {error : AgentError}

theorem flushed_ok : (∃ u, strict.flushed row meeting = .ok u) ↔ strict.Takes meeting row := by
  unfold Strict.flushed Strict.Takes
  cases meeting.record with
  | some text => simp
  | none =>
    by_cases hfits : row.fits = true
    · rw [if_neg (by simp [hfits])]
      cases strict.schedule row <;> simp [hfits]
    · rw [if_pos (by simpa using hfits)]
      simp [hfits]

theorem failing_ok : (∃ x, s.failing strict row error meeting now = .ok x) ↔
    strict.Takes meeting (ScheduleStore.failureRow row error now) := by
  rw [← flushed_ok]
  unfold failing
  constructor
  · rintro ⟨x, h⟩
    obtain ⟨u, hu, -⟩ := bind_ok.1 h
    exact ⟨u, hu⟩
  · rintro ⟨u, hu⟩
    exact ⟨_, bind_ok.2 ⟨u, hu, rfl⟩⟩

/-- A fire that fails for a reason of its own needs its failure recorded. -/
theorem unhindered_fault (hvalid : strict.runStart (fireStart store.calendar row ⟨t, 0⟩ meeting.runId) = none)
    (hfault : meeting.fault = some error) :
    Unhindered store strict s row t meeting now ↔ strict.Takes meeting (ScheduleStore.failureRow row error now) := by
  constructor
  · exact fun h => h.failed error hfault
  · intro h
    have hno : meeting.fault ≠ none := by
      rw [hfault]
      exact Option.some_ne_none error
    refine ⟨hvalid, fun hn => absurd hn hno, fun hn => absurd hn hno, fun error' he => ?_, fun hn => absurd hn hno,
      fun hn => absurd hn hno⟩
    cases hfault.symm.trans he
    exact h

/-- One whose run is refused needs the database's own refusal, recorded. -/
theorem unhindered_refused {e : ServiceError}
    (hvalid : strict.runStart (fireStart store.calendar row ⟨t, 0⟩ meeting.runId) = none) (hfault : meeting.fault = none)
    (hstart : s.db.start (fireStart store.calendar row ⟨t, 0⟩ meeting.runId) true false now = .error e) :
    Unhindered store strict s row t meeting now ↔
      e.code = .INTERNAL ∧ strict.Takes meeting (ScheduleStore.failureRow row (refusedError e.detail) now) := by
  constructor
  · exact fun h => ⟨h.refused hfault e hstart, h.declined hfault e hstart⟩
  · rintro ⟨hcode, htakes⟩
    refine ⟨hvalid, fun _ e' he => ?_, fun _ x hx => ?_, fun error he => ?_, fun _ e' he => ?_, fun _ x hx => ?_⟩
    · cases hstart.symm.trans he
      exact hcode
    · cases hstart.symm.trans hx
    · cases hfault.symm.trans he
    · cases hstart.symm.trans he
      exact htakes
    · cases hstart.symm.trans hx

/-- One that starts its run needs a next occurrence, recorded. -/
theorem unhindered_started {x : Database × RunRecord × Bool}
    (hvalid : strict.runStart (fireStart store.calendar row ⟨t, 0⟩ meeting.runId) = none) (hfault : meeting.fault = none)
    (hstart : s.db.start (fireStart store.calendar row ⟨t, 0⟩ meeting.runId) true false now = .ok x) :
    Unhindered store strict s row t meeting now ↔
      strict.spent row (max t now) = none ∧ strict.Takes meeting (store.successRow row t x.2.1.runId now) := by
  constructor
  · exact fun h => ⟨h.recurs hfault x hstart, h.fired hfault x hstart⟩
  · rintro ⟨hspent, htakes⟩
    refine ⟨hvalid, fun _ e he => ?_, fun _ _ _ => hspent, fun error he => ?_, fun _ e he => ?_, fun _ x' hx => ?_⟩
    · cases hstart.symm.trans he
    · cases hfault.symm.trans he
    · cases hstart.symm.trans he
    · cases hstart.symm.trans hx
      exact htakes

theorem firing_ok : (∃ x, s.firing store strict row t meeting now = .ok x) ↔ Unhindered store strict s row t meeting now := by
  unfold firing
  cases hvalid : strict.runStart (fireStart store.calendar row ⟨t, 0⟩ meeting.runId) with
  | some text =>
    refine iff_of_false ?_ fun h => ?_
    · rintro ⟨x, h⟩
      cases h
    · cases hvalid.symm.trans h.valid
  | none =>
    dsimp only
    cases hfault : meeting.fault with
    | some error =>
      dsimp only
      rw [failing_ok, unhindered_fault hvalid hfault]
    | none =>
      dsimp only
      cases hstart : s.db.start (fireStart store.calendar row ⟨t, 0⟩ meeting.runId) true false now with
      | error e =>
        rw [unhindered_refused hvalid hfault hstart]
        dsimp only
        by_cases hcode : e.code = .INTERNAL
        · rw [if_pos hcode, failing_ok, and_iff_right hcode]
        · rw [if_neg hcode]
          refine iff_of_false ?_ fun h => hcode h.1
          rintro ⟨x, h⟩
          cases h
      | ok started =>
        obtain ⟨db, run, created⟩ := started
        rw [unhindered_started hvalid hfault hstart, ← flushed_ok]
        dsimp only
        cases hspent : strict.spent row (max t now) with
        | some text =>
          refine iff_of_false ?_ fun h => by cases h.1
          rintro ⟨x, h⟩
          cases h
        | none =>
          rw [and_iff_right rfl]
          constructor
          · rintro ⟨x, h⟩
            obtain ⟨u, hu, -⟩ := bind_ok.1 h
            exact ⟨u, hu⟩
          · rintro ⟨u, hu⟩
            exact ⟨_, bind_ok.2 ⟨u, hu, rfl⟩⟩

theorem turn_ok : (∃ x, s.turn store strict meeting now = .ok x) ↔ Turns store strict s meeting now := by
  unfold turn
  cases hclaim : meeting.claim with
  | some text =>
    constructor
    · rintro ⟨x, h⟩
      cases h
    · intro h
      have := h.claims
      rw [hclaim] at this
      cases this
  | none =>
    dsimp only
    cases hdue : ScheduleStore.claimDue s.schedules meeting.held now with
    | none =>
      refine ⟨fun _ => ⟨hclaim, fun row h => ?_, fun row t h => ?_⟩, fun _ => ⟨_, rfl⟩⟩
      · rw [hdue] at h
        cases h
      · rw [hdue] at h
        cases h
    | some row =>
      dsimp only
      cases hread : strict.schedule row with
      | some text =>
        constructor
        · rintro ⟨x, h⟩
          cases h
        · intro h
          have := h.reads row hdue
          rw [hread] at this
          cases this
      | none =>
        dsimp only
        have hone : ∀ {row'}, ScheduleStore.claimDue s.schedules meeting.held now = some row' → row' = row := by
          intro row' h
          rw [hdue] at h
          exact (Option.some.inj h).symm
        cases harmed : row.nextFireAt with
        | none =>
          refine ⟨fun _ => ⟨hclaim, fun row' h => ?_, fun row' t h ht => ?_⟩, fun _ => ⟨_, rfl⟩⟩
          · rw [hone h]
            exact hread
          · rw [hone h, harmed] at ht
            cases ht
        | some t =>
          dsimp only
          rw [firing_ok]
          refine ⟨fun h => ⟨hclaim, fun row' h' => ?_, fun row' t' h' ht => ?_⟩, fun h => h.fires row t hdue harmed⟩
          · rw [hone h']
            exact hread
          · rw [hone h', harmed] at ht
            cases ht
            rw [hone h']
            exact h

/-! ## What a turn does -/

/-- What is raised apart, it is `Scheduler.fireRow`. -/
theorem firing_fires (h : s.firing store strict row t meeting now = .ok (s', fired)) :
    s.fireRow store row ⟨t, 0⟩ meeting.runId meeting.fault now = .ok (s', fired) := by
  have hfailing : ∀ {error}, s.failing strict row error meeting now = .ok (s', fired) →
      s.recordFailure row error now = .ok (s', fired) := by
    intro error h
    obtain ⟨u, hu, h⟩ := bind_ok.1 h
    cases h
    obtain ⟨-, hfits, -⟩ := flushed_ok.1 ⟨u, hu⟩
    exact bind_ok.2 ⟨_, put_ok.2 ⟨hfits, rfl⟩, rfl⟩
  unfold firing at h
  unfold fireRow
  cases hvalid : strict.runStart (fireStart store.calendar row ⟨t, 0⟩ meeting.runId) with
  | some text =>
    rw [hvalid] at h
    cases h
  | none =>
    rw [hvalid] at h
    dsimp only at h
    cases hfault : meeting.fault with
    | some error =>
      rw [hfault] at h
      exact hfailing h
    | none =>
      rw [hfault] at h
      dsimp only at h ⊢
      cases hstart : s.db.start (fireStart store.calendar row ⟨t, 0⟩ meeting.runId) true false now with
      | error error =>
        rw [hstart] at h
        dsimp only at h ⊢
        by_cases hcode : error.code = .INTERNAL
        · rw [if_pos hcode] at h
          rw [if_pos hcode]
          exact hfailing h
        · rw [if_neg hcode] at h
          cases h
      | ok started =>
        obtain ⟨db, run, created⟩ := started
        rw [hstart] at h
        dsimp only at h ⊢
        cases hspent : strict.spent row (max t now) with
        | some text =>
          rw [hspent] at h
          cases h
        | none =>
          rw [hspent] at h
          obtain ⟨u, hu, h⟩ := bind_ok.1 h
          cases h
          obtain ⟨-, hfits, -⟩ := flushed_ok.1 ⟨u, hu⟩
          exact bind_ok.2 ⟨_, put_ok.2 ⟨hfits, rfl⟩, rfl⟩

/-- A failure is not due again now. -/
theorem failureRow_moved (row : ScheduleRow) (error : AgentError) (now : Instant) :
    ScheduleStore.due now (ScheduleStore.failureRow row error now) = false := by
  unfold ScheduleStore.failureRow ScheduleStore.due
  dsimp only
  split
  · rfl
  · have hwait : ¬ now + backoff fireRetryBase (row.consecutiveFailures + 1) fireRetryCap ≤ now := by
      have hpos : (0 : Rat) < backoff fireRetryBase (row.consecutiveFailures + 1) fireRetryCap := by
        have hbase : (0 : Rat) < fireRetryBase := by norm_num [fireRetryBase]
        unfold backoff
        exact lt_min (by positivity) (by norm_num [fireRetryCap])
      linarith
    simp [hwait]

/-- Nor is a success. -/
theorem successRow_moved (store : ScheduleStore) (row : ScheduleRow) (t : Instant) (runId : String) (now : Instant) :
    ScheduleStore.due now (store.successRow row t runId now) = false := by
  have hpast : ∀ next, store.calendar.nextFireAt row.cadence (max t now) row.timezone = some next → ¬ next ≤ now := by
    intro next h hle
    have := Calendar.nextFireAt_gt h
    exact absurd (lt_of_le_of_lt (le_max_right t now) this) (not_lt.2 hle)
  unfold ScheduleStore.due
  show (row.enabled && (store.calendar.nextFireAt row.cadence (max t now) row.timezone).any (· ≤ now) && _) = false
  cases h : store.calendar.nextFireAt row.cadence (max t now) row.timezone with
  | none => simp
  | some next => simp [hpast next h]

/-- A turn that is not idle fires the schedule it claimed, or records its failure, and leaves it not due. -/
theorem turn_moves (h : s.turn store strict meeting now = .ok (s', fired)) :
    (fired = .idle ∧ s' = s ∧ ScheduleStore.claimDue s.schedules meeting.held now = none) ∨
      ∃ row row', ScheduleStore.claimDue s.schedules meeting.held now = some row ∧ fired.scheduleId? = some row.scheduleId ∧
        s'.schedules = s.schedules.put row' ∧ row'.scheduleId = row.scheduleId ∧ ScheduleStore.due now row' = false := by
  unfold turn at h
  split at h
  · cases h
  · split at h
    · next hnone =>
      cases h
      exact Or.inl ⟨rfl, rfl, hnone⟩
    · next row hdue =>
      split at h
      · cases h
      · split at h
        · next harmed =>
          -- a schedule that is due has a clock
          have := (ScheduleStore.claimDue_spec hdue).2
          simp [ScheduleStore.due, harmed] at this
        · next t _ =>
          right
          rcases fireRow_ok (firing_fires h) with ⟨error, rfl, rfl⟩ | ⟨db, run, created, -, rfl, rfl⟩
          · refine ⟨row, ScheduleStore.failureRow row error now, hdue, rfl, rfl, ?_, failureRow_moved row error now⟩
            unfold ScheduleStore.failureRow
            dsimp only
            split <;> rfl
          · exact ⟨row, store.successRow row t run.runId now, hdue, rfl, rfl, rfl, successRow_moved store row t run.runId now⟩

end

/-! ## The loop -/

/-- Every turn of the loop raises nothing. -/
def EachTurn (store : ScheduleStore) (strict : Strict) (now : Instant) : List Meeting → Scheduler → Prop
  | [], _ => True
  | meeting :: meetings, s => Turns store strict s meeting now ∧
      ∀ s' fired, s.turn store strict meeting now = .ok (s', fired) → fired ≠ .idle → EachTurn store strict now meetings s'

section
variable {store : ScheduleStore} {strict : Strict} {now : Instant}

/-- A loop goes on behind a turn that fired. -/
theorem fires_cons {s s' : Scheduler} {meeting : Meeting} {fired : Fired} (meetings : List Meeting)
    (h : s.turn store strict meeting now = .ok (s', fired)) (hf : fired ≠ .idle) :
    fires store strict now (meeting :: meetings) s = ⟨(fires store strict now meetings s').after,
      fired :: (fires store strict now meetings s').fires, (fires store strict now meetings s').raised⟩ := by
  show (match s.turn store strict meeting now with
    | .error e => (⟨s, [], some e⟩ : Fires)
    | .ok (s', .idle) => ⟨s', [], none⟩
    | .ok (s', fired) => ⟨(fires store strict now meetings s').after, fired :: (fires store strict now meetings s').fires,
        (fires store strict now meetings s').raised⟩) = _
  rw [h]
  cases fired with
  | idle => exact absurd rfl hf
  | fired | failed => rfl

theorem fires_idle {s s' : Scheduler} {meeting : Meeting} (meetings : List Meeting)
    (h : s.turn store strict meeting now = .ok (s', .idle)) : fires store strict now (meeting :: meetings) s = ⟨s', [], none⟩ := by
  unfold fires
  rw [h]

theorem fires_error {s : Scheduler} {meeting : Meeting} {e : Raised} (meetings : List Meeting)
    (h : s.turn store strict meeting now = .error e) : fires store strict now (meeting :: meetings) s = ⟨s, [], some e⟩ := by
  unfold fires
  rw [h]

theorem raised_none_iff (meetings : List Meeting) : ∀ s : Scheduler,
    (fires store strict now meetings s).raised = none ↔ EachTurn store strict now meetings s := by
  induction meetings with
  | nil => exact fun s => ⟨fun _ => trivial, fun _ => rfl⟩
  | cons meeting meetings ih =>
    intro s
    unfold EachTurn
    rw [← turn_ok]
    cases h : s.turn store strict meeting now with
    | error e =>
      rw [fires_error meetings h]
      simp
    | ok x =>
      obtain ⟨s', fired⟩ := x
      by_cases hf : fired = .idle
      · subst hf
        rw [fires_idle meetings h]
        refine ⟨fun _ => ⟨⟨_, rfl⟩, fun s'' fired' he hne => ?_⟩, fun _ => rfl⟩
        cases he
        exact absurd rfl hne
      · rw [fires_cons meetings h hf]
        show (fires store strict now meetings s').raised = none ↔ _
        rw [ih s']
        refine ⟨fun hrest => ⟨⟨_, rfl⟩, fun s'' fired' he _ => ?_⟩, fun hrest => hrest.2 s' fired rfl hf⟩
        cases he
        exact hrest

/-- A schedule that is not due is left alone. -/
theorem fires_kept {id : String} {row : ScheduleRow} (hrest : ScheduleStore.due now row = false) (meetings : List Meeting) :
    ∀ s : Scheduler, s.schedules.find? id = some row →
      (fires store strict now meetings s).after.schedules.find? id = some row := by
  induction meetings with
  | nil => exact fun s h => h
  | cons meeting meetings ih =>
    intro s hrow
    cases h : s.turn store strict meeting now with
    | error e =>
      rw [fires_error meetings h]
      exact hrow
    | ok x =>
      obtain ⟨s', fired⟩ := x
      by_cases hf : fired = .idle
      · subst hf
        rw [fires_idle meetings h]
        rcases turn_moves h with ⟨-, rfl, -⟩ | ⟨_, _, -, hid, -⟩
        · exact hrow
        · cases hid
      · rw [fires_cons meetings h hf]
        refine ih s' ?_
        rcases turn_moves h with ⟨hidle, -⟩ | ⟨claimed, row', hclaim, -, hput, hkey, -⟩
        · exact absurd hidle hf
        · obtain ⟨hmem, hdue⟩ := ScheduleStore.claimDue_spec hclaim
          have hne : row'.scheduleId ≠ id := by
            rw [hkey]
            rintro rfl
            have := Table.find?_of_mem hmem
            rw [hrow] at this
            cases this
            rw [hrest] at hdue
            cases hdue
          rw [hput, Table.find?_put_of_ne hne]
          exact hrow

/-- Each schedule the loop took is moved on. -/
theorem fires_moved (meetings : List Meeting) : ∀ s : Scheduler, ∀ fired ∈ (fires store strict now meetings s).fires,
    ∃ id row, fired.scheduleId? = some id ∧ (fires store strict now meetings s).after.schedules.find? id = some row ∧
      ScheduleStore.due now row = false := by
  induction meetings with
  | nil =>
    intro s fired h
    cases h
  | cons meeting meetings ih =>
    intro s fired hmem
    cases h : s.turn store strict meeting now with
    | error e =>
      rw [fires_error meetings h] at hmem
      cases hmem
    | ok x =>
      obtain ⟨s', fired'⟩ := x
      by_cases hf : fired' = .idle
      · subst hf
        rw [fires_idle meetings h] at hmem
        cases hmem
      · rw [fires_cons meetings h hf] at hmem ⊢
        rcases List.mem_cons.1 hmem with rfl | hmem
        · rcases turn_moves h with ⟨hidle, -⟩ | ⟨claimed, row', hclaim, hid, hput, hkey, hrest⟩
          · exact absurd hidle hf
          · refine ⟨claimed.scheduleId, row', hid, fires_kept hrest meetings s' ?_, hrest⟩
            rw [hput]
            exact Table.find?_put_self hkey (Table.find?_of_mem (ScheduleStore.claimDue_spec hclaim).1)
        · exact ih s' fired hmem

/-- A loop that raises nothing leaves nothing due, or has had all its turns. -/
theorem fires_all (meetings : List Meeting) : ∀ s : Scheduler, (fires store strict now meetings s).raised = none →
    (fires store strict now meetings s).fires.length = meetings.length ∨
      ∃ meeting ∈ meetings, ScheduleStore.claimDue (fires store strict now meetings s).after.schedules meeting.held now = none := by
  induction meetings with
  | nil => exact fun s _ => Or.inl rfl
  | cons meeting meetings ih =>
    intro s hraised
    cases h : s.turn store strict meeting now with
    | error e =>
      rw [fires_error meetings h] at hraised
      cases hraised
    | ok x =>
      obtain ⟨s', fired⟩ := x
      by_cases hf : fired = .idle
      · subst hf
        rw [fires_idle meetings h]
        rcases turn_moves h with ⟨-, rfl, hnone⟩ | ⟨_, _, -, hid, -⟩
        · exact Or.inr ⟨meeting, List.mem_cons_self, hnone⟩
        · cases hid
      · rw [fires_cons meetings h hf] at hraised ⊢
        rcases ih s' hraised with hall | ⟨m, hm, hnone⟩
        · exact Or.inl (congrArg (· + 1) hall)
        · exact Or.inr ⟨m, List.mem_cons_of_mem _ hm, hnone⟩

end

end Scheduler

/-- The fires of a tick stop nothing: each schedule they took fired, or its failure is recorded, and it is not due any more; none
is left due, unless the tick's turns are used up; and the tick goes on. -/
structure Isolated (store : ScheduleStore) (strict : Strict) (now : Instant) (meetings : List Meeting) (s : Scheduler) : Prop where
  moved : ∀ fired ∈ (Scheduler.fires store strict now meetings s).fires, ∃ id row, fired.scheduleId? = some id ∧
    (Scheduler.fires store strict now meetings s).after.schedules.find? id = some row ∧ ScheduleStore.due now row = false
  all : (Scheduler.fires store strict now meetings s).fires.length = meetings.length ∨ ∃ meeting ∈ meetings,
    ScheduleStore.claimDue (Scheduler.fires store strict now meetings s).after.schedules meeting.held now = none
  later : ∀ raises : TickStep → Option Raised, raises .fireDue = (Scheduler.fires store strict now meetings s).raised →
    .timeOutPastDeadline ∈ begun raises TickStep.order

/-- The first day of each year, 2024 to 2032. -/
def newYears : List Instant :=
  [1704067200, 1735689600, 1767225600, 1798761600, 1830297600, 1861920000, 1893456000, 1924992000, 1956528000]

/-- A cron expression with a field for the years. -/
def yearly : String := "0 0 1 1 * 0 2024-2032"

theorem newYear_gt (after : Instant) : after < (newYears.find? (after < ·)).getD (after + 1) := by
  cases hfind : newYears.find? (after < ·) with
  | none => exact lt_add_one after
  | some t =>
    have h := List.find?_some hfind
    simpa using h

/-- Its occurrences, and those of the hours. -/
def yearlyCalendar : Calendar :=
  { spelledCalendar with
    next := fun expression zone after =>
      if expression = yearly then (newYears.find? (after < ·)).getD (after + 1) else spelledCalendar.next expression zone after
    next_gt := fun expression zone after => by
      by_cases h : expression = yearly
      · rw [if_pos h]
        exact newYear_gt after
      · rw [if_neg h]
        exact spelledCalendar.next_gt expression zone after }

def yearlySchedules : ScheduleStore := { smallSchedules with calendar := yearlyCalendar }

/-- croniter finds no next date past the last of them; the contracts take everything. -/
def yearlyStrict : Strict where
  runStart _ := none
  schedule _ := none
  exhausted expression _ after :=
    if expression = yearly ∧ 1956528000 ≤ after then some "failed to find next date" else none

/-- A yearly schedule made in 2031, and an hourly one on the last day it fires. -/
def lastYear : Scheduler :=
  (Scheduler.step yearlySchedules .empty 1924992100 (.upsert { smallSpec with cadence := yearly } "u" "last")).step yearlySchedules
    1956528010 (.upsert smallSpec "u" "hourly")

end AgentRuns
