import AgentRuns.Firing
import AgentRuns.Spelled

/-!
# The tick a fire is for

A fire that succeeds leaves a run of its own instant and a clock past now.  So a tick that was due is still
owed, or run, exactly when the fire was for it or its run was there already (`tick_kept_iff`): one by the
ticker always is for it, and so is one by hand that names no other instant.
-/

namespace AgentRuns

open Relational Fallible

/-! ## Starting under a key -/

namespace Database

/-- Is there a run of the key? -/
def started (db : Database) (tenantId key : String) : Prop :=
  ∃ row ∈ db.runs.rows, row.tenantId = tenantId ∧ row.idempotencyKey = some key

variable {db db' : Database} {start : RunStart} {queue strict created : Bool} {now : Instant} {run : RunRecord}
  {key tenantId : String}

/-- A start that succeeds inserts its run, or finds one and writes nothing. -/
theorem start_ok (h : db.start start queue strict now = .ok (db', run, created)) :
    (db.conflicts (startedRow start queue now) = true ∧ db.startedBefore start queue strict now = .ok run ∧ db' = db) ∨
      (db.conflicts (startedRow start queue now) = false ∧ run = record (startedRow start queue now) now ∧
        db' = { db with runs := db.runs.insert (startedRow start queue now) }) := by
  unfold Database.start at h
  obtain ⟨_, -, h⟩ := bind_ok.1 h
  split at h
  · next hc =>
    obtain ⟨_, hb, h⟩ := bind_ok.1 h
    cases h
    exact Or.inl ⟨hc, hb, rfl⟩
  · next hc =>
    cases h
    exact Or.inr ⟨by simpa using hc, rfl, rfl⟩

theorem rows_start (h : db.conflicts (startedRow start queue now) = false) :
    (db.runs.insert (startedRow start queue now)).rows = db.runs.rows ++ [startedRow start queue now] := by
  refine Table.rows_insert ?_
  simp only [conflicts, Bool.or_eq_false_iff] at h
  simpa [run?] using h.1

/-- The runs of a key after a start: those before it, and the one it started. -/
theorem started_start (h : db.start start queue strict now = .ok (db', run, created)) (hk : db'.started tenantId key) :
    db.started tenantId key ∨ (start.tenantId = tenantId ∧ start.idempotencyKey = some key) := by
  rcases start_ok h with ⟨-, -, rfl⟩ | ⟨hc, -, rfl⟩
  · exact Or.inl hk
  · obtain ⟨row, hm, ht, hkey⟩ := hk
    rw [rows_start hc, List.mem_append, List.mem_singleton] at hm
    rcases hm with hm | rfl
    · exact Or.inl ⟨row, hm, ht, hkey⟩
    · exact Or.inr ⟨ht, hkey⟩

theorem started_mono (h : db.start start queue strict now = .ok (db', run, created)) (hk : db.started tenantId key) :
    db'.started tenantId key := by
  rcases start_ok h with ⟨-, -, rfl⟩ | ⟨hc, -, rfl⟩
  · exact hk
  · obtain ⟨row, hm, hrow⟩ := hk
    exact ⟨row, by rw [rows_start hc]; exact List.mem_append_left _ hm, hrow⟩

/-- A start under a key, its id minted, leaves a run of the key. -/
theorem started_of_start (hkey : start.idempotencyKey = some key) (hne : key ≠ "")
    (fresh : db.run? start.runId = none) (h : db.start start queue strict now = .ok (db', run, created)) :
    db'.started start.tenantId key := by
  rcases start_ok h with ⟨-, hb, rfl⟩ | ⟨hc, -, rfl⟩
  · have hone : db'.one start.tenantId start.runId = none := by rw [one, fresh]; rfl
    cases hf : db'.keyed start.tenantId (some key) with
    | none =>
      simp [startedBefore, hkey, hne, hf, hone] at hb
    | some row =>
      have hp := List.find?_some hf
      have hm := List.mem_of_find?_eq_some hf
      simp only [decide_eq_true_eq] at hp
      exact ⟨row, hm, hp⟩
  · refine ⟨startedRow start queue now, ?_, rfl, hkey⟩
    rw [rows_start hc]
    exact List.mem_append_right _ List.mem_cons_self

end Database

/-! ## What a fire does -/

namespace Scheduler

variable {s s' : Scheduler} {store : ScheduleStore} {row : ScheduleRow} {fireTime : AwareDatetime} {runId : String}
  {fault : Option AgentError} {now : Instant} {fired : Fired}

theorem put_ok {row : ScheduleRow} : s.put row = .ok s' ↔
    row.fits = true ∧ s' = { s with schedules := s.schedules.put row } := by
  unfold put
  simp only [bind_ok, refuse_ok, Bool.not_eq_false]
  constructor
  · rintro ⟨-, h, he⟩
    cases he
    exact ⟨h, rfl⟩
  · rintro ⟨h, rfl⟩
    exact ⟨(), h, rfl⟩

/-- A fire that commits: a failure it recorded, or a run and the schedule past it. -/
theorem fireRow_ok (h : s.fireRow store row fireTime runId fault now = .ok (s', fired)) :
    (∃ error, fired = .failed row.scheduleId error ∧
      s' = { s with schedules := s.schedules.put (ScheduleStore.failureRow row error now) }) ∨
      ∃ db run created, s.db.start (fireStart store.calendar row fireTime runId) true false now = .ok (db, run, created) ∧
        s' = ⟨db, s.schedules.put (store.successRow row fireTime.at_ run.runId now)⟩ ∧
        fired = .fired ⟨row.scheduleId, run.runId, fireTime.at_, idempotencyKey store.calendar row.scheduleId fireTime.at_⟩ := by
  have failing : ∀ {error}, s.recordFailure row error now = .ok (s', fired) →
      ∃ error, fired = .failed row.scheduleId error ∧
        s' = { s with schedules := s.schedules.put (ScheduleStore.failureRow row error now) } := by
    intro error h
    obtain ⟨_, hp, h⟩ := bind_ok.1 h
    obtain ⟨-, rfl⟩ := put_ok.1 hp
    cases h
    exact ⟨error, rfl, rfl⟩
  unfold fireRow at h
  split at h
  · exact Or.inl (failing h)
  · split at h
    · split at h
      · exact Or.inl (failing h)
      · cases h
    · next db run created hstart =>
      obtain ⟨_, hp, h⟩ := bind_ok.1 h
      obtain ⟨-, rfl⟩ := put_ok.1 hp
      cases h
      exact Or.inr ⟨db, run, created, hstart, rfl, rfl⟩

end Scheduler

/-! ## A fire, by hand or by the ticker -/

/-- The instant a fire names. -/
def ScheduleOp.at_ : ScheduleOp → Option AwareDatetime
  | .fire _ _ at_ _ _ => at_
  | _ => none

/-- The id minted for the run of a fire. -/
def ScheduleOp.runId : ScheduleOp → Option String
  | .fire _ _ _ runId _ => some runId
  | .fireDue _ runId _ => some runId
  | _ => none

namespace ScheduleStore

theorem row_ok {schedules : Table ScheduleRow.scheduleId} {tenantId scheduleId : String} {row : ScheduleRow} :
    ScheduleStore.row schedules tenantId scheduleId = .ok row ↔
      schedules.find? scheduleId = some row ∧ row.tenantId = tenantId := by
  unfold ScheduleStore.row
  split
  · next h =>
    rw [Option.filter_eq_none_iff] at h
    constructor
    · intro h
      cases h
    · rintro ⟨hf, ht⟩
      exact absurd (by simpa using ht) (h row hf)
  · next row' h =>
    obtain ⟨hf, ht⟩ := Option.filter_eq_some_iff.1 h
    simp only [Except.ok.injEq]
    constructor
    · rintro rfl
      exact ⟨hf, by simpa using ht⟩
    · rintro ⟨hf', -⟩
      rw [hf] at hf'
      exact Option.some.inj hf'

/-- The ticker takes a schedule that is due. -/
theorem claimDue_spec {schedules : Table ScheduleRow.scheduleId} {held : List String} {now : Instant} {row : ScheduleRow}
    (h : claimDue schedules held now = some row) : row ∈ schedules.rows ∧ due now row = true := by
  have hm := List.mem_of_find?_eq_some h
  rw [List.mem_insertionSort, List.mem_filter] at hm
  exact hm

end ScheduleStore

namespace Scheduler

variable {s s' : Scheduler} {store : ScheduleStore} {now t : Instant} {op : ScheduleOp} {fired : Fired}
  {result : FireResult}

/-- The ticker idles, or it fires a schedule for its own tick, which has come. -/
theorem fireDue_ok {held : List String} {runId : String} {fault : Option AgentError}
    (h : s.fireDue store held runId fault now = .ok (s', fired)) :
    (s' = s ∧ fired = .idle) ∨ ∃ row t, s.schedules.find? row.scheduleId = some row ∧ row.nextFireAt = some t ∧ t ≤ now ∧
      s.fireRow store row ⟨t, 0⟩ runId fault now = .ok (s', fired) := by
  unfold fireDue at h
  split at h
  · cases h
    exact Or.inl ⟨rfl, rfl⟩
  · next row hc =>
    split at h
    · cases h
      exact Or.inl ⟨rfl, rfl⟩
    · next t ht =>
      obtain ⟨hm, hdue⟩ := ScheduleStore.claimDue_spec hc
      simp only [ScheduleStore.due, Bool.and_eq_true, ht, Option.any_some, decide_eq_true_eq] at hdue
      exact Or.inr ⟨row, t, Table.find?_of_mem hm, ht, hdue.1.2, h⟩

/-- A fire, by hand or by the ticker, finds nothing to do, or it fires one schedule. -/
theorem perform_fire {runId : String} (hop : op.runId = some runId) (h : s.perform store now op = .ok (s', fired)) :
    (s' = s ∧ fired = .idle) ∨ ∃ row fault, s.schedules.find? row.scheduleId = some row ∧
      s.fireRow store row (op.at_.getD ⟨(row.nextFireAt.filter (· ≤ now)).getD now, 0⟩) runId fault now = .ok (s', fired) := by
  cases op with
  | fire tenantId scheduleId at_ runId' fault =>
    cases hop
    obtain ⟨row, hrow, h⟩ := bind_ok.1 h
    obtain ⟨_, -, h⟩ := bind_ok.1 h
    obtain ⟨_, -, h⟩ := bind_ok.1 h
    obtain ⟨hf, -⟩ := ScheduleStore.row_ok.1 hrow
    exact Or.inr ⟨row, fault, by rw [Table.key_of_find? hf, hf], h⟩
  | fireDue held runId' fault =>
    cases hop
    obtain hidle | ⟨row, t, hrow, ht, hle, h⟩ := fireDue_ok h
    · exact Or.inl hidle
    · refine Or.inr ⟨row, fault, hrow, ?_⟩
      rw [ht, Option.filter_some, if_pos (by simpa using hle)]
      exact h
  | upsert | update | delete | op => cases hop

/-- Only a fire queues a run for a schedule. -/
theorem runId_of_fired (h : s.perform store now op = .ok (s', .fired result)) : ∃ runId, op.runId = some runId := by
  cases op with
  | fire _ _ _ runId _ | fireDue _ runId _ => exact ⟨runId, rfl⟩
  | upsert | update | delete =>
    obtain ⟨_, -, h⟩ := bind_ok.1 h
    cases h
  | op op => cases h

/-- What a fire finds, and the instant it is for. -/
theorem perform_fired (h : s.perform store now op = .ok (s', .fired result)) :
    ∃ row runId fault, s.schedules.find? result.scheduleId = some row ∧ op.runId = some runId ∧
      s.fireRow store row (op.at_.getD ⟨(row.nextFireAt.filter (· ≤ now)).getD now, 0⟩) runId fault now =
        .ok (s', .fired result) := by
  obtain ⟨runId, hop⟩ := runId_of_fired h
  obtain ⟨-, he⟩ | ⟨row, fault, hrow, h⟩ := perform_fire hop h
  · cases he
  · refine ⟨row, runId, fault, ?_, hop, h⟩
    obtain ⟨_, he, -⟩ | ⟨_, _, _, -, -, he⟩ := fireRow_ok h
    · cases he
    · cases he
      exact hrow

end Scheduler

/-- **No tick is dropped but by a fire for another one.**  A schedule was due for `t`, and a fire of it
succeeds, by hand or by the ticker: then it is still due for `t`, or a run of `t` exists, if and only if the fire
named no instant or `t`, or a run of `t` existed before. -/
theorem tick_kept_iff {store : ScheduleStore} {s s' : Scheduler} {now t : Instant} {op : ScheduleOp}
    {result : FireResult} {row : ScheduleRow} (success : s.perform store now op = .ok (s', .fired result))
    (found : s.schedules.find? result.scheduleId = some row) (armed : row.nextFireAt = some t) (due : t ≤ now)
    (fresh : ∀ runId, op.runId = some runId → s.db.run? runId = none) :
    ((s'.schedules.find? result.scheduleId).any (·.nextFireAt = some t) = true ∨
        s'.db.started row.tenantId (idempotencyKey store.calendar result.scheduleId t)) ↔
      op.at_.all (·.at_ = t) = true ∨
        s.db.started row.tenantId (idempotencyKey store.calendar result.scheduleId t) := by
  obtain ⟨row', runId, fault, hrow, hid, h⟩ := Scheduler.perform_fired success
  rw [found] at hrow
  cases hrow
  have hkey : row.scheduleId = result.scheduleId := Table.key_of_find? found
  have htick : (row.nextFireAt.filter (· ≤ now)).getD now = t := by simp [armed, due, Option.filter]
  rw [htick] at h
  obtain ⟨_, he, -⟩ | ⟨db, run, created, hstart, rfl, he⟩ := Scheduler.fireRow_ok h
  · cases he
  -- the clock is past now, so the tick is not owed any more
  have hput : (s.schedules.put (store.successRow row (op.at_.getD ⟨t, 0⟩).at_ run.runId now)).find?
      result.scheduleId = some (store.successRow row (op.at_.getD ⟨t, 0⟩).at_ run.runId now) :=
    Table.find?_put_self hkey found
  have hpast : ((s.schedules.put (store.successRow row (op.at_.getD ⟨t, 0⟩).at_ run.runId now)).find?
      result.scheduleId).any (·.nextFireAt = some t) = false := by
    rw [hput, Option.any_some, decide_eq_false_iff_not]
    intro harmed
    have hgt := Calendar.nextFireAt_gt harmed
    exact absurd (lt_of_le_of_lt (le_max_right _ _) hgt) (not_lt.2 due)
  have hstarted := Database.started_of_start rfl (idempotencyKey_ne_empty _ _ _) (fresh runId hid) hstart
  rw [hpast]
  constructor
  · rintro (h | h)
    · cases h
    · rcases Database.started_start hstart h with h | ⟨-, hk⟩
      · exact Or.inr h
      · have hk : idempotencyKey store.calendar row.scheduleId (op.at_.getD ⟨t, 0⟩).at_ =
            idempotencyKey store.calendar result.scheduleId t := Option.some.inj hk
        rw [hkey] at hk
        have hat := idempotencyKey_injective hk
        refine Or.inl ?_
        cases ha : op.at_ with
        | none => rfl
        | some a => simpa [ha] using hat
  · rintro (h | h)
    · have hat : (op.at_.getD ⟨t, 0⟩).at_ = t := by
        cases ha : op.at_ with
        | none => rfl
        | some a => simpa [ha] using h
      refine Or.inr ?_
      rw [← hkey]
      exact hat ▸ hstarted
    · exact Or.inr (Database.started_mono hstart h)

/-! ## A late tick -/

/-- An hourly schedule, made at time 0. -/
def hourly : Scheduler := Scheduler.step smallSchedules .empty 0 (.upsert smallSpec "u" "s")

/-- A hundred seconds behind its tick the ticker fires it, and its run is there. -/
theorem hourly_tick_kept : ∃ s' result, Scheduler.perform smallSchedules hourly 3700 (.fireDue [] "r" none) =
      .ok (s', .fired result) ∧
    ((s'.schedules.find? result.scheduleId).any (·.nextFireAt = some 3600) = true ∨
      s'.db.started "t" (idempotencyKey spelledCalendar result.scheduleId 3600)) := by
  have hfired : ((Scheduler.perform smallSchedules hourly 3700 (.fireDue [] "r" none)).toOption.any
      (·.2.result?.isSome)) = true := by decide +kernel
  have hrows : (hourly.schedules.rows.all fun row => row.nextFireAt = some 3600 && row.tenantId = "t") = true := by
    decide +kernel
  cases hp : Scheduler.perform smallSchedules hourly 3700 (.fireDue [] "r" none) with
  | error e =>
    rw [hp] at hfired
    cases hfired
  | ok p =>
    obtain ⟨s', fired⟩ := p
    rw [hp] at hfired
    cases fired with
    | fired result =>
      obtain ⟨row, -, -, hrow, -⟩ := Scheduler.perform_fired hp
      have h := List.all_eq_true.1 hrows row (Table.mem_of_find? hrow)
      simp only [Bool.and_eq_true, decide_eq_true_eq] at h
      refine ⟨s', result, rfl, ?_⟩
      rw [← h.2]
      refine (tick_kept_iff hp hrow h.1 (by norm_num) ?_).2 (Or.inl rfl)
      rintro runId ⟨⟩
      decide +kernel
    | failed | idle => cases hfired

/-- A hundred seconds behind its tick, a fire by hand for an earlier instant. -/
def staleFire : ScheduleOp := .fire "t" "s" (some ⟨100, 0⟩) "r" none

/-- The tick of the hour is neither owed any more nor run. -/
theorem stale_fire_drops_tick :
    ((hourly.schedules.find? "s").any fun row => row.enabled && row.nextFireAt = some 3600) = true ∧
      ∃ s' result, Scheduler.perform smallSchedules hourly 3700 staleFire = .ok (s', .fired result) ∧
        ¬((s'.schedules.find? "s").any (·.nextFireAt = some 3600) = true ∨
          s'.db.started "t" (idempotencyKey smallSchedules.calendar "s" 3600)) := by
  refine ⟨by decide +kernel, ?_⟩
  have hrun : ((Scheduler.perform smallSchedules hourly 3700 staleFire).toOption.any fun p =>
      p.2.result?.isSome && !(p.1.schedules.find? "s").any (·.nextFireAt = some 3600) &&
        (p.1.db.keyed "t" (some (idempotencyKey smallSchedules.calendar "s" 3600))).isNone) = true := by
    decide +kernel
  cases hp : Scheduler.perform smallSchedules hourly 3700 staleFire with
  | error e =>
    rw [hp] at hrun
    cases hrun
  | ok p =>
    obtain ⟨s', fired⟩ := p
    rw [hp] at hrun
    simp only [Except.toOption, Option.any_some, Bool.and_eq_true, Bool.not_eq_true', Option.isNone_iff_eq_none] at hrun
    obtain ⟨⟨hf, hclock⟩, hkey⟩ := hrun
    cases fired with
    | fired result =>
      refine ⟨s', result, rfl, ?_⟩
      rintro (h | ⟨row, hm, ht, hk⟩)
      · rw [hclock] at h
        cases h
      · exact List.find?_eq_none.1 hkey row hm (by simpa using ⟨ht, hk⟩)
    | failed | idle => cases hf

end AgentRuns
