import AgentRuns.Alarms
import AgentRuns.Ticks
import AgentRuns.Invariant

/-!
# The clock of a schedule

`RowChange` says once what an operation makes of a schedule's row, `step_row` where a row after it comes
from.  Whatever it does, the clock stands, stops or moves past now (`ArmedPast`).  So the ticker fires later and
later instants, of an outage at most one late tick, and each instant queues one run (`clock_forward`).
-/

namespace AgentRuns

open Relational Fallible Timed

/-! ## What an operation makes of a schedule -/

inductive RowChange (store : ScheduleStore) (now : Instant) : ScheduleOp → ScheduleRow → ScheduleRow → Prop
  | updated {row : ScheduleRow} {spec : ScheduleSpec} {tenantId scheduleId change}
      (checked : store.checked (row.merged change) = .ok spec) :
      RowChange store now (.update tenantId scheduleId change) row
        (ScheduleRow.flushed row (store.updatedRow row spec now) row)
  | succeeded {row : ScheduleRow} {op : ScheduleOp} {fireTime : Instant} {runId : String}
      (fires : op.runId.isSome) : RowChange store now op row (store.successRow row fireTime runId now)
  | failed {row : ScheduleRow} {op : ScheduleOp} {error : AgentError} (fires : op.runId.isSome) :
      RowChange store now op row (ScheduleStore.failureRow row error now)

section
variable {store : ScheduleStore} {now : Instant} {op : ScheduleOp} {row row' : ScheduleRow} {s s' : Scheduler}

theorem RowChange.scheduleId (h : RowChange store now op row row') : row'.scheduleId = row.scheduleId := by
  cases h with
  | updated => rfl
  | succeeded => rfl
  | failed =>
    unfold ScheduleStore.failureRow
    dsimp only
    split <;> rfl

namespace ScheduleStore

theorem commitUpdate_ok {schedules schedules' : Table ScheduleRow.scheduleId} {read : ScheduleRow}
    {change : ScheduleUpdate} (h : store.commitUpdate schedules read change now = .ok schedules') :
    ∃ spec current, store.checked (read.merged change) = .ok spec ∧ schedules.find? read.scheduleId = some current ∧
      schedules' = schedules.put (ScheduleRow.flushed read (store.updatedRow read spec now) current) := by
  obtain ⟨spec, hspec, h⟩ := bind_ok.1 h
  split at h
  · cases h
  · next current hcurrent =>
    obtain ⟨_, -, h⟩ := bind_ok.1 h
    obtain ⟨_, -, h⟩ := bind_ok.1 h
    cases h
    exact ⟨spec, current, hspec, hcurrent, rfl⟩

theorem upsert_ok {schedules schedules' : Table ScheduleRow.scheduleId} {spec : ScheduleSpec}
    {createdBy scheduleId : String} {created : Bool}
    (h : store.upsert schedules spec createdBy scheduleId now = .ok (schedules', row, created)) :
    schedules' = schedules ∨ ∃ checked, schedules.find? scheduleId = none ∧
      schedules' = schedules.insert (store.createdRow checked createdBy scheduleId now) := by
  obtain ⟨checked, -, h⟩ := bind_ok.1 h
  obtain ⟨_, -, h⟩ := bind_ok.1 h
  split at h
  · cases h
    exact Or.inl rfl
  · obtain ⟨_, hfree, h⟩ := bind_ok.1 h
    cases h
    exact Or.inr ⟨checked, Option.not_isSome_iff_eq_none.1 (refuse_ok.1 hfree), rfl⟩

end ScheduleStore

namespace Scheduler

/-- The schedules after an operation: as they were but for one, or with one more. -/
theorem perform_schedules {fired : Fired} (h : s.perform store now op = .ok (s', fired)) :
    s'.schedules = s.schedules ∨
      (∃ row row', s.schedules.find? row.scheduleId = some row ∧ RowChange store now op row row' ∧
        s'.schedules = s.schedules.put row') ∨
      (∃ spec createdBy scheduleId, s.schedules.find? scheduleId = none ∧
        s'.schedules = s.schedules.insert (store.createdRow spec createdBy scheduleId now)) ∨
      ∃ tenantId scheduleId p, op = .delete tenantId scheduleId ∧ s'.schedules = s.schedules.erase p := by
  cases op with
  | upsert spec createdBy scheduleId =>
    obtain ⟨⟨schedules, row, created⟩, hu, h⟩ := bind_ok.1 h
    cases h
    rcases ScheduleStore.upsert_ok hu with rfl | ⟨checked, hfree, rfl⟩
    · exact Or.inl rfl
    · exact Or.inr (Or.inr (Or.inl ⟨checked, createdBy, scheduleId, hfree, rfl⟩))
  | update tenantId scheduleId change =>
    obtain ⟨_, hu, h⟩ := bind_ok.1 h
    cases h
    obtain ⟨row, hrow, hu⟩ := bind_ok.1 hu
    obtain ⟨hf, -⟩ := ScheduleStore.row_ok.1 hrow
    obtain ⟨spec, current, hspec, hcurrent, rfl⟩ := ScheduleStore.commitUpdate_ok hu
    rw [Table.key_of_find? hf, hf] at hcurrent
    cases hcurrent
    refine Or.inr (Or.inl ⟨row, _, ?_, .updated hspec, rfl⟩)
    rw [Table.key_of_find? hf, hf]
  | delete tenantId scheduleId =>
    obtain ⟨_, hd, h⟩ := bind_ok.1 h
    cases h
    obtain ⟨row, -, hd⟩ := bind_ok.1 hd
    cases hd
    exact Or.inr (Or.inr (Or.inr ⟨tenantId, scheduleId, _, rfl, rfl⟩))
  | fire | fireDue =>
    obtain ⟨rfl, -⟩ | ⟨row, fault, hrow, h⟩ := perform_fire rfl h
    · exact Or.inl rfl
    · obtain ⟨error, -, rfl⟩ | ⟨db, run, created, -, rfl, -⟩ := fireRow_ok h
      · exact Or.inr (Or.inl ⟨row, _, hrow, .failed rfl, rfl⟩)
      · exact Or.inr (Or.inl ⟨row, _, hrow, .succeeded rfl, rfl⟩)
  | op op =>
    cases h
    exact Or.inl rfl

/-- A schedule after an operation: as it was, changed, or just made. -/
theorem step_row {scheduleId : String} (h : (step store s now op).schedules.find? scheduleId = some row') :
    s.schedules.find? scheduleId = some row' ∨
      (∃ row, s.schedules.find? scheduleId = some row ∧ RowChange store now op row row') ∨
      (s.schedules.find? scheduleId = none ∧ ∃ spec createdBy, row' = store.createdRow spec createdBy scheduleId now) := by
  unfold step at h
  cases hp : perform store s now op with
  | error e =>
    rw [hp] at h
    exact Or.inl h
  | ok p =>
    obtain ⟨s', fired⟩ := p
    rw [hp, orElse_ok] at h
    obtain he | ⟨row, row'', hrow, hc, he⟩ | ⟨spec, createdBy, id, hfree, he⟩ | ⟨-, -, p, -, he⟩ := perform_schedules hp
    · exact Or.inl (he ▸ h)
    · rw [he] at h
      rcases Table.of_find?_put hrow hc.scheduleId h with hsame | ⟨hbefore, rfl⟩
      · exact Or.inl hsame
      · exact Or.inr (Or.inl ⟨row, hbefore, hc⟩)
    · rw [he, Table.find?_insert hfree] at h
      split at h
      · next hk =>
        cases h
        have hk : id = scheduleId := hk
        subst hk
        exact Or.inr (Or.inr ⟨hfree, spec, createdBy, rfl⟩)
      · exact Or.inl h
    · rw [he] at h
      obtain ⟨hm, rfl⟩ := Table.find?_eq_some.1 h
      exact Or.inl (Table.find?_of_mem (Table.mem_erase.1 hm).1)

end Scheduler

/-! ## The clock -/

/-- The clock stopped, with a manual cadence, or it is past now. -/
def ScheduleRow.ArmedPast (row : ScheduleRow) (now : Instant) : Prop :=
  (row.nextFireAt = none ∧ bucket row.cadence = some none) ∨ ∃ t, row.nextFireAt = some t ∧ now < t

theorem column_self {α : Type} [BEq α] [LawfulBEq α] (read wrote : α) :
    ScheduleRow.column (· == ·) read wrote read = wrote := by
  unfold ScheduleRow.column
  split
  · next h => exact (eq_of_beq h).symm
  · rfl

namespace ScheduleStore

theorem arm_past (row : ScheduleRow) {after : Instant} (h : now ≤ after) : (store.arm row after).ArmedPast now := by
  cases ht : store.calendar.nextFireAt row.cadence after row.timezone with
  | none => exact Or.inl ⟨ht, Calendar.nextFireAt_eq_none.1 ht⟩
  | some t => exact Or.inr ⟨t, ht, lt_of_le_of_lt h (Calendar.nextFireAt_gt ht)⟩

theorem rearm_past (row : ScheduleRow) :
    (store.rearm row now).nextFireAt = row.nextFireAt ∨ (store.rearm row now).ArmedPast now := by
  unfold rearm
  split
  · exact Or.inr (arm_past row le_rfl)
  · dsimp only
    split
    · exact Or.inl rfl
    · exact Or.inr (arm_past row le_rfl)

theorem updatedRow_past (row : ScheduleRow) (spec : ScheduleSpec) :
    (store.updatedRow row spec now).nextFireAt = row.nextFireAt ∨ (store.updatedRow row spec now).ArmedPast now := by
  have harmed : ∀ armed : ScheduleRow, armed.nextFireAt = row.nextFireAt ∨ armed.ArmedPast now →
      let resumed := if row.reEnabled spec then { armed with consecutiveFailures := 0, lastError := none, retryAfter := none }
        else armed
      resumed.nextFireAt = row.nextFireAt ∨ resumed.ArmedPast now := by
    intro armed h
    dsimp only
    split <;> exact h
  unfold updatedRow
  refine harmed _ ?_
  split
  · exact Or.inr (arm_past _ le_rfl)
  · split
    · exact rearm_past (store.apply row spec)
    · exact Or.inl rfl

end ScheduleStore

/-- **One step.**  Whatever an operation makes of a schedule, its clock stands or goes past now. -/
theorem RowChange.past (h : RowChange store now op row row') :
    row'.nextFireAt = row.nextFireAt ∨ row'.ArmedPast now := by
  cases h with
  | @updated row spec tenantId scheduleId change checked =>
    have hclock : (ScheduleRow.flushed row (store.updatedRow row spec now) row).nextFireAt =
        (store.updatedRow row spec now).nextFireAt := column_self _ _
    have hcadence : (ScheduleRow.flushed row (store.updatedRow row spec now) row).cadence =
        (store.updatedRow row spec now).cadence := column_self _ _
    unfold ScheduleRow.ArmedPast
    rw [hclock, hcadence]
    exact ScheduleStore.updatedRow_past row spec
  | @succeeded row op fireTime runId => exact Or.inr (ScheduleStore.arm_past row (le_max_right fireTime now))
  | failed =>
    refine Or.inl ?_
    unfold ScheduleStore.failureRow
    dsimp only
    split <;> rfl

theorem clock_step {scheduleId : String}
    (h : (Scheduler.step store s now op).schedules.find? scheduleId = some row') :
    (∃ row, s.schedules.find? scheduleId = some row ∧ row'.nextFireAt = row.nextFireAt) ∨ row'.ArmedPast now := by
  rcases Scheduler.step_row h with h | ⟨row, hrow, hc⟩ | ⟨-, spec, createdBy, rfl⟩
  · exact Or.inl ⟨row', h, rfl⟩
  · exact hc.past.imp_left fun h => ⟨row, hrow, h⟩
  · exact Or.inr (ScheduleStore.arm_past _ le_rfl)

end

/-! ## What the ticker fires -/

/-- A fire of the ticker's that succeeded: when, and for which tick of which schedule. -/
structure TickerFire where
  at_ : Instant
  scheduleId : String
  tick : Instant

namespace Scheduler

/-- The ticker's fire in an operation. -/
def tickerFire (store : ScheduleStore) (s : Scheduler) (now : Instant) (op : ScheduleOp) : Option TickerFire :=
  match op with
  | .fireDue held runId fault =>
    ((s.fireDue store held runId fault now).toOption.bind (·.2.result?)).map fun r => ⟨now, r.scheduleId, r.fireTime⟩
  | _ => none

/-- The ticker's fires in a list of operations. -/
def tickerFires (store : ScheduleStore) (s : Scheduler) : List (Instant × ScheduleOp) → List TickerFire
  | [] => []
  | (now, op) :: ops => (s.tickerFire store now op).toList ++ tickerFires store (step store s now op) ops

/-- The clock of the schedule, if it runs, is past `bound`. -/
def Beyond (s : Scheduler) (bound : Instant) (scheduleId : String) : Prop :=
  ∀ row t, s.schedules.find? scheduleId = some row → row.nextFireAt = some t → bound < t

section
variable {store : ScheduleStore} {s s' : Scheduler} {now bound : Instant} {op : ScheduleOp} {scheduleId : String}
  {fire : TickerFire}

/-- The ticker fires a tick that has come, and leaves the clock past now. -/
theorem tickerFire_spec (h : s.tickerFire store now op = some fire) :
    fire.at_ = now ∧ fire.tick ≤ now ∧
      (∃ row, s.schedules.find? fire.scheduleId = some row ∧ row.nextFireAt = some fire.tick) ∧
      (Scheduler.step store s now op).Beyond now fire.scheduleId := by
  cases op with
  | fireDue held runId fault =>
    obtain ⟨result, hresult, rfl⟩ := Option.map_eq_some_iff.1 h
    obtain ⟨⟨s', fired⟩, hs, hr⟩ := Option.bind_eq_some_iff.1 hresult
    cases fired with
    | failed | idle => cases hr
    | fired result =>
      cases hr
      have hp : s.fireDue store held runId fault now = .ok (s', .fired result) := by
        cases hd : s.fireDue store held runId fault now with
        | error e =>
          rw [hd] at hs
          cases hs
        | ok p =>
          rw [hd] at hs
          cases hs
          rfl
      have hstep : Scheduler.step store s now (.fireDue held runId fault) = s' := by
        unfold Scheduler.step perform
        dsimp only
        rw [hp, orElse_ok]
      obtain ⟨-, he⟩ | ⟨row, t, hfound, ht, hle, hfire⟩ := fireDue_ok hp
      · cases he
      obtain ⟨_, he, -⟩ | ⟨db, run, created, -, rfl, he⟩ := fireRow_ok hfire
      · cases he
      cases he
      refine ⟨rfl, hle, ⟨row, hfound, ht⟩, ?_⟩
      rw [hstep]
      intro row' t' hrow' ht'
      have hput : (s.schedules.put (store.successRow row t run.runId now)).find? row.scheduleId =
          some (store.successRow row t run.runId now) := Table.find?_put_self rfl hfound
      have hsame := hput.symm.trans hrow'
      cases hsame
      exact lt_of_le_of_lt (le_max_right _ _) (Calendar.nextFireAt_gt ht')
  | upsert | update | delete | fire | op => cases h

/-- The clock of a schedule. -/
def clock (s : Scheduler) (scheduleId : String) : Option Instant := (s.schedules.find? scheduleId).bind (·.nextFireAt)

/-- The clocks are alarms, which the ticker's fires ring. -/
theorem alarms (store : ScheduleStore) : Alarms (step store) clock (fun s now op => s.tickerFire store now op)
    TickerFire.scheduleId TickerFire.at_ TickerFire.tick where
  stands := by
    intro s now op scheduleId t h
    obtain ⟨row', hrow', ht⟩ := Option.bind_eq_some_iff.1 h
    rcases clock_step hrow' with ⟨row, hrow, hsame⟩ | ⟨hnone, -⟩ | ⟨t', ht', hgt⟩
    · exact Or.inl (Option.bind_eq_some_iff.2 ⟨row, hrow, hsame ▸ ht⟩)
    · rw [hnone] at ht
      cases ht
    · rw [ht] at ht'
      cases ht'
      exact Or.inr hgt
  rings := by
    intro s now op fire h
    obtain ⟨hat, htick, ⟨row, hrow, ht⟩, hbeyond⟩ := tickerFire_spec h
    refine ⟨hat, Option.bind_eq_some_iff.2 ⟨row, hrow, ht⟩, htick, fun t h' => ?_⟩
    obtain ⟨row', hrow', ht'⟩ := Option.bind_eq_some_iff.1 h'
    exact hbeyond row' t hrow' ht'

theorem tickerFires_eq (store : ScheduleStore) (ops : List (Instant × ScheduleOp)) : ∀ s : Scheduler,
    s.tickerFires store ops = Alarms.rung (step store) (fun s now op => s.tickerFire store now op) s ops := by
  induction ops with
  | nil => intro s; rfl
  | cons x ops ih =>
    intro s
    show (s.tickerFire store x.1 x.2).toList ++ tickerFires store (step store s x.1 x.2) ops = _
    rw [ih]
    rfl

end

end Scheduler

/-! ## One run for each key -/

/-- No two runs of a tenant have one idempotency key. -/
def Database.KeysUnique (db : Database) : Prop :=
  ∀ a ∈ db.runs.rows, ∀ b ∈ db.runs.rows, a.tenantId = b.tenantId → a.idempotencyKey = b.idempotencyKey →
    a.idempotencyKey.isSome → a = b

theorem Effect.keysUnique {store : RunStore} {now : Instant} {op : Op} {db db' : Database} {answer : Answer}
    (h : Effect store now op db db' answer) (hu : db.KeysUnique) : db'.KeysUnique := by
  rcases h.runs with ⟨start, queue, strict, -, new, -, he⟩ | ⟨rows, rows', hm, -, hc, -, he⟩
  · have apart : ∀ b ∈ db.runs.rows, b.tenantId = start.tenantId → b.idempotencyKey = start.idempotencyKey →
        start.idempotencyKey.isSome → False := by
      intro b hb ht hk hs
      simp only [Database.conflicts, Bool.or_eq_false_iff, Bool.and_eq_false_iff] at new
      rcases new.2 with hn | hn
      · exact absurd (show start.idempotencyKey.isSome = false from hn) (by simp [hs])
      · have hkeyed : db.keyed start.tenantId start.idempotencyKey = none := by
          simpa [startedRow] using hn
        exact List.find?_eq_none.1 hkeyed b hb (by simpa using ⟨ht, hk⟩)
    intro a ha b hb ht hk hs
    rw [he, Database.rows_start new, List.mem_append, List.mem_singleton] at ha hb
    rcases ha with ha | rfl
    · rcases hb with hb | rfl
      · exact hu a ha b hb ht hk hs
      · exact (apart a ha ht hk (by rw [hk] at hs; exact hs)).elim
    · rcases hb with hb | rfl
      · exact (apart b hb ht.symm hk.symm hs).elim
      · rfl
  · have back : ∀ a ∈ db'.runs.rows, ∃ a₀ ∈ db.runs.rows, a.runId = a₀.runId ∧ a.tenantId = a₀.tenantId ∧
        a.idempotencyKey = a₀.idempotencyKey := by
      intro a ha
      rw [he] at ha
      rcases Table.mem_putAll ha with ha | ⟨ha, -⟩
      · obtain ⟨a₀, ha₀, hch⟩ := exists_of_mem_right hc ha
        exact ⟨a₀, (hm a₀ ha₀).1, hch.runId, hch.tenantId, hch.same.2.2.2.2⟩
      · exact ⟨a, ha, rfl, rfl, rfl⟩
    intro a ha b hb ht hk hs
    obtain ⟨a₀, ha₀, hida, hta, hka⟩ := back a ha
    obtain ⟨b₀, hb₀, hidb, htb, hkb⟩ := back b hb
    have hsame : a₀ = b₀ := hu a₀ ha₀ b₀ hb₀ (by rw [← hta, ← htb, ht]) (by rw [← hka, ← hkb, hk]) (hka ▸ hs)
    exact List.inj_on_of_nodup_map db'.runs.nodup ha hb (by rw [hida, hidb, hsame])

theorem keysUnique_apply {store : RunStore} {now : Instant} {op : Op} {db : Database} (hu : db.KeysUnique) :
    (AgentRuns.apply store db now op).KeysUnique := by
  rcases apply_effect store now op db with h | ⟨answer, h⟩
  · rw [h]
    exact hu
  · exact h.keysUnique hu

theorem apply_start {store : RunStore} {db db' : Database} {start : RunStart} {queue strict created : Bool} {now : Instant}
    {run : RunRecord} (h : db.start start queue strict now = .ok (db', run, created)) :
    AgentRuns.apply store db now (.start start queue strict) = db' := by
  unfold AgentRuns.apply AgentRuns.perform
  dsimp only
  rw [h]
  rfl

namespace Scheduler

/-- What an operation on schedules does to the runs, an operation on runs does. -/
theorem perform_db {store : ScheduleStore} {s s' : Scheduler} {now : Instant} {op : ScheduleOp} {fired : Fired}
    (h : s.perform store now op = .ok (s', fired)) :
    s'.db = s.db ∨ ∃ op, s'.db = AgentRuns.apply store.runs s.db now op := by
  cases op with
  | upsert | update | delete =>
    obtain ⟨_, -, h⟩ := bind_ok.1 h
    cases h
    exact Or.inl rfl
  | fire | fireDue =>
    obtain ⟨rfl, -⟩ | ⟨row, fault, -, h⟩ := perform_fire rfl h
    · exact Or.inl rfl
    obtain ⟨_, -, rfl⟩ | ⟨db, run, created, hstart, rfl, -⟩ := fireRow_ok h
    · exact Or.inl rfl
    · exact Or.inr ⟨_, (apply_start hstart).symm⟩
  | op op =>
    cases h
    exact Or.inr ⟨op, rfl⟩

theorem keysUnique_step {store : ScheduleStore} {s : Scheduler} {now : Instant} {op : ScheduleOp}
    (hu : s.db.KeysUnique) : (step store s now op).db.KeysUnique := by
  unfold step
  cases hp : perform store s now op with
  | error e => exact hu
  | ok p =>
    rw [orElse_ok]
    rcases perform_db hp with he | ⟨op', he⟩
    · rw [he]
      exact hu
    · rw [he]
      exact keysUnique_apply hu

theorem Run.keysUnique {store : ScheduleStore} {ok : Scheduler → Instant → ScheduleOp → Prop} {t t' : Instant}
    {s : Scheduler} (h : Run (step store) ok t Scheduler.empty t' s) : s.db.KeysUnique :=
  h.invariant' (fun s => s.db.KeysUnique) (fun _ _ _ hu _ => keysUnique_step hu) fun _ ha => by cases ha

end Scheduler

/-- **The clock only moves forward, and never backfills.**  In any operations on schedules and runs, at times
that never go back: each leaves a clock as it was, stops it with a manual cadence or sets it past now; the
ticker fires one schedule for later and later instants; whenever an outage ends, at most one tick that came
before is fired after it; and there is at most one run for a schedule and an instant. -/
theorem clock_forward {store : ScheduleStore} {t : Instant} {ops : List (Instant × ScheduleOp)}
    (h : Run.Admitted (Scheduler.step store) anything t Scheduler.empty ops) :
    (∀ (s : Scheduler) now op scheduleId row',
        (Scheduler.step store s now op).schedules.find? scheduleId = some row' →
        (∃ row, s.schedules.find? scheduleId = some row ∧ row'.nextFireAt = row.nextFireAt) ∨ row'.ArmedPast now) ∧
      ((Scheduler.empty.tickerFires store ops).Pairwise fun a b => a.scheduleId = b.scheduleId → a.tick < b.tick) ∧
      (∀ scheduleId back, ((Scheduler.empty.tickerFires store ops).filter fun fire =>
        fire.scheduleId = scheduleId ∧ back ≤ fire.at_ ∧ fire.tick ≤ back).length ≤ 1) ∧
      ∀ tenantId scheduleId instant, ∀ a ∈ (Run.after (Scheduler.step store) Scheduler.empty ops).db.runs.rows,
        ∀ b ∈ (Run.after (Scheduler.step store) Scheduler.empty ops).db.runs.rows,
        (a.tenantId = tenantId ∧ a.idempotencyKey = some (idempotencyKey store.calendar scheduleId instant)) →
        (b.tenantId = tenantId ∧ b.idempotencyKey = some (idempotencyKey store.calendar scheduleId instant)) → a = b := by
  have halarms := Scheduler.alarms store
  refine ⟨fun s now op scheduleId row' => clock_step, ?_, fun scheduleId back => ?_, ?_⟩
  · rw [Scheduler.tickerFires_eq]
    exact halarms.rung_increasing h
  · rw [Scheduler.tickerFires_eq]
    exact halarms.rung_late h scheduleId back
  · intro tenantId scheduleId instant a ha b hb hka hkb
    obtain ⟨t', hrun⟩ := Run.replay h
    exact Scheduler.Run.keysUnique hrun a ha b hb (hka.1.trans hkb.1.symm) (hka.2.trans hkb.2.symm) (by rw [hka.2]; rfl)

/-- An hourly schedule, and a ticker that comes back after three hours. -/
def outage : List (Instant × ScheduleOp) :=
  [(0, .upsert smallSpec "u" "s"), (11000, .fireDue [] "r" none), (11001, .fireDue [] "q" none)]

/-- It fires once, for the tick it missed first. -/
theorem clock_forward_outage : (Scheduler.empty.tickerFires smallSchedules outage).map (·.tick) = [3600] ∧
    ((Scheduler.empty.tickerFires smallSchedules outage).filter fun fire =>
      fire.scheduleId = "s" ∧ 11000 ≤ fire.at_ ∧ fire.tick ≤ 11000).length ≤ 1 := by
  have hadmitted : Run.Admitted (Scheduler.step smallSchedules) anything 0 Scheduler.empty outage := by
    norm_num [outage, Run.Admitted, anything]
  exact ⟨by decide +kernel, (clock_forward hadmitted).2.2.1 "s" 11000⟩

end AgentRuns
