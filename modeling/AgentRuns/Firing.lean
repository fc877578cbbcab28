import AgentRuns.Schedules
import AgentRuns.Effects

/-!
# Firing a schedule

`firing.py`: a fire queues the run of one tick and advances the schedule, in one transaction.  The run's
idempotency key is the schedule and the instant, so a repeated fire for one tick finds the run of the first.
A run that PostgreSQL does not take (`fault` is what it raised) is a failure the schedule records.

The service's schedules as a system: `ScheduleOp` is what may happen to them, `Scheduler.step` what it leaves.
-/

namespace AgentRuns

open Relational Fallible

/-- The database with its schedules. -/
structure Scheduler where
  db : Database
  schedules : Table ScheduleRow.scheduleId

/-- `idempotency_key`: one schedule, one instant, one run. -/
def idempotencyKey (calendar : Calendar) (scheduleId : String) (fireTime : Instant) : String :=
  scheduleId ++ "@" ++ calendar.isoformat ⟨fireTime, 0⟩

theorem idempotencyKey_injective {calendar : Calendar} {scheduleId : String} {t t' : Instant}
    (h : idempotencyKey calendar scheduleId t = idempotencyKey calendar scheduleId t') : t = t' := by
  have h := congrArg String.toList h
  simp only [idempotencyKey, String.toList_append, List.append_cancel_left_eq] at h
  exact congrArg AwareDatetime.at_ (calendar.isoformat_injective (String.toList_inj.1 h))

theorem idempotencyKey_ne_empty (calendar : Calendar) (scheduleId : String) (t : Instant) :
    idempotencyKey calendar scheduleId t ≠ "" := by
  intro h
  have h := congrArg String.toList h
  simp [idempotencyKey] at h

/-- `_thread`: the conversation the schedule's runs are turns of. -/
def thread (row : ScheduleRow) : Option String :=
  match (row.scheduleMetadata.getD []).find? fun m => m.1 = "thread_id" with
  | some (_, .str thread) => if thread = "" then none else some thread
  | _ => none

/-- The run of a tick, its id minted: the schedule's own, under the fire's keys. -/
def fireStart (calendar : Calendar) (row : ScheduleRow) (fireTime : AwareDatetime) (runId : String) : RunStart where
  runId := runId
  tenantId := row.tenantId
  agentId := row.agentId
  parentRunId := none
  threadId := thread row
  userId := none
  workspaceId := row.workspaceId
  onBehalfOf := some row.onBehalfOf
  input := row.input
  deadline := none
  timeoutSeconds := row.timeoutSeconds
  idempotencyKey := some (idempotencyKey calendar row.scheduleId fireTime.at_)
  agentVersion := row.agentVersion
  priority := row.priority
  concurrencyKey := row.concurrencyKey
  metadata := mergeMembers (row.scheduleMetadata.getD [])
    [("schedule_id", .str row.scheduleId), ("schedule_name", .str row.name),
      ("fire_time", .str (calendar.isoformat fireTime)), ("created_by", (row.createdBy.map Json.str).getD .null)]

structure FireResult where
  scheduleId : String
  runId : String
  fireTime : Instant
  idempotencyKey : String

/-- What a fire that commits answers: the run queued, `FireFailed`, or nothing that is due. -/
inductive Fired where
  | fired (result : FireResult)
  | failed (scheduleId : String) (error : AgentError)
  | idle

def Fired.result? : Fired → Option FireResult
  | fired result => some result
  | _ => none

/-- What a refused value is recorded as. -/
def refusedError (detail : String) : AgentError := ⟨"DBAPIError", .DEPENDENCY, detail, false, some "agent-runs"⟩

namespace Scheduler

/-- A new deployment. -/
def empty : Scheduler := ⟨Database.empty, Table.empty⟩

/-- The schedule with its row written. -/
def put (s : Scheduler) (row : ScheduleRow) : Except ServiceError Scheduler := do
  refuse (row.fits = false) (.internal "the database refused a value")
  .ok { s with schedules := s.schedules.put row }

/-- A fire that failed. -/
def recordFailure (s : Scheduler) (row : ScheduleRow) (error : AgentError) (now : Instant) :
    Except ServiceError (Scheduler × Fired) := do
  let s ← s.put (ScheduleStore.failureRow row error now)
  .ok (s, .failed row.scheduleId error)

/-- `_fire`. -/
def fireRow (s : Scheduler) (store : ScheduleStore) (row : ScheduleRow) (fireTime : AwareDatetime) (runId : String)
    (fault : Option AgentError) (now : Instant) : Except ServiceError (Scheduler × Fired) :=
  match fault with
  | some error => s.recordFailure row error now
  | none =>
    match s.db.start (fireStart store.calendar row fireTime runId) true false now with
    | .error error =>
      if error.code = .INTERNAL then s.recordFailure row (refusedError error.detail) now else .error error
    | .ok (db, run, _) => do
      let s ← { s with db := db }.put (store.successRow row fireTime.at_ run.runId now)
      .ok (s, .fired
        { scheduleId := row.scheduleId
          runId := run.runId
          fireTime := fireTime.at_
          idempotencyKey := idempotencyKey store.calendar row.scheduleId fireTime.at_ })

/-- `Firing.fire`: for `at`, else for the tick it is due for, else for now. -/
def fire (s : Scheduler) (store : ScheduleStore) (tenantId scheduleId : String) (at_ : Option AwareDatetime)
    (runId : String) (fault : Option AgentError) (now : Instant) : Except ServiceError (Scheduler × Fired) := do
  let row ← ScheduleStore.row s.schedules tenantId scheduleId
  refuse (row.enabled = false) (.conflict s!"schedule {scheduleId} is paused and will not fire")
  refuse (at_.any fun a => now + maxFireSkew < a.at_)
    (.unprocessable ("fire time " ++ (at_.map store.calendar.isoformat).getD "" ++ " has not arrived " ++
      s!"(now {store.calendar.isoformat ⟨now, 0⟩}): a fire is for a tick that has come due"))
  let tick := (row.nextFireAt.filter (· ≤ now)).getD now
  s.fireRow store row (at_.getD ⟨tick, 0⟩) runId fault now

/-- `Firing.fire_due`: the most overdue schedule, for its own tick. -/
def fireDue (s : Scheduler) (store : ScheduleStore) (held : List String) (runId : String) (fault : Option AgentError)
    (now : Instant) : Except ServiceError (Scheduler × Fired) :=
  match ScheduleStore.claimDue s.schedules held now with
  | none => .ok (s, .idle)
  | some row =>
    match row.nextFireAt with
    | none => .ok (s, .idle)
    | some t => s.fireRow store row ⟨t, 0⟩ runId fault now

end Scheduler

/-! ## The system -/

/-- What may happen to the schedules and the runs. -/
inductive ScheduleOp where
  | upsert (spec : ScheduleSpec) (createdBy scheduleId : String)
  | update (tenantId scheduleId : String) (change : ScheduleUpdate)
  | delete (tenantId scheduleId : String)
  | fire (tenantId scheduleId : String) (at_ : Option AwareDatetime) (runId : String) (fault : Option AgentError)
  | fireDue (held : List String) (runId : String) (fault : Option AgentError)
  | op (op : Op)

namespace Scheduler

/-- A change of the schedules alone. -/
def scheduling {α : Type} (s : Scheduler) (schedules : α → Table ScheduleRow.scheduleId) (done : Except ServiceError α) :
    Except ServiceError (Scheduler × Fired) := do
  let a ← done
  .ok ({ s with schedules := schedules a }, .idle)

def perform (store : ScheduleStore) (s : Scheduler) (now : Instant) (op : ScheduleOp) :
    Except ServiceError (Scheduler × Fired) :=
  match op with
  | .upsert spec createdBy scheduleId => s.scheduling (·.1) (store.upsert s.schedules spec createdBy scheduleId now)
  | .update tenantId scheduleId change => s.scheduling id (store.update s.schedules tenantId scheduleId change now)
  | .delete tenantId scheduleId => s.scheduling id (ScheduleStore.delete s.schedules tenantId scheduleId)
  | .fire tenantId scheduleId at_ runId fault => s.fire store tenantId scheduleId at_ runId fault now
  | .fireDue held runId fault => s.fireDue store held runId fault now
  | .op op => .ok ({ s with db := AgentRuns.apply store.runs s.db now op }, .idle)

/-- The state after an operation; one that is refused rolls back. -/
def step (store : ScheduleStore) (s : Scheduler) (now : Instant) (op : ScheduleOp) : Scheduler :=
  orElse s (perform store s now op)

end Scheduler

end AgentRuns
