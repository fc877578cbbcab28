import AgentRuns.Moves

/-!
# The operations on one run

`RunStore.start` to `RunStore.finish`, `heartbeat` and `release`.  Each is one transaction: it
locks the run's row (`Database.locked`), decides on the row alone what becomes of it (`pauseRow`,
`cancelRow`, `finishRow`, `releaseRow`: `none` is a repeat), and writes it back
(`Database.changing`).  A refused operation returns no database: its transaction rolls back.
-/

namespace AgentRuns

open Relational Fallible

/-- A `RunStore`'s limits, and the libraries it calls. -/
structure RunStore where
  lib : Libraries
  maxRunSeconds : Option Rat
  perKey : Nat
  perTenant : Option Nat

/-- `_limit`: the most working time the run may take. -/
def RunStore.limit (store : RunStore) (row : RunRow) : Option Rat :=
  match row.timeoutSeconds, store.maxRunSeconds with
  | some own, some most => some (min own most)
  | some own, none => some own
  | none, most => most

/-- `_lease`: the row leased, and what the worker is told of it. -/
def RunStore.lease (store : RunStore) (row : RunRow) (workerId : String) (seconds : LeaseSeconds) (now : Instant) :
    RunRow × Lease :=
  (row.leased workerId seconds now,
    { runId := row.runId
      workerId := workerId
      expiresAt := row.cancelRequestedAt.getD now + seconds.val
      remainingSeconds := (store.limit row).map fun limit => max 0 (limit - worked row now)
      cancelRequested := row.cancelRequestedAt.isSome })

namespace Database

/-! ## Reading and writing -/

/-- `_one(tenant_id = …, run_id = …)`. -/
def one (db : Database) (tenantId runId : String) : Option RunRow :=
  (db.run? runId).filter fun row => row.tenantId = tenantId

theorem one_eq_some {db : Database} {tenantId runId : String} {row : RunRow} :
    db.one tenantId runId = some row ↔ db.run? runId = some row ∧ row.tenantId = tenantId := by
  simp [one, Option.filter_eq_some_iff]

/-- `_locked`: the row, and with `workerId` only while that worker holds its lease. -/
def locked (db : Database) (tenantId runId : String) (workerId : Option String) : Except ServiceError RunRow :=
  match db.one tenantId runId with
  | none => .error (.notFound s!"no run {runId}")
  | some row => do
    fence row workerId
    .ok row

theorem locked_ok {db : Database} {tenantId runId : String} {workerId : Option String} {row : RunRow} :
    db.locked tenantId runId workerId = .ok row ↔
      (db.run? runId = some row ∧ row.tenantId = tenantId) ∧ (workerId = none ∨ row.leaseOwner = workerId) := by
  unfold locked
  rw [← one_eq_some]
  split
  · next h => simp [h]
  · next row' h =>
    simp only [bind_ok, fence_ok, h, Option.some.injEq]
    constructor
    · rintro ⟨-, hw, he⟩
      cases he
      exact ⟨rfl, hw⟩
    · rintro ⟨rfl, hw⟩
      exact ⟨(), hw, rfl⟩

/-- Write rows back, unless PostgreSQL refuses one. -/
def flush (db : Database) (rows : List RunRow) : Except ServiceError Database := do
  refuse (rows.all RunRow.fits = false) (.internal "the database refused a value")
  .ok { db with runs := db.runs.putAll rows }

theorem flush_ok {db db' : Database} {rows : List RunRow} :
    db.flush rows = .ok db' ↔ (∀ row ∈ rows, row.fits = true) ∧ db' = { db with runs := db.runs.putAll rows } := by
  unfold flush
  simp only [bind_ok, refuse_ok, Bool.not_eq_false, List.all_eq_true]
  constructor
  · rintro ⟨-, h, he⟩
    cases he
    exact ⟨h, rfl⟩
  · rintro ⟨h, rfl⟩
    exact ⟨(), h, rfl⟩

/-- `_ended`: the artifacts of the runs among `rows` that ended start their retention. -/
def ended (db : Database) (rows : List RunRow) (now : Instant) : Database :=
  let gone := (rows.filter (·.status.final)).map RunRow.runId
  { db with
    artifacts := db.artifacts.modify
      (fun a => if a.runId ∈ gone ∧ a.expiresAt = none then { a with expiresAt := some (now + artifactRetention) }
        else a)
      (fun a => by split <;> rfl) }

@[simp] theorem ended_resolutions (db : Database) (rows : List RunRow) (now : Instant) :
    (db.ended rows now).resolutions = db.resolutions := rfl

/-- One operation on a run: lock its row, decide, write it back.  `_ended` does nothing for a
run that did not end, so every operation may call it. -/
def changing (db : Database) (tenantId runId : String) (now : Instant)
    (decide : RunRow → Except ServiceError (Option RunRow)) : Except ServiceError (Database × RunRecord × Bool) := do
  let row ← db.locked tenantId runId none
  match ← decide row with
  | none => .ok (db, record row now, false)
  | some row' => do
    let db ← db.flush [row']
    .ok (db.ended [row'] now, record row' now, true)

theorem changing_ok {db db' : Database} {tenantId runId : String} {now : Instant}
    {decide : RunRow → Except ServiceError (Option RunRow)} {run : RunRecord} {changed : Bool} :
    db.changing tenantId runId now decide = .ok (db', run, changed) ↔
      ∃ row, (db.run? runId = some row ∧ row.tenantId = tenantId) ∧
        ((decide row = .ok none ∧ db' = db ∧ run = record row now ∧ changed = false) ∨
          ∃ row', decide row = .ok (some row') ∧ row'.fits = true ∧
            db' = { db with runs := db.runs.put row' }.ended [row'] now ∧ run = record row' now ∧ changed = true) := by
  unfold changing
  simp only [bind_ok, locked_ok]
  constructor
  · rintro ⟨row, ⟨hrow, -⟩, d, hd, h⟩
    refine ⟨row, hrow, ?_⟩
    cases d with
    | none =>
      cases h
      exact Or.inl ⟨hd, rfl, rfl, rfl⟩
    | some row' =>
      obtain ⟨_, hf, h⟩ := bind_ok.1 h
      obtain ⟨hfit, rfl⟩ := flush_ok.1 hf
      cases h
      exact Or.inr ⟨row', hd, hfit row' List.mem_cons_self, rfl, rfl, rfl⟩
  · rintro ⟨row, hrow, ⟨hd, rfl, rfl, rfl⟩ | ⟨row', hd, hfit, rfl, rfl, rfl⟩⟩
    · exact ⟨row, ⟨hrow, Or.inl trivial⟩, none, hd, rfl⟩
    · refine ⟨row, ⟨hrow, Or.inl trivial⟩, some row', hd, bind_ok.2 ⟨_, flush_ok.2 ⟨?_, rfl⟩, rfl⟩⟩
      simpa using hfit

end Database

/-! ## Starting -/

/-- The row a start inserts. -/
def startedRow (start : RunStart) (queue : Bool) (now : Instant) : RunRow where
  runId := start.runId
  tenantId := start.tenantId
  agentId := start.agentId
  status := if queue then .QUEUED else .RUNNING
  parentRunId := start.parentRunId
  threadId := start.threadId
  userId := start.userId
  workspaceId := start.workspaceId
  onBehalfOf := start.onBehalfOf
  input := start.input
  output := .null
  error := none
  awaiting := none
  lastResolution := none
  checkpoint := none
  assignee := none
  awaitingDeadline := none
  attempt := 1
  leaseLapses := 0
  errorRetries := 0
  deadline := start.deadline.map (·.at_)
  timeoutSeconds := start.timeoutSeconds
  workedSeconds := 0
  runningSince := if queue then none else some now
  agentVersion := start.agentVersion
  priority := start.priority
  concurrencyKey := start.concurrencyKey
  idempotencyKey := start.idempotencyKey
  runMetadata := if start.metadata.isEmpty then none else some start.metadata
  queuedAt := if queue then some now else none
  availableAt := none
  leaseOwner := none
  leaseExpiresAt := none
  settledBy := none
  cancelRequestedAt := none
  cancelReason := none
  cancelledBy := none
  createdAt := now
  updatedAt := now

namespace Database

/-- The run of an idempotency key. -/
def keyed (db : Database) (tenantId : String) (key : Option String) : Option RunRow :=
  db.runs.rows.find? fun row => row.tenantId = tenantId ∧ row.idempotencyKey = key

/-- Does a unique constraint stand in the row's way? -/
def conflicts (db : Database) (row : RunRow) : Bool :=
  (db.run? row.runId).isSome ||
    (row.idempotencyKey.isSome && (db.keyed row.tenantId row.idempotencyKey).isSome)

/-- What a start that inserted nothing answers. -/
def startedBefore (db : Database) (start : RunStart) (queue strict : Bool) (now : Instant) :
    Except ServiceError RunRecord :=
  let byId := match db.one start.tenantId start.runId with
    | some existing => .ok (record existing now)
    | none => .error (.conflict "this run_id cannot be used: send another, or none and one is minted")
  match start.idempotencyKey with
  | none => byId
  | some key =>
    match if key = "" then none else db.keyed start.tenantId (some key) with
    | none => byId
    | some row =>
      let found := record row now
      let names := differing found start queue row.queuedAt.isSome
      let listed := ", ".intercalate names
      if strict ∧ names ≠ [] then
        .error ⟨.CONFLICT, s!"idempotency_key '{key}' started a different run: {listed} differ", names⟩
      else .ok found

/-- `RunStore.start`. -/
def start (db : Database) (start : RunStart) (queue strict : Bool) (now : Instant) :
    Except ServiceError (Database × RunRecord × Bool) := do
  let row := startedRow start queue now
  refuse (row.fits = false) (.internal "the database refused a value")
  if db.conflicts row then do
    let found ← db.startedBefore start queue strict now
    .ok (db, found, false)
  else .ok ({ db with runs := db.runs.insert row }, record row now, true)

end Database

/-! ## Pausing and resuming -/

/-- What a pause makes of the row. -/
def pauseRow (row : RunRow) (interrupt : Interrupt) (checkpoint : Option Json) (workerId : Option String)
    (now : Instant) : Except ServiceError (Option RunRow) :=
  if settled row .PAUSED workerId ∧ row.awaiting.map (·.interruptId) = some interrupt.interruptId then .ok none
  else do
    fence row workerId
    match ← cancelledInstead row now with
    | some ended => .ok (some { ended with settledBy := workerId })
    | none => do
      let paused ← move row .PAUSED now
      .ok (some { paused with
        checkpoint := checkpoint
        awaiting := some interrupt
        assignee := interrupt.assignee
        awaitingDeadline := interrupt.deadline
        settledBy := workerId })

/-- What an answer makes of the row. -/
def resumeRow (row : RunRow) (resolution : InterruptResolution) (now : Instant) : Except ServiceError RunRow :=
  let row := { row with lastResolution := some resolution }
  if resolution.decision = .CANCEL then move row .CANCELLED now
  else if row.queuedAt.isSome then requeue row now none
  else do
    let running ← move row .RUNNING now
    .ok { running with attempt := running.attempt + 1 }

namespace RunStore

def pause (store : RunStore) (db : Database) (tenantId runId : String) (pause : RunPause)
    (workerId : Option String) (now : Instant) : Except ServiceError (Database × RunRecord × Bool) := do
  let interrupt := pause.interrupt
  refuse (interrupt.tenantId ≠ tenantId ∨ interrupt.runId ≠ runId)
    (.unprocessable "the interrupt belongs to another run")
  refuse (schemaProblem store.lib interrupt.expects ≠ none)
    (.unprocessable ((schemaProblem store.lib interrupt.expects).getD ""))
  let checkpoint ← boundedCheckpoint pause.checkpoint
  db.changing tenantId runId now fun row => pauseRow row interrupt checkpoint workerId now

/-- `_answered_by`. -/
def answeredBy (store : RunStore) (db : Database) (tenantId : String) (resolution : InterruptResolution) : Bool :=
  match db.resolutions.find? (resolutionId store.lib resolution) with
  | none => false
  | some kept => kept.tenantId = tenantId && kept.resolution.sameJson resolution

/-- The row an answer is kept as. -/
def resolutionRow (store : RunStore) (row : RunRow) (asked : Interrupt) (resolution : InterruptResolution)
    (now : Instant) : ResolutionRow where
  resolutionId := resolutionId store.lib resolution
  runId := row.runId
  tenantId := row.tenantId
  interruptId := resolution.interruptId
  decision := resolution.decision
  reviewer := resolution.reviewer
  interrupt := asked
  resolution := resolution
  attempt := row.attempt
  resolvedAt := resolution.resolvedAt.at_
  recordedAt := now

def resume (store : RunStore) (db : Database) (tenantId runId : String) (resolution : InterruptResolution)
    (answerer : KeyInfo) (now : Instant) : Except ServiceError (Database × RunRecord × Bool) := do
  refuse (resolution.runId ≠ runId) (.unprocessable "the resolution answers another run")
  let row ← db.locked tenantId runId none
  match row.awaiting.filter (·.interruptId = resolution.interruptId) with
  | none =>
    if store.answeredBy db tenantId resolution then .ok (db, record row now, false)
    else if row.status ≠ .PAUSED then
      .error (.conflict s!"run {runId} is {row.status.value}, not waiting on an answer")
    else .error (.conflict s!"run {runId} is waiting on another interrupt")
  | some asked => do
    requireMayAnswer answerer asked.assignee resolution.reviewer
    match ← answerProblem store.lib asked resolution with
    | some problem => .error (.unprocessable problem)
    | none => do
      let resumed ← resumeRow row resolution now
      let kept := store.resolutionRow row asked resolution now
      refuse ((db.resolutions.find? kept.resolutionId).isSome)
        (.internal "duplicate key value violates unique constraint \"run_resolutions_pkey\"")
      refuse (kept.fits = false) (.internal "the database refused a value")
      let db ← db.flush [resumed]
      .ok ({ db with resolutions := db.resolutions.insert kept }.ended [resumed] now, record resumed now, true)

end RunStore

/-! ## Ending -/

/-- What a cancel makes of the row. -/
def cancelRow (row : RunRow) (cancel : RunCancel) (canceller : KeyInfo) (now : Instant) :
    Except ServiceError (Option RunRow) := do
  requireMayCancel canceller row.assignee
  let asked := row.cancelledBy = some canceller.principal ∧ row.cancelReason = cancel.reason
  if row.cancelRequestedAt.isSome ∨ (row.status = .CANCELLED ∧ asked) then .ok none
  else if row.status = .RUNNING ∧ row.leaseOwner.isSome then
    .ok (some { row with
      cancelRequestedAt := some now
      updatedAt := now
      cancelReason := cancel.reason
      cancelledBy := some canceller.principal })
  else do
    let ended ← move row .CANCELLED now
    .ok (some { ended with cancelReason := cancel.reason, cancelledBy := some canceller.principal })

/-- What a finish makes of the row. -/
def finishRow (row : RunRow) (ending : RunFinish) (workerId : Option String) (draw : Draw) (now : Instant) :
    Except ServiceError (Option RunRow) :=
  if settled row ending.status workerId ∨
      (ending.status = .ERROR ∧ workerId ≠ none ∧ settled row .QUEUED workerId) then .ok none
  else do
    fence row workerId
    if retried row ending then do
      let failed := { row with errorRetries := row.errorRetries + 1 }
      let wait := backoff errorRetryBase failed.errorRetries errorRetryCap
      let requeued ← requeue failed now (some (jittered wait draw))
      .ok (some { requeued with settledBy := workerId })
    else do
      let ended ← move row ending.status now
      .ok (some { ended with
        output := ending.output
        error := counted ending.error row.errorRetries
        settledBy := workerId })

/-- What a release makes of the row. -/
def releaseRow (row : RunRow) (workerId : String) (checkpoint : Option Json) (now : Instant) :
    Except ServiceError (Option RunRow) :=
  if settled row .QUEUED (some workerId) then .ok none
  else do
    fence row (some workerId)
    match ← cancelledInstead row now with
    | some ended => .ok (some { ended with settledBy := some workerId })
    | none => do
      let requeued ← requeue row now none
      .ok (some { requeued with
        checkpoint := checkpoint.or requeued.checkpoint
        settledBy := some workerId })

namespace Database

def cancel (db : Database) (tenantId runId : String) (cancel : RunCancel) (canceller : KeyInfo) (now : Instant) :
    Except ServiceError (Database × RunRecord × Bool) :=
  db.changing tenantId runId now fun row => cancelRow row cancel canceller now

def finish (db : Database) (tenantId runId : String) (ending : RunFinish) (workerId : Option String) (draw : Draw)
    (now : Instant) : Except ServiceError (Database × RunRecord × Bool) :=
  db.changing tenantId runId now fun row => finishRow row ending workerId draw now

def release (db : Database) (tenantId runId : String) (request : ReleaseRequest) (now : Instant) :
    Except ServiceError (Database × RunRecord × Bool) := do
  let checkpoint ← boundedCheckpoint request.checkpoint
  db.changing tenantId runId now fun row => releaseRow row request.workerId checkpoint now

end Database

/-! ## The heartbeat -/

/-- The row with its progress saved. -/
def RunRow.saved (row : RunRow) (checkpoint : Option Json) (now : Instant) : RunRow :=
  match checkpoint with
  | none => row
  | some c => { row with checkpoint := some c, updatedAt := now }

def RunStore.heartbeat (store : RunStore) (db : Database) (tenantId runId : String) (request : HeartbeatRequest)
    (now : Instant) : Except ServiceError (Database × Lease) := do
  let checkpoint ← boundedCheckpoint request.checkpoint
  let row ← db.locked tenantId runId (some request.workerId)
  refuse (row.status ≠ .RUNNING) (.leaseLost s!"run {runId} is {row.status.value}: no lease to extend")
  let (leased, lease) := store.lease (row.saved checkpoint now) request.workerId request.leaseSeconds now
  let db ← db.flush [leased]
  .ok (db, lease)

end AgentRuns
