import AgentRuns.Table
import AgentRuns.Answering

/-!
# The tables

`store/tables.py`: a run's row and the rows that hang on it (its resolutions, its event log,
its artifacts), and the database that holds them.  `fits` is what PostgreSQL checks of a row it
is given: the widths of its text columns, no NUL in them or in its JSON, 32-bit integers.
-/

namespace AgentRuns

open Relational

/-- A row of `agent_runs`. -/
structure RunRow where
  runId : String
  tenantId : String
  agentId : String
  status : RunStatus
  parentRunId : Option String
  threadId : Option String
  userId : Option String
  workspaceId : Option String
  onBehalfOf : Option String
  input : Json
  output : Json
  error : Option AgentError
  /-- the interrupt a paused run waits on -/
  awaiting : Option Interrupt
  lastResolution : Option InterruptResolution
  /-- the executor's resume state -/
  checkpoint : Option Json
  assignee : Option String
  awaitingDeadline : Option Instant
  attempt : Nat
  leaseLapses : Nat
  errorRetries : Nat
  deadline : Option Instant
  timeoutSeconds : Option Rat
  /-- the RUNNING stretches that ended -/
  workedSeconds : Rat
  /-- when the stretch going on began -/
  runningSince : Option Instant
  agentVersion : Option String
  priority : Int
  concurrencyKey : Option String
  idempotencyKey : Option String
  runMetadata : Option (List (String × Json))
  /-- when it last entered the queue: set once a run is durable -/
  queuedAt : Option Instant
  /-- a queued run is not claimed before this -/
  availableAt : Option Instant
  leaseOwner : Option String
  leaseExpiresAt : Option Instant
  /-- the worker whose pause, finish or release made the current state -/
  settledBy : Option String
  cancelRequestedAt : Option Instant
  cancelReason : Option String
  cancelledBy : Option String
  createdAt : Instant
  updatedAt : Instant

/-- The JSON of an error is storable. -/
def AgentError.storable (e : AgentError) : Bool :=
  Json.textStorable e.code && Json.textStorable e.message && e.source.all Json.textStorable

/-- The JSON of an interrupt is storable. -/
def Interrupt.storable (i : Interrupt) : Bool :=
  Json.textStorable i.interruptId && i.body.storable && i.assignee.all Json.textStorable && i.escalateTo.all Json.textStorable &&
    i.expects.all Json.storable && i.optionValues.all Json.textStorable && i.toolCall.all Json.storable

/-- The JSON of a resolution is storable. -/
def InterruptResolution.storable (r : InterruptResolution) : Bool :=
  Json.textStorable r.interruptId && Json.storable r.answer && Json.storable r.payload &&
    r.reviewer.all Json.textStorable && r.comment.all Json.textStorable

/-- Does PostgreSQL take the row's columns? -/
def RunRow.fits (row : RunRow) : Bool :=
  fitsVarchar 64 row.runId && fitsVarchar 128 row.tenantId && fitsVarchar 128 row.agentId &&
    fitsVarchar? 64 row.parentRunId && fitsVarchar? 128 row.threadId && fitsVarchar? 128 row.userId &&
    fitsVarchar? 128 row.workspaceId && fitsVarchar? 128 row.onBehalfOf && fitsVarchar? 128 row.agentVersion &&
    fitsVarchar? 200 row.concurrencyKey && fitsVarchar? 255 row.idempotencyKey &&
    Json.storable row.input && Json.storable row.output && row.error.all AgentError.storable &&
    row.awaiting.all Interrupt.storable && row.lastResolution.all InterruptResolution.storable &&
    row.checkpoint.all Json.storable && row.runMetadata.all Json.membersStorable &&
    fitsVarchar? 256 row.assignee && fitsVarchar? 200 row.leaseOwner && fitsVarchar? 200 row.settledBy &&
    fitsVarchar? 1000 row.cancelReason && fitsVarchar? 256 row.cancelledBy

/-- A row of `run_resolutions`. -/
structure ResolutionRow where
  /-- `stable_id(run_id, interrupt_id)` -/
  resolutionId : String
  runId : String
  tenantId : String
  interruptId : String
  decision : InterruptDecision
  reviewer : Option String
  interrupt : Interrupt
  resolution : InterruptResolution
  attempt : Nat
  resolvedAt : Instant
  recordedAt : Instant

/-- Does PostgreSQL take the row?  Every id of `stable_id` fits its column. -/
def ResolutionRow.fits (row : ResolutionRow) : Bool :=
  fitsVarchar 64 row.interruptId && fitsVarchar? 256 row.reviewer &&
    row.resolution.storable

/-- A row of `run_events`. -/
structure RunEventRow where
  runId : String
  position : Nat
  tenantId : String
  attempt : Nat
  sequence : Nat
  event : RunEvent

def RunEventRow.fits (row : RunEventRow) : Bool :=
  decide (row.attempt < 2 ^ 31) && decide (row.sequence < 2 ^ 31) && row.event.body.storable

/-- A row of `run_artifacts`. -/
structure ArtifactRow where
  artifactId : String
  runId : String
  tenantId : String
  blobKey : String
  mime : String
  size : Nat
  checksum : String
  createdAt : Instant
  expiresAt : Option Instant

/-- The database.  A run's events stand in the order they were logged. -/
structure Database where
  runs : Table RunRow.runId
  resolutions : Table ResolutionRow.resolutionId
  events : List RunEventRow
  artifacts : Table ArtifactRow.artifactId

namespace Database

/-- A new deployment's. -/
def empty : Database := ⟨Table.empty, Table.empty, [], Table.empty⟩

/-- The row of a run, as `SELECT … WHERE run_id = :r`. -/
def run? (db : Database) (runId : String) : Option RunRow := db.runs.find? runId

/-- A run's log. -/
def log (db : Database) (runId : String) : List RunEventRow := db.events.filter (·.runId = runId)

/-- A run's answered interrupts. -/
def answered (db : Database) (runId : String) : List ResolutionRow :=
  db.resolutions.rows.filter (·.runId = runId)

end Database

end AgentRuns
