import AgentRuns.Rows

/-!
# Moving a row

The functions at the head of `store/runs.py`, each with what it does when it succeeds
(`move_ok`, `fence_ok`, `heldBy_ok`, `requeue_ok`, `cancelledInstead_some`): the store's
operations are made of these.
-/

namespace AgentRuns

open Relational Fallible

/-! ## Reading a row -/

/-- The run's working time at `now`: its RUNNING stretches that ended, and the one going on. -/
def worked (row : RunRow) (now : Instant) : Rat :=
  match row.runningSince with
  | none => row.workedSeconds
  | some since => row.workedSeconds + max 0 (now - since)

/-- `_record`. -/
def record (row : RunRow) (now : Instant) : RunRecord where
  runId := row.runId
  tenantId := row.tenantId
  agentId := row.agentId
  status := row.status
  parentRunId := row.parentRunId
  threadId := row.threadId
  userId := row.userId
  workspaceId := row.workspaceId
  onBehalfOf := row.onBehalfOf
  input := row.input
  output := row.output
  error := row.error
  awaiting := row.awaiting
  lastResolution := row.lastResolution
  checkpoint := row.checkpoint
  attempt := row.attempt
  deadline := row.deadline
  timeoutSeconds := row.timeoutSeconds
  idempotencyKey := row.idempotencyKey
  agentVersion := row.agentVersion
  priority := row.priority
  concurrencyKey := row.concurrencyKey
  createdAt := row.createdAt
  updatedAt := row.updatedAt
  metadata := row.runMetadata.getD []
  workedSeconds := worked row now

/-- The fields in which a repeated start asks for something other than the run it found, by name:
`_START_FIELDS` compared as JSON, a kept deadline coming back in UTC. -/
def differing (existing : RunRecord) (start : RunStart) (queue queued : Bool) : List String :=
  let kept := existing.deadline.map fun d => AwareDatetime.mk d 0
  let fields : List (String × Bool) := [
    ("agent_id", start.agentId = existing.agentId),
    ("concurrency_key", start.concurrencyKey = existing.concurrencyKey),
    ("deadline", start.deadline = kept),
    ("input", Json.pyEq start.input existing.input),
    ("metadata", Json.pyEqMembers start.metadata existing.metadata),
    ("on_behalf_of", start.onBehalfOf = existing.onBehalfOf),
    ("parent_run_id", start.parentRunId = existing.parentRunId),
    ("priority", start.priority = existing.priority),
    ("thread_id", start.threadId = existing.threadId),
    ("timeout_seconds", start.timeoutSeconds = existing.timeoutSeconds),
    ("user_id", start.userId = existing.userId),
    ("workspace_id", start.workspaceId = existing.workspaceId)]
  let names := (fields.filter fun f => !f.2).map (·.1)
  if queue ≠ queued then names ++ ["queue"] else names

/-! ## The one transition check -/

/-- What a move does to the row. -/
def RunRow.moved (row : RunRow) (t : RunStatus) (now : Instant) : RunRow :=
  { row with
    workedSeconds := worked row now
    runningSince := if t = .RUNNING then some now else none
    status := t
    updatedAt := now
    settledBy := none
    availableAt := if t = .QUEUED then row.availableAt else none
    leaseOwner := if t = .RUNNING then row.leaseOwner else none
    leaseExpiresAt := if t = .RUNNING then row.leaseExpiresAt else none
    cancelRequestedAt := if t = .RUNNING then row.cancelRequestedAt else none
    awaiting := if t = .PAUSED then row.awaiting else none
    assignee := if t = .PAUSED then row.assignee else none
    awaitingDeadline := if t = .PAUSED then row.awaitingDeadline else none
    checkpoint := if t.final then none else row.checkpoint }

def move (row : RunRow) (t : RunStatus) (now : Instant) : Except ServiceError RunRow :=
  if row.status.canBecome t then .ok (row.moved t now)
  else .error (.conflict s!"run {row.runId} cannot move from {row.status.value} to {t.value}")

theorem move_ok {row row' : RunRow} {t : RunStatus} {now : Instant} :
    move row t now = .ok row' ↔ row.status.canBecome t = true ∧ row' = row.moved t now := by
  unfold move
  by_cases h : row.status.canBecome t = true <;> simp [h, eq_comm]

/-! ## What PostgreSQL takes of a moved row -/

section
variable {row : RunRow}

theorem RunRow.fits_moved (h : row.fits = true) (s : RunStatus) (now : Instant) : (row.moved s now).fits = true := by
  simp only [RunRow.fits, RunRow.moved, Bool.and_eq_true] at h ⊢
  obtain ⟨h, hby⟩ := h
  split_ifs <;> simp_all

theorem RunRow.fits_answered (h : row.fits = true) {resolution : InterruptResolution}
    (hr : resolution.storable = true) : { row with lastResolution := some resolution }.fits = true := by
  simp only [RunRow.fits, Bool.and_eq_true] at h ⊢
  simp_all

theorem RunRow.fits_settled (h : row.fits = true) {workerId : Option String}
    (hw : fitsVarchar? 200 workerId = true) : { row with settledBy := workerId }.fits = true := by
  simp only [RunRow.fits, Bool.and_eq_true] at h ⊢
  simp_all

theorem RunRow.fits_holder (h : row.fits = true) : fitsVarchar? 200 row.leaseOwner = true := by
  simp only [RunRow.fits, Bool.and_eq_true] at h
  simp_all

/-- The checkpoint, and what a paused run waits on. -/
theorem RunRow.fits_waiting {checkpoint : Option Json} {awaiting : Option Interrupt} {assignee : Option String}
    {deadline : Option Instant} (h : row.fits = true) :
    { row with checkpoint := checkpoint, awaiting := awaiting, assignee := assignee, awaitingDeadline := deadline }.fits =
      (checkpoint.all Json.storable && awaiting.all Interrupt.storable && fitsVarchar? 256 assignee) := by
  simp only [RunRow.fits, Bool.and_eq_true] at h
  rw [Bool.eq_iff_iff]
  simp only [RunRow.fits, Bool.and_eq_true]
  simp_all
  tauto

theorem RunRow.fits_failed (h : row.fits = true) {error : AgentError} (he : error.storable = true) :
    { row with error := some error }.fits = true := by
  simp only [RunRow.fits, Bool.and_eq_true] at h ⊢
  simp_all

/-- What an ended run leaves. -/
theorem RunRow.fits_ending {output : Json} {error : Option AgentError} (h : row.fits = true) :
    { row with output := output, error := error }.fits = (output.storable && error.all AgentError.storable) := by
  simp only [RunRow.fits, Bool.and_eq_true] at h
  rw [Bool.eq_iff_iff]
  simp only [RunRow.fits, Bool.and_eq_true]
  simp_all

end

/-! ## Who writes -/

/-- The worker, as a refusal names it. -/
def shown (workerId : Option String) : String := workerId.getD ""

/-- A worker's write is taken only while it still holds the run's lease. -/
def fence (row : RunRow) (workerId : Option String) : Except ServiceError Unit :=
  refuse (workerId ≠ none ∧ row.leaseOwner ≠ workerId)
    (.leaseLost s!"worker {shown workerId} does not hold the lease on run {row.runId}")

theorem fence_ok {row : RunRow} {workerId : Option String} {u : Unit} :
    fence row workerId = .ok u ↔ (workerId = none ∨ row.leaseOwner = workerId) := by
  unfold fence
  rw [refuse_ok]
  tauto

/-- A running run is written by the worker holding its lease, or, when none does, by a caller
that names none. -/
def heldBy (row : RunRow) (workerId : Option String) : Except ServiceError Unit := do
  refuse (workerId = none ∧ row.leaseOwner ≠ none)
    (.conflict s!"run {row.runId} is leased: only its lease holder writes to it")
  refuse (workerId ≠ row.leaseOwner)
    (.leaseLost s!"worker {shown workerId} does not hold the lease on run {row.runId}")

theorem heldBy_ok {row : RunRow} {workerId : Option String} {u : Unit} :
    heldBy row workerId = .ok u ↔ workerId = row.leaseOwner := by
  unfold heldBy
  rw [bind_ok]
  simp only [refuse_ok]
  constructor
  · rintro ⟨-, -, h⟩
    simpa using h
  · rintro rfl
    exact ⟨(), by simp, by simp⟩

/-- Is the run already in `status`, put there by this caller? -/
def settled (row : RunRow) (status : RunStatus) (workerId : Option String) : Bool :=
  row.status = status ∧ row.settledBy = workerId

theorem settled_iff {row : RunRow} {status : RunStatus} {workerId : Option String} :
    settled row status workerId = true ↔ row.status = status ∧ row.settledBy = workerId := by
  simp [settled]

/-- The one id an interrupt's answer is kept under. -/
def resolutionId (lib : Libraries) (resolution : InterruptResolution) : String :=
  lib.stableId "res_" [.text resolution.runId, .text resolution.interruptId]

/-! ## Back on the queue, or ended -/

/-- What a requeue does to the row. -/
def RunRow.requeued (row : RunRow) (now : Instant) (wait : Option Rat) : RunRow :=
  { row.moved .QUEUED now with
    attempt := row.attempt + 1
    queuedAt := some now
    availableAt := wait.map (now + ·) }

def requeue (row : RunRow) (now : Instant) (wait : Option Rat) : Except ServiceError RunRow := do
  let moved ← move row .QUEUED now
  .ok { moved with
    attempt := moved.attempt + 1
    queuedAt := some now
    availableAt := wait.map (now + ·) }

theorem requeue_ok {row row' : RunRow} {now : Instant} {wait : Option Rat} :
    requeue row now wait = .ok row' ↔ row.status.canBecome .QUEUED = true ∧ row' = row.requeued now wait := by
  unfold requeue
  rw [bind_ok]
  simp only [move_ok]
  constructor
  · rintro ⟨_, ⟨h, rfl⟩, h'⟩
    cases h'
    exact ⟨h, rfl⟩
  · rintro ⟨h, rfl⟩
    exact ⟨_, ⟨h, rfl⟩, rfl⟩

/-- Does this ending put the run back on the queue instead? -/
def retried (row : RunRow) (ending : RunFinish) : Bool :=
  ending.status = .ERROR && ending.error.any (·.retryable) && row.status = .RUNNING && row.queuedAt.isSome &&
    decide (row.errorRetries < maxErrorRetries) && row.cancelRequestedAt.isNone

/-- A running run whose cancel was asked for ends `CANCELLED` where it would otherwise pause or go
back on the queue: the ended row, `none` for any other run. -/
def cancelledInstead (row : RunRow) (now : Instant) : Except ServiceError (Option RunRow) :=
  if row.cancelRequestedAt.isNone then .ok none
  else do
    let ended ← move row .CANCELLED now
    .ok (some ended)

theorem cancelledInstead_none {row : RunRow} {now : Instant} :
    cancelledInstead row now = .ok none ↔ row.cancelRequestedAt = none := by
  unfold cancelledInstead
  split
  · next h => simpa using h
  · next h =>
    simp only [bind_ok, move_ok]
    simp at h
    simp [h]

theorem cancelledInstead_some {row row' : RunRow} {now : Instant} :
    cancelledInstead row now = .ok (some row') ↔
      row.cancelRequestedAt.isSome ∧ row.status.canBecome .CANCELLED = true ∧ row' = row.moved .CANCELLED now := by
  unfold cancelledInstead
  split
  · next h =>
    simp at h
    simp [h]
  · next h =>
    have hs : row.cancelRequestedAt.isSome = true := by
      cases hc : row.cancelRequestedAt <;> simp_all
    simp only [bind_ok, move_ok, hs, true_and]
    constructor
    · rintro ⟨_, ⟨hb, rfl⟩, h'⟩
      cases h'
      exact ⟨hb, rfl⟩
    · rintro ⟨hb, rfl⟩
      exact ⟨_, ⟨hb, rfl⟩, rfl⟩

/-- The error a run ends with, saying how often it was retried before it. -/
def counted (error : Option AgentError) (retries : Nat) : Option AgentError :=
  if retries = 0 then error
  else error.map fun e =>
    { e with message := s!"{e.message} (after {retries} of {maxErrorRetries} retries)" }

/-! ## The lease -/

/-- What leasing the run does to the row: the lease runs from the cancel request when there is
one, else from now. -/
def RunRow.leased (row : RunRow) (workerId : String) (seconds : LeaseSeconds) (now : Instant) : RunRow :=
  { row with
    leaseOwner := some workerId
    leaseExpiresAt := some (row.cancelRequestedAt.getD now + seconds.val) }

/-- An error this service ends a run with (`AgentError(…, category=TIMEOUT, source="agent-runs")`). -/
def ownError (code message : String) (retryable : Bool) : AgentError :=
  ⟨code, .TIMEOUT, message, retryable, some "agent-runs"⟩

end AgentRuns
