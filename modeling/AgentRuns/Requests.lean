import AgentRuns.Contracts
import AgentRuns.Fallible
import Mathlib.Tactic.Linarith

/-!
# The service's own requests, its errors and its constants

`config/constants.py`, `domain/errors.py`, `domain/runs.py` and the backoff of `retry.py`.
A request that pydantic bounds carries its bounds: a lease is 5 to 3600 s, a finish names an
ending, an append carries 1 to 500 events.
-/

namespace AgentRuns

open Fallible

/-! ## Constants -/

def maxCheckpointBytes : Nat := 1024 * 1024
def maxEventsPerAppend : Nat := 500
/-- `ARTIFACT_RETENTION`, 7 days. -/
def artifactRetention : Rat := 7 * 24 * 3600
def pausedArtifactRole : String := "service"
def minLeaseSeconds : Nat := 5
def maxLeaseSeconds : Nat := 3600
def maxLeaseLapses : Nat := 5
def lapseRetryBase : Rat := 5
def lapseRetryCap : Rat := 60
def maxErrorRetries : Nat := 3
def errorRetryBase : Rat := 10
def errorRetryCap : Rat := 600
/-- `MAX_PAGE`, the page a followed stream reads. -/
def maxPage : Nat := 500

/-! ## Errors -/

inductive ErrorCode where
  | VALIDATION | AUTHORIZATION | NOT_FOUND | CONFLICT | LEASE_LOST | PAYLOAD_TOO_LARGE | INTERNAL
deriving DecidableEq

/-- One failure: its stable code, the sentence, and the fields a repeated start differs in. -/
structure ServiceError where
  code : ErrorCode
  detail : String
  differing : List String

namespace ServiceError

def notFound (detail : String) : ServiceError := ⟨.NOT_FOUND, detail, []⟩
def conflict (detail : String) : ServiceError := ⟨.CONFLICT, detail, []⟩
def leaseLost (detail : String) : ServiceError := ⟨.LEASE_LOST, detail, []⟩
def forbidden (detail : String) : ServiceError := ⟨.AUTHORIZATION, detail, []⟩
def unprocessable (detail : String) : ServiceError := ⟨.VALIDATION, detail, []⟩
def tooLarge (detail : String) : ServiceError := ⟨.PAYLOAD_TOO_LARGE, detail, []⟩
/-- What no handler expects: PostgreSQL refusing a statement, a library raising. -/
def internal (detail : String) : ServiceError := ⟨.INTERNAL, detail, []⟩

end ServiceError

/-! ## Requests -/

/-- The checkpoint, refused past `MAX_CHECKPOINT_BYTES` of compact JSON. -/
def boundedCheckpoint (checkpoint : Option Json) : Except ServiceError (Option Json) :=
  match checkpoint with
  | none => .ok none
  | some c =>
    if c.dumpsSize > maxCheckpointBytes then
      .error (.tooLarge
        s!"checkpoint is {c.dumpsSize} bytes; the most a run keeps is {maxCheckpointBytes}")
    else .ok (some c)

theorem boundedCheckpoint_ok {c c' : Option Json} (h : boundedCheckpoint c = .ok c') : c' = c := by
  unfold boundedCheckpoint at h
  split at h
  · cases h; rfl
  · split at h
    · cases h
    · cases h; rfl

structure RunPause where
  interrupt : Interrupt
  checkpoint : Option Json

/-- How a run ended: `status` is an ending, and only a failed one carries an error. -/
structure RunFinish where
  status : RunStatus
  output : Json
  error : Option AgentError
  isAnEnding : status.final = true
  errorOnFailure : error.isSome → status = .ERROR ∨ status = .TIMEOUT ∨ status = .REJECTED

structure RunCancel where
  reason : Option String

/-- `LeaseSeconds`: 5 to 3600. -/
abbrev LeaseSeconds := { n : Nat // minLeaseSeconds ≤ n ∧ n ≤ maxLeaseSeconds }

structure ClaimRequest where
  workerId : String
  agentIds : List String
  leaseSeconds : LeaseSeconds

structure HeartbeatRequest where
  workerId : String
  leaseSeconds : LeaseSeconds
  checkpoint : Option Json

structure ReleaseRequest where
  workerId : String
  checkpoint : Option Json

structure Lease where
  runId : String
  workerId : String
  expiresAt : Instant
  remainingSeconds : Option Rat
  cancelRequested : Bool

structure Claimed where
  run : RunRecord
  lease : Lease

structure EventsAppend where
  events : List RunEvent
  some : events ≠ []
  few : events.length ≤ maxEventsPerAppend

structure EventsAppended where
  appended : Nat
  position : Nat
deriving DecidableEq

/-- The run's events as the log lists them. -/
structure RunEventEntry where
  position : Nat
  event : RunEvent

/-! ## Retries -/

/-- The wait after the `failures`-th failure in a row. -/
def backoff (base : Rat) (failures : Nat) (cap : Rat) : Rat := min (base * 2 ^ (failures - 1)) cap

/-- What `random.uniform(0, 0.5)` draws. -/
abbrev Draw := { u : Rat // 0 ≤ u ∧ u ≤ 1 / 2 }

/-- `wait` spread over its upper half. -/
def jittered (wait : Rat) (u : Draw) : Rat := wait / 2 + wait * u.val

/-- A jittered wait is at least half the backoff and never more than it. -/
theorem jittered_bounds (wait : Rat) (u : Draw) (h : 0 ≤ wait) :
    wait / 2 ≤ jittered wait u ∧ jittered wait u ≤ wait := by
  obtain ⟨u, h0, h1⟩ := u
  have h2 : 0 ≤ wait * u := mul_nonneg h h0
  have h3 : wait * u ≤ wait * (1 / 2) := mul_le_mul_of_nonneg_left h1 h
  unfold jittered
  constructor <;> linarith

end AgentRuns
