import AgentRuns.Sweeps
import AgentRuns.Log

/-!
# The store as a system

Every operation of the store as one action on the database (`Op`, `perform`), its refusals
leaving the database as it was (`apply`).  A history is a run of these at instants that never go
back (`Timed.Run`).

An operation that meets locks of other transactions says which (`Held`, `held`): it passes over
them.  A jittered wait says what was drawn.
-/

namespace AgentRuns

open Relational Fallible

inductive Op where
  | start (start : RunStart) (queue strict : Bool)
  | claim (held : Held) (tenantId : Option String) (request : ClaimRequest)
  | heartbeat (tenantId runId : String) (request : HeartbeatRequest)
  | pause (tenantId runId : String) (pause : RunPause) (workerId : Option String)
  | resume (tenantId runId : String) (resolution : InterruptResolution) (answerer : KeyInfo)
  | cancel (tenantId runId : String) (cancel : RunCancel) (canceller : KeyInfo)
  | finish (tenantId runId : String) (ending : RunFinish) (workerId : Option String) (draw : Draw)
  | release (tenantId runId : String) (request : ReleaseRequest)
  | timeOutPastDeadline (held : List String) (limit : Nat)
  | timeOutOverworked (held : List String) (limit : Nat)
  | requeueLapsed (held : List String) (limit : Nat) (draws : String → Draw)
  | escalateOverdue (held : List String) (limit : Nat)
  | upload (tenantId runId : String) (workerId : Option String) (role artifactId : String) (blob : StoredBlob)
      (mime : String)
  | appendEvents (tenantId runId : String) (append : EventsAppend) (workerId : Option String)

/-- The run an operation names. -/
def Op.runId : Op → Option String
  | heartbeat _ runId _ => some runId
  | pause _ runId _ _ => some runId
  | resume _ runId _ _ => some runId
  | cancel _ runId _ _ => some runId
  | finish _ runId _ _ _ => some runId
  | release _ runId _ => some runId
  | upload _ runId _ _ _ _ _ => some runId
  | appendEvents _ runId _ _ => some runId
  | _ => none

/-- The worker a write names. -/
def Op.workerId : Op → Option String
  | heartbeat _ _ request => some request.workerId
  | pause _ _ _ workerId => workerId
  | finish _ _ _ workerId _ => workerId
  | release _ _ request => some request.workerId
  | upload _ _ workerId _ _ _ _ => workerId
  | appendEvents _ _ _ workerId => workerId
  | _ => none

/-- A request that moves one run on: a pause, resume, cancel, finish or release. -/
def Op.movesRun : Op → Bool
  | .pause .. => true
  | .resume .. => true
  | .cancel .. => true
  | .finish .. => true
  | .release .. => true
  | _ => false

/-- What an operation answers. -/
inductive Answer where
  | run (run : RunRecord) (changed : Bool)
  | claimed (claimed : Option Claimed)
  | lease (lease : Lease)
  | moved (runs : List RunRecord)
  | artifact (row : ArtifactRow) (created : Bool)
  | appended (appended : EventsAppended)

/-- Turn what an operation returns into an answer. -/
def answering {α : Type} (f : α → Answer) : Except ServiceError (Database × α) → Except ServiceError (Database × Answer)
  | .error e => .error e
  | .ok (db, a) => .ok (db, f a)

theorem answering_ok {α : Type} {f : α → Answer} {x : Except ServiceError (Database × α)} {db : Database}
    {answer : Answer} : answering f x = .ok (db, answer) ↔ ∃ a, x = .ok (db, a) ∧ answer = f a := by
  unfold answering
  split
  · simp
  · next db' a =>
    simp only [Except.ok.injEq, Prod.mk.injEq]
    constructor
    · rintro ⟨rfl, rfl⟩
      exact ⟨a, ⟨rfl, rfl⟩, rfl⟩
    · rintro ⟨_, ⟨rfl, rfl⟩, rfl⟩
      exact ⟨rfl, rfl⟩

def perform (store : RunStore) (op : Op) (now : Instant) (db : Database) : Except ServiceError (Database × Answer) :=
  match op with
  | .start start queue strict => answering (fun a => .run a.1 a.2) (db.start start queue strict now)
  | .claim held tenantId request => answering .claimed (store.claim db held tenantId request now)
  | .heartbeat tenantId runId request => answering .lease (store.heartbeat db tenantId runId request now)
  | .pause tenantId runId pause workerId =>
    answering (fun a => .run a.1 a.2) (store.pause db tenantId runId pause workerId now)
  | .resume tenantId runId resolution answerer =>
    answering (fun a => .run a.1 a.2) (store.resume db tenantId runId resolution answerer now)
  | .cancel tenantId runId cancel canceller =>
    answering (fun a => .run a.1 a.2) (db.cancel tenantId runId cancel canceller now)
  | .finish tenantId runId ending workerId draw =>
    answering (fun a => .run a.1 a.2) (db.finish tenantId runId ending workerId draw now)
  | .release tenantId runId request => answering (fun a => .run a.1 a.2) (db.release tenantId runId request now)
  | .timeOutPastDeadline held limit => answering .moved (store.timeOutPastDeadline db held limit now)
  | .timeOutOverworked held limit => answering .moved (store.timeOutOverworked db held limit now)
  | .requeueLapsed held limit draws => answering .moved (db.requeueLapsed held limit draws now)
  | .escalateOverdue held limit => answering .moved (store.escalateOverdue db held limit now)
  | .upload tenantId runId workerId role artifactId blob mime =>
    answering (fun a => .artifact a.1 a.2) (db.upload tenantId runId workerId role artifactId blob mime now)
  | .appendEvents tenantId runId append workerId =>
    answering .appended (db.appendEvents tenantId runId append workerId)

/-- The database after an operation. -/
def apply (store : RunStore) (db : Database) (now : Instant) (op : Op) : Database :=
  orElse db (perform store op now db)

end AgentRuns
