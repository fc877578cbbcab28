import AgentRuns.Store
import Mathlib.Data.List.Sort

/-!
# Artifacts and events

What a run's writer adds beside the row: artifacts (`checkArtifactWriter`, `ArtifactStore.add`)
and events, each at the next position of the run's log (`appendEvents`).
-/

namespace AgentRuns

open Relational Fallible

/-! ## Artifacts -/

structure StoredBlob where
  key : String
  sha256 : String
  size : Nat

/-- May this caller add an artifact to the run now? -/
def Database.checkArtifactWriter (db : Database) (tenantId runId : String) (workerId : Option String)
    (role : String) : Except ServiceError Unit :=
  match db.one tenantId runId with
  | none => .error (.notFound s!"no run {runId}")
  | some row =>
    if row.status = .RUNNING then heldBy row workerId
    else if row.status = .PAUSED then
      refuse (role ≠ pausedArtifactRole) (.forbidden s!"only a {pausedArtifactRole} key adds to a paused run")
    else
      match workerId with
      | some workerId =>
        .error (.leaseLost s!"run {runId} is {row.status.value}; worker {workerId} holds no lease")
      | none => .error (.conflict s!"run {runId} is {row.status.value}; artifacts are added while it runs")

/-- `ArtifactStore.add`: the same bytes uploaded to the same run again are the first artifact. -/
def Database.addArtifact (db : Database) (row : ArtifactRow) : Except ServiceError (Database × ArtifactRow × Bool) :=
  match db.artifacts.rows.find? fun a => a.runId = row.runId ∧ a.checksum = row.checksum with
  | some existing => .ok (db, existing, false)
  | none => do
    refuse ((db.artifacts.find? row.artifactId).isSome || !fitsVarchar 255 row.mime)
      (.internal "the database refused a value")
    .ok ({ db with artifacts := db.artifacts.insert row }, row, true)

/-- The upload's transaction: the writer checked under the row's lock, the artifact recorded. -/
def Database.upload (db : Database) (tenantId runId : String) (workerId : Option String) (role artifactId : String)
    (blob : StoredBlob) (mime : String) (now : Instant) : Except ServiceError (Database × ArtifactRow × Bool) := do
  db.checkArtifactWriter tenantId runId workerId role
  db.addArtifact
    { artifactId := artifactId
      runId := runId
      tenantId := tenantId
      blobKey := blob.key
      mime := mime
      size := blob.size
      checksum := "sha256:" ++ blob.sha256
      createdAt := now
      expiresAt := none }

/-! ## Events -/

/-- What an event says it is. -/
def RunEvent.identity (event : RunEvent) : Nat × Nat := (event.attempt, event.sequence)
def RunEventRow.identity (row : RunEventRow) : Nat × Nat := (row.attempt, row.sequence)

/-- The loop of `append_events`: what it has seen, the position it has reached, the rows it
added. -/
structure Appending where
  seen : List (Nat × Nat)
  position : Nat
  added : List RunEventRow

/-- One turn of the loop. -/
def Appending.next (tenantId runId : String) (s : Appending) (event : RunEvent) : Appending :=
  if event.identity ∈ s.seen then s
  else
    { seen := event.identity :: s.seen
      position := s.position + 1
      added := s.added ++ [⟨runId, s.position + 1, tenantId, event.attempt, event.sequence, event⟩] }

/-- `coalesce(max(position), 0)`. -/
def Database.lastPosition (db : Database) (runId : String) : Nat :=
  ((db.log runId).map RunEventRow.position).foldl max 0

/-- The identities among `asked` that are logged. -/
def Database.logged (db : Database) (runId : String) (asked : List (Nat × Nat)) : List (Nat × Nat) :=
  ((db.log runId).map RunEventRow.identity).filter asked.contains

/-- The whole loop over a batch. -/
def Database.appending (db : Database) (tenantId runId : String) (events : List RunEvent) : Appending :=
  events.foldl (Appending.next tenantId runId)
    ⟨db.logged runId (events.map RunEvent.identity), db.lastPosition runId, []⟩

def Database.appendEvents (db : Database) (tenantId runId : String) (append : EventsAppend)
    (workerId : Option String) : Except ServiceError (Database × EventsAppended) := do
  refuse (append.events.any fun e => e.tenantId ≠ tenantId ∨ e.runId ≠ runId)
    (.unprocessable "an event names another run")
  let row ← db.locked tenantId runId none
  refuse (row.status ≠ .RUNNING ∧ workerId ≠ none)
    (.leaseLost s!"run {runId} is {row.status.value}; worker {shown workerId} holds no lease")
  refuse (row.status ≠ .RUNNING)
    (.conflict s!"run {runId} is {row.status.value}; events are appended while it runs")
  heldBy row workerId
  let s := db.appending tenantId runId append.events
  refuse (s.added.all RunEventRow.fits = false) (.internal "the database refused a value")
  .ok ({ db with events := db.events ++ s.added }, ⟨s.added.length, s.position⟩)

/-- An append succeeds for the run's holder while it runs, and adds what the loop added. -/
theorem Database.appendEvents_ok {db db' : Database} {tenantId runId : String} {append : EventsAppend}
    {workerId : Option String} {answer : EventsAppended}
    (h : db.appendEvents tenantId runId append workerId = .ok (db', answer)) :
    ∃ row, db.run? runId = some row ∧ row.tenantId = tenantId ∧ row.status = .RUNNING ∧
      workerId = row.leaseOwner ∧ (∀ e ∈ append.events, e.tenantId = tenantId ∧ e.runId = runId) ∧
      db' = { db with events := db.events ++ (db.appending tenantId runId append.events).added } ∧
      answer = ⟨(db.appending tenantId runId append.events).added.length,
        (db.appending tenantId runId append.events).position⟩ := by
  unfold appendEvents at h
  obtain ⟨_, hne, h⟩ := bind_ok.1 h
  obtain ⟨row, hrow, h⟩ := bind_ok.1 h
  obtain ⟨_, -, h⟩ := bind_ok.1 h
  obtain ⟨_, hs, h⟩ := bind_ok.1 h
  obtain ⟨_, hw, h⟩ := bind_ok.1 h
  obtain ⟨_, -, h⟩ := bind_ok.1 h
  obtain ⟨⟨hr, ht⟩, -⟩ := locked_ok.1 hrow
  cases h
  refine ⟨row, hr, ht, by simpa using refuse_ok.1 hs, heldBy_ok.1 hw, ?_, rfl, rfl⟩
  have hne := refuse_ok.1 hne
  simpa using hne

/-! ## Reading the log -/

/-- A run's events past `after`, oldest first, at most `limit`. -/
def Database.eventsAfter (db : Database) (runId : String) (after limit : Nat) : List RunEventRow :=
  (((db.log runId).filter fun row => after < row.position).insertionSort fun a b => a.position ≤ b.position).take limit

/-- `RunStore.events`.  Its two reads are two statements: `before` is the database the status is
read from, `db` the one the rows are. -/
def Database.readEvents (before db : Database) (tenantId runId : String) (after limit : Nat) :
    Except ServiceError (List RunEventEntry × RunStatus) :=
  match before.one tenantId runId with
  | none => .error (.notFound s!"no run {runId}")
  | some row =>
    .ok ((db.eventsAfter runId after limit).map fun r => ⟨r.position, r.event⟩, row.status)

end AgentRuns
