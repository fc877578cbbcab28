import AgentRuns.Uploads

/-!
# The ticker's purges

`_purge_artifacts` and `_purge_runs`, beside the uploads and every other operation.  Each purge selects and
locks what it takes (`SKIP LOCKED`), and deletes it in the same transaction some time later: in between, an
artifact purge deletes blobs one by one, and anything else may go on.

A purge that dies or is refused rolls back and lets its locks go; the blobs it deleted stay deleted.
-/

namespace AgentRuns

open Relational Fallible

/-! ## What a purge takes -/

namespace Database

/-- `ArtifactStore.expired`. -/
def expired (db : Database) (held : List String) (now : Instant) (limit : Nat) : List ArtifactRow :=
  (((db.artifacts.rows.filter fun a => a.expiresAt.any (· < now)).insertionSort
    fun a b => a.expiresAt.getD 0 ≤ b.expiresAt.getD 0).filter fun a => !held.contains a.artifactId).take limit

/-- `ArtifactStore.remove`. -/
def removeArtifacts (db : Database) (artifactIds : List String) : Database :=
  { db with artifacts := db.artifacts.erase fun a => artifactIds.contains a.artifactId }

/-- May the run go?  It ended before, and none of its artifacts is kept. -/
def purgeable (db : Database) (before : Instant) (row : RunRow) : Bool :=
  row.status.final && row.updatedAt < before && !db.artifacts.rows.any (·.runId = row.runId)

/-- The runs `purge_ended` selects. -/
def endedBefore (db : Database) (held : List String) (before : Instant) (limit : Nat) : List String :=
  ((((db.runs.rows.filter (db.purgeable before)).insertionSort fun a b => a.updatedAt ≤ b.updatedAt).filter
    fun row => !held.contains row.runId).take limit).map RunRow.runId

/-- The deletes of `purge_ended`: the answers, the runs, and with them (`ON DELETE CASCADE`) their events; refused
while an artifact refers to one of the runs. -/
def deleteRuns (db : Database) (gone : List String) : Except ServiceError Database := do
  refuse (db.artifacts.rows.any fun a => gone.contains a.runId)
    (.internal "update or delete on table \"agent_runs\" violates foreign key constraint on table \"run_artifacts\"")
  .ok
    { db with
      runs := db.runs.erase fun row => gone.contains row.runId
      resolutions := db.resolutions.erase fun row => gone.contains row.runId
      events := db.events.filter fun row => !gone.contains row.runId }

end Database

/-! ## The system -/

/-- An artifact purge under way: the rows still to do, and the ids of those whose blob is gone. -/
structure Expiring where
  left : List ArtifactRow
  gone : List String

/-- The uploads and the store, and the purges under way. -/
structure Deployment where
  up : Uploading
  expiring : Nat → Option Expiring
  purging : Nat → List String

inductive DeploymentAct where
  | uploading (act : UploadAct)
  /-- an artifact purge selects; `held` is what others have locked -/
  | expire (j : Nat) (held : List String) (limit : Nat)
  | deleteBlob (j : Nat) (outcome : Outcome)
  /-- it removes the rows, and commits or dies -/
  | remove (j : Nat) (commits : Bool)
  /-- a run purge selects -/
  | select (k : Nat) (held : List String) (before : Instant) (limit : Nat)
  /-- it deletes the runs, and commits or dies -/
  | purge (k : Nat) (commits : Bool)

namespace Deployment

/-- A new deployment. -/
def empty : Deployment := ⟨Uploading.empty, fun _ => none, fun _ => []⟩

def db (d : Deployment) : Database := d.up.db

/-- The deployment with its database written. -/
def withDb (d : Deployment) (db : Database) : Deployment := { d with up := { d.up with db := db } }

/-- The artifact purge `j` is at `e`. -/
def expiringAt (d : Deployment) (j : Nat) (e : Option Expiring) : Deployment :=
  { d with expiring := fun i => if i = j then e else d.expiring i }

/-- The run purge `k` has locked `gone`. -/
def purgingAt (d : Deployment) (k : Nat) (gone : List String) : Deployment :=
  { d with purging := fun i => if i = k then gone else d.purging i }

/-- Is the run locked by a purge? -/
def Locks (d : Deployment) (runId : String) : Prop := ∃ k, runId ∈ d.purging k

def step (api : ArtifactApi) (d : Deployment) (now : Instant) (act : DeploymentAct) : Deployment :=
  match act with
  | .uploading act => { d with up := d.up.step api now act }
  | .expire j held limit =>
    match d.expiring j with
    | none => d.expiringAt j (some ⟨d.db.expired held now limit, []⟩)
    | some _ => d
  | .deleteBlob j outcome =>
    match d.expiring j with
    | some ⟨row :: left, gone⟩ =>
      let blobs := if outcome.took then d.up.blobs.erase (·.key = row.blobKey) else d.up.blobs
      { d with up := { d.up with blobs := blobs } }.expiringAt j (some
        ⟨left, match outcome with
          | .returned => gone ++ [row.artifactId]
          | .raised _ => gone⟩)
    | _ => d
  | .remove j commits =>
    match d.expiring j with
    | some ⟨left, gone⟩ =>
      (if commits ∧ left.isEmpty then d.withDb (d.db.removeArtifacts gone) else d).expiringAt j none
    | none => d
  | .select k held before limit =>
    if d.purging k = [] then d.purgingAt k (d.db.endedBefore held before limit) else d
  | .purge k commits =>
    match d.db.deleteRuns (d.purging k) with
    | .error _ => d.purgingAt k []
    | .ok db => (if commits then d.withDb db else d).purgingAt k []

/-- What others have locked counts among what a purge passes over. -/
def Ok (d : Deployment) (_ : Instant) : DeploymentAct → Prop
  | .select _ held _ _ => ∀ runId, d.Locks runId → runId ∈ held
  | _ => True

end Deployment

/-! ## What a step does to the database -/

section
variable {api : ArtifactApi} {now : Instant}

theorem Uploading.record_db (s : Uploading) (i : Nat) (request : UploadRequest) (blob : StoredBlob) (outcome : Outcome) :
    (s.record i request blob outcome now).db = s.db ∨
      ∃ op, (s.record i request blob outcome now).db = AgentRuns.apply api.runs s.db now op := by
  unfold Uploading.record
  split
  · exact Or.inl rfl
  · next db row created h =>
    have hdb := apply_upload api.runs h
    cases outcome with
    | raised took =>
      cases took with
      | false => exact Or.inl rfl
      | true => exact Or.inr ⟨_, hdb.symm⟩
    | returned =>
      cases created with
      | false => exact Or.inr ⟨_, hdb.symm⟩
      | true => exact Or.inr ⟨_, hdb.symm⟩

theorem Uploading.step_db (api : ArtifactApi) (now : Instant) (s : Uploading) (act : UploadAct) :
    (s.step api now act).db = s.db ∨ ∃ op, (s.step api now act).db = AgentRuns.apply api.runs s.db now op := by
  unfold Uploading.step
  cases act with
  | op op other => exact Or.inr ⟨op, rfl⟩
  | record i outcome =>
    dsimp only
    split
    · exact s.record_db i _ _ outcome
    · exact Or.inl rfl
  | check i request =>
    refine Or.inl ?_
    dsimp only [Uploading.check]
    split
    · split <;> rfl
    · rfl
  | store i outcome =>
    refine Or.inl ?_
    dsimp only [Uploading.store]
    split
    · split
      · rfl
      · split
        · rfl
        · cases outcome with
          | raised took => rfl
          | returned =>
            dsimp only
            split <;> rfl
    · rfl
  | undo i outcome =>
    refine Or.inl ?_
    dsimp only
    split <;> rfl
  | crash i =>
    refine Or.inl ?_
    dsimp only
    split <;> rfl

/-- A step is an operation of the store, an artifact purge's commit or a run purge's, or it leaves the database. -/
theorem Deployment.step_db (api : ArtifactApi) (now : Instant) (d : Deployment) (act : DeploymentAct) :
    (d.step api now act).db = d.db ∨ (∃ op, (d.step api now act).db = AgentRuns.apply api.runs d.db now op) ∨
      (∃ ids, (d.step api now act).db = d.db.removeArtifacts ids) ∨
      ∃ k, act = .purge k true ∧ d.db.deleteRuns (d.purging k) = .ok (d.step api now act).db := by
  unfold Deployment.step
  cases act with
  | uploading act =>
    rcases d.up.step_db api now act with h | h
    · exact Or.inl h
    · exact Or.inr (Or.inl h)
  | expire j held limit =>
    refine Or.inl ?_
    dsimp only
    split <;> rfl
  | deleteBlob j outcome =>
    refine Or.inl ?_
    dsimp only
    split <;> rfl
  | remove j commits =>
    dsimp only
    split
    · next left gone _ =>
      by_cases h : commits = true ∧ left.isEmpty = true
      · rw [if_pos h]
        exact Or.inr (Or.inr (Or.inl ⟨gone, rfl⟩))
      · rw [if_neg h]
        exact Or.inl rfl
    · exact Or.inl rfl
  | select k held before limit =>
    refine Or.inl ?_
    dsimp only
    split <;> rfl
  | purge k commits =>
    dsimp only
    split
    · exact Or.inl rfl
    · next db h =>
      cases commits with
      | false => exact Or.inl rfl
      | true => exact Or.inr (Or.inr (Or.inr ⟨k, rfl, h⟩))

end

end AgentRuns
