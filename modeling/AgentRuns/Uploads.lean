import AgentRuns.Effects

/-!
# Uploads

`upload` of `api/routers/artifacts.py`, which writes two systems one after the other: the blob store, then
the database.  It is a chain of steps with anything in between, each of them a call that may raise, with or
without having taken effect (`Outcome`):

    checked  →  stored  →  answered
                   ↘       ↗
                    undoing

`undoing` is the `blobs.delete` of the checksum check, of `except BaseException` and of a repeat.
-/

namespace AgentRuns

open Relational Fallible

/-- `MAX_ARTIFACT_BYTES`, 50 MiB. -/
def maxArtifactBytes : Nat := 50 * 1024 * 1024

/-- `SHA256`: what leads a checksum. -/
def checksumOf (sha256 : String) : String := "sha256:" ++ sha256

/-! ## The body -/

/-- A request's body: its declared length, the chunks that arrive, and does it break off after them? -/
structure Body where
  contentLength : Option Nat
  chunks : List (List UInt8)
  breaksOff : Bool

namespace Body

def tooLarge : ServiceError := .tooLarge s!"an artifact is at most {maxArtifactBytes} bytes"

/-- `_body`: the bytes still to come after `seen`. -/
def arriving (breaksOff : Bool) (seen : Nat) : List (List UInt8) → Except ServiceError (List UInt8)
  | [] => if breaksOff then .error (.internal "the client disconnected") else .ok []
  | chunk :: chunks =>
    if chunk = [] then arriving breaksOff seen chunks
    else do
      refuse (maxArtifactBytes < seen + chunk.length) tooLarge
      let rest ← arriving breaksOff (seen + chunk.length) chunks
      .ok (chunk ++ rest)

/-- `_nonempty`: the whole body. -/
def bytes (body : Body) : Except ServiceError (List UInt8) := do
  refuse (body.contentLength.any (maxArtifactBytes < ·)) tooLarge
  let bytes ← arriving body.breaksOff 0 body.chunks
  refuse (bytes = []) (.unprocessable "an artifact has at least one byte")
  .ok bytes

end Body

/-! ## The blob store -/

/-- An object of the blob store. -/
structure Blob where
  key : String
  bytes : List UInt8

/-- How a call to another system ends: it returns, or it raises, having taken effect or not. -/
inductive Outcome where
  | returned
  | raised (took : Bool)

def Outcome.took : Outcome → Bool
  | returned => true
  | raised took => took

/-! ## One upload -/

/-- What is uploaded, and the id minted for it. -/
structure UploadRequest where
  tenantId : String
  runId : String
  workerId : Option String
  role : String
  checksum : Option String
  mime : String
  body : Body
  artifactId : String

def UploadRequest.blobKey (request : UploadRequest) : String := "artifacts/" ++ request.artifactId

inductive UploadAnswer where
  | created (row : ArtifactRow)
  | repeated (row : ArtifactRow)
  | refused (error : ServiceError)

/-- How far an upload is. -/
inductive Upload where
  | checked (request : UploadRequest)
  | stored (request : UploadRequest) (blob : StoredBlob)
  /-- its blob is to be deleted before it answers -/
  | undoing (request : UploadRequest) (answer : UploadAnswer)
  | answered (request : UploadRequest) (answer : UploadAnswer)
  /-- its process died -/
  | crashed

/-! ## The system -/

/-- A `RunStore`, and the hex SHA-256 of some bytes. -/
structure ArtifactApi where
  runs : RunStore
  sha256 : List UInt8 → String

structure Uploading where
  db : Database
  blobs : Table Blob.key
  uploads : Nat → Option Upload

def Op.isUpload : Op → Bool
  | .upload .. => true
  | _ => false

/-- A step of an upload, or any operation but the uploads' own. -/
inductive UploadAct where
  | check (i : Nat) (request : UploadRequest)
  | store (i : Nat) (outcome : Outcome)
  | record (i : Nat) (outcome : Outcome)
  | undo (i : Nat) (outcome : Outcome)
  | crash (i : Nat)
  | op (op : Op) (other : op.isUpload = false)

namespace Uploading

/-- A new deployment. -/
def empty : Uploading := ⟨Database.empty, Table.empty, fun _ => none⟩

/-- The upload `i` is at `u`. -/
def at_ (s : Uploading) (i : Nat) (u : Upload) : Uploading :=
  { s with uploads := fun j => if j = i then some u else s.uploads j }

/-- The first check, which holds nothing. -/
def check (s : Uploading) (i : Nat) (request : UploadRequest) : Uploading :=
  match s.db.checkArtifactWriter request.tenantId request.runId request.workerId request.role with
  | .error e => s.at_ i (.answered request (.refused e))
  | .ok _ => s.at_ i (.checked request)

/-- `put_stream`, create-only, and the check of the checksum. -/
def store (api : ArtifactApi) (s : Uploading) (i : Nat) (request : UploadRequest) (outcome : Outcome) : Uploading :=
  match request.body.bytes with
  | .error e => s.at_ i (.answered request (.refused e))
  | .ok bytes =>
    if (s.blobs.find? request.blobKey).isSome then
      s.at_ i (.answered request (.refused (.internal s!"BlobExists: {request.blobKey}")))
    else
      let blobs := s.blobs.insert ⟨request.blobKey, bytes⟩
      match outcome with
      | .raised took =>
        { s with blobs := if took then blobs else s.blobs }.at_ i
          (.answered request (.refused (.internal "the blob store refused")))
      | .returned =>
        let blob : StoredBlob := ⟨request.blobKey, api.sha256 bytes, bytes.length⟩
        if request.checksum.any (· ≠ checksumOf blob.sha256) then
          { s with blobs := blobs }.at_ i (.undoing request (.refused (.unprocessable
            (s!"the body's checksum is {checksumOf blob.sha256}, not " ++ request.checksum.getD ""))))
        else { s with blobs := blobs }.at_ i (.stored request blob)

/-- The transaction: the check again, locked, the row, and the commit. -/
def record (s : Uploading) (i : Nat) (request : UploadRequest) (blob : StoredBlob) (outcome : Outcome)
    (now : Instant) : Uploading :=
  match s.db.upload request.tenantId request.runId request.workerId request.role request.artifactId blob request.mime
    now with
  | .error e => s.at_ i (.undoing request (.refused e))
  | .ok (db, row, created) =>
    match outcome with
    | .raised took =>
      { s with db := if took then db else s.db }.at_ i (.undoing request (.refused (.internal "the commit raised")))
    | .returned =>
      if created then { s with db := db }.at_ i (.answered request (.created row))
      else { s with db := db }.at_ i (.undoing request (.repeated row))

/-- `blobs.delete`, and the answer. -/
def undo (s : Uploading) (i : Nat) (request : UploadRequest) (answer : UploadAnswer) (outcome : Outcome) : Uploading :=
  { s with blobs := if outcome.took then s.blobs.erase (·.key = request.blobKey) else s.blobs }.at_ i
    (.answered request
      (match outcome with
      | .returned => answer
      | .raised _ => .refused (.internal "the blob was not deleted")))

def step (api : ArtifactApi) (s : Uploading) (now : Instant) (act : UploadAct) : Uploading :=
  match act with
  | .check i request =>
    match s.uploads i with
    | none => s.check i request
    | some _ => s
  | .store i outcome =>
    match s.uploads i with
    | some (.checked request) => s.store api i request outcome
    | _ => s
  | .record i outcome =>
    match s.uploads i with
    | some (.stored request blob) => s.record i request blob outcome now
    | _ => s
  | .undo i outcome =>
    match s.uploads i with
    | some (.undoing request answer) => s.undo i request answer outcome
    | _ => s
  | .crash i =>
    match s.uploads i with
    | none | some (.answered ..) | some .crashed => s
    | some _ => s.at_ i .crashed
  | .op op _ => { s with db := AgentRuns.apply api.runs s.db now op }

end Uploading

/-! ## What a recorded upload does -/

section
variable {db db' : Database} {tenantId runId : String} {workerId : Option String} {role artifactId : String}
  {blob : StoredBlob} {mime : String} {now : Instant} {row : ArtifactRow} {created : Bool}

/-- An upload that is recorded is of a run that has not ended: it finds the row of the same bytes, or adds one. -/
theorem upload_ok (h : db.upload tenantId runId workerId role artifactId blob mime now = .ok (db', row, created)) :
    (∃ run, db.run? runId = some run ∧ run.status.final = false) ∧
      ((created = false ∧ db' = db ∧ row ∈ db.artifacts.rows) ∨
        (created = true ∧ db.artifacts.find? artifactId = none ∧
          row = ⟨artifactId, runId, tenantId, blob.key, mime, blob.size, checksumOf blob.sha256, now, none⟩ ∧
          db' = { db with artifacts := db.artifacts.insert row })) := by
  unfold Database.upload at h
  obtain ⟨_, hc, h⟩ := bind_ok.1 h
  refine ⟨?_, ?_⟩
  · unfold Database.checkArtifactWriter at hc
    split at hc
    · cases hc
    · next run hrun =>
      refine ⟨run, (Database.one_eq_some.1 hrun).1, ?_⟩
      split at hc
      · next hs => rw [hs]; rfl
      · split at hc
        · next hs => rw [hs]; rfl
        · split at hc <;> cases hc
  · unfold Database.addArtifact at h
    split at h
    · next existing he =>
      cases h
      exact Or.inl ⟨rfl, rfl, List.mem_of_find?_eq_some he⟩
    · obtain ⟨_, hr, h⟩ := bind_ok.1 h
      have hr := refuse_ok.1 hr
      simp only [Bool.or_eq_true, Bool.not_eq_true', not_or, Option.not_isSome_iff_eq_none] at hr
      cases h
      exact Or.inr ⟨rfl, hr.1, rfl, rfl⟩

theorem apply_upload (store : RunStore)
    (h : db.upload tenantId runId workerId role artifactId blob mime now = .ok (db', row, created)) :
    apply store db now (.upload tenantId runId workerId role artifactId blob mime) = db' := by
  show orElse db (answering (fun a => .artifact a.1 a.2)
    (db.upload tenantId runId workerId role artifactId blob mime now)) = db'
  rw [h]
  rfl

theorem apply_upload_error {store : RunStore} {e : ServiceError}
    (h : db.upload tenantId runId workerId role artifactId blob mime now = .error e) :
    apply store db now (.upload tenantId runId workerId role artifactId blob mime) = db := by
  show orElse db (answering (fun a => .artifact a.1 a.2)
    (db.upload tenantId runId workerId role artifactId blob mime now)) = db
  rw [h]
  rfl

end

end AgentRuns
