import AgentRuns.Downloads
import AgentRuns.FileBlobs

/-!
# The Google Cloud Storage blob store

`GCSBlobStore` of `blob/gcs.py`, of any number of puts, reads and deletes at once, in front of a bucket that keeps the
service's word: an upload with `if_generation_match=0` creates or fails, an object is created under a generation of its
own, a download of another generation than the live one finds nothing.

    spooling  →  uploading  →  ended
                     ↘ abandoned ↗

A request may be lost on its way, or its answer: the client sends it again or gives up.  A caller that is cancelled does
not stop the thread that uploads, which goes on alone (`abandoned`).
-/

namespace AgentRuns

open Timed ObjectStore

/-! ## The bucket -/

structure CloudObject where
  generation : Nat
  bytes : List UInt8
  /-- in the metadata -/
  sha256 : String

structure Bucket where
  live : String → Option CloudObject
  /-- the generation of the next object -/
  next : Nat

namespace Bucket

/-- The key has a fresh object. -/
def put (b : Bucket) (key : String) (bytes : List UInt8) (sha256 : String) : Bucket :=
  ⟨Function.update b.live key (some ⟨b.next, bytes, sha256⟩), b.next + 1⟩

/-- An upload with `if_generation_match=0`: `PreconditionFailed` where there is an object. -/
def upload (b : Bucket) (key : String) (bytes : List UInt8) (sha256 : String) : Option Bucket :=
  match b.live key with
  | none => some (b.put key bytes sha256)
  | some _ => none

/-- `download_as_bytes` of a blob `get_blob` made, to `end` and with it: `NotFound` where the generation is not the live one. -/
def download (b : Bucket) (key : String) (generation start «end» : Nat) : Option (List UInt8) :=
  match b.live key with
  | none => none
  | some o => if o.generation = generation then some ((o.bytes.drop start).take («end» + 1 - start)) else none

def delete (b : Bucket) (key : String) : Bucket := { b with live := Function.update b.live key none }

end Bucket

/-! ## Puts and reads -/

inductive CloudFailure where
  | blobExists (key : String)
  | blobNotFound (key : String)
  /-- another exception of the client, a cancellation, or what the chunks raised -/
  | other (text : String)
deriving DecidableEq

inductive CloudStage where
  | spooling | uploading | abandoned | ended
deriving DecidableEq

/-- A `put_stream`. -/
structure CloudPut where
  key : String
  /-- the chunks, as they came: `digest` and `size` are of them -/
  spool : List UInt8
  /-- a request of it took effect -/
  uploaded : Bool
  answer : Option (Except CloudFailure StoredBlob)
  stage : CloudStage

/-- A reader of `chunks`. -/
structure CloudReader where
  key : String
  generation : Nat
  size : Nat
  start : Nat
  yielded : List (List UInt8)
  raised : Option CloudFailure
  finished : Bool

/-- What becomes of one request of an upload. -/
inductive Requested where
  | answered
  /-- there is no answer, and the client sends it again -/
  | lost (arrived : Bool)
  | gaveUp (arrived : Bool)
deriving DecidableEq

def Requested.arrived : Requested → Bool
  | .answered => true
  | .lost arrived => arrived
  | .gaveUp arrived => arrived

structure CloudBlobs where
  bucket : Bucket
  puts : List CloudPut
  readers : List CloudReader

inductive CloudAct where
  | begin (key : String)
  | chunk (i : Nat) (bytes : List UInt8) (outcome : Outcome)
  | ends (i : Nat) (raises : Option String)
  | request (i : Nat) (sent : Requested)
  | abandon (i : Nat)
  | read (key : String) (outcome : Outcome)
  | next (j : Nat) (outcome : Outcome)
  | delete (key : String) (outcome : Outcome)

namespace CloudPut

def interrupted : CloudFailure := .other "GoogleAPIError or CancelledError"

/-- The thread ends, and its caller gets this if it waits for it. -/
def finish (p : CloudPut) (answer : Except CloudFailure StoredBlob) : CloudPut :=
  { p with stage := .ended, answer := p.answer.or (some answer) }

def underWay (p : CloudPut) : Bool := p.stage = .uploading ∨ p.stage = .abandoned

end CloudPut

namespace CloudBlobs

def empty : CloudBlobs := ⟨⟨fun _ => none, 0⟩, [], []⟩

/-- Put `i` is `p` now, and the bucket is `bucket`. -/
def set (s : CloudBlobs) (i : Nat) (p : CloudPut) (bucket : Bucket) : CloudBlobs :=
  { s with puts := s.puts.set i p, bucket := bucket }

/-- A request of the upload, which is create-only. -/
def request (s : CloudBlobs) (i : Nat) (p : CloudPut) (sent : Requested) : CloudBlobs :=
  let created := if sent.arrived then s.bucket.upload p.key p.spool (hexdigest p.spool) else none
  let bucket := created.getD s.bucket
  let p := { p with uploaded := p.uploaded || created.isSome }
  match sent with
  | .lost _ => s.set i p bucket
  | .gaveUp _ => s.set i (p.finish (.error CloudPut.interrupted)) bucket
  | .answered =>
    if created.isSome then s.set i (p.finish (.ok ⟨p.key, hexdigest p.spool, p.spool.length⟩)) bucket
    else s.set i (p.finish (.error (.blobExists p.key))) bucket

/-- `get_blob` -/
def read (s : CloudBlobs) (key : String) (outcome : Outcome) : CloudBlobs :=
  let made (r : CloudReader) : CloudBlobs := { s with readers := s.readers ++ [r] }
  match outcome, s.bucket.live key with
  | .raised _, _ => made ⟨key, 0, 0, 0, [], some CloudPut.interrupted, true⟩
  | .returned, none => made ⟨key, 0, 0, 0, [], some (.blobNotFound key), true⟩
  | .returned, some o => made ⟨key, o.generation, o.bytes.length, 0, [], none, false⟩

/-- The next range of a reader. -/
def next (s : CloudBlobs) (j : Nat) (outcome : Outcome) : CloudBlobs :=
  match s.readers[j]? with
  | none => s
  | some r =>
    let now (r : CloudReader) : CloudBlobs := { s with readers := s.readers.set j r }
    if r.finished then s
    else if r.size ≤ r.start then now { r with finished := true }
    else
      let «end» := min (r.start + blobChunkBytes) r.size - 1
      match outcome, s.bucket.download r.key r.generation r.start «end» with
      | .raised _, _ => now { r with raised := some CloudPut.interrupted, finished := true }
      | .returned, none => now { r with raised := some (.blobNotFound r.key), finished := true }
      | .returned, some bytes => now { r with start := r.start + blobChunkBytes, yielded := r.yielded ++ [bytes] }

def step (s : CloudBlobs) (_ : Instant) : CloudAct → CloudBlobs
  | .begin key => { s with puts := s.puts ++ [⟨key, [], false, none, .spooling⟩] }
  | .chunk i bytes outcome =>
    match s.puts[i]? with
    | none => s
    | some p =>
      if p.stage = .spooling then
        let p := { p with spool := p.spool ++ bytes }
        match outcome with
        | .returned => s.set i p s.bucket
        | .raised _ => s.set i (p.finish (.error CloudPut.interrupted)) s.bucket
      else s
  | .ends i raises =>
    match s.puts[i]? with
    | none => s
    | some p =>
      if p.stage = .spooling then
        match raises with
        | none => s.set i { p with stage := .uploading } s.bucket
        | some text => s.set i (p.finish (.error (.other text))) s.bucket
      else s
  | .request i sent =>
    match s.puts[i]? with
    | none => s
    | some p => if p.underWay then s.request i p sent else s
  | .abandon i =>
    match s.puts[i]? with
    | none => s
    | some p =>
      if p.stage = .uploading then
        s.set i { p with stage := .abandoned, answer := some (.error CloudPut.interrupted) } s.bucket
      else s
  | .read key outcome => s.read key outcome
  | .next j outcome => s.next j outcome
  | .delete key outcome => if outcome.took then { s with bucket := s.bucket.delete key } else s

/-! ## The objects -/

/-- Whose doing an event is. -/
inductive Op where
  | put (i : Nat)
  | reader (j : Nat)
deriving DecidableEq

/-- The bucket as others see it. -/
def view (s : CloudBlobs) : Objects String (List UInt8) where
  at_ key := (s.bucket.live key).map CloudObject.bytes
  former key := {bytes | ∃ (i : Nat) (p : CloudPut), s.puts[i]? = some p ∧ p.key = key ∧ p.uploaded = true ∧ p.spool = bytes}

/-- What a request that arrives does, or finds. -/
def requested (s : CloudBlobs) (i : Nat) (p : CloudPut) (sent : Requested) : List (Event Op String (List UInt8)) :=
  if sent.arrived then
    match s.bucket.live p.key with
    | none => [.created (.put i) p.key p.spool]
    | some o => [.found (.put i) p.key (some o.bytes)]
  else []

/-- What a step does to the objects, or reads of them. -/
def events (s : CloudBlobs) (_ : Instant) : CloudAct → List (Event Op String (List UInt8))
  | .request i sent =>
    match s.puts[i]? with
    | none => []
    | some p => if p.underWay then s.requested i p sent else []
  | .read key .returned => [.found (.reader s.readers.length) key (s.view.at_ key)]
  | .delete key outcome => if outcome.took then [.removed key] else []
  | _ => []

end CloudBlobs

end AgentRuns
