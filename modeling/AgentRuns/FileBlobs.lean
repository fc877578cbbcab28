import AgentRuns.Downloads
import AgentRuns.ObjectStore
import AgentRuns.Posix
import AgentRuns.Uploads

/-!
# The filesystem blob store

`FilesystemBlobStore` of `blob/filesystem.py`, of any number of puts, reads and deletes at once in any number of
processes.  What awaits a thread is one step, which may raise with or without having taken effect (`Outcome`): an
`OSError`, or a cancellation that the thread does not hear of.

    opening  →  writing  →  closing  →  linking  →  discarding  →  ended
                     with an exception ↘             ↗

A process may die, and the power may go, at any moment.  `tempfile.mkstemp` is given the name it settles on.  What is in
a buffer reaches the file at any time (`spill`).
-/

namespace AgentRuns

open Posix Timed Sha256

/-- `BLOB_CHUNK_BYTES` -/
def blobChunkBytes : Nat := 1024 * 1024

/-! ## Names -/

/-- A path below the root, part by part. -/
abbrev BlobPath := List (List Char)

/-- `_path`, up to the root: `ValueError` when there is none. -/
def pathOf (key : String) : Option BlobPath :=
  let parts := key.toList.splitOn '/'
  if key = "" ∨ parts.any (["".toList, ".".toList, "..".toList].contains ·) then none else some parts

/-- The directories above a file, the outermost first. -/
def ancestors : BlobPath → List BlobPath
  | [] => []
  | [_] => []
  | part :: parts => [part] :: (ancestors parts).map (part :: ·)

/-- The name `mkstemp` makes beside a file, of the letters it drew. -/
def temporaryBeside (path : BlobPath) (drawn : List Char) : BlobPath :=
  path.dropLast ++ [".tmp-".toList ++ drawn ++ ".part".toList]

/-- A name `mkstemp` may make. -/
def isTemporary (path : BlobPath) : Bool :=
  path.getLast?.any fun part => ".tmp-".toList.isPrefixOf part && ".part".toList.isSuffixOf part

/-- `hexdigest` of the SHA-256. -/
def hexdigest (bytes : List UInt8) : String := BlobRecord.digits (hex (sha256 bytes))

example : pathOf "artifacts/art_1" = some ["artifacts".toList, "art_1".toList] := by decide +kernel

example : (pathOf "../escape", pathOf "a//b", pathOf "", pathOf "a/./b") = (none, none, none, none) := by decide +kernel

/-! ## Puts and reads -/

inductive BlobFailure where
  | valueError (text : String)
  | blobExists (path : BlobPath)
  | blobNotFound (key : String)
  /-- an `OSError`, a cancellation, or what the chunks raised -/
  | other (text : String)
deriving DecidableEq

inductive PutStage where
  | opening | writing | closing | linking | discarding | ended
  /-- its process died -/
  | dead
deriving DecidableEq

/-- A `put_stream`. -/
structure Put where
  key : String
  path : BlobPath
  /-- its temporary file: the name, and the file -/
  temp : Option (BlobPath × Nat)
  /-- what came of the chunks, which `digest` and `size` are of -/
  taken : List UInt8
  /-- what the kernel was not given yet -/
  buffer : List UInt8
  /-- its chunks came to their end -/
  whole : Bool
  /-- its link took effect -/
  linked : Bool
  raised : Option BlobFailure
  stage : PutStage
deriving DecidableEq

inductive ReaderStage where
  | reading | finished | dead
deriving DecidableEq

/-- A reader of `chunks`. -/
structure BlobReader where
  key : String
  path : BlobPath
  file : Nat
  offset : Nat
  yielded : List (List UInt8)
  raised : Option BlobFailure
  stage : ReaderStage
deriving DecidableEq

structure FileBlobs where
  disk : Disk BlobPath
  puts : List Put
  readers : List BlobReader

/-- `begin`, `read` and `delete` are the calls of the store; the rest is what becomes of a call. -/
inductive FileAct where
  | begin (key : String)
  | temporary (i : Nat) (drawn : List Char) (outcome : Outcome)
  | chunk (i : Nat) (bytes : List UInt8) (outcome : Outcome)
  | spill (i n : Nat)
  | ends (i : Nat) (raises : Option BlobFailure)
  | close (i : Nat) (outcome : Outcome)
  | link (i : Nat) (outcome : Outcome)
  | discard (i : Nat) (outcome : Outcome)
  | read (key : String) (outcome : Outcome)
  | next (j : Nat) (outcome : Outcome)
  | delete (key : String) (outcome : Outcome)
  | kill (i : Nat)
  | powerCut (kept : BlobPath → Option Entry) (torn : Nat → List UInt8)

namespace Put

/-- A put of a key that has a path. -/
def start (key : String) (path : BlobPath) : Put where
  key := key
  path := path
  temp := none
  taken := []
  buffer := []
  whole := false
  linked := false
  raised := none
  stage := .opening

/-- What the caller gets, once it does. -/
def answer (p : Put) : Option (Except BlobFailure StoredBlob) :=
  if p.stage = .ended then
    match p.raised with
    | some e => some (.error e)
    | none => some (.ok ⟨p.key, hexdigest p.taken, p.taken.length⟩)
  else none

def interrupted : BlobFailure := .other "OSError or CancelledError"

/-- Its process dies. -/
def die (p : Put) : Put := if p.stage = .ended then p else { p with stage := .dead }

/-- It goes on to `stage`, raising `e` at its end. -/
def fail (p : Put) (e : BlobFailure) (stage : PutStage) : Put := { p with raised := some e, stage := stage }

end Put

namespace FileBlobs

def empty : FileBlobs := ⟨.empty, [], []⟩

/-- What `f` makes of put `i`, where it is at `stage`. -/
def on (s : FileBlobs) (i : Nat) (stage : PutStage) (f : Put → FileBlobs) : FileBlobs :=
  match s.puts[i]? with
  | none => s
  | some p => if p.stage = stage then f p else s

/-- Put `i` is `p` now, and the disk is `d`. -/
def set (s : FileBlobs) (i : Nat) (p : Put) (d : Disk BlobPath) : FileBlobs := { s with puts := s.puts.set i p, disk := d }

/-- `_temporary`: nothing is discarded when it raises. -/
def temporary (s : FileBlobs) (i : Nat) (p : Put) (drawn : List Char) (outcome : Outcome) : FileBlobs :=
  match s.disk.mkdirs (ancestors p.path) with
  | .error _ => s.set i (p.fail Put.interrupted .ended) s.disk
  | .ok disk =>
    match outcome with
    | .raised false => s.set i (p.fail Put.interrupted .ended) s.disk
    | outcome =>
      match disk.create (temporaryBeside p.path drawn) with
      -- `mkstemp` draws again
      | .error _ => s
      | .ok (disk, file) =>
        let p := { p with temp := some (temporaryBeside p.path drawn, file) }
        match outcome with
        | .returned => s.set i { p with stage := .writing } disk
        | .raised _ => s.set i (p.fail Put.interrupted .ended) disk

/-- `digest.update`, `size +=`, `fh.write` -/
def chunk (s : FileBlobs) (i : Nat) (p : Put) (bytes : List UInt8) (outcome : Outcome) : FileBlobs :=
  let taken := p.taken ++ bytes
  match outcome with
  | .returned => s.set i { p with taken := taken, buffer := p.buffer ++ bytes } s.disk
  | .raised took =>
    let p := { p with taken := taken, buffer := if took then p.buffer ++ bytes else p.buffer }
    s.set i (p.fail Put.interrupted .closing) s.disk

/-- What `f` makes of the disk and a put's own temporary file. -/
def withTemp (s : FileBlobs) (p : Put) (f : BlobPath → Nat → FileBlobs) : FileBlobs :=
  match p.temp with
  | none => s
  | some (temp, file) => f temp file

/-- `_close`: what is buffered is written, and all of it synced. -/
def close (s : FileBlobs) (i : Nat) (p : Put) (outcome : Outcome) : FileBlobs :=
  s.withTemp p fun _ file =>
    let disk := (s.disk.write file p.buffer).fsync file
    match outcome with
    | .returned =>
      s.set i { p with buffer := [], stage := if p.raised.isSome then .discarding else .linking } disk
    | .raised took => s.set i (p.fail Put.interrupted .discarding) (if took then disk else s.disk)

/-- `_link` -/
def link (s : FileBlobs) (i : Nat) (p : Put) (outcome : Outcome) : FileBlobs :=
  s.withTemp p fun temp _ =>
    match outcome, s.disk.link temp p.path with
    | .returned, .ok disk => s.set i { p with linked := true, stage := .discarding } disk
    | .returned, .error .EEXIST => s.set i (p.fail (.blobExists p.path) .discarding) s.disk
    | .returned, .error _ => s.set i (p.fail Put.interrupted .discarding) s.disk
    | .raised true, .ok disk => s.set i { p.fail Put.interrupted .discarding with linked := true } disk
    | .raised _, _ => s.set i (p.fail Put.interrupted .discarding) s.disk

/-- `_discard`; a temporary file that is gone is none to remove. -/
def discard (s : FileBlobs) (i : Nat) (p : Put) (outcome : Outcome) : FileBlobs :=
  s.withTemp p fun temp _ =>
    let disk := (s.disk.unlink temp).toOption.getD s.disk
    match outcome with
    | .returned => s.set i { p with stage := .ended } disk
    | .raised took => s.set i (p.fail Put.interrupted .ended) (if took then disk else s.disk)

/-- A reader is made, of what its key leads to. -/
def read (s : FileBlobs) (key : String) (outcome : Outcome) : FileBlobs :=
  let failed (path : BlobPath) (e : BlobFailure) : BlobReader := ⟨key, path, 0, 0, [], some e, .finished⟩
  let made (r : BlobReader) : FileBlobs := { s with readers := s.readers ++ [r] }
  match pathOf key with
  | none => made (failed [] (.valueError s!"invalid blob key {key}"))
  | some path =>
    match outcome, s.disk.openFile path with
    | .returned, .ok file => made ⟨key, path, file, 0, [], none, .reading⟩
    | .returned, .error .ENOENT => made (failed path (.blobNotFound key))
    | _, _ => made (failed path Put.interrupted)

/-- The next chunk of a reader. -/
def next (s : FileBlobs) (j : Nat) (outcome : Outcome) : FileBlobs :=
  match s.readers[j]? with
  | none => s
  | some r =>
    let now (r : BlobReader) : FileBlobs := { s with readers := s.readers.set j r }
    if r.stage = .reading then
      match outcome with
      | .raised _ => now { r with raised := some Put.interrupted, stage := .finished }
      | .returned =>
        let bytes := s.disk.read r.file r.offset blobChunkBytes
        if bytes = [] then now { r with stage := .finished }
        else now { r with offset := r.offset + bytes.length, yielded := r.yielded ++ [bytes] }
    else s

/-- `delete` -/
def delete (s : FileBlobs) (key : String) (outcome : Outcome) : FileBlobs :=
  match pathOf key with
  | none => s
  | some path => if outcome.took then { s with disk := (s.disk.unlink path).toOption.getD s.disk } else s

def step (s : FileBlobs) (_ : Instant) : FileAct → FileBlobs
  | .begin key =>
    match pathOf key with
    | none =>
      { s with puts := s.puts ++ [(Put.start key []).fail (.valueError s!"invalid blob key {key}") .ended] }
    | some path => { s with puts := s.puts ++ [Put.start key path] }
  | .temporary i drawn outcome => s.on i .opening fun p => s.temporary i p drawn outcome
  | .chunk i bytes outcome => s.on i .writing fun p => s.chunk i p bytes outcome
  | .spill i n =>
    s.on i .writing fun p => s.withTemp p fun _ file =>
      s.set i { p with buffer := p.buffer.drop n } (s.disk.write file (p.buffer.take n))
  | .ends i raises =>
    s.on i .writing fun p =>
      match raises with
      | none => s.set i { p with whole := true, stage := .closing } s.disk
      | some e => s.set i (p.fail e .closing) s.disk
  | .close i outcome => s.on i .closing fun p => s.close i p outcome
  | .link i outcome => s.on i .linking fun p => s.link i p outcome
  | .discard i outcome => s.on i .discarding fun p => s.discard i p outcome
  | .read key outcome => s.read key outcome
  | .next j outcome => s.next j outcome
  | .delete key outcome => s.delete key outcome
  | .kill i =>
    match s.puts[i]? with
    | none => s
    | some p => s.set i p.die s.disk
  | .powerCut kept torn =>
    { disk := s.disk.cut kept torn
      puts := s.puts.map Put.die
      readers := s.readers.map fun r => if r.stage = .reading then { r with stage := .dead } else r }

end FileBlobs

end AgentRuns
