import AgentRuns.Operations

/-!
# Claims at the same time

A claim is one transaction of several statements (READ COMMITTED: each sees what is committed when it
starts), and others commit between them.  `Race` is the database with the claims in flight, `Race.step` one
statement of one of them:

    choose       SELECT … FOR UPDATE SKIP LOCKED: the snapshot it reads (`seen`) and the rows it finds locked
                 (`held`, besides those other claims hold) may be any; the row it locks is read again
    lockTenant, lockKey      pg_try_advisory_xact_lock
    countTenant, countKey    SELECT count(*)
    commit       the run leased, and every lock let go

Any other operation locks its run before it reads it and keeps it locked until it commits, so it is one
step, at its commit: it waits for the claim that holds its run, and a sweep passes over what claims hold
(`Op.clearOf`).
-/

namespace AgentRuns

open Relational Fallible

/-- Where a claim in flight stands. -/
inductive ClaimPhase where
  | choosing
  /-- it holds the row -/
  | chosen (row : RunRow)
  | tenantLocked (row : RunRow) (cap : Nat)
  /-- the tenant has room -/
  | tenantRoom (row : RunRow)
  | keyLocked (row : RunRow) (key : String)
  /-- so has the key -/
  | taking (row : RunRow)

/-- The row it is about. -/
def ClaimPhase.row? : ClaimPhase → Option RunRow
  | choosing => none
  | chosen row => some row
  | tenantLocked row _ => some row
  | tenantRoom row => some row
  | keyLocked row _ => some row
  | taking row => some row

/-- The row whose tenant it found room for. -/
def ClaimPhase.roomForTenant? : ClaimPhase → Option RunRow
  | tenantRoom row => some row
  | keyLocked row _ => some row
  | taking row => some row
  | _ => none

/-- A claim in flight: its transaction, with the locks it has taken. -/
structure ClaimTx where
  id : Nat
  tenantId : Option String
  request : ClaimRequest
  now : Instant
  passed : List Passed
  phase : ClaimPhase
  rows : List String
  locks : List Int

/-- It passes over what has no room, and chooses again. -/
def ClaimTx.passOver (tx : ClaimTx) (p : Passed) : ClaimTx :=
  { tx with passed := tx.passed ++ [p], phase := .choosing }

/-- The database, and the claims in flight. -/
structure Race where
  db : Database
  claims : Table ClaimTx.id

/-- May the operation run while these rows are locked? -/
def Op.clearOf (locked : List String) : Op → Bool
  | .claim .. => false
  | .timeOutPastDeadline held _ => locked.all held.contains
  | .timeOutOverworked held _ => locked.all held.contains
  | .requeueLapsed held _ _ => locked.all held.contains
  | .escalateOverdue held _ => locked.all held.contains
  | op => op.runId.all fun runId => !locked.contains runId

inductive RaceAct where
  /-- any operation but a claim, whole -/
  | op (now : Instant) (op : Op)
  | begin (id : Nat) (tenantId : Option String) (request : ClaimRequest) (now : Instant)
  | choose (id : Nat) (seen : Database) (held : List String)
  | lockTenant (id : Nat)
  | countTenant (id : Nat)
  | lockKey (id : Nat)
  | countKey (id : Nat)
  | commit (id : Nat)
  | rollback (id : Nat)

/-- The claim a statement belongs to. -/
def RaceAct.claim? : RaceAct → Option Nat
  | op .. => none
  | begin id _ _ _ => some id
  | choose id _ _ => some id
  | lockTenant id => some id
  | countTenant id => some id
  | lockKey id => some id
  | countKey id => some id
  | commit id => some id
  | rollback id => some id

namespace Race

def empty : Race := ⟨Database.empty, Table.empty⟩

def others (s : Race) (tx : ClaimTx) : List ClaimTx := s.claims.rows.filter fun other => other.id ≠ tx.id

/-- The rows some of the claims have locked. -/
def lockedRows (claims : List ClaimTx) : List String := claims.flatMap ClaimTx.rows

/-- The advisory locks they have taken. -/
def advisory (claims : List ClaimTx) : List Int := claims.flatMap ClaimTx.locks

def moveOn (s : Race) (tx : ClaimTx) : Race := { s with claims := s.claims.put tx }

/-- The transaction ends, and its locks with it. -/
def close (s : Race) (tx : ClaimTx) : Race := { s with claims := s.claims.erase fun other => other.id = tx.id }

/-! ## The statements of a claim -/

/-- `_next_queued`.  With no row to take, the claim answers that there is none. -/
def choose (s : Race) (store : RunStore) (tx : ClaimTx) (seen : Database) (held : List String) : Race :=
  match tx.phase with
  | .choosing =>
    let held : Held := ⟨held ++ lockedRows (s.others tx), []⟩
    match store.nextQueued seen held tx.tenantId tx.request tx.now tx.passed with
    | none => s.close tx
    | some found =>
      match s.db.run? found.runId with
      | none => s
      | some row =>
        -- a row that changed since is taken only if the query still finds it
        if RunStore.queuedFor tx.tenantId tx.request tx.now tx.passed row then
          s.moveOn { tx with phase := .chosen row, rows := tx.rows ++ [row.runId] }
        else s
  | _ => s

def lockTenant (s : Race) (store : RunStore) (tx : ClaimTx) : Race :=
  match tx.phase with
  | .chosen row =>
    match store.perTenant with
    | none => s.moveOn { tx with phase := .tenantRoom row }
    | some cap =>
      if (advisory (s.others tx)).contains (store.tenantLock row) then s.moveOn (tx.passOver (.tenant row.tenantId))
      else s.moveOn { tx with phase := .tenantLocked row cap, locks := tx.locks ++ [store.tenantLock row] }
  | _ => s

def countTenant (s : Race) (tx : ClaimTx) : Race :=
  match tx.phase with
  | .tenantLocked row cap =>
    if s.db.leasedOf row.tenantId < cap then s.moveOn { tx with phase := .tenantRoom row }
    else s.moveOn (tx.passOver (.tenant row.tenantId))
  | _ => s

def lockKey (s : Race) (store : RunStore) (tx : ClaimTx) : Race :=
  match tx.phase with
  | .tenantRoom row =>
    match row.concurrencyKey with
    | none => s.moveOn { tx with phase := .taking row }
    | some key =>
      if (advisory (s.others tx)).contains (store.keyLock row key) then
        s.moveOn (tx.passOver (.key row.tenantId row.concurrencyKey))
      else s.moveOn { tx with phase := .keyLocked row key, locks := tx.locks ++ [store.keyLock row key] }
  | _ => s

def countKey (s : Race) (store : RunStore) (tx : ClaimTx) : Race :=
  match tx.phase with
  | .keyLocked row key =>
    if s.db.runningWith row.tenantId key < store.perKey then s.moveOn { tx with phase := .taking row }
    else s.moveOn (tx.passOver (.key row.tenantId row.concurrencyKey))
  | _ => s

/-- The run leased and the transaction over; one PostgreSQL refuses rolls back. -/
def commit (s : Race) (store : RunStore) (tx : ClaimTx) : Race :=
  match tx.phase with
  | .taking row => { s.close tx with db := orElse s.db (store.take s.db row tx.request tx.now) }
  | _ => s

/-- The claim `id`, if it is in flight, goes on. -/
def claiming (s : Race) (id : Nat) (statement : ClaimTx → Race) : Race :=
  match s.claims.find? id with
  | none => s
  | some tx => statement tx

/-- One step.  An operation or a claim that brings its own `now` read it when it began. -/
def step (store : RunStore) (s : Race) (_ : Instant) (act : RaceAct) : Race :=
  match act with
  | .op now op => if op.clearOf (lockedRows s.claims.rows) then { s with db := apply store s.db now op } else s
  | .begin id tenantId request now =>
    { s with
      claims := s.claims.insert
        { id := id
          tenantId := tenantId
          request := request
          now := now
          passed := []
          phase := .choosing
          rows := []
          locks := [] } }
  | .choose id seen held => s.claiming id fun tx => s.choose store tx seen held
  | .lockTenant id => s.claiming id (s.lockTenant store)
  | .countTenant id => s.claiming id s.countTenant
  | .lockKey id => s.claiming id (s.lockKey store)
  | .countKey id => s.claiming id (s.countKey store)
  | .commit id => s.claiming id (s.commit store)
  | .rollback id => s.claiming id s.close

end Race

end AgentRuns
