import AgentRuns.Cadence
import AgentRuns.Store
import Mathlib.Data.List.Sort

/-!
# Schedules

`domain/schedules.py` and `store/schedules.py`.  What the store makes of one row: applying a spec, arming
the next fire, an update of the fields sent, the bookkeeping of a fire.  An update reads its row without a
lock and writes back the columns it changed (`ScheduleRow.flushed`), which is what `commitUpdate` does to the
row as it then is; `update` does both at once.
-/

namespace AgentRuns

open Relational Fallible

/-! ## Constants -/

def maxConsecutiveFailures : Nat := 3
def fireRetryBase : Rat := 5 * 60
def fireRetryCap : Rat := 3600
/-- `MAX_FIRE_SKEW`, 1 min. -/
def maxFireSkew : Rat := 60

/-! ## Records -/

/-- What a schedule is created from. -/
structure ScheduleSpec where
  tenantId : String
  agentId : String
  name : String
  cadence : String
  timezone : String
  input : Json
  onBehalfOf : String
  workspaceId : Option String
  enabled : Bool
  timeoutSeconds : Option Rat
  agentVersion : Option String
  priority : Int
  concurrencyKey : Option String
  metadata : List (String × Json)

/-- A row of `agent_schedules`. -/
structure ScheduleRow where
  scheduleId : String
  tenantId : String
  agentId : String
  name : String
  cadence : String
  timezone : String
  input : Json
  inputSha256 : String
  onBehalfOf : String
  workspaceId : Option String
  createdBy : Option String
  enabled : Bool
  timeoutSeconds : Option Rat
  agentVersion : Option String
  priority : Int
  concurrencyKey : Option String
  nextFireAt : Option Instant
  lastFiredAt : Option Instant
  lastRunId : Option String
  consecutiveFailures : Nat
  lastError : Option AgentError
  /-- the backoff gate after a retryable failed fire -/
  retryAfter : Option Instant
  scheduleMetadata : Option (List (String × Json))
  createdAt : Instant
  updatedAt : Instant

/-- Does PostgreSQL take the row's columns? -/
def ScheduleRow.fits (row : ScheduleRow) : Bool :=
  fitsVarchar 64 row.scheduleId && fitsVarchar 128 row.tenantId && fitsVarchar 128 row.agentId &&
    fitsVarchar 200 row.name && fitsVarchar 128 row.cadence && fitsVarchar 64 row.timezone && row.input.storable &&
    fitsVarchar 64 row.inputSha256 && fitsVarchar 128 row.onBehalfOf && fitsVarchar? 128 row.workspaceId &&
    fitsVarchar? 128 row.createdBy && fitsVarchar? 128 row.agentVersion && fitsVarchar? 200 row.concurrencyKey &&
    fitsVarchar? 64 row.lastRunId && row.lastError.all AgentError.storable &&
    row.scheduleMetadata.all Json.membersStorable

/-- The columns of `uq_schedules_identity`. -/
def ScheduleRow.identity (row : ScheduleRow) : String × String × String × String × String :=
  (row.tenantId, row.agentId, row.onBehalfOf, row.cadence, row.inputSha256)

/-- The fields an owner may change: a field is unset, sent as null, or sent with a value. -/
structure ScheduleUpdate where
  agentId : Option (Option String)
  name : Option (Option String)
  cadence : Option (Option String)
  timezone : Option (Option String)
  input : Option (Option Json)
  workspaceId : Option (Option String)
  enabled : Option (Option Bool)
  timeoutSeconds : Option (Option Rat)
  agentVersion : Option (Option String)
  priority : Option (Option Int)
  concurrencyKey : Option (Option String)
  metadata : Option (Option (List (String × Json)))

/-! ## Metadata -/

/-- `{**members, name: value}`, in the order of the names. -/
def withMember (member : String × Json) : List (String × Json) → List (String × Json)
  | [] => [member]
  | m :: ms =>
    if m.1 = member.1 then member :: ms
    else if member.1 < m.1 then member :: m :: ms
    else m :: withMember member ms

/-- `{**a, **b}`. -/
def mergeMembers (a b : List (String × Json)) : List (String × Json) := b.foldl (fun ms m => withMember m ms) a

theorem mem_names_withMember {name : String} {member : String × Json} {ms : List (String × Json)} :
    name ∈ (withMember member ms).map Prod.fst ↔ name = member.1 ∨ name ∈ ms.map Prod.fst := by
  induction ms with
  | nil => simp [withMember]
  | cons m ms ih =>
    unfold withMember
    split_ifs with hsame hlt
    · simp [hsame]
    · simp
    · simp only [List.map_cons, List.mem_cons, ih]
      tauto

/-- A merge keeps the names of both. -/
theorem mem_names_mergeMembers {name : String} {b : List (String × Json)} : ∀ {a : List (String × Json)},
    name ∈ (mergeMembers a b).map Prod.fst ↔ name ∈ a.map Prod.fst ∨ name ∈ b.map Prod.fst := by
  induction b with
  | nil => intro a; simp [mergeMembers]
  | cons m b ih =>
    intro a
    rw [show mergeMembers a (m :: b) = mergeMembers (withMember m a) b from rfl, ih, mem_names_withMember]
    simp only [List.map_cons, List.mem_cons]
    tauto

namespace ScheduleRow

/-- The names its metadata holds. -/
def names (row : ScheduleRow) : List String := (row.scheduleMetadata.getD []).map Prod.fst

/-- The spec an update asks for, `none` where it sends null for a field that needs a value. -/
def merged (row : ScheduleRow) (change : ScheduleUpdate) : Option ScheduleSpec := do
  let agentId ← change.agentId.getD (some row.agentId)
  let name ← change.name.getD (some row.name)
  let cadence ← change.cadence.getD (some row.cadence)
  let timezone ← change.timezone.getD (some row.timezone)
  let enabled ← change.enabled.getD (some row.enabled)
  let priority ← change.priority.getD (some row.priority)
  let kept := row.scheduleMetadata.getD []
  some
    { tenantId := row.tenantId
      agentId := agentId
      name := name
      cadence := cadence
      timezone := timezone
      input := (change.input.getD (some row.input)).getD .null
      onBehalfOf := row.onBehalfOf
      workspaceId := change.workspaceId.getD row.workspaceId
      enabled := enabled
      timeoutSeconds := change.timeoutSeconds.getD row.timeoutSeconds
      agentVersion := change.agentVersion.getD row.agentVersion
      priority := priority
      concurrencyKey := change.concurrencyKey.getD row.concurrencyKey
      metadata :=
        match change.metadata with
        | none => kept
        | some sent => mergeMembers kept (sent.getD []) }

/-- Did the cadence or the zone change? -/
def retimed (row : ScheduleRow) (spec : ScheduleSpec) : Bool := (spec.cadence, spec.timezone) ≠ (row.cadence, row.timezone)

/-- Is a paused schedule resumed? -/
def reEnabled (row : ScheduleRow) (spec : ScheduleSpec) : Bool := spec.enabled && !row.enabled

/-- `wrote` where a column changed since it was read, else the column as it is. -/
def column {α : Type} (same : α → α → Bool) (read wrote current : α) : α := if same wrote read then current else wrote

/-- The `UPDATE` the ORM flushes: the columns that `wrote` and the row `read` differ in, over the row as it
is. -/
def flushed (read wrote current : ScheduleRow) : ScheduleRow :=
  { current with
    tenantId := column (· == ·) read.tenantId wrote.tenantId current.tenantId
    agentId := column (· == ·) read.agentId wrote.agentId current.agentId
    name := column (· == ·) read.name wrote.name current.name
    cadence := column (· == ·) read.cadence wrote.cadence current.cadence
    timezone := column (· == ·) read.timezone wrote.timezone current.timezone
    input := column Json.pyEq read.input wrote.input current.input
    inputSha256 := column (· == ·) read.inputSha256 wrote.inputSha256 current.inputSha256
    onBehalfOf := column (· == ·) read.onBehalfOf wrote.onBehalfOf current.onBehalfOf
    workspaceId := column (· == ·) read.workspaceId wrote.workspaceId current.workspaceId
    enabled := column (· == ·) read.enabled wrote.enabled current.enabled
    timeoutSeconds := column (· == ·) read.timeoutSeconds wrote.timeoutSeconds current.timeoutSeconds
    agentVersion := column (· == ·) read.agentVersion wrote.agentVersion current.agentVersion
    priority := column (· == ·) read.priority wrote.priority current.priority
    concurrencyKey := column (· == ·) read.concurrencyKey wrote.concurrencyKey current.concurrencyKey
    nextFireAt := column (· == ·) read.nextFireAt wrote.nextFireAt current.nextFireAt
    consecutiveFailures := column (· == ·) read.consecutiveFailures wrote.consecutiveFailures current.consecutiveFailures
    lastError := column (· == ·) read.lastError wrote.lastError current.lastError
    retryAfter := column (· == ·) read.retryAfter wrote.retryAfter current.retryAfter
    scheduleMetadata :=
      column (fun a b => Json.pyEqMembers (a.getD []) (b.getD []) && a.isSome == b.isSome) read.scheduleMetadata
        wrote.scheduleMetadata current.scheduleMetadata
    updatedAt := column (· == ·) read.updatedAt wrote.updatedAt current.updatedAt }

end ScheduleRow

/-! ## The store -/

/-- A `ScheduleStore`'s packages: `ScheduleSpec.model_validate` is `validate`. -/
structure ScheduleStore where
  runs : RunStore
  calendar : Calendar
  validate : ScheduleSpec → Option ScheduleSpec
  inputSha256 : Json → String

namespace ScheduleStore

/-- `_checked`: a spec as the contracts validate it, with a cadence this service will run. -/
def checked (store : ScheduleStore) (fields : Option ScheduleSpec) : Except ServiceError ScheduleSpec :=
  match fields.bind store.validate with
  | none => .error (.unprocessable "the schedule is invalid")
  | some spec => do
    let cadence ← store.calendar.validateCadence store.runs.lib spec.cadence
    .ok { spec with cadence := cadence }

/-- `_apply`. -/
def apply (store : ScheduleStore) (row : ScheduleRow) (spec : ScheduleSpec) : ScheduleRow :=
  { row with
    tenantId := spec.tenantId
    agentId := spec.agentId
    name := spec.name
    cadence := spec.cadence
    timezone := spec.timezone
    input := spec.input
    onBehalfOf := spec.onBehalfOf
    workspaceId := spec.workspaceId
    enabled := spec.enabled
    timeoutSeconds := spec.timeoutSeconds
    agentVersion := spec.agentVersion
    priority := spec.priority
    concurrencyKey := spec.concurrencyKey
    scheduleMetadata := if spec.metadata.isEmpty then none else some spec.metadata
    inputSha256 := store.inputSha256 spec.input }

/-- `_arm`. -/
def arm (store : ScheduleStore) (row : ScheduleRow) (after : Instant) : ScheduleRow :=
  { row with nextFireAt := store.calendar.nextFireAt row.cadence after row.timezone }

/-- `_rearm`: an occurrence that is merely late is kept, one a later occurrence replaced is gone. -/
def rearm (store : ScheduleStore) (row : ScheduleRow) (at_ : Instant) : ScheduleRow :=
  match row.nextFireAt with
  | none => store.arm row at_
  | some pending =>
    let following := store.calendar.nextFireAt row.cadence pending row.timezone
    if at_ < pending ∨ following.any (at_ < ·) then row else store.arm row at_

/-! ### Creating -/

/-- The row an upsert inserts. -/
def createdRow (store : ScheduleStore) (spec : ScheduleSpec) (createdBy scheduleId : String) (now : Instant) :
    ScheduleRow :=
  store.arm
    { scheduleId := scheduleId
      tenantId := spec.tenantId
      agentId := spec.agentId
      name := spec.name
      cadence := spec.cadence
      timezone := spec.timezone
      input := spec.input
      inputSha256 := store.inputSha256 spec.input
      onBehalfOf := spec.onBehalfOf
      workspaceId := spec.workspaceId
      createdBy := some createdBy
      enabled := spec.enabled
      timeoutSeconds := spec.timeoutSeconds
      agentVersion := spec.agentVersion
      priority := spec.priority
      concurrencyKey := spec.concurrencyKey
      nextFireAt := none
      lastFiredAt := none
      lastRunId := none
      consecutiveFailures := 0
      lastError := none
      retryAfter := none
      scheduleMetadata := if spec.metadata.isEmpty then none else some spec.metadata
      createdAt := now
      updatedAt := now }
    now

/-- `upsert`: the table, the schedule and whether it was created, its id minted. -/
def upsert (store : ScheduleStore) (schedules : Table ScheduleRow.scheduleId) (spec : ScheduleSpec)
    (createdBy scheduleId : String) (now : Instant) :
    Except ServiceError (Table ScheduleRow.scheduleId × ScheduleRow × Bool) := do
  let spec ← store.checked (some spec)
  let row := store.createdRow spec createdBy scheduleId now
  refuse (row.fits = false) (.internal "the database refused a value")
  match schedules.rows.find? fun existing => existing.identity = row.identity with
  | some existing => .ok (schedules, existing, false)
  | none => do
    refuse ((schedules.find? scheduleId).isSome) (.internal "duplicate key value violates unique constraint")
    .ok (schedules.insert row, row, true)

/-! ### Updating -/

/-- What `update` makes of the row it read. -/
def updatedRow (store : ScheduleStore) (row : ScheduleRow) (spec : ScheduleSpec) (now : Instant) : ScheduleRow :=
  let applied := store.apply row spec
  let armed :=
    if row.retimed spec then store.arm applied now
    else if row.reEnabled spec then store.rearm applied now
    else applied
  let resumed :=
    if row.reEnabled spec then { armed with consecutiveFailures := 0, lastError := none, retryAfter := none }
    else armed
  { resumed with updatedAt := now }

/-- `_row`: the schedule of a tenant. -/
def row (schedules : Table ScheduleRow.scheduleId) (tenantId scheduleId : String) : Except ServiceError ScheduleRow :=
  match (schedules.find? scheduleId).filter (·.tenantId = tenantId) with
  | none => .error (.notFound s!"no schedule {scheduleId}")
  | some row => .ok row

/-- What an update that read `read` writes, and commits. -/
def commitUpdate (store : ScheduleStore) (schedules : Table ScheduleRow.scheduleId) (read : ScheduleRow)
    (change : ScheduleUpdate) (now : Instant) : Except ServiceError (Table ScheduleRow.scheduleId) := do
  let spec ← store.checked (read.merged change)
  match schedules.find? read.scheduleId with
  | none => .error (.internal "UPDATE statement on table 'agent_schedules' expected to update 1 row(s); 0 were matched.")
  | some current => do
    let written := ScheduleRow.flushed read (store.updatedRow read spec now) current
    refuse (written.fits = false) (.internal "the database refused a value")
    refuse (schedules.rows.any fun other => other.scheduleId ≠ read.scheduleId ∧ other.identity = written.identity)
      (.conflict (s!"schedule {read.scheduleId} would duplicate another schedule of this tenant: the same " ++
        "agent_id, on_behalf_of, cadence and input"))
    .ok (schedules.put written)

def update (store : ScheduleStore) (schedules : Table ScheduleRow.scheduleId) (tenantId scheduleId : String)
    (change : ScheduleUpdate) (now : Instant) : Except ServiceError (Table ScheduleRow.scheduleId) := do
  let row ← row schedules tenantId scheduleId
  store.commitUpdate schedules row change now

def delete (schedules : Table ScheduleRow.scheduleId) (tenantId scheduleId : String) :
    Except ServiceError (Table ScheduleRow.scheduleId) := do
  let row ← row schedules tenantId scheduleId
  .ok (schedules.erase (·.scheduleId = row.scheduleId))

/-! ### Firing -/

/-- May the ticker fire the schedule now? -/
def due (now : Instant) (row : ScheduleRow) : Bool :=
  row.enabled && row.nextFireAt.any (· ≤ now) && row.retryAfter.all (· ≤ now)

/-- `claim_due`: the most overdue schedule no other transaction holds. -/
def claimDue (schedules : Table ScheduleRow.scheduleId) (held : List String) (now : Instant) : Option ScheduleRow :=
  ((schedules.rows.filter (due now)).insertionSort fun a b => a.nextFireAt.getD 0 ≤ b.nextFireAt.getD 0).find?
    fun row => !held.contains row.scheduleId

/-- What `record_success` makes of the row. -/
def successRow (store : ScheduleStore) (row : ScheduleRow) (fireTime : Instant) (runId : String) (now : Instant) :
    ScheduleRow :=
  { store.arm row (max fireTime now) with
    lastFiredAt := some fireTime
    lastRunId := some runId
    consecutiveFailures := 0
    lastError := none
    retryAfter := none
    updatedAt := now }

/-- What `record_failure` makes of the row. -/
def failureRow (row : ScheduleRow) (error : AgentError) (now : Instant) : ScheduleRow :=
  let failures := row.consecutiveFailures + 1
  let failed := { row with consecutiveFailures := failures, lastError := some error, updatedAt := now }
  if error.retryable = false ∨ maxConsecutiveFailures ≤ failures then
    { failed with enabled := false, retryAfter := none }
  else { failed with retryAfter := some (now + backoff fireRetryBase failures fireRetryCap) }

end ScheduleStore

end AgentRuns
