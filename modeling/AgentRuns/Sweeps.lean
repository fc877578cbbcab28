import AgentRuns.Queue

/-!
# The ticker's sweeps

Four sweeps move the runs that time has caught: past their deadline, past their working time,
with a lapsed lease, or waiting past their interrupt's deadline.  Each takes at most `limit` rows
in its order, passing over the ones another transaction holds, and moves every one of them or
none (`Database.sweep`).
-/

namespace AgentRuns

open Relational Fallible

namespace Database

/-- `_sweep`: the rows a sweep takes. -/
def swept (db : Database) (held : List String) (caught : RunRow → Bool) (order : RunRow → Option Instant)
    (limit : Nat) : List RunRow :=
  (((db.runs.rows.filter caught).insertionSort fun a b => (order a).getD 0 ≤ (order b).getD 0).filter
    fun row => !held.contains row.runId).take limit

theorem swept_spec {db : Database} {held : List String} {caught : RunRow → Bool} {order : RunRow → Option Instant}
    {limit : Nat} {row : RunRow} (h : row ∈ db.swept held caught order limit) :
    row ∈ db.runs.rows ∧ caught row = true ∧ row.runId ∉ held := by
  have h := List.mem_of_mem_take h
  rw [List.mem_filter, List.mem_insertionSort, List.mem_filter] at h
  obtain ⟨⟨hm, hc⟩, hl⟩ := h
  exact ⟨hm, hc, by simpa using hl⟩

/-- A sweep takes no run twice. -/
theorem swept_nodup (db : Database) (held : List String) (caught : RunRow → Bool) (order : RunRow → Option Instant)
    (limit : Nat) : ((db.swept held caught order limit).map RunRow.runId).Nodup := by
  have hf : ((db.runs.rows.filter caught).map RunRow.runId).Nodup :=
    (List.Sublist.map _ List.filter_sublist).nodup db.runs.nodup
  have hs := ((List.perm_insertionSort (fun a b => (order a).getD 0 ≤ (order b).getD 0)
    (db.runs.rows.filter caught)).map RunRow.runId).nodup_iff.2 hf
  exact (List.Sublist.map _ ((List.take_sublist _ _).trans List.filter_sublist)).nodup hs

/-- One sweep: what `moving` makes of every row it takes. -/
def sweep (db : Database) (held : List String) (caught : RunRow → Bool) (order : RunRow → Option Instant)
    (limit : Nat) (now : Instant) (moving : RunRow → Except ServiceError RunRow) :
    Except ServiceError (Database × List RunRecord) := do
  let rows ← each moving (db.swept held caught order limit)
  let db ← db.flush rows
  .ok (db.ended rows now, rows.map fun row => record row now)

theorem sweep_ok {db db' : Database} {held : List String} {caught : RunRow → Bool}
    {order : RunRow → Option Instant} {limit : Nat} {now : Instant} {moving : RunRow → Except ServiceError RunRow}
    {moved : List RunRecord} (h : db.sweep held caught order limit now moving = .ok (db', moved)) :
    ∃ rows, List.Forall₂ (fun row row' => moving row = .ok row') (db.swept held caught order limit) rows ∧
      (∀ row ∈ rows, row.fits = true) ∧ db' = { db with runs := db.runs.putAll rows }.ended rows now ∧
      moved = rows.map fun row => record row now := by
  unfold sweep at h
  obtain ⟨rows, hr, h⟩ := bind_ok.1 h
  obtain ⟨_, hf, h⟩ := bind_ok.1 h
  obtain ⟨hfit, rfl⟩ := flush_ok.1 hf
  cases h
  exact ⟨rows, each_ok.1 hr, hfit, rfl, rfl⟩

/-- A row it catches that nobody holds is taken, unless the batch is full. -/
theorem swept_or_full {db : Database} {held : List String} {caught : RunRow → Bool} {order : RunRow → Option Instant}
    {limit : Nat} {row : RunRow} (hm : row ∈ db.runs.rows) (hc : caught row = true) (hfree : row.runId ∉ held) :
    row ∈ db.swept held caught order limit ∨ (db.swept held caught order limit).length = limit := by
  have hin : row ∈ ((db.runs.rows.filter caught).insertionSort fun a b => (order a).getD 0 ≤ (order b).getD 0).filter
      fun row => !held.contains row.runId := by
    rw [List.mem_filter, List.mem_insertionSort, List.mem_filter]
    exact ⟨⟨hm, hc⟩, by simpa using hfree⟩
  unfold swept
  by_cases hfull : limit ≤ (((db.runs.rows.filter caught).insertionSort fun a b => (order a).getD 0 ≤ (order b).getD 0).filter
      fun row => !held.contains row.runId).length
  · exact Or.inr (List.length_take_of_le hfull)
  · rw [List.take_of_length_le (by omega)]
    exact Or.inl hin

/-- What a sweep does run by run: those it takes become what `moving` makes of them, the others stand. -/
structure SweepRuns (db db' : Database) (rows : List RunRow) (moving : RunRow → Except ServiceError RunRow) (now : Instant)
    (moved : List RunRecord) : Prop where
  length : moved.length = rows.length
  taken : ∀ row ∈ rows, ∃ row', moving row = .ok row' ∧ db'.run? row.runId = some row' ∧ record row' now ∈ moved
  moved : ∀ run ∈ moved, ∃ row ∈ rows, ∃ row', moving row = .ok row' ∧ row'.runId = row.runId ∧ run = record row' now
  stands : ∀ r, (∀ row ∈ rows, row.runId ≠ r) → db'.run? r = db.run? r

theorem sweep_runs {db db' : Database} {held : List String} {caught : RunRow → Bool} {order : RunRow → Option Instant}
    {limit : Nat} {now : Instant} {moving : RunRow → Except ServiceError RunRow} {moved : List RunRecord}
    (hid : ∀ row row', caught row = true → moving row = .ok row' → row'.runId = row.runId)
    (h : db.sweep held caught order limit now moving = .ok (db', moved)) :
    SweepRuns db db' (db.swept held caught order limit) moving now moved := by
  obtain ⟨rows, hrows, -, rfl, rfl⟩ := sweep_ok h
  have hids : ∀ row ∈ db.swept held caught order limit, ∀ row', moving row = .ok row' → row'.runId = row.runId :=
    fun row hrow row' hmoved => hid row row' (swept_spec hrow).2.1 hmoved
  have hkeys : (db.swept held caught order limit).map RunRow.runId = rows.map RunRow.runId := by
    rw [← List.forall₂_eq_eq_eq, List.forall₂_map_left_iff, List.forall₂_map_right_iff]
    exact (each_mem hrows).imp fun row row' h => (hids row h.1 row' h.2).symm
  have hnodup : (rows.map RunRow.runId).Nodup := by
    rw [← hkeys]
    exact swept_nodup db held caught order limit
  constructor
  · rw [List.length_map, hrows.length_eq]
  · intro row hrow
    obtain ⟨row', hrow', hmoved⟩ := exists_of_mem_left hrows hrow
    refine ⟨row', hmoved, ?_, List.mem_map_of_mem hrow'⟩
    rw [← hids row hrow row' hmoved]
    refine Table.find?_putAll_of_mem (b := row) hnodup hrow' ?_
    rw [hids row hrow row' hmoved]
    exact Table.find?_of_mem (swept_spec hrow).1
  · intro run hrun
    obtain ⟨row', hrow', rfl⟩ := List.mem_map.1 hrun
    obtain ⟨row, hrow, hmoved⟩ := exists_of_mem_right hrows hrow'
    exact ⟨row, hrow, row', hmoved, hids row hrow row' hmoved, rfl⟩
  · intro r hr
    refine Table.find?_putAll_of_ne fun row' hrow' he => ?_
    obtain ⟨row, hrow, hmoved⟩ := exists_of_mem_right hrows hrow'
    exact hr row hrow ((hids row hrow row' hmoved).symm.trans he)

/-- A row another transaction holds is left alone. -/
theorem sweep_held {db db' : Database} {held : List String} {caught : RunRow → Bool} {order : RunRow → Option Instant}
    {limit : Nat} {now : Instant} {moving : RunRow → Except ServiceError RunRow} {moved : List RunRecord} {r : String}
    (hid : ∀ row row', caught row = true → moving row = .ok row' → row'.runId = row.runId)
    (h : db.sweep held caught order limit now moving = .ok (db', moved)) (hr : r ∈ held) : db'.run? r = db.run? r := by
  refine (sweep_runs hid h).stands r fun row hrow he => ?_
  exact (swept_spec hrow).2.2 (he ▸ hr)

/-- A sweep that may move every row it takes moves them all. -/
theorem sweep_total {db : Database} {held : List String} {caught : RunRow → Bool} {order : RunRow → Option Instant}
    {limit : Nat} {now : Instant} {moving : RunRow → Except ServiceError RunRow}
    (h : ∀ row ∈ db.runs.rows, caught row = true → ∃ row', moving row = .ok row' ∧ row'.fits = true) :
    ∃ db' moved, db.sweep held caught order limit now moving = .ok (db', moved) := by
  have hmoving : ∀ row ∈ db.swept held caught order limit, ∃ row', moving row = .ok row' := by
    intro row hr
    obtain ⟨hm, hc, -⟩ := swept_spec hr
    obtain ⟨row', hrow', -⟩ := h row hm hc
    exact ⟨row', hrow'⟩
  obtain ⟨rows, hrows⟩ := each_total hmoving
  have hfit : ∀ row' ∈ rows, row'.fits = true := by
    intro row' hr'
    obtain ⟨row, hr, hrow'⟩ := exists_of_mem_right (each_ok.1 hrows) hr'
    obtain ⟨hm, hc, -⟩ := swept_spec hr
    obtain ⟨row'', hrow'', hf⟩ := h row hm hc
    rw [hrow'] at hrow''
    cases hrow''
    exact hf
  exact ⟨_, _, bind_ok.2 ⟨rows, hrows, bind_ok.2 ⟨_, flush_ok.2 ⟨hfit, rfl⟩, rfl⟩⟩⟩

end Database

namespace RunStore

/-! ## Past the deadline -/

def pastDeadline (now : Instant) (row : RunRow) : Bool := !row.status.final && row.deadline.any (· < now)

def pastDeadlineRow (store : RunStore) (now : Instant) (row : RunRow) : Except ServiceError RunRow := do
  let moved ← move row .TIMEOUT now
  let deadline := (row.deadline.map store.lib.strDatetime).getD "None"
  .ok { moved with
    error := some (ownError "run_deadline" s!"the run did not end by its deadline, {deadline}" false) }

def timeOutPastDeadline (store : RunStore) (db : Database) (held : List String) (limit : Nat) (now : Instant) :
    Except ServiceError (Database × List RunRecord) :=
  db.sweep held (pastDeadline now) RunRow.deadline limit now (store.pastDeadlineRow now)

/-! ## Past the working time -/

def overworked (store : RunStore) (now : Instant) (row : RunRow) : Bool :=
  row.status = .RUNNING && (store.limit row).any fun allowed =>
    row.runningSince.any fun since => allowed < row.workedSeconds + (now - since)

def overworkedRow (store : RunStore) (now : Instant) (row : RunRow) : Except ServiceError RunRow := do
  let moved ← move row .TIMEOUT now
  match store.limit moved with
  | none => .error (.internal "unsupported format string passed to NoneType.__format__")
  | some limit =>
    let worked := store.lib.fixed0 moved.workedSeconds
    let limit := store.lib.general limit
    .ok { moved with
      error := some (ownError "run_timeout" s!"the run worked {worked} s, past its limit of {limit} s" false) }

def timeOutOverworked (store : RunStore) (db : Database) (held : List String) (limit : Nat) (now : Instant) :
    Except ServiceError (Database × List RunRecord) :=
  db.sweep held (store.overworked now) RunRow.runningSince limit now (store.overworkedRow now)

end RunStore

namespace Database

/-! ## Lapsed leases -/

def lapsed (now : Instant) (row : RunRow) : Bool := row.status = .RUNNING && row.leaseExpiresAt.any (· < now)

def lapsedRow (now : Instant) (draw : Draw) (row : RunRow) : Except ServiceError RunRow := do
  match ← cancelledInstead row now with
  | some ended => .ok ended
  | none =>
    let counted := { row with leaseLapses := row.leaseLapses + 1 }
    if maxLeaseLapses ≤ counted.leaseLapses then do
      let ended ← move counted .ERROR now
      .ok { ended with
        error := some (ownError "lease_expired" (s!"the lease lapsed {counted.leaseLapses} times: every worker " ++
          "that claimed the run stopped heartbeating") true) }
    else
      requeue counted now (some (jittered (backoff lapseRetryBase counted.leaseLapses lapseRetryCap) draw))

def requeueLapsed (db : Database) (held : List String) (limit : Nat) (draws : String → Draw) (now : Instant) :
    Except ServiceError (Database × List RunRecord) :=
  db.sweep held (lapsed now) RunRow.leaseExpiresAt limit now fun row => lapsedRow now (draws row.runId) row

end Database

namespace RunStore

/-! ## Interrupts nobody answered -/

def overdue (now : Instant) (row : RunRow) : Bool := row.status = .PAUSED && row.awaitingDeadline.any (· < now)

/-- The interrupt with the next person asked. -/
def escalated (interrupt : Interrupt) : Interrupt :=
  { interrupt with assignee := interrupt.escalateTo, escalateTo := none, deadline := none }

def overdueRow (store : RunStore) (now : Instant) (row : RunRow) : Except ServiceError RunRow :=
  match row.awaiting with
  | none => .error (.internal "no interrupt")
  | some interrupt =>
    if interrupt.escalateTo.any (· ≠ "") then
      let interrupt := escalated interrupt
      .ok { row with
        awaiting := some interrupt
        assignee := interrupt.assignee
        awaitingDeadline := none
        updatedAt := now }
    else do
      let ended ← move row .TIMEOUT now
      let deadline := (interrupt.deadline.map store.lib.strDatetime).getD "None"
      .ok { ended with error := some (ownError "interrupt_deadline" s!"nobody answered by {deadline}" true) }

def escalateOverdue (store : RunStore) (db : Database) (held : List String) (limit : Nat) (now : Instant) :
    Except ServiceError (Database × List RunRecord) :=
  db.sweep held (overdue now) RunRow.awaitingDeadline limit now (store.overdueRow now)

end RunStore

end AgentRuns
