import AgentRuns.Nullable
import AgentRuns.Rounding
import AgentRuns.Invariant

/-!
# The sweeps' queries

A sweep's WHERE is written over nullable columns.  Here it is as PostgreSQL reads it, with what a sweep catches told by it
(`where_pastDeadline`, `where_overworked`, `where_lapsed`, `where_overdue`).  The overwork sweep's has the arithmetic of `_worked` once
more, in SQL; it is kept apart from it here, in any arithmetic (`Rounding`).
-/

namespace AgentRuns

open Relational Fallible Timed

/-- `_sweep(*conditions)`: does the WHERE take the row? -/
def where_ (conditions : List (Option Bool)) : Bool := Nullable.holds (Nullable.all conditions)

theorem where_pair (p q : Option Bool) : where_ [p, q] = (Nullable.holds p && Nullable.holds q) := by
  unfold where_
  rw [Nullable.holds_all, List.all_cons, List.all_cons, List.all_nil, Bool.and_true]

/-! ## Deadlines, leases and interrupts -/

section
variable {now : Instant} {row : RunRow}

/-- `_UNENDED` -/
def unended : List RunStatus := [.QUEUED, .RUNNING, .PAUSED]

def pastDeadlineQuery (now : Instant) (row : RunRow) : List (Option Bool) :=
  [Nullable.isIn (some row.status) unended, Nullable.lt row.deadline (some now)]

def lapsedQuery (now : Instant) (row : RunRow) : List (Option Bool) :=
  [Nullable.eq (some row.status) (some .RUNNING), Nullable.lt row.leaseExpiresAt (some now)]

def overdueQuery (now : Instant) (row : RunRow) : List (Option Bool) :=
  [Nullable.eq (some row.status) (some .PAUSED), Nullable.lt row.awaitingDeadline (some now)]

/-- A column is before now where it is there and before now. -/
theorem holds_lt_now (t : Option Instant) (now : Instant) : Nullable.holds (Nullable.lt t (some now)) = t.any (· < now) := by
  cases t with
  | none => rfl
  | some t => exact Nullable.holds_lt t now

theorem where_pastDeadline : where_ (pastDeadlineQuery now row) = RunStore.pastDeadline now row := by
  have hunended : decide (row.status ∈ unended) = !row.status.final := by cases row.status <;> rfl
  rw [pastDeadlineQuery, where_pair, Nullable.holds_isIn, hunended, holds_lt_now]
  rfl

theorem where_lapsed : where_ (lapsedQuery now row) = Database.lapsed now row := by
  rw [lapsedQuery, where_pair, Nullable.holds_eq, holds_lt_now]
  rfl

theorem where_overdue : where_ (overdueQuery now row) = RunStore.overdue now row := by
  rw [overdueQuery, where_pair, Nullable.holds_eq, holds_lt_now]
  rfl

end

/-! ## The working time -/

/-- `_worked`, in an arithmetic. -/
def workedIn (a : Rounding) (row : RunRow) (now : Instant) : Rat :=
  match row.runningSince with
  | none => row.workedSeconds
  | some since => a.round (row.workedSeconds + max 0 (a.round (now - since)))

/-- The working time left that `_lease` tells, in an arithmetic. -/
def RunStore.remainingIn (store : RunStore) (a : Rounding) (row : RunRow) (now : Instant) : Option Rat :=
  (store.limit row).map fun limit => max 0 (a.round (limit - workedIn a row now))

/-- `allowed` of the query. -/
def RunStore.allowed (store : RunStore) (row : RunRow) : Option Rat :=
  match store.maxRunSeconds with
  | none => row.timeoutSeconds
  | some most => Nullable.least row.timeoutSeconds (some most)

/-- `working` of the query: an interval's epoch is exact until it is added to a double. -/
def working (a : Rounding) (row : RunRow) (now : Instant) : Option Rat :=
  Option.map₂ (fun worked stretch => a.round (worked + a.round stretch)) (some row.workedSeconds)
    (Option.map₂ (· - ·) (some now) row.runningSince)

def RunStore.overworkedQuery (store : RunStore) (a : Rounding) (now : Instant) (row : RunRow) : List (Option Bool) :=
  [Nullable.eq (some row.status) (some .RUNNING), Nullable.lt (store.allowed row) (working a row now)]

section
variable {store : RunStore} {a : Rounding} {now : Instant} {row : RunRow}

theorem workedIn_exact : workedIn .exact row now = worked row now := rfl

theorem remainingIn_exact (workerId : String) (seconds : LeaseSeconds) :
    store.remainingIn .exact row now = (store.lease row workerId seconds now).2.remainingSeconds := rfl

theorem RunStore.allowed_eq : store.allowed row = store.limit row := by
  unfold RunStore.allowed RunStore.limit
  cases store.maxRunSeconds <;> cases row.timeoutSeconds <;> rfl

/-- It is NULL where the stretch has no beginning. -/
theorem working_eq_some {total : Rat} : working a row now = some total ↔
    ∃ since, row.runningSince = some since ∧ a.round (row.workedSeconds + a.round (now - since)) = total := by
  simp [working]

theorem where_overworked_iff : where_ (store.overworkedQuery a now row) = true ↔
    row.status = .RUNNING ∧ ∃ limit since, store.limit row = some limit ∧ row.runningSince = some since ∧
      limit < a.round (row.workedSeconds + a.round (now - since)) := by
  rw [RunStore.overworkedQuery, where_pair, Nullable.holds_eq, Bool.and_eq_true, decide_eq_true_iff, Nullable.holds_lt_iff,
    RunStore.allowed_eq]
  refine and_congr_right fun _ => ?_
  constructor
  · rintro ⟨limit, total, hlimit, htotal, hlt⟩
    obtain ⟨since, hsince, rfl⟩ := working_eq_some.1 htotal
    exact ⟨limit, since, hlimit, hsince, hlt⟩
  · rintro ⟨limit, since, hlimit, hsince, hlt⟩
    exact ⟨limit, _, hlimit, working_eq_some.2 ⟨since, hsince, rfl⟩, hlt⟩

/-- What the sweep takes is what its query does, in the exact arithmetic. -/
theorem where_overworked : where_ (store.overworkedQuery .exact now row) = store.overworked now row := by
  rw [Bool.eq_iff_iff, where_overworked_iff]
  simp only [RunStore.overworked, Bool.and_eq_true, decide_eq_true_eq, Option.any_eq_true, Rounding.exact]
  tauto

end

end AgentRuns
