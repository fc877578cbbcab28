import AgentRuns.Requests
import Mathlib.Data.List.DropRight

/-!
# How often a schedule fires

`domain/cadence.py`: a cadence is a named bucket or a cron expression that fires at most once an hour, and
`nextFireAt` is its first instant behind a given one, in the schedule's own zone.  Cron expressions and zones
are other packages' (`Calendar`); of croniter the service needs that the next occurrence is a later one.
-/

namespace AgentRuns

open Fallible

/-! ## Instants of other packages -/

/-- croniter, zoneinfo and the texts of Python's datetimes. -/
structure Calendar where
  /-- `croniter.is_valid` -/
  isValid : String → Bool
  /-- `croniter(expression, after.astimezone(zone)).get_next(datetime)` -/
  next : String → String → Instant → Instant
  next_gt : ∀ expression zone after, after < next expression zone after
  isoformat : AwareDatetime → String
  isoformat_injective : Function.Injective isoformat
  /-- `str` of a timedelta -/
  strTimedelta : Rat → String

/-- A character `str.strip` takes off. -/
def pySpace (c : Char) : Bool :=
  ('\t' ≤ c ∧ c ≤ '\r') ∨ ('\x1c' ≤ c ∧ c ≤ ' ') ∨ c = '\x85' ∨ c = '\u00a0' ∨ c = '\u1680' ∨
    ('\u2000' ≤ c ∧ c ≤ '\u200a') ∨ c = '\u2028' ∨ c = '\u2029' ∨ c = '\u202f' ∨ c = '\u205f' ∨ c = '\u3000'

/-- `str.strip`. -/
def strip (s : String) : String :=
  String.ofList ((s.toList.dropWhile pySpace).reverse.dropWhile pySpace).reverse

theorem strip_strip (s : String) : strip (strip s) = strip s := by
  have hfirst : ∀ l : List Char, ((l.dropWhile pySpace).rdropWhile pySpace).dropWhile pySpace =
      (l.dropWhile pySpace).rdropWhile pySpace := by
    intro l
    rw [List.dropWhile_eq_self_iff]
    intro hpos
    have hpre := List.rdropWhile_prefix pySpace (l.dropWhile pySpace)
    rw [hpre.getElem hpos]
    exact List.dropWhile_eq_self_iff.1 (List.dropWhile_idempotent pySpace l) (lt_of_lt_of_le hpos hpre.length_le)
  show String.ofList (((String.ofList ((s.toList.dropWhile pySpace).rdropWhile pySpace)).toList.dropWhile pySpace).rdropWhile
    pySpace) = String.ofList ((s.toList.dropWhile pySpace).rdropWhile pySpace)
  rw [String.toList_ofList, hfirst, List.rdropWhile_idempotent]

/-! ## Cadences -/

/-- `BUCKETS`: the named buckets and the cron expression each means; `manual` never fires on its own. -/
def bucket : String → Option (Option String)
  | "hourly" => some (some "0 * * * *")
  | "daily" => some (some "0 0 * * *")
  | "weekly" => some (some "0 0 * * 1")
  | "weekdays" => some (some "0 0 * * 1-5")
  | "manual" => some none
  | _ => none

/-- `sorted(BUCKETS)`. -/
def bucketNames : String := "['daily', 'hourly', 'manual', 'weekdays', 'weekly']"

/-- `MIN_INTERVAL`: one run per hour. -/
def minInterval : Rat := 3600
/-- `_PROBE_FROM`: 2024-01-01. -/
def probeFrom : Instant := 1704067200
def probeCount : Nat := 8

namespace Calendar

/-- The occurrences a validation measures. -/
def probed (calendar : Calendar) (expression : String) : Nat → Instant → List Instant
  | 0, _ => []
  | n + 1, after =>
    let time := calendar.next expression "UTC" after
    time :: calendar.probed expression n time

/-- The shortest time between two of them in a row. -/
def shortest : List Instant → Option Rat
  | earlier :: later :: times =>
    match shortest (later :: times) with
    | none => some (later - earlier)
    | some interval => some (min (later - earlier) interval)
  | _ => none

def validateCadence (calendar : Calendar) (lib : Libraries) (cadence : String) : Except ServiceError String :=
  let normalized := strip cadence
  if (bucket normalized).isSome then .ok normalized
  else do
    refuse (calendar.isValid normalized = false)
      (.unprocessable s!"cadence {lib.pyRepr (.str cadence)} is neither one of {bucketNames} nor a cron expression")
    let interval := (shortest (calendar.probed normalized probeCount probeFrom)).getD 0
    refuse (interval < minInterval)
      (.unprocessable (s!"cadence {lib.pyRepr (.str cadence)} fires every {calendar.strTimedelta interval}, " ++
        "under the one-run-per-hour floor: per-minute schedules are refused"))
    .ok normalized

theorem validateCadence_strip {calendar : Calendar} {lib : Libraries} {cadence n : String}
    (h : calendar.validateCadence lib cadence = .ok n) : n = strip cadence := by
  unfold validateCadence at h
  dsimp only at h
  split at h
  · cases h
    rfl
  · obtain ⟨_, -, h⟩ := bind_ok.1 h
    obtain ⟨_, -, h⟩ := bind_ok.1 h
    cases h
    rfl

/-- The first instant the cadence fires strictly after `after`; `none` for `manual`. -/
def nextFireAt (calendar : Calendar) (cadence : String) (after : Instant) (timezone : String) : Option Instant :=
  ((bucket cadence).getD (some cadence)).map fun expression => calendar.next expression timezone after

variable {calendar : Calendar} {cadence timezone : String} {after t : Instant}

theorem nextFireAt_gt (h : calendar.nextFireAt cadence after timezone = some t) : after < t := by
  obtain ⟨expression, -, rfl⟩ := Option.map_eq_some_iff.1 h
  exact calendar.next_gt expression timezone after

/-- Only `manual` has no next occurrence. -/
theorem nextFireAt_eq_none : calendar.nextFireAt cadence after timezone = none ↔ bucket cadence = some none := by
  unfold nextFireAt
  rw [Option.map_eq_none_iff]
  cases bucket cadence <;> simp

end Calendar

end AgentRuns
