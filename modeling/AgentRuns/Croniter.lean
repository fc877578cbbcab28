import AgentRuns.Cadence
import AgentRuns.Successors
import Mathlib.Tactic.Linarith
import Mathlib.Tactic.Ring

/-!
# croniter

`domain/cadence.py` over a croniter that raises where an expression has no next occurrence, as it does for 30 February and
for a year that is over.  An expression fires at the instants its fields allow; of what it allows of days only that it is
a set of them.

    probed n after = .ok times  ↔  times are the next n occurrences         (probed_ok)
    what it answers, the cadences answer as of any calendar that agrees     (validateCadence_agrees)
-/

namespace AgentRuns

open Fallible Successive

/-- `CroniterBadDateError`, a `ValueError`. -/
structure CroniterBadDateError where
  text : String
deriving DecidableEq

/-- An expression's five to seven fields: the seconds, the minutes, the hours, and the days that day, month, weekday and
year allow, however they are joined. -/
structure CronFields where
  second : Nat → Prop
  minute : Nat → Prop
  hour : Nat → Prop
  /-- days since 1970-01-01 -/
  day : Int → Prop

/-- The instants in UTC whose fields match. -/
def CronFields.allows (fields : CronFields) (t : Instant) : Prop :=
  ∃ (day : Int) (hour minute second : Nat), hour < 24 ∧ minute < 60 ∧ second < 60 ∧
    fields.day day ∧ fields.hour hour ∧ fields.minute minute ∧ fields.second second ∧
    t = day * 86400 + hour * 3600 + minute * 60 + second

/-- croniter and zoneinfo. -/
structure Croniter where
  /-- `croniter.is_valid` -/
  isValid : String → Bool
  /-- is it a key of `ZoneInfo`? -/
  isZone : String → Bool
  /-- does an expression fire, in a zone, at an instant? -/
  occurs : String → String → Instant → Prop
  /-- `croniter(expression, after.astimezone(zone)).get_next(datetime)` -/
  getNext : String → String → Instant → Except CroniterBadDateError Instant
  getNext_ok : ∀ expression zone after t, getNext expression zone after = .ok t →
    Next {u | occurs expression zone u} after t
  getNext_error : ∀ expression zone after e, getNext expression zone after = .error e →
    ∀ u, occurs expression zone u → ¬ after < u
  fields : String → CronFields
  occurs_utc : ∀ expression, isValid expression = true → ∀ t, occurs expression "UTC" t ↔ (fields expression).allows t
  /-- `str` of a timedelta -/
  strTimedelta : Rat → String

/-- What a cadence raises: the service's own refusal, croniter's error, or zoneinfo's. -/
inductive CadenceError where
  | invalidCadence (detail : String)
  | badDate (error : CroniterBadDateError)
  | zoneNotFound (key : String)
deriving DecidableEq

namespace Croniter

variable (croniter : Croniter)

/-- The occurrences a validation measures. -/
def probed (expression : String) : Nat → Instant → Except CadenceError (List Instant)
  | 0, _ => .ok []
  | n + 1, after => do
    let time ← (croniter.getNext expression "UTC" after).mapError .badDate
    let times ← probed expression n time
    .ok (time :: times)

def validateCadence (lib : Libraries) (cadence : String) : Except CadenceError String :=
  let normalized := strip cadence
  if (bucket normalized).isSome then .ok normalized
  else do
    refuse (croniter.isValid normalized = false)
      (.invalidCadence s!"cadence {lib.pyRepr (.str cadence)} is neither one of {bucketNames} nor a cron expression")
    let times ← croniter.probed normalized probeCount probeFrom
    let interval := (Calendar.shortest times).getD 0
    refuse (interval < minInterval)
      (.invalidCadence (s!"cadence {lib.pyRepr (.str cadence)} fires every {croniter.strTimedelta interval}, " ++
        "under the one-run-per-hour floor: per-minute schedules are refused"))
    .ok normalized

def nextFireAt (cadence : String) (after : Instant) (timezone : String) : Except CadenceError (Option Instant) :=
  match (bucket cadence).getD (some cadence) with
  | none => .ok none
  | some expression => do
    refuse (croniter.isZone timezone = false) (.zoneNotFound timezone)
    let t ← (croniter.getNext expression timezone after).mapError .badDate
    .ok (some t)

variable {croniter} {expression zone : String} {after t u : Instant}

/-! ## What it answers -/

theorem mapError_ok {ε ε' α : Type} {f : ε → ε'} {x : Except ε α} {a : α} : x.mapError f = .ok a ↔ x = .ok a := by
  cases x <;> simp [Except.mapError]

/-- It answers where there is a next occurrence. -/
theorem exists_getNext (hu : croniter.occurs expression zone u) (hlt : after < u) :
    ∃ t, croniter.getNext expression zone after = .ok t := by
  cases h : croniter.getNext expression zone after with
  | ok t => exact ⟨t, rfl⟩
  | error e => exact absurd hlt (croniter.getNext_error expression zone after e h u hu)

theorem getNext_of_next (h : Next {u | croniter.occurs expression zone u} after t) :
    croniter.getNext expression zone after = .ok t := by
  obtain ⟨v, hv⟩ := exists_getNext h.mem h.gt
  rw [hv, (croniter.getNext_ok expression zone after v hv).unique h]

/-- The occurrences that are measured are the next ones. -/
theorem probed_ok {n : Nat} : ∀ {after : Instant} {times : List Instant}, croniter.probed expression n after = .ok times ↔
    Walk {u | croniter.occurs expression "UTC" u} after times ∧ times.length = n := by
  induction n with
  | zero =>
    intro after times
    constructor
    · intro h
      cases h
      exact ⟨.nil after, rfl⟩
    · rintro ⟨-, h⟩
      rw [List.length_eq_zero_iff.1 h]
      rfl
  | succ n ih =>
    intro after times
    unfold probed
    constructor
    · intro h
      obtain ⟨time, htime, h⟩ := bind_ok.1 h
      obtain ⟨rest, hrest, h⟩ := bind_ok.1 h
      cases h
      obtain ⟨hwalk, hlen⟩ := ih.1 hrest
      exact ⟨.cons (croniter.getNext_ok _ _ _ _ (mapError_ok.1 htime)) hwalk, by rw [List.length_cons, hlen]⟩
    · rintro ⟨hwalk, hlen⟩
      cases hwalk with
      | nil => cases hlen
      | cons hnext hrest =>
        have hn := Nat.succ.inj hlen
        rw [mapError_ok.2 (getNext_of_next hnext), ok_bind, ih.2 ⟨hrest, hn⟩, ok_bind]

/-- What stops it is croniter's own error. -/
theorem probed_error {n : Nat} : ∀ {after : Instant} {e : CadenceError}, croniter.probed expression n after = .error e →
    ∃ error, e = .badDate error := by
  induction n with
  | zero =>
    intro after e h
    cases h
  | succ n ih =>
    intro after e h
    unfold probed at h
    cases hnext : croniter.getNext expression "UTC" after with
    | error error =>
      rw [hnext] at h
      cases h
      exact ⟨error, rfl⟩
    | ok time =>
      rw [hnext] at h
      cases hrest : croniter.probed expression n time with
      | error e' =>
        have h' : (.error e' : Except CadenceError (List Instant)) = .error e := by rw [← h, mapError_ok.2 rfl, ok_bind, hrest]; rfl
        cases h'
        exact ih hrest
      | ok times =>
        rw [mapError_ok.2 rfl, ok_bind, hrest] at h
        cases h

/-! ## A calendar that agrees -/

/-- The calendar is croniter, where croniter answers. -/
structure Agrees (croniter : Croniter) (calendar : Calendar) : Prop where
  isValid : calendar.isValid = croniter.isValid
  strTimedelta : calendar.strTimedelta = croniter.strTimedelta
  next : ∀ expression zone after t, croniter.getNext expression zone after = .ok t → calendar.next expression zone after = t

/-- What the service answers to what a cadence raised, if croniter raised nothing. -/
def answered {α : Type} : Except CadenceError α → Option (Except ServiceError α)
  | .ok a => some (.ok a)
  | .error (.invalidCadence detail) => some (.error (.unprocessable detail))
  | .error _ => none

section
variable {calendar : Calendar} (h : croniter.Agrees calendar)
include h

theorem probed_agrees {n : Nat} : ∀ {after : Instant} {times : List Instant},
    croniter.probed expression n after = .ok times → calendar.probed expression n after = times := by
  induction n with
  | zero =>
    intro after times ht
    cases ht
    rfl
  | succ n ih =>
    intro after times ht
    unfold probed at ht
    obtain ⟨time, htime, ht⟩ := bind_ok.1 ht
    obtain ⟨rest, hrest, ht⟩ := bind_ok.1 ht
    cases ht
    have hnext := h.next _ _ _ _ (mapError_ok.1 htime)
    unfold Calendar.probed
    dsimp only
    rw [hnext, ih hrest]

theorem validateCadence_agrees {lib : Libraries} {cadence : String} {r : Except ServiceError String}
    (hr : answered (croniter.validateCadence lib cadence) = some r) : calendar.validateCadence lib cadence = r := by
  unfold validateCadence at hr
  unfold Calendar.validateCadence
  dsimp only at hr ⊢
  by_cases hb : (bucket (strip cadence)).isSome = true
  · rw [if_pos hb] at hr ⊢
    exact Option.some.inj hr
  · rw [if_neg hb] at hr ⊢
    rw [h.isValid, h.strTimedelta]
    by_cases hv : croniter.isValid (strip cadence) = false
    · rw [refuse_of _ hv, error_bind] at hr ⊢
      exact Option.some.inj hr
    · rw [refuse_of_not _ hv, ok_bind] at hr ⊢
      cases hp : croniter.probed (strip cadence) probeCount probeFrom with
      | error e =>
        obtain ⟨error, rfl⟩ := probed_error hp
        rw [hp, error_bind] at hr
        cases hr
      | ok times =>
        rw [hp, ok_bind] at hr
        rw [probed_agrees h hp]
        by_cases hlow : (Calendar.shortest times).getD 0 < minInterval
        · rw [refuse_of _ hlow, error_bind] at hr ⊢
          exact Option.some.inj hr
        · rw [refuse_of_not _ hlow, ok_bind] at hr ⊢
          exact Option.some.inj hr

theorem nextFireAt_agrees {cadence : String} {r : Option Instant} (hr : croniter.nextFireAt cadence after zone = .ok r) :
    calendar.nextFireAt cadence after zone = r := by
  unfold nextFireAt at hr
  unfold Calendar.nextFireAt
  cases hb : (bucket cadence).getD (some cadence) with
  | none =>
    rw [hb] at hr
    cases hr
    rfl
  | some expression =>
    rw [hb] at hr
    obtain ⟨_, -, hr⟩ := bind_ok.1 hr
    obtain ⟨t, ht, hr⟩ := bind_ok.1 hr
    cases hr
    exact congrArg some (h.next _ _ _ _ (mapError_ok.1 ht))

end

/-- Any croniter is one, where it answers. -/
def toCalendar (croniter : Croniter) (isoformat : AwareDatetime → String) (hiso : Function.Injective isoformat) : Calendar where
  isValid := croniter.isValid
  next expression zone after :=
    match croniter.getNext expression zone after with
    | .ok t => t
    | .error _ => after + 1
  next_gt expression zone after := by
    cases ht : croniter.getNext expression zone after with
    | ok t => exact (croniter.getNext_ok expression zone after t ht).gt
    | error e => exact lt_add_one after
  isoformat := isoformat
  isoformat_injective := hiso
  strTimedelta := croniter.strTimedelta

theorem agrees_toCalendar (isoformat : AwareDatetime → String) (hiso : Function.Injective isoformat) :
    croniter.Agrees (croniter.toCalendar isoformat hiso) := by
  refine ⟨rfl, rfl, fun expression zone after t ht => ?_⟩
  unfold toCalendar
  dsimp only
  rw [ht]

/-! ## A cadence's instants -/

/-- The instants a cadence fires at, in a zone; `manual` has none. -/
def Fires (croniter : Croniter) (cadence zone : String) (t : Instant) : Prop :=
  ∃ expression, (bucket cadence).getD (some cadence) = some expression ∧ croniter.occurs expression zone t

/-- The next one, if there is one; none of `manual`. -/
theorem nextFireAt_ok {cadence : String} {r : Option Instant} (hr : croniter.nextFireAt cadence after zone = .ok r) :
    (r = none ∧ bucket cadence = some none) ∨ ∃ t, r = some t ∧ bucket cadence ≠ some none ∧
      Next {u | croniter.Fires cadence zone u} after t := by
  unfold nextFireAt at hr
  cases hb : (bucket cadence).getD (some cadence) with
  | none =>
    rw [hb] at hr
    cases hr
    refine .inl ⟨rfl, ?_⟩
    cases hm : bucket cadence with
    | none => rw [hm] at hb; cases hb
    | some meaning =>
      rw [hm] at hb
      have hmeaning : meaning = none := hb
      rw [hmeaning]
  | some expression =>
    rw [hb] at hr
    obtain ⟨_, -, hr⟩ := bind_ok.1 hr
    obtain ⟨t, ht, hr⟩ := bind_ok.1 hr
    cases hr
    have hset : {u | croniter.Fires cadence zone u} = {u | croniter.occurs expression zone u} := by
      ext u
      constructor
      · rintro ⟨e, he, hu⟩
        rw [hb] at he
        cases he
        exact hu
      · intro hu
        exact ⟨expression, hb, hu⟩
    refine .inr ⟨t, rfl, fun hm => ?_, ?_⟩
    · rw [hm] at hb
      cases hb
    · rw [hset]
      exact croniter.getNext_ok _ _ _ _ (mapError_ok.1 ht)

/-! ## A small one -/

/-- A croniter of two expressions: every hour, and 30 February, which is valid and never comes. -/
def ofFebruary : Croniter where
  isValid expression := expression = "0 * * * *" ∨ expression = "0 0 30 2 *"
  isZone zone := zone = "UTC"
  occurs expression _ t := expression = "0 * * * *" ∧ ∃ h : Int, t = h * 3600
  getNext expression _ after :=
    if expression = "0 * * * *" then .ok (((after / 3600).floor + 1 : Int) * 3600) else .error ⟨"failed to find next date"⟩
  getNext_ok expression zone after t h := by
    split at h
    · next he =>
      cases h
      have hle := Rat.floor_le (after / 3600)
      have hlt := Rat.lt_floor_add_one (after / 3600)
      refine ⟨⟨⟨he, _, rfl⟩, ?_⟩, ?_⟩
      · push_cast at hlt ⊢
        linarith
      · rintro u ⟨⟨-, k, rfl⟩, hgt⟩
        have hk : (after / 3600).floor < k := by
          have hcast : (((after / 3600).floor : Int) : Rat) < k := by linarith
          exact_mod_cast hcast
        have hk' : (((after / 3600).floor + 1 : Int) : Rat) ≤ k := by exact_mod_cast hk
        linarith
    · cases h
  getNext_error expression zone after e h u hu := by
    rw [if_pos hu.1] at h
    cases h
  fields expression :=
    { second := (· = 0)
      minute := (· = 0)
      hour := fun hour => expression = "0 * * * *" ∨ hour = 0
      day := fun _ => expression = "0 * * * *" }
  occurs_utc expression _ t := by
    constructor
    · rintro ⟨he, h, rfl⟩
      refine ⟨h / 24, (h % 24).toNat, 0, 0, by omega, by omega, by omega, he, .inl he, rfl, rfl, ?_⟩
      have hsplit : h = h / 24 * 24 + ((h % 24).toNat : Int) := by omega
      have hcast : (h : Rat) = ((h / 24 : Int) : Rat) * 24 + ((h % 24).toNat : Rat) := by exact_mod_cast hsplit
      push_cast
      linarith
    · rintro ⟨day, hour, minute, second, -, -, -, he, -, hm, hs, rfl⟩
      refine ⟨he, day * 24 + hour, ?_⟩
      rw [show minute = 0 from hm, show second = 0 from hs]
      push_cast
      ring
  strTimedelta seconds := toString seconds

end Croniter

end AgentRuns
