import AgentRuns.Croniter
import AgentRuns.Spelled
import Mathlib.Tactic.Linarith

/-!
# The hourly floor

A validation measures eight occurrences, and that settles all of them: the minutes and the seconds an expression allows
are the same in every hour it fires in, so two that are under an hour apart come again in each, and among the first three.

    two offsets in an hour          →  an occurrence under an hour from each one        (near_another)
    three in a row, an hour apart   →  one offset, and all are hours apart              (hourly_of_spaced, spaced)
-/

namespace AgentRuns

open Fallible Successive

namespace CronFields

variable {fields : CronFields} {t u : Instant}

/-- The seconds into an hour that the fields allow. -/
def offset (fields : CronFields) (o : Nat) : Prop :=
  ∃ minute second : Nat, minute < 60 ∧ second < 60 ∧ fields.minute minute ∧ fields.second second ∧ o = minute * 60 + second

/-- The hours since 1970-01-01 that they allow. -/
def hours (fields : CronFields) (h : Int) : Prop :=
  ∃ (day : Int) (hour : Nat), hour < 24 ∧ fields.day day ∧ fields.hour hour ∧ h = day * 24 + hour

theorem allows_iff : fields.allows t ↔ ∃ h o, fields.hours h ∧ fields.offset o ∧ t = ((h : Int) : Rat) * 3600 + ((o : Nat) : Rat) := by
  constructor
  · rintro ⟨day, hour, minute, second, hh, hm, hs, hday, hhour, hminute, hsecond, rfl⟩
    refine ⟨day * 24 + hour, minute * 60 + second, ⟨day, hour, hh, hday, hhour, rfl⟩,
      ⟨minute, second, hm, hs, hminute, hsecond, rfl⟩, ?_⟩
    push_cast
    ring
  · rintro ⟨h, o, ⟨day, hour, hh, hday, hhour, rfl⟩, ⟨minute, second, hm, hs, hminute, hsecond, rfl⟩, rfl⟩
    refine ⟨day, hour, minute, second, hh, hm, hs, hday, hhour, hminute, hsecond, ?_⟩
    push_cast
    ring

theorem offset_lt {o : Nat} (h : fields.offset o) : o < 3600 := by
  obtain ⟨minute, second, hm, hs, -, -, rfl⟩ := h
  omega

/-- One minute and one second of it. -/
def Hourly (fields : CronFields) : Prop := ∀ o o', fields.offset o → fields.offset o' → o = o'

/-- Then any two occurrences are hours apart. -/
theorem spaced (h : fields.Hourly) (ht : fields.allows t) (hu : fields.allows u) (hlt : t < u) : minInterval ≤ u - t := by
  obtain ⟨a, o, -, ho, rfl⟩ := allows_iff.1 ht
  obtain ⟨b, o', -, ho', rfl⟩ := allows_iff.1 hu
  have hsame := h o o' ho ho'
  subst hsame
  have hab : a < b := by
    have hcast : ((a : Int) : Rat) < b := by linarith
    exact_mod_cast hcast
  have hab' : (a : Rat) + 1 ≤ b := by exact_mod_cast hab
  unfold minInterval
  linarith

/-- Else each has another one under an hour from it. -/
theorem near_another (h : ¬ fields.Hourly) (ht : fields.allows t) :
    ∃ w, fields.allows w ∧ w ≠ t ∧ t - minInterval < w ∧ w < t + minInterval := by
  obtain ⟨a, o, ha, ho, rfl⟩ := allows_iff.1 ht
  obtain ⟨o', ho', hne⟩ : ∃ o', fields.offset o' ∧ o' ≠ o := by
    by_contra hall
    push Not at hall
    exact h fun p q hp hq => (hall p hp).trans (hall q hq).symm
  have h1 : (o : Rat) < 3600 := by exact_mod_cast offset_lt ho
  have h2 : (o' : Rat) < 3600 := by exact_mod_cast offset_lt ho'
  have h3 : (0 : Rat) ≤ o := by positivity
  have h4 : (0 : Rat) ≤ o' := by positivity
  refine ⟨a * 3600 + o', allows_iff.2 ⟨a, o', ha, ho', rfl⟩, fun heq => hne ?_, ?_, ?_⟩
  · have hcast : (o' : Rat) = o := by linarith
    exact_mod_cast hcast
  · unfold minInterval
    linarith
  · unfold minInterval
    linarith

/-- Three in a row tell. -/
theorem hourly_of_spaced {t₀ t₁ t₂ : Instant} (h1 : Next {u | fields.allows u} t₀ t₁) (h2 : Next {u | fields.allows u} t₁ t₂)
    (h01 : minInterval ≤ t₁ - t₀) (h12 : minInterval ≤ t₂ - t₁) : fields.Hourly := by
  by_contra h
  obtain ⟨w, hw, hne, hlow, hhigh⟩ := near_another h h1.mem
  rcases lt_or_gt_of_ne hne with hlt | hgt
  · have := h1.le_of_lt hw hlt
    linarith
  · have := h2.le hw hgt
    linarith

end CronFields

namespace Croniter

variable {croniter : Croniter} {lib : Libraries} {cadence expression : String}

/-! ## What is measured -/

/-- Successive ones are as far apart as the shortest time of them. -/
theorem le_shortest {m : Rat} : ∀ {times : List Instant} {interval : Rat}, Calendar.shortest times = some interval →
    (m ≤ interval ↔ times.IsChain fun earlier later => m ≤ later - earlier) := by
  intro times
  induction times with
  | nil => intro interval h; cases h
  | cons earlier times ih =>
    intro interval h
    cases times with
    | nil => cases h
    | cons later times =>
      unfold Calendar.shortest at h
      rw [List.isChain_cons_cons]
      cases hrest : Calendar.shortest (later :: times) with
      | none =>
        rw [hrest] at h
        cases h
        cases times with
        | nil => simp
        | cons t times =>
          unfold Calendar.shortest at hrest
          split at hrest <;> cases hrest
      | some i =>
        rw [hrest] at h
        cases h
        rw [le_min_iff, ih hrest]

theorem exists_shortest {times : List Instant} (h : 2 ≤ times.length) : ∃ interval, Calendar.shortest times = some interval := by
  match times with
  | [] => simp at h
  | [_] => simp at h
  | earlier :: later :: times =>
    unfold Calendar.shortest
    split
    · exact ⟨_, rfl⟩
    · exact ⟨_, rfl⟩

/-- What a validation of an expression accepts. -/
theorem validateCadence_ok (hb : bucket (strip cadence) = none) {n : String} :
    croniter.validateCadence lib cadence = .ok n ↔ n = strip cadence ∧ croniter.isValid (strip cadence) = true ∧
      ∃ times, Walk {u | croniter.occurs (strip cadence) "UTC" u} probeFrom times ∧ times.length = probeCount ∧
        times.IsChain fun earlier later => minInterval ≤ later - earlier := by
  unfold validateCadence
  dsimp only
  rw [if_neg (by rw [hb]; simp)]
  constructor
  · intro h
    obtain ⟨_, hvalid, h⟩ := bind_ok.1 h
    obtain ⟨times, htimes, h⟩ := bind_ok.1 h
    obtain ⟨_, hlow, h⟩ := bind_ok.1 h
    cases h
    obtain ⟨hwalk, hlen⟩ := probed_ok.1 htimes
    obtain ⟨interval, hinterval⟩ := exists_shortest (show 2 ≤ times.length by rw [hlen]; decide)
    have hlow := refuse_ok.1 hlow
    rw [hinterval] at hlow
    refine ⟨rfl, by simpa using refuse_ok.1 hvalid, times, hwalk, hlen, (le_shortest hinterval).1 (not_lt.1 hlow)⟩
  · rintro ⟨rfl, hvalid, times, hwalk, hlen, hchain⟩
    obtain ⟨interval, hinterval⟩ := exists_shortest (show 2 ≤ times.length by rw [hlen]; decide)
    have hlow : ¬ (Calendar.shortest times).getD 0 < minInterval := by
      rw [hinterval]
      exact not_lt.2 ((le_shortest hinterval).2 hchain)
    rw [refuse_of_not _ (by rw [hvalid]; simp), ok_bind, probed_ok.2 ⟨hwalk, hlen⟩, ok_bind, refuse_of_not _ hlow, ok_bind]

theorem setOf_occurs_utc (hvalid : croniter.isValid expression = true) :
    {u | croniter.occurs expression "UTC" u} = {u | (croniter.fields expression).allows u} :=
  Set.ext fun u => croniter.occurs_utc expression hvalid u

/-- An expression that is accepted fires at one minute and one second of an hour. -/
theorem hourly_of_walk (hvalid : croniter.isValid expression = true) {after : Instant} {times : List Instant}
    (hwalk : Walk {u | croniter.occurs expression "UTC" u} after times) (hlen : times.length = probeCount)
    (hchain : times.IsChain fun earlier later => minInterval ≤ later - earlier) : (croniter.fields expression).Hourly := by
  rw [setOf_occurs_utc hvalid] at hwalk
  match times with
  | [] => cases hlen
  | [_] => cases hlen
  | [_, _] => cases hlen
  | t₀ :: t₁ :: t₂ :: rest =>
    obtain ⟨h01, hchain⟩ := List.isChain_cons_cons.1 hchain
    obtain ⟨h12, -⟩ := List.isChain_cons_cons.1 hchain
    obtain _ | ⟨-, hwalk⟩ := hwalk
    obtain _ | ⟨h1, hwalk⟩ := hwalk
    obtain _ | ⟨h2, -⟩ := hwalk
    exact CronFields.hourly_of_spaced h1 h2 h01 h12

/-! ## The floor -/

/-- The hourly floor of a cadence that is an expression. -/
structure HourlyFloor (croniter : Croniter) (lib : Libraries) (cadence : String) : Prop where
  /-- of one that is accepted, no two occurrences are ever closer -/
  kept : ∀ n, croniter.validateCadence lib cadence = .ok n → bucket n = none → ∀ t u, croniter.occurs n "UTC" t →
    croniter.occurs n "UTC" u → t < u → minInterval ≤ u - t
  /-- one with eight and more after the probe, up to some instant, and no two of these closer, is accepted -/
  accepted : bucket (strip cadence) = none → croniter.isValid (strip cadence) = true →
    ∀ (last : Instant) (times : Finset Instant), probeCount ≤ times.card →
      (∀ t ∈ times, croniter.occurs (strip cadence) "UTC" t ∧ probeFrom < t ∧ t ≤ last) →
      (∀ t u, croniter.occurs (strip cadence) "UTC" t → croniter.occurs (strip cadence) "UTC" u → probeFrom < t → t < u → u ≤ last →
        minInterval ≤ u - t) →
      croniter.validateCadence lib cadence = .ok (strip cadence)

/-- Where eight come after a point, croniter tells the next eight. -/
theorem exists_walk {last : Instant} {after : Instant} {times : Finset Instant} (hcard : probeCount ≤ times.card)
    (htimes : ∀ t ∈ times, croniter.occurs expression "UTC" t ∧ after < t ∧ t ≤ last) :
    ∃ ts, Walk {u | croniter.occurs expression "UTC" u} after ts ∧ ts.length = probeCount ∧ ∀ t ∈ ts, t ≤ last := by
  refine Walk.exists_of_card (fun {b u} hu hlt => ?_) probeCount hcard htimes
  obtain ⟨t, ht⟩ := exists_getNext hu hlt
  exact ⟨t, croniter.getNext_ok _ _ _ _ ht⟩

/-- Occurrences of a walk are as far apart as all are. -/
theorem isChain_of_walk {S : Set Instant} {after last : Instant} {ts : List Instant} (hwalk : Walk S after ts)
    (hlast : ∀ t ∈ ts, t ≤ last) (hspaced : ∀ t u, t ∈ S → u ∈ S → after < t → t < u → u ≤ last → minInterval ≤ u - t) :
    ts.IsChain fun earlier later => minInterval ≤ later - earlier := by
  induction hwalk with
  | nil => exact .nil
  | @cons a t ts hnext hwalk ih =>
    have hrest := ih (fun u hu => hlast u (List.mem_cons_of_mem _ hu))
      (fun v u hv hu hlt => hspaced v u hv hu (hnext.gt.trans hlt))
    cases hwalk with
    | nil => exact .singleton t
    | @cons _ u ts hnext' hwalk' =>
      exact List.isChain_cons_cons.2
        ⟨hspaced t u hnext.mem hnext'.mem hnext.gt hnext'.gt (hlast u (List.mem_cons_of_mem _ List.mem_cons_self)), hrest⟩

/-- **The floor holds for good**: of no expression that is accepted are two occurrences ever less than an hour apart, and
every one that keeps to it over eight is accepted. -/
theorem hourly_floor (croniter : Croniter) (lib : Libraries) (cadence : String) : croniter.HourlyFloor lib cadence := by
  refine ⟨fun n hok hb t u ht hu hlt => ?_, fun hb hvalid last times hcard htimes hspaced => ?_⟩
  · by_cases hbs : bucket (strip cadence) = none
    · obtain ⟨rfl, hvalid, times, hwalk, hlen, hchain⟩ := (validateCadence_ok hbs).1 hok
      have hhourly := hourly_of_walk hvalid hwalk hlen hchain
      exact CronFields.spaced hhourly ((croniter.occurs_utc _ hvalid t).1 ht) ((croniter.occurs_utc _ hvalid u).1 hu) hlt
    · -- a bucket is not an expression
      unfold validateCadence at hok
      dsimp only at hok
      rw [if_pos (Option.isSome_iff_ne_none.2 hbs)] at hok
      cases hok
      exact absurd hb hbs
  · obtain ⟨ts, hwalk, hlen, hlast⟩ := exists_walk hcard htimes
    exact (validateCadence_ok hb).2 ⟨rfl, hvalid, ts, hwalk, hlen, isChain_of_walk hwalk hlast hspaced⟩

end Croniter

end AgentRuns
