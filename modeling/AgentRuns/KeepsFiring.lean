import AgentRuns.HourlyFloor
import Mathlib.Data.Finset.Order

/-!
# Cadences that keep firing

That an expression is valid, that it has occurrences and that it has them for ever are three things.  A validation asks
the first, and eight of the second; where there are fewer croniter's own error goes through it.  Of the third it asks
nothing, so what has a last occurrence is accepted and raises in a fire behind it (`keeps_firing_iff`).
-/

namespace AgentRuns

open Fallible Successive

namespace Croniter

variable {croniter : Croniter} {lib : Libraries} {cadence expression : String}

/-- A validation refuses, as the client's error, or returns what always has a next instant to fire at. -/
structure KeepsFiring (croniter : Croniter) (lib : Libraries) (cadence : String) : Prop where
  refused : ∀ e, croniter.validateCadence lib cadence = .error e → ∃ detail, e = .invalidCadence detail
  manual : ∀ n, croniter.validateCadence lib cadence = .ok n → bucket n = some none → ∀ after zone,
    croniter.isZone zone = true → croniter.nextFireAt n after zone = .ok none
  fires : ∀ n, croniter.validateCadence lib cadence = .ok n → bucket n ≠ some none → ∀ after zone,
    croniter.isZone zone = true → ∃ t, croniter.nextFireAt n after zone = .ok (some t) ∧ after < t

/-- It has occurrences after every instant, in every zone. -/
def Lasting (croniter : Croniter) (expression : String) : Prop :=
  ∀ after zone, croniter.isZone zone = true → ∃ t, croniter.occurs expression zone t ∧ after < t

/-- It has eight after the probe. -/
def EightFollow (croniter : Croniter) (expression : String) : Prop :=
  ∃ times : Finset Instant, times.card = probeCount ∧ ∀ t ∈ times, croniter.occurs expression "UTC" t ∧ probeFrom < t

/-- Two of them are under an hour apart. -/
def TooOften (croniter : Croniter) (expression : String) : Prop :=
  ∃ t u, croniter.occurs expression "UTC" t ∧ croniter.occurs expression "UTC" u ∧ probeFrom < t ∧ t < u ∧ u - t < minInterval

/-- A bucket's expression lasts; so does an expression with eight occurrences that are not too close, and there is none that
is valid with fewer. -/
def Fireable (croniter : Croniter) (cadence : String) : Prop :=
  match bucket (strip cadence) with
  | some none => True
  | some (some expression) => croniter.Lasting expression
  | none => croniter.isValid (strip cadence) = true →
      croniter.EightFollow (strip cadence) ∧ (croniter.TooOften (strip cadence) ∨ croniter.Lasting (strip cadence))

theorem nextFireAt_some {n : String} (hn : (bucket n).getD (some n) = some expression) {after t : Instant} {zone : String}
    (hz : croniter.isZone zone = true) :
    croniter.nextFireAt n after zone = .ok (some t) ↔ croniter.getNext expression zone after = .ok t := by
  unfold nextFireAt
  rw [hn]
  dsimp only
  rw [refuse_of_not _ (by rw [hz]; simp), ok_bind]
  constructor
  · intro h
    obtain ⟨u, hu, h⟩ := bind_ok.1 h
    cases h
    exact mapError_ok.1 hu
  · intro h
    rw [mapError_ok.2 h, ok_bind]

/-- It always has a next instant to fire at where it lasts. -/
theorem fires_iff {n : String} (hn : (bucket n).getD (some n) = some expression) :
    (∀ after zone, croniter.isZone zone = true → ∃ t, croniter.nextFireAt n after zone = .ok (some t) ∧ after < t) ↔
      croniter.Lasting expression := by
  constructor
  · intro h after zone hz
    obtain ⟨t, ht, hlt⟩ := h after zone hz
    exact ⟨t, (croniter.getNext_ok _ _ _ _ ((nextFireAt_some hn hz).1 ht)).mem, hlt⟩
  · intro h after zone hz
    obtain ⟨u, hu, hlt⟩ := h after zone hz
    obtain ⟨t, ht⟩ := exists_getNext hu hlt
    exact ⟨t, (nextFireAt_some hn hz).2 ht, (croniter.getNext_ok _ _ _ _ ht).gt⟩

theorem eightFollow_of_walk {times : List Instant} (hwalk : Walk {u | croniter.occurs expression "UTC" u} probeFrom times)
    (hlen : times.length = probeCount) : croniter.EightFollow expression := by
  refine ⟨times.toFinset, ?_, fun t ht => hwalk.mem (List.mem_toFinset.1 ht)⟩
  rw [List.toFinset_card_of_nodup hwalk.nodup, hlen]

theorem validateCadence_bucket (hb : (bucket (strip cadence)).isSome = true) :
    croniter.validateCadence lib cadence = .ok (strip cadence) := by
  unfold validateCadence
  exact if_pos hb

/-- A valid expression that is not accepted is refused where eight follow the probe, and raises where fewer do. -/
theorem validateCadence_error (hb : bucket (strip cadence) = none) (hvalid : croniter.isValid (strip cadence) = true)
    {e : CadenceError} (he : croniter.validateCadence lib cadence = .error e) :
    (∃ detail, e = .invalidCadence detail) ↔ croniter.EightFollow (strip cadence) := by
  unfold validateCadence at he
  dsimp only at he
  rw [if_neg (by rw [hb]; simp), refuse_of_not _ (by rw [hvalid]; simp), ok_bind] at he
  cases hp : croniter.probed (strip cadence) probeCount probeFrom with
  | error e' =>
    obtain ⟨error, rfl⟩ := probed_error hp
    rw [hp, error_bind] at he
    cases he
    constructor
    · rintro ⟨detail, h⟩
      cases h
    · rintro ⟨times, hcard, htimes⟩
      obtain ⟨last, hlast⟩ := times.exists_le
      obtain ⟨ts, hwalk, hlen, -⟩ := exists_walk hcard.ge fun t ht => ⟨(htimes t ht).1, (htimes t ht).2, hlast t ht⟩
      rw [probed_ok.2 ⟨hwalk, hlen⟩] at hp
      cases hp
  | ok times =>
    rw [hp, ok_bind] at he
    by_cases hlow : (Calendar.shortest times).getD 0 < minInterval
    · rw [refuse_of _ hlow, error_bind] at he
      cases he
      obtain ⟨hwalk, hlen⟩ := probed_ok.1 hp
      exact ⟨fun _ => eightFollow_of_walk hwalk hlen, fun _ => ⟨_, rfl⟩⟩
    · rw [refuse_of_not _ hlow, ok_bind] at he
      cases he

/-- One that is accepted has occurrences that are not too close; one with eight of these is accepted. -/
theorem accepted_iff (hb : bucket (strip cadence) = none) (hvalid : croniter.isValid (strip cadence) = true)
    (h8 : croniter.EightFollow (strip cadence)) :
    croniter.validateCadence lib cadence = .ok (strip cadence) ↔ ¬ croniter.TooOften (strip cadence) := by
  have hfloor := hourly_floor croniter lib cadence
  constructor
  · rintro hok ⟨t, u, ht, hu, -, hlt, hclose⟩
    exact absurd (hfloor.kept _ hok hb t u ht hu hlt) (not_le.2 hclose)
  · intro h
    obtain ⟨times, hcard, htimes⟩ := h8
    obtain ⟨last, hlast⟩ := times.exists_le
    refine hfloor.accepted hb hvalid last times hcard.ge (fun t ht => ⟨(htimes t ht).1, (htimes t ht).2, hlast t ht⟩) ?_
    intro t u ht hu hgt hlt _
    by_contra hclose
    exact h ⟨t, u, ht, hu, hgt, hlt, not_le.1 hclose⟩

theorem manual_keepsFiring (hb : bucket (strip cadence) = some none) : croniter.KeepsFiring lib cadence := by
  have hok : croniter.validateCadence lib cadence = .ok (strip cadence) := validateCadence_bucket (by rw [hb]; rfl)
  refine ⟨fun e he => ?_, fun n hn hm after zone _ => ?_, fun n hn hm => ?_⟩
  · rw [hok] at he
    cases he
  · unfold nextFireAt
    rw [hm]
    rfl
  · rw [hok] at hn
    cases hn
    exact absurd hb hm

/-- What a bucket stands for is not looked at. -/
theorem bucket_keepsFiring_iff (hb : bucket (strip cadence) = some (some expression)) :
    croniter.KeepsFiring lib cadence ↔ croniter.Lasting expression := by
  have hok : croniter.validateCadence lib cadence = .ok (strip cadence) := validateCadence_bucket (by rw [hb]; rfl)
  have hget : (bucket (strip cadence)).getD (some (strip cadence)) = some expression := by rw [hb]; rfl
  constructor
  · intro h
    exact (fires_iff hget).1 (h.fires _ hok (by rw [hb]; simp))
  · intro h
    refine ⟨fun e he => ?_, fun n hn hm => ?_, fun n hn _ => ?_⟩
    · rw [hok] at he
      cases he
    · rw [hok] at hn
      cases hn
      rw [hb] at hm
      cases hm
    · rw [hok] at hn
      cases hn
      exact (fires_iff hget).2 h

/-- An expression is refused, or has eight occurrences that are not too close. -/
theorem expression_keepsFiring_iff (hb : bucket (strip cadence) = none) :
    croniter.KeepsFiring lib cadence ↔ (croniter.isValid (strip cadence) = true →
      croniter.EightFollow (strip cadence) ∧ (croniter.TooOften (strip cadence) ∨ croniter.Lasting (strip cadence))) := by
  have hget : (bucket (strip cadence)).getD (some (strip cadence)) = some (strip cadence) := by rw [hb]; rfl
  have hstrip : ∀ n, croniter.validateCadence lib cadence = .ok n → n = strip cadence :=
    fun n hn => ((validateCadence_ok hb).1 hn).1
  constructor
  · intro h hvalid
    have h8 : croniter.EightFollow (strip cadence) := by
      cases hres : croniter.validateCadence lib cadence with
      | error e => exact (validateCadence_error hb hvalid hres).1 (h.refused e hres)
      | ok n =>
        obtain ⟨-, -, times, hwalk, hlen, -⟩ := (validateCadence_ok hb).1 hres
        exact eightFollow_of_walk hwalk hlen
    refine ⟨h8, ?_⟩
    by_cases hoften : croniter.TooOften (strip cadence)
    · exact .inl hoften
    · exact .inr ((fires_iff hget).1 (h.fires _ ((accepted_iff hb hvalid h8).2 hoften) (by rw [hb]; simp)))
  · intro h
    refine ⟨fun e he => ?_, fun n hn hm => ?_, fun n hn _ => ?_⟩
    · by_cases hvalid : croniter.isValid (strip cadence) = true
      · exact (validateCadence_error hb hvalid he).2 (h hvalid).1
      · unfold validateCadence at he
        dsimp only at he
        rw [if_neg (by rw [hb]; simp), refuse_of _ (by simpa using hvalid), error_bind] at he
        cases he
        exact ⟨_, rfl⟩
    · rw [hstrip n hn, hb] at hm
      cases hm
    · have hvalid := ((validateCadence_ok hb).1 hn).2.1
      have hn' := hn
      rw [hstrip n hn] at hn' ⊢
      obtain ⟨h8, hoften | hlasting⟩ := h hvalid
      · exact absurd hoften ((accepted_iff hb hvalid h8).1 hn')
      · exact (fires_iff hget).2 hlasting

/-- **Which cadences are refused or fire for ever.** -/
theorem keeps_firing_iff (croniter : Croniter) (lib : Libraries) (cadence : String) :
    croniter.KeepsFiring lib cadence ↔ croniter.Fireable cadence := by
  unfold Fireable
  cases hb : bucket (strip cadence) with
  | none => exact expression_keepsFiring_iff hb
  | some meaning =>
    cases meaning with
    | none => exact ⟨fun _ => trivial, fun _ => manual_keepsFiring hb⟩
    | some expression => exact bucket_keepsFiring_iff hb

/-- 30 February raises croniter's own error. -/
theorem not_keeps_firing : ¬ ∀ (croniter : Croniter) (lib : Libraries) (cadence : String), croniter.KeepsFiring lib cadence := by
  intro h
  have hstrip : strip "0 0 30 2 *" = "0 0 30 2 *" := by decide +kernel
  have hraises : ofFebruary.validateCadence spelledLibraries "0 0 30 2 *" = .error (.badDate ⟨"failed to find next date"⟩) := by
    unfold validateCadence
    dsimp only
    rw [hstrip, if_neg (by decide), refuse_of_not _ (by decide), ok_bind]
    rfl
  obtain ⟨detail, hdetail⟩ := (h ofFebruary spelledLibraries "0 0 30 2 *").refused _ hraises
  cases hdetail

end Croniter

end AgentRuns
