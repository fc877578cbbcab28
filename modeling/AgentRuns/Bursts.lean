import AgentRuns.RateLimit

/-!
# The burst

What the limiter admits of requests that come at once, and of those in a window.  The interval and the tolerance are
rounded to microseconds each on its own; where that leaves the tolerance short of `burst - 1` intervals a request is
refused too early, where it makes it `burst` of them one too many is allowed, and nowhere else (`admits_burst_iff`).
-/

namespace AgentRuns

open Fallible

namespace TenantRateLimiter

/-- A budget nothing was taken from, or that is full again. -/
def Recovered (tat : Option Int) (now : Int) : Prop := ∀ t, tat = some t → t ≤ now

/-- How many of the takes at these times, from `t` to `u`, are allowed. -/
def allowedIn (l : TenantRateLimiter) (t u : Int) (times : List Int) (tat : Option Int) : Nat :=
  (times.zip (l.takes times tat).1).countP fun x => t ≤ x.1 ∧ x.1 ≤ u ∧ outcome x.2 = some true

/-- The limiter admits its burst exactly. -/
structure AdmitsBurst (l : TenantRateLimiter) : Prop where
  /-- at one instant, `burst` and no more -/
  atOnce : ∀ tat now, Recovered tat now →
    (l.takes (List.replicate (l.burst + 1) now) tat).1.map outcome = List.replicate l.burst (some true) ++ [some false]
  /-- in a window, those and what is refilled in it -/
  window : ∀ s, l.steps = .ok s → ∀ tat times, times.Pairwise (· ≤ ·) → ∀ t length : Int, 0 ≤ length →
    (l.allowedIn t (t + length) times tat : Int) ≤ l.burst + ⌈(length : ℚ) / s.step⌉

section
variable {l : TenantRateLimiter} {s : RateSteps} {now : Int}

/-- Takes that raise nothing are allowed as the budget has it. -/
theorem takes_admitted (h : l.steps = .ok s) (times : List Int) : ∀ {tat : Option Int} {allowed : List Bool},
    (l.takes times tat).1.map outcome = allowed.map some → allowed = Gcra.admitted s.step s.slack times tat := by
  induction times with
  | nil =>
    intro tat allowed ha
    have hnil : allowed.map some = [] := ha.symm
    exact List.map_eq_nil_iff.1 hnil
  | cons now times ih =>
    intro tat allowed ha
    cases allowed with
    | nil => cases ha
    | cons a allowed =>
      have hcons : outcome (l.take tat now).1 :: (l.takes times (l.take tat now).2).1.map outcome =
        some a :: allowed.map some := ha
      obtain ⟨hfirst, hrest⟩ := List.cons.inj hcons
      rw [outcome_take h hfirst, ih hrest, take_row h]
      rfl

theorem takes_outcome (h : l.steps = .ok s) (hpos : 0 < s.step) (n : Nat) : ∀ {tat : Option Int}, Within s tat now →
    (l.takes (List.replicate n now) tat).1.map outcome =
      (Gcra.admitted s.step s.slack (List.replicate n now) tat).map some := by
  induction n with
  | zero => intro tat _; rfl
  | succ n ih =>
    intro tat hw
    show outcome (l.take tat now).1 :: (l.takes (List.replicate n now) (l.take tat now).2).1.map outcome = _
    rw [take_ok h hpos hw, take_row h, ih (hw.next (steps_ok h))]
    rfl

theorem allowedIn_le (h : l.steps = .ok s) (t u : Int) (times : List Int) : ∀ tat : Option Int,
    l.allowedIn t u times tat ≤ Gcra.admittedIn s.step s.slack t u times tat := by
  induction times with
  | nil => intro tat; exact Nat.le_refl 0
  | cons now times ih =>
    intro tat
    have hsplit : l.allowedIn t u (now :: times) tat = l.allowedIn t u times (l.take tat now).2 +
        (if t ≤ now ∧ now ≤ u ∧ outcome (l.take tat now).1 = some true then 1 else 0) := by
      show (((now, (l.take tat now).1) :: times.zip (l.takes times (l.take tat now).2).1).countP _) = _
      rw [List.countP_cons]
      simp only [decide_eq_true_eq]
      rfl
    have hrest := ih (l.take tat now).2
    rw [take_row h] at hsplit hrest
    unfold Gcra.admittedIn
    by_cases hin : t ≤ now ∧ now ≤ u ∧ outcome (l.take tat now).1 = some true
    · have hadmits := (outcome_take h hin.2.2).symm
      rw [if_pos hin] at hsplit
      rw [if_pos ⟨hin.1, hin.2.1, hadmits⟩]
      omega
    · rw [if_neg hin] at hsplit
      omega

theorem ahead_of_recovered {tat : Option Int} (hr : Recovered tat now) : Gcra.ahead tat now = 0 := by
  cases tat with
  | none => rfl
  | some t =>
    have := hr t rfl
    rw [Gcra.ahead_some]
    omega

/-- Of takes at one instant, the burst is admitted and the next one is not. -/
theorem admitted_burst_iff {step slack : Int} (hstep : 0 ≤ step) {tat : Option Int} (hr : Recovered tat now) {burst : Nat}
    (hpos : 0 < burst) :
    Gcra.admitted step slack (List.replicate (burst + 1) now) tat = List.replicate burst true ++ [false] ↔
      ((burst : Int) - 1) * step ≤ slack ∧ slack < burst * step := by
  rw [Gcra.admitted_exactly_iff hstep, ahead_of_recovered hr, Int.zero_add, Int.zero_add]
  exact ⟨fun h => ⟨h.1 hpos, h.2⟩, fun h => ⟨fun _ => h.1, h.2⟩⟩

/-- What a window of a length has room for. -/
theorem window_le {step slack : Int} (hstep : 0 < step) {burst n : Nat} {length : Int} (hlength : 0 ≤ length)
    (hslack : slack < burst * step) (hn : 0 < n → ((n : Int) - 1) * step ≤ length + slack) :
    (n : Int) ≤ burst + ⌈(length : ℚ) / step⌉ := by
  have hstep' : (0 : ℚ) < step := by exact_mod_cast hstep
  have hceil : 0 ≤ ⌈(length : ℚ) / step⌉ := by
    have hnonneg : (0 : ℚ) ≤ (length : ℚ) / step := div_nonneg (by exact_mod_cast hlength) hstep'.le
    exact Int.ceil_nonneg hnonneg
  by_cases h0 : n = 0
  · omega
  · have hle := hn (by omega)
    have hlt : ((n : Int) - 1 - burst) * step < length := by
      have hexp : ((n : Int) - 1 - burst) * step = ((n : Int) - 1) * step - burst * step := by ring
      omega
    have hlt' : (((n : Int) - 1 - burst : Int) : ℚ) < (length : ℚ) / step := by
      rw [lt_div_iff₀ hstep']
      exact_mod_cast hlt
    have := Int.lt_ceil.2 hlt'
    omega

end

/-- **When a burst is admitted exactly**: the tolerance, in whole microseconds, is `burst - 1` intervals of as many, and not
`burst` of them. -/
theorem admits_burst_iff (l : TenantRateLimiter) :
    l.AdmitsBurst ↔ ∃ s, l.steps = .ok s ∧ ((l.burst : Int) - 1) * s.step ≤ s.slack ∧ s.slack < l.burst * s.step := by
  constructor
  · intro h
    have honce := h.atOnce none 0 (fun t ht => by cases ht)
    cases hsteps : l.steps with
    | error e =>
      have hraises : (l.takes (List.replicate (l.burst + 1) 0) none).1.head? = some (.error e) := by
        show some (l.take none 0).1 = _
        unfold take
        rw [hsteps]
      have hhead := congrArg List.head? honce
      rw [List.head?_map, hraises] at hhead
      cases hb : l.burst with
      | zero => exact absurd hb l.burst_pos.ne'
      | succ n => rw [hb] at hhead; cases hhead
    | ok s =>
      have hmap : (l.takes (List.replicate (l.burst + 1) 0) none).1.map outcome =
          (List.replicate l.burst true ++ [false]).map some := by
        rw [honce, List.map_append, List.map_replicate]
        rfl
      have hadm := takes_admitted hsteps _ hmap
      exact ⟨s, rfl, (admitted_burst_iff (steps_ok hsteps).step_nonneg (fun t ht => by cases ht) l.burst_pos).1 hadm.symm⟩
  · rintro ⟨s, hsteps, hle, hlt⟩
    have hs := steps_ok hsteps
    have hnonneg := hs.step_nonneg
    have hpos : 0 < s.step := by
      rcases hnonneg.eq_or_lt with h0 | hpos
      · rw [← h0, mul_zero] at hle hlt
        omega
      · exact hpos
    refine ⟨fun tat now hr => ?_, fun s' hs' tat times _ t length hlength => ?_⟩
    · have hw : Within s tat now := by
        have := hs.slack_nonneg
        unfold Within
        rw [ahead_of_recovered hr]
        omega
      rw [takes_outcome hsteps hpos _ hw, (admitted_burst_iff hnonneg hr l.burst_pos).2 ⟨hle, hlt⟩, List.map_append,
        List.map_replicate]
      rfl
    · rw [hsteps] at hs'
      cases hs'
      have hcount := allowedIn_le hsteps t (t + length) times tat
      refine (Nat.cast_le.2 hcount).trans (window_le hpos hlength hlt fun hsome => ?_)
      have hwindow := Gcra.admittedIn_le hnonneg hsome
      omega

/-- Seven a minute, three at once: the third is refused, a microsecond short. -/
def sevenAMinute : TenantRateLimiter := ⟨7, 3, by decide, by decide⟩

theorem not_admits_burst : ¬ ∀ l : TenantRateLimiter, l.AdmitsBurst := by
  intro h
  have honce := (h sevenAMinute).atOnce none 0 (fun t ht => by cases ht)
  revert honce
  decide +kernel

end TenantRateLimiter

end AgentRuns
