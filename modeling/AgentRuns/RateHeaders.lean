import AgentRuns.Bursts

/-!
# The limiter's headers

A take tells how many more there are, or how long to wait.  Both come of the budget in doubles, at six places, where the
next take is decided in whole microseconds.  Half a millionth of a request is a microsecond and more where there are no more
than thirty a minute: a budget that is short of a request by that is told as one (`not_headers_true`).

    what is left is told as k            where k more are admitted        (left_count)
    the wait that is told is enough      for the next one to be           (wait_enough)
    so are those of every budget         where none is rounded across     (headers_true)
-/

namespace AgentRuns

open Fallible Binary64

/-! ## Six places -/

theorem round6_eq {x y : ℚ} (h : round6 x = .ok y) : y = near (roundEven (x * 1000000) / 1000000) := float_eq h

/-- Six places keep what is no more than half a millionth below an integer. -/
theorem le_round6 {x y : ℚ} (h : round6 x = .ok y) {k : Nat} (hk : k < 2 ^ 53) (hx : (k : ℚ) - 1 / 2000000 < x) : (k : ℚ) ≤ y := by
  have hround := (roundEven_bounds (x * 1000000)).1
  have hlt : (((k : Int) * 1000000 - 1 : Int) : ℚ) < roundEven (x * 1000000) := by
    push_cast
    linarith
  have hle : (k : Int) * 1000000 ≤ roundEven (x * 1000000) := by
    have := Int.cast_lt.1 hlt
    omega
  have hdiv : (k : ℚ) ≤ (roundEven (x * 1000000) : ℚ) / 1000000 := by
    rw [le_div_iff₀ (by norm_num)]
    exact_mod_cast hle
  rw [round6_eq h, ← near_natCast hk]
  exact near_mono hdiv

theorem round6_lt {x y : ℚ} (h : round6 x = .ok y) {k : Nat} (hk : k ≤ 8589934592) (hx : x < (k : ℚ) - 1 / 2000000) : y < k := by
  have hround := (roundEven_bounds (x * 1000000)).2
  have hlt : (roundEven (x * 1000000) : ℚ) < (((k : Int) * 1000000 : Int) : ℚ) := by
    push_cast
    linarith
  have hle : (roundEven (x * 1000000) : ℚ) ≤ (k : ℚ) * 1000000 - 1 := by
    have hint : roundEven (x * 1000000) + 1 ≤ (k : Int) * 1000000 := Int.cast_lt.1 hlt
    have hcast : (roundEven (x * 1000000) : ℚ) + 1 ≤ (k : ℚ) * 1000000 := by exact_mod_cast hint
    linarith
  have hdiv : (roundEven (x * 1000000) : ℚ) / 1000000 ≤ (k : ℚ) - 1 / 1000000 := by
    rw [div_le_iff₀ (by norm_num)]
    linarith
  have hp33 : pow2 33 = 8589934592 := by
    rw [show (33 : ℤ) = ((33 : ℕ) : ℤ) from rfl, pow2_natCast]
    norm_num
  have hp20 : pow2 (33 - 53) = 1 / 1048576 := by
    rw [pow2_eq]
    norm_num
  have hk0 : (0 : ℚ) ≤ k := by positivity
  have hk' : (k : ℚ) ≤ 8589934592 := by exact_mod_cast hk
  have habs : |(k : ℚ) - 1 / 1000000| ≤ pow2 33 := by
    rw [hp33, abs_le]
    constructor <;> linarith
  have herr := (abs_le.1 (abs_near_sub_le (by omega) habs)).2
  rw [hp20] at herr
  rw [round6_eq h]
  have hmono := near_mono hdiv
  linarith

/-- Six places of what is within half a millionth of so many microseconds, or is more. -/
theorem lt_round6 {x y : ℚ} (h : round6 x = .ok y) {g : Int} {m : Nat} (hm : (m : Int) * 1000000 < g) (hsmall : m < 4294967296)
    (hx : (g : ℚ) - 1 / 2 < x * 1000000) : (m : ℚ) < y := by
  have hround := (roundEven_bounds (x * 1000000)).1
  have hlt : ((g - 1 : Int) : ℚ) < roundEven (x * 1000000) := by
    push_cast
    linarith
  have hle : (m : Int) * 1000000 + 1 ≤ roundEven (x * 1000000) := by
    have := Int.cast_lt.1 hlt
    omega
  have hle' : (m : ℚ) * 1000000 + 1 ≤ roundEven (x * 1000000) := by exact_mod_cast hle
  have hdiv : (m : ℚ) + 1 / 1000000 ≤ (roundEven (x * 1000000) : ℚ) / 1000000 := by
    rw [le_div_iff₀ (by norm_num)]
    linarith
  have hm0 : (0 : ℚ) ≤ m := by positivity
  have hm' : (m : ℚ) < 4294967296 := by exact_mod_cast hsmall
  have h20 : pow2 (-20) = 1 / 1048576 := by rw [pow2_eq]; norm_num
  have h20' : pow2 (-1022) ≤ pow2 (-20) := pow2_mono (by omega)
  rw [h20] at h20'
  have hnear := (near_within (q := (m : ℚ) + 1 / 1000000) (by linarith)).1
  rw [round6_eq h]
  refine lt_of_lt_of_le ?_ (hnear.trans (near_mono hdiv))
  rw [pow2_neg53]
  linarith

theorem timedelta_le {seconds : ℚ} {micros : Int} (h : timedelta seconds = .ok micros) :
    (micros : ℚ) ≤ seconds * 1000000 + 1 := by
  have hfloor := Rat.floor_le seconds
  have hlt := Rat.lt_floor_add_one seconds
  have hp20 : pow2 20 = 1048576 := by
    rw [show (20 : ℤ) = ((20 : ℕ) : ℤ) from rfl, pow2_natCast]
    norm_num
  have hp33 : pow2 (20 - 53) = 1 / 8589934592 := by
    rw [pow2_eq]
    norm_num
  push_cast at hlt
  have habs : |(seconds - seconds.floor) * 1000000| ≤ pow2 20 := by
    rw [hp20, abs_le]
    constructor <;> linarith
  have hnear := (abs_le.1 (abs_near_sub_le (by omega) habs)).2
  have hround := (roundEven_bounds (near ((seconds - seconds.floor) * 1000000))).2
  rw [hp33] at hnear
  rw [(timedelta_ok h).1]
  push_cast
  linarith

namespace TenantRateLimiter

variable {l : TenantRateLimiter} {s : RateSteps}

/-! ## The intervals that were taken -/

theorem Stepped.perMinute_lt (hs : Stepped l s) (hpos : 0 < s.step) : l.perMinute < 2 ^ 53 := by
  by_contra hge
  have hge' : pow2 53 ≤ (l.perMinute : ℚ) := by
    rw [show (53 : ℤ) = ((53 : ℕ) : ℤ) from rfl, pow2_natCast]
    exact_mod_cast not_lt.1 hge
  have hnear := pow2_le_near (by omega) hge'
  have hp46 : pow2 53 * pow2 (-47) = 64 := by rw [← pow2_add]; rfl
  have hdiv : 60 / near l.perMinute ≤ pow2 (-47) := by
    rw [div_le_iff₀ ((pow2_pos 53).trans_le hnear)]
    have := mul_le_mul_of_nonneg_right hnear (pow2_pos (-47)).le
    linarith
  have hle := near_le_pow2 (by omega) hdiv
  have hge22 := pow2_le_of_timedelta hs.step hs.interval_nonneg hpos
  rw [hs.interval_eq] at hge22
  exact absurd (hge22.trans hle) (not_le.2 (pow2_lt.2 (by omega)))

theorem Stepped.interval_within (hs : Stepped l s) (hpos : 0 < s.step) :
    60 / (l.perMinute : ℚ) * (1 - pow2 (-53)) ≤ s.interval ∧ s.interval ≤ 60 / (l.perMinute : ℚ) * (1 + pow2 (-53)) := by
  have hlt := hs.perMinute_lt hpos
  have hp : (0 : ℚ) < l.perMinute := by exact_mod_cast l.enabled
  rw [hs.interval_eq, near_natCast hlt]
  refine near_within ?_
  rw [le_div_iff₀ hp]
  have hp53 : (l.perMinute : ℚ) ≤ pow2 53 := by
    rw [show (53 : ℤ) = ((53 : ℕ) : ℤ) from rfl, pow2_natCast]
    exact_mod_cast hlt.le
  calc pow2 (-1022) * l.perMinute ≤ pow2 (-1022) * pow2 53 := mul_le_mul_of_nonneg_left hp53 (pow2_pos _).le
    _ = pow2 (-969) := (pow2_add (-1022) 53).symm
    _ ≤ pow2 0 := pow2_mono (by omega)
    _ ≤ 60 := by rw [show pow2 0 = 1 from rfl]; norm_num

/-- The intervals in that many microseconds. -/
def intervals (l : TenantRateLimiter) (micros : Int) : ℚ := l.perMinute * micros / 60000000

theorem quotient_within (hs : Stepped l s) (hpos : 0 < s.step) {m : Int} (hm : 0 < m) :
    l.intervals m * (1 - pow2 (-50)) ≤ near (near ((m : ℚ) / 1000000) / s.interval) ∧
      near (near ((m : ℚ) / 1000000) / s.interval) ≤ l.intervals m * (1 + pow2 (-50)) := by
  have hp : (0 : ℚ) < l.perMinute := by exact_mod_cast l.enabled
  have hm1 : (1 : ℚ) ≤ m := by exact_mod_cast hm
  have hu : pow2 (-53) = 1 / 9007199254740992 := pow2_neg53
  have hu50 : pow2 (-50) = 8 * pow2 (-53) := by rw [show (-50 : ℤ) = 3 + -53 from rfl, pow2_add]; rfl
  have hsec := near_within (q := (m : ℚ) / 1000000) (by
    rw [le_div_iff₀ (by norm_num)]
    have h20 : pow2 (-1022) ≤ pow2 (-20) := pow2_mono (by omega)
    have h20' : pow2 (-20) = 1 / 1048576 := by rw [pow2_eq]; norm_num
    rw [h20'] at h20
    linarith)
  obtain ⟨hil, hiu⟩ := hs.interval_within hpos
  have hquot := div_within (x := (m : ℚ) / 1000000) (y := 60 / (l.perMinute : ℚ)) (by positivity) (by positivity)
    (pow2_pos (-53)) (by rw [hu]; norm_num) hsec.1 hsec.2 hil hiu
  have hx : (m : ℚ) / 1000000 / (60 / (l.perMinute : ℚ)) = l.intervals m := by
    unfold intervals
    field_simp
    norm_num
  rw [hx] at hquot
  have hX : 0 < l.intervals m := by
    unfold intervals
    positivity
  have hX' : pow2 (-27) ≤ l.intervals m := by
    have h27 : pow2 (-27) = 1 / 134217728 := by rw [pow2_eq]; norm_num
    have hp1 : (1 : ℚ) ≤ l.perMinute := by exact_mod_cast l.enabled
    unfold intervals
    rw [h27, le_div_iff₀ (by norm_num)]
    nlinarith
  have hround := near_within (q := near ((m : ℚ) / 1000000) / s.interval) (by
    have h28 : pow2 (-1022) ≤ pow2 (-27) * (1 - 3 * pow2 (-53)) := by
      have h27 : pow2 (-1022) ≤ pow2 (-28) := pow2_mono (by omega)
      have h28 : pow2 (-27) = pow2 (-28) * 2 := by rw [show (-27 : ℤ) = -28 + 1 from rfl, pow2_add]; rfl
      have := pow2_pos (-28)
      rw [hu, h28]
      linarith
    refine h28.trans (le_trans ?_ hquot.1)
    exact mul_le_mul_of_nonneg_right hX' (by rw [hu]; norm_num))
  constructor
  · refine le_trans ?_ hround.1
    calc l.intervals m * (1 - pow2 (-50)) ≤ l.intervals m * ((1 - 3 * pow2 (-53)) * (1 - pow2 (-53))) := by
          refine mul_le_mul_of_nonneg_left ?_ hX.le
          rw [hu50, hu]
          norm_num
      _ = l.intervals m * (1 - 3 * pow2 (-53)) * (1 - pow2 (-53)) := by ring
      _ ≤ _ := mul_le_mul_of_nonneg_right hquot.1 (by rw [hu]; norm_num)
  · refine hround.2.trans ?_
    calc _ ≤ l.intervals m * (1 + 3 * pow2 (-53)) * (1 + pow2 (-53)) :=
          mul_le_mul_of_nonneg_right hquot.2 (by rw [hu]; norm_num)
      _ = l.intervals m * ((1 + 3 * pow2 (-53)) * (1 + pow2 (-53))) := by ring
      _ ≤ l.intervals m * (1 + pow2 (-50)) := by
          refine mul_le_mul_of_nonneg_left ?_ hX.le
          rw [hu50, hu]
          norm_num

/-! ## What a take tells -/

/-- How far doubles may be out, a request of the budget being 60000000. -/
def doubt (l : TenantRateLimiter) : ℚ := l.burst * 60000000 * pow2 (-48)

theorem left_eq {m : Int} {y : ℚ} (h : l.left s.interval m = .ok y) :
    round6 (near (near l.burst - near (near ((m : ℚ) / 1000000) / s.interval))) = .ok y := by
  unfold left epoch at h
  obtain ⟨seconds, hsec, h⟩ := bind_ok.1 h
  obtain ⟨budget, hbudget, h⟩ := bind_ok.1 h
  obtain ⟨burst, hburst, h⟩ := bind_ok.1 h
  obtain ⟨difference, hdiff, h⟩ := bind_ok.1 h
  rw [← float_eq hsec, ← float_eq hbudget, ← float_eq hburst, ← float_eq hdiff]
  exact h

theorem burst_near (hb : l.burst ≤ 4294967296) : near (l.burst : ℚ) = l.burst := near_natCast (by omega)

/-- The doubt, and the worth of a budget, in requests. -/
theorem intervals_eq (m : Int) : (l.perMinute : ℚ) * m = l.intervals m * 60000000 := by
  unfold intervals
  rw [div_mul_cancel₀ _ (by norm_num)]

theorem doubt_eq : l.doubt = l.burst * (32 * pow2 (-53)) * 60000000 := by
  have h48 : pow2 (-48) = 32 * pow2 (-53) := by rw [show (-48 : ℤ) = 5 + -53 from rfl, pow2_add]; rfl
  unfold doubt
  rw [h48]
  ring

/-- Budget for `k` more, and half a millionth of one, is told as `k` at least. -/
theorem le_left (hs : Stepped l s) (hpos : 0 < s.step) (hb : l.burst ≤ 4294967296) {m : Int} (hm : 0 < m) {k : Nat}
    (hk : 0 < k) (hle : (l.perMinute : ℚ) * m + l.doubt ≤ (l.burst - k) * 60000000 + 30) {y : ℚ}
    (hy : l.left s.interval m = .ok y) : (k : ℚ) ≤ y := by
  have hb1 : (1 : ℚ) ≤ l.burst := by exact_mod_cast l.burst_pos
  have hb32 : (l.burst : ℚ) ≤ 4294967296 := by exact_mod_cast hb
  have hk1 : (1 : ℚ) ≤ k := by exact_mod_cast hk
  have hu : pow2 (-53) = 1 / 9007199254740992 := pow2_neg53
  have hu50 : pow2 (-50) = 8 * pow2 (-53) := by rw [show (-50 : ℤ) = 3 + -53 from rfl, pow2_add]; rfl
  have hX0 : 0 ≤ l.intervals m := by
    have hm0 : (0 : ℚ) ≤ m := by exact_mod_cast hm.le
    unfold intervals
    positivity
  have hX : l.intervals m + l.burst * (32 * pow2 (-53)) ≤ l.burst - k + 1 / 2000000 := by
    rw [intervals_eq, doubt_eq] at hle
    linarith
  have hquot := (quotient_within hs hpos hm).2
  have hmul : l.intervals m * pow2 (-50) ≤ l.burst * (8 * pow2 (-53)) := by
    rw [hu50]
    refine mul_le_mul_of_nonneg_right ?_ (by rw [hu]; norm_num)
    rw [hu] at hX
    linarith
  -- what is left, without the last two roundings
  have hleft : (k : ℚ) - 1 / 2000000 + l.burst * (24 * pow2 (-53)) ≤
      l.burst - near (near ((m : ℚ) / 1000000) / s.interval) := by
    rw [mul_add, mul_one] at hquot
    linarith
  have hkb : (k : ℚ) ≤ l.burst + 1 := by
    rw [hu] at hX
    linarith
  have hhalf : pow2 (-1) ≤ (k : ℚ) - 1 / 2000000 + l.burst * (24 * pow2 (-53)) := by
    rw [show pow2 (-1) = 1 / 2 from rfl, hu]
    linarith
  have hnear := (near_mono hleft).trans' (near_within ((pow2_mono (by omega)).trans hhalf)).1
  have hround := left_eq hy
  rw [burst_near hb] at hround
  refine le_round6 hround ?_ (lt_of_lt_of_le ?_ hnear)
  · have hlt : (k : ℚ) < ((2 ^ 53 : ℕ) : ℚ) := by
      push_cast
      linarith
    exact Nat.cast_lt.1 hlt
  · rw [hu]
    nlinarith

/-- Budget that is short of that by the doubt is told as less. -/
theorem left_lt (hs : Stepped l s) (hpos : 0 < s.step) (hb : l.burst ≤ 4294967296) {m : Int} (hm : 0 < m) {k : Nat}
    (hk : 0 < k) (hkb : k ≤ l.burst + 1) (hlt : (l.burst - k) * 60000000 + 30 + l.doubt < (l.perMinute : ℚ) * m) {y : ℚ}
    (hy : l.left s.interval m = .ok y) : y < k := by
  have hb1 : (1 : ℚ) ≤ l.burst := by exact_mod_cast l.burst_pos
  have hb32 : (l.burst : ℚ) ≤ 4294967296 := by exact_mod_cast hb
  have hk1 : (1 : ℚ) ≤ k := by exact_mod_cast hk
  have hkb' : (k : ℚ) ≤ l.burst + 1 := by exact_mod_cast hkb
  have hu : pow2 (-53) = 1 / 9007199254740992 := pow2_neg53
  have hu50 : pow2 (-50) = 8 * pow2 (-53) := by rw [show (-50 : ℤ) = 3 + -53 from rfl, pow2_add]; rfl
  have hX : l.burst - k + 1 / 2000000 + l.burst * (32 * pow2 (-53)) < l.intervals m := by
    rw [intervals_eq, doubt_eq] at hlt
    linarith
  have hquot := (quotient_within hs hpos hm).1
  rw [mul_sub, mul_one] at hquot
  have hround := left_eq hy
  rw [burst_near hb] at hround
  refine round6_lt hround (by omega) ?_
  by_cases hover : l.intervals m ≤ 2 * l.burst
  · have hmul : l.intervals m * pow2 (-50) ≤ l.burst * (16 * pow2 (-53)) := by
      rw [hu50, hu]
      linarith
    have hleft : l.burst - near (near ((m : ℚ) / 1000000) / s.interval) ≤
        (k : ℚ) - 1 / 2000000 - l.burst * (16 * pow2 (-53)) := by
      linarith
    have hhalf : pow2 (-1) ≤ (k : ℚ) - 1 / 2000000 - l.burst * (16 * pow2 (-53)) := by
      rw [show pow2 (-1) = 1 / 2 from rfl, hu]
      linarith
    have hnear := (near_mono hleft).trans (near_within ((pow2_mono (by omega)).trans hhalf)).2
    refine lt_of_le_of_lt hnear ?_
    rw [hu]
    nlinarith
  · -- more than the whole burst
    have hneg : l.burst - near (near ((m : ℚ) / 1000000) / s.interval) ≤ 0 := by
      have hsmall : l.intervals m * pow2 (-50) ≤ l.intervals m * (1 / 2) := by
        refine mul_le_mul_of_nonneg_left ?_ (by linarith)
        rw [hu50, hu]
        norm_num
      linarith
    have hnear := near_mono hneg
    rw [near_zero] at hnear
    linarith

/-! ## What a refused take tells -/

theorem wait_eq {tolerance : ℚ} {ahead : Int} {y : ℚ} (h : wait tolerance ahead = .ok y) :
    round6 (near (near ((ahead : ℚ) / 1000000) - tolerance)) = .ok y := by
  unfold wait epoch at h
  obtain ⟨seconds, hsec, h⟩ := bind_ok.1 h
  obtain ⟨difference, hdiff, h⟩ := bind_ok.1 h
  rw [← float_eq hsec, ← float_eq hdiff]
  exact h

/-- The interval, in microseconds, if each were exact. -/
def exact (l : TenantRateLimiter) : ℚ := 60000000 / l.perMinute

theorem Stepped.interval_le (hs : Stepped l s) (hpos : 0 < s.step) : s.interval * 1000000 ≤ l.exact * (1 + pow2 (-53)) := by
  have h := (hs.interval_within hpos).2
  have he : l.exact = 60 / (l.perMinute : ℚ) * 1000000 := by
    unfold exact
    ring
  rw [he]
  linarith

theorem Stepped.tolerance_le (hs : Stepped l s) (hpos : 0 < s.step) (hb : l.burst ≤ 4294967296) :
    s.tolerance * 1000000 ≤ (l.burst - 1) * l.exact * (1 + 3 * pow2 (-53)) := by
  have hu : pow2 (-53) = 1 / 9007199254740992 := pow2_neg53
  have hmore : near ((l.burst : ℚ) - 1) = l.burst - 1 := by
    have hcast : (l.burst : ℚ) - 1 = ((l.burst - 1 : ℕ) : ℚ) := by
      rw [Nat.cast_sub l.burst_pos, Nat.cast_one]
    rw [hcast]
    exact near_natCast (by omega)
  have hint := hs.interval_le hpos
  have hi := pow2_le_of_timedelta hs.step hs.interval_nonneg hpos
  have hexact : 0 ≤ l.exact := by
    unfold exact
    positivity
  rw [hs.tolerance_eq, hmore]
  rcases Nat.eq_or_lt_of_le l.burst_pos with h1 | h2
  · rw [← h1]
    simp
  · have hb1 : (1 : ℚ) ≤ l.burst - 1 := by
      have h2' : (2 : ℚ) ≤ l.burst := by exact_mod_cast h2
      linarith
    have hge : pow2 (-1022) ≤ s.interval * (l.burst - 1) := by
      calc pow2 (-1022) ≤ pow2 (-22) := pow2_mono (by omega)
        _ ≤ s.interval * 1 := by rw [mul_one]; exact hi
        _ ≤ s.interval * (l.burst - 1) := mul_le_mul_of_nonneg_left hb1 hs.interval_nonneg
    have hnear := (near_within hge).2
    calc near (s.interval * (l.burst - 1)) * 1000000
        ≤ s.interval * (l.burst - 1) * (1 + pow2 (-53)) * 1000000 := by linarith
      _ = (s.interval * 1000000) * ((l.burst - 1) * (1 + pow2 (-53))) := by ring
      _ ≤ l.exact * (1 + pow2 (-53)) * ((l.burst - 1) * (1 + pow2 (-53))) :=
          mul_le_mul_of_nonneg_right hint (mul_nonneg (by linarith) (by rw [hu]; norm_num))
      _ = (l.burst - 1) * l.exact * ((1 + pow2 (-53)) * (1 + pow2 (-53))) := by ring
      _ ≤ (l.burst - 1) * l.exact * (1 + 3 * pow2 (-53)) := by
          refine mul_le_mul_of_nonneg_left ?_ (mul_nonneg (by linarith) hexact)
          rw [hu]
          norm_num

/-- `late` of a `Clear` limiter, in microseconds. -/
theorem slack_gt (hlate : ((l.burst : ℚ) - 1) * 60000000 + l.doubt < l.perMinute * (s.slack + 1 / 2)) :
    (l.burst - 1) * l.exact + l.burst * l.exact * (32 * pow2 (-53)) < s.slack + 1 / 2 := by
  have hp : (0 : ℚ) < l.perMinute := by exact_mod_cast l.enabled
  have hexact : l.exact * l.perMinute = 60000000 := div_mul_cancel₀ _ hp.ne'
  have hscale : l.perMinute * ((l.burst - 1) * l.exact + l.burst * l.exact * (32 * pow2 (-53))) <
      l.perMinute * ((s.slack : ℚ) + 1 / 2) := by
    calc _ = ((l.burst : ℚ) - 1) * 60000000 + l.doubt := by
          rw [doubt_eq, ← hexact]
          ring
      _ < _ := hlate
  exact lt_of_mul_lt_mul_left hscale hp.le

/-- What a budget is ahead of the tolerance, without the last two roundings. -/
theorem difference_ge (hs : Stepped l s) (hlong : 1000000 < s.step) (hb : l.burst ≤ 4294967296)
    (hlate : ((l.burst : ℚ) - 1) * 60000000 + l.doubt < l.perMinute * (s.slack + 1 / 2)) {g : Int} (hg : g ≤ s.step)
    (hg0 : 0 < g) :
    (g : ℚ) - 1 / 2 + l.burst * l.exact * (26 * pow2 (-53)) ≤
      (near (((s.slack + g : Int) : ℚ) / 1000000) - s.tolerance) * 1000000 := by
  have hpos : 0 < s.step := by omega
  have hb1 : (1 : ℚ) ≤ l.burst := by exact_mod_cast l.burst_pos
  have hslack : (0 : ℚ) ≤ s.slack := by exact_mod_cast hs.slack_nonneg
  have hg' : (g : ℚ) ≤ s.step := by exact_mod_cast hg
  have hg1 : (1 : ℚ) ≤ g := by exact_mod_cast hg0
  have hlong' : (1000000 : ℚ) < s.step := by exact_mod_cast hlong
  have hstep := timedelta_le hs.step
  have htol := timedelta_le hs.slack
  have hint := hs.interval_le hpos
  have htol' := hs.tolerance_le hpos hb
  have hgt := slack_gt hlate
  have hu : pow2 (-53) = 1 / 9007199254740992 := pow2_neg53
  have hexact : 900000 ≤ l.exact := by
    rw [hu] at hint
    linarith
  have hbe : l.exact ≤ l.burst * l.exact := le_mul_of_one_le_left (by linarith) hb1
  have hless : ((l.burst : ℚ) - 1) * l.exact = l.burst * l.exact - l.exact := by ring
  rw [hless] at hgt htol'
  have hcast : ((s.slack + g : Int) : ℚ) = s.slack + g := Int.cast_add _ _
  rw [hcast]
  have hahead : (s.slack : ℚ) + g ≤ 3 * (l.burst * l.exact) := by
    rw [hu] at hint htol'
    linarith
  have hsec : pow2 (-1022) ≤ ((s.slack : ℚ) + g) / 1000000 := by
    have h20 : pow2 (-20) = 1 / 1048576 := by rw [pow2_eq]; norm_num
    have h20' : pow2 (-1022) ≤ pow2 (-20) := pow2_mono (by omega)
    rw [h20] at h20'
    rw [le_div_iff₀ (by norm_num)]
    linarith
  have hnear := (near_within hsec).1
  have hmul := mul_le_mul_of_nonneg_right hahead (pow2_pos (-53)).le
  have hscaled : (s.slack : ℚ) + g - 3 * (l.burst * l.exact) * pow2 (-53) ≤
      near (((s.slack : ℚ) + g) / 1000000) * 1000000 := by
    linarith
  have hu0 := pow2_pos (-53)
  have hprod : 0 ≤ l.exact * pow2 (-53) := mul_nonneg (by linarith) hu0.le
  linarith

/-- A wait of more than so many seconds is told as more. -/
theorem lt_wait (hs : Stepped l s) (hlong : 1000000 < s.step) (hb : l.burst ≤ 4294967296)
    (hlate : ((l.burst : ℚ) - 1) * 60000000 + l.doubt < l.perMinute * (s.slack + 1 / 2)) {g : Int} (hg : g ≤ s.step)
    {m : Nat} (hm : (m : Int) * 1000000 < g) {y : ℚ} (hy : wait s.tolerance (s.slack + g) = .ok y) : (m : ℚ) < y := by
  have hg0 : 0 < g := by omega
  have hg' : (g : ℚ) ≤ s.step := by exact_mod_cast hg
  have hg1 : (1 : ℚ) ≤ g := by exact_mod_cast hg0
  have hlong' : (1000000 : ℚ) < s.step := by exact_mod_cast hlong
  have hb1 : (1 : ℚ) ≤ l.burst := by exact_mod_cast l.burst_pos
  have hb32 : (l.burst : ℚ) ≤ 4294967296 := by exact_mod_cast hb
  have hu : pow2 (-53) = 1 / 9007199254740992 := pow2_neg53
  have hstep := timedelta_le hs.step
  have hint := hs.interval_le (by omega)
  rw [hu] at hint
  have hexact : 900000 ≤ l.exact := by linarith
  have hbe : l.exact ≤ l.burst * l.exact := le_mul_of_one_le_left (by linarith) hb1
  have hdiff := difference_ge hs hlong hb hlate hg hg0
  rw [hu] at hdiff
  have hge : ((g : ℚ) - 1 / 2 + l.burst * l.exact * (26 * (1 / 9007199254740992))) / 1000000 ≤
      near (((s.slack + g : Int) : ℚ) / 1000000) - s.tolerance := by
    rw [div_le_iff₀ (by norm_num)]
    exact hdiff
  have hsmall : pow2 (-1022) ≤ ((g : ℚ) - 1 / 2 + l.burst * l.exact * (26 * (1 / 9007199254740992))) / 1000000 := by
    have h21 : pow2 (-21) = 1 / 2097152 := by rw [pow2_eq]; norm_num
    have h21' : pow2 (-1022) ≤ pow2 (-21) := pow2_mono (by omega)
    rw [h21] at h21'
    rw [le_div_iff₀ (by norm_num)]
    linarith
  have hnear := (near_within hsmall).1.trans (near_mono hge)
  rw [hu] at hnear
  refine lt_round6 (wait_eq hy) hm ?_ (by linarith)
  have hexact_le : l.exact ≤ 60000000 := div_le_self (by norm_num) (by exact_mod_cast l.enabled)
  have hm' : (m : ℚ) * 1000000 < g := by exact_mod_cast hm
  have hlt : (m : ℚ) < ((4294967296 : ℕ) : ℚ) := by
    push_cast
    linarith
  exact Nat.cast_lt.1 hlt

/-! ## The truth -/

/-- What a take tells is so: a refused one how long to wait, an allowed one how many more there are. -/
structure Truthful (l : TenantRateLimiter) (tat : Option Int) (now : Int) : Prop where
  retry : ∀ d, (l.take tat now).1 = .ok d → d.allowed = false →
    outcome (l.take (l.take tat now).2 (now + d.retryAfter * 1000000)).1 = some true
  remaining : ∀ d, (l.take tat now).1 = .ok d → d.allowed = true → ∃ k : Nat, d.remaining = k ∧
    (l.takes (List.replicate (k + 1) now) (l.take tat now).2).1.map outcome = List.replicate k (some true) ++ [some false]

/-- So it is from every budget that takes lead to. -/
def HeadersTrue (l : TenantRateLimiter) : Prop :=
  ∀ times now, (times ++ [now]).Pairwise (· ≤ ·) → l.Truthful (l.takes times none).2 now

/-- No budget is rounded across a whole number of requests, or a wait across one of seconds.  A microsecond of budget weighs
`perMinute`, a request 60000000; half a millionth of a request is 30. -/
structure Clear (l : TenantRateLimiter) (s : RateSteps) : Prop where
  step : 0 < s.step
  burst : l.burst ≤ 4294967296
  /-- the most a take may have taken with `k` more to come is no more than what `k` leave of the burst -/
  more : ∀ k : Nat, 0 < k → (k : Int) * s.step ≤ s.slack →
    (l.perMinute : ℚ) * (s.slack - ((k : Int) - 1) * s.step : Int) + l.doubt ≤ (l.burst - k) * 60000000 + 30
  /-- the least it may have with fewer to come is more than that -/
  fewer : ∀ k : Nat, 0 < k → ((k : Int) - 1) * s.step ≤ s.slack →
    ((l.burst : ℚ) - k) * 60000000 + 30 + l.doubt < l.perMinute * (max s.step (s.slack - ((k : Int) - 1) * s.step + 1) : Int)
  /-- where an interval is more than a second, the tolerance is not rounded down by half a microsecond -/
  late : 1000000 < s.step → ((l.burst : ℚ) - 1) * 60000000 + l.doubt < l.perMinute * (s.slack + 1 / 2)

/-- What is left of a budget, told as a number of requests. -/
theorem left_count (hs : Stepped l s) (hc : Clear l s) {a : Int} (ha : 0 ≤ a) (hle : a ≤ s.slack) {y : ℚ}
    (hy : l.left s.interval (a + s.step) = .ok y) :
    ∃ k : Nat, max 0 y.floor = k ∧ a + k * s.step ≤ s.slack ∧ s.slack < a + s.step + k * s.step := by
  have hpos := hc.step
  have hp : (0 : ℚ) ≤ l.perMinute := by positivity
  obtain ⟨k, hk⟩ := Int.eq_ofNat_of_zero_le (Int.ediv_nonneg (by omega : 0 ≤ s.slack - a) hpos.le)
  have hlow : (k : Int) * s.step ≤ s.slack - a := by
    rw [← hk]
    exact Int.ediv_mul_le _ hpos.ne'
  have hhigh : s.slack - a < (k : Int) * s.step + s.step := by
    have hlt := Int.lt_ediv_add_one_mul_self (s.slack - a) hpos
    rw [hk] at hlt
    linarith
  have hsucc : (((k + 1 : Nat) : Int) - 1) * s.step = k * s.step := by push_cast; ring
  have hmore : 0 < k → (k : ℚ) ≤ y ∧ k ≤ l.burst := by
    intro hk0
    have htaken : a + s.step ≤ s.slack - ((k : Int) - 1) * s.step := by linarith
    have htaken' : ((a + s.step : Int) : ℚ) ≤ ((s.slack - ((k : Int) - 1) * s.step : Int) : ℚ) := Int.cast_le.2 htaken
    have hworth := (add_le_add_left (mul_le_mul_of_nonneg_left htaken' hp) l.doubt).trans (hc.more k hk0 (by omega))
    refine ⟨le_left hs hpos hc.burst (by omega) hk0 hworth hy, ?_⟩
    have hd : 0 ≤ l.doubt := mul_nonneg (by positivity) (pow2_pos _).le
    have hm0 : (0 : ℚ) ≤ ((a + s.step : Int) : ℚ) := by exact_mod_cast (by omega : 0 ≤ a + s.step)
    have hlt : (k : ℚ) < ((l.burst + 1 : ℕ) : ℚ) := by
      push_cast
      have := mul_nonneg hp hm0
      linarith
    have := Nat.cast_lt.1 hlt
    omega
  have hkb : k ≤ l.burst := by
    by_cases hk0 : 0 < k
    · exact (hmore hk0).2
    · omega
  have hfewer : y < ((k + 1 : ℕ) : ℚ) := by
    have hf := hc.fewer (k + 1) (by omega) (by rw [hsucc]; omega)
    rw [hsucc] at hf
    have htaken : max s.step (s.slack - k * s.step + 1) ≤ a + s.step := by omega
    have htaken' : ((max s.step (s.slack - k * s.step + 1) : Int) : ℚ) ≤ ((a + s.step : Int) : ℚ) := Int.cast_le.2 htaken
    exact left_lt hs hpos hc.burst (by omega) (by omega) (by omega)
      (hf.trans_le (mul_le_mul_of_nonneg_left htaken' hp)) hy
  refine ⟨k, ?_, by omega, by omega⟩
  have hupper : y.floor < (k : Int) + 1 := by
    have hlt : (y.floor : ℚ) < (((k + 1 : ℕ) : Int) : ℚ) := (Rat.floor_le y).trans_lt hfewer
    have := Int.cast_lt.1 hlt
    omega
  by_cases hk0 : 0 < k
  · have hlower : (k : Int) ≤ y.floor := Rat.le_floor_iff.2 (by exact_mod_cast (hmore hk0).1)
    omega
  · omega

/-- The wait that is told is long enough. -/
theorem wait_enough (hs : Stepped l s) (hc : Clear l s) {g : Int} (hg0 : 0 < g) (hg : g ≤ s.step) {y : ℚ}
    (hy : wait s.tolerance (s.slack + g) = .ok y) : g ≤ max 1 y.ceil * 1000000 := by
  by_cases hlong : 1000000 < s.step
  · obtain ⟨m, hm⟩ := Int.eq_ofNat_of_zero_le (Int.ediv_nonneg (by omega : 0 ≤ g - 1) (by omega : (0 : Int) ≤ 1000000))
    have hlt : (m : ℚ) < y := lt_wait hs hlong hc.burst (hc.late hlong) hg (by omega) hy
    have hceil : (m : Int) < y.ceil := by
      have hcast : (((m : Int) : ℤ) : ℚ) < y := by exact_mod_cast hlt
      exact Rat.lt_ceil_iff.2 hcast
    omega
  · omega

/-- The wait told by a refused take is one the next take gets through behind. -/
theorem retry_of_clear (h : l.steps = .ok s) (hc : Clear l s) {tat : Option Int} {now : Int} (hw : Within s tat now)
    (had : ¬ Gcra.ahead tat now ≤ s.slack) {y : ℚ} (hy : wait s.tolerance (Gcra.ahead tat now) = .ok y) :
    outcome (l.take tat (now + max 1 y.ceil * 1000000)).1 = some true := by
  have hs := steps_ok h
  unfold Within at hw
  have hsplit : s.slack + (Gcra.ahead tat now - s.slack) = Gcra.ahead tat now := by omega
  have henough := wait_enough hs hc (g := Gcra.ahead tat now - s.slack) (by omega) (by omega) (by rw [hsplit]; exact hy)
  have hlater : Within s tat (now + max 1 y.ceil * 1000000) := Within.later hw (by omega)
  rw [take_ok h hc.step hlater]
  refine congrArg some (decide_eq_true ?_)
  have hslack := hs.slack_nonneg
  cases tat with
  | none => exact hslack
  | some t =>
    rw [Gcra.ahead_some] at henough ⊢
    show max t (now + max 1 y.ceil * 1000000) - (now + max 1 y.ceil * 1000000) ≤ s.slack
    omega

/-- What an allowed take tells is left is left. -/
theorem remaining_of_clear (h : l.steps = .ok s) (hc : Clear l s) {tat : Option Int} {now : Int} (hw : Within s tat now)
    (had : Gcra.ahead tat now ≤ s.slack) {y : ℚ} (hy : l.left s.interval (Gcra.ahead tat now + s.step) = .ok y) :
    ∃ k : Nat, max 0 y.floor = k ∧
      (l.takes (List.replicate (k + 1) now) (Gcra.next s.step s.slack tat now)).1.map outcome =
        List.replicate k (some true) ++ [some false] := by
  have hs := steps_ok h
  obtain ⟨k, hk, hle, hlt⟩ := left_count hs hc (Gcra.ahead_nonneg tat now) had hy
  refine ⟨k, hk, ?_⟩
  have hexactly : Gcra.admitted s.step s.slack (List.replicate (k + 1) now) (Gcra.next s.step s.slack tat now) =
      List.replicate k true ++ [false] := by
    rw [Gcra.admitted_exactly_iff hs.step_nonneg, Gcra.ahead_next hs.step_nonneg had]
    refine ⟨fun _ => ?_, hlt⟩
    have hpred : ((k : Int) - 1) * s.step = k * s.step - s.step := by ring
    omega
  rw [takes_outcome h hc.step _ (hw.next hs), hexactly, List.map_append, List.map_replicate]
  rfl

/-- From any budget a take leads to. -/
theorem truthful_of_clear (h : l.steps = .ok s) (hc : Clear l s) {tat : Option Int} {now : Int} (hw : Within s tat now) :
    l.Truthful tat now := by
  refine ⟨fun d hd hrefused => ?_, fun d hd hallowed => ?_⟩
  · obtain ⟨-, htrue, -⟩ | ⟨had, -, y, hy, hretry⟩ := take_answer h hd
    · rw [htrue] at hrefused
      cases hrefused
    · rw [hretry, take_row h, Gcra.next_of_refused had]
      exact retry_of_clear h hc hw had hy
  · obtain ⟨had, -, y, hy, hremaining⟩ | ⟨-, hfalse, -⟩ := take_answer h hd
    · rw [hremaining, take_row h]
      exact remaining_of_clear h hc hw had hy
    · rw [hfalse] at hallowed
      cases hallowed

/-- Takes one after another lead to no budget further ahead. -/
theorem within_takes (h : l.steps = .ok s) (times : List Int) : ∀ {tat : Option Int} {start now : Int}, Within s tat start →
    (start :: (times ++ [now])).Pairwise (· ≤ ·) → Within s (l.takes times tat).2 now := by
  induction times with
  | nil =>
    intro tat start now hw hp
    exact hw.later ((List.pairwise_cons.1 hp).1 now (by simp))
  | cons t times ih =>
    intro tat start now hw hp
    obtain ⟨hle, hp⟩ := List.pairwise_cons.1 hp
    have hfirst := (hw.later (hle t (by simp))).next (steps_ok h)
    rw [← take_row h] at hfirst
    exact ih hfirst hp

/-- **Where no budget is rounded across a whole number, the headers tell the truth**, from every budget takes lead to. -/
theorem headers_true (l : TenantRateLimiter) (hc : ∀ s, l.steps = .ok s → Clear l s) : l.HeadersTrue := by
  intro times now hp
  cases hsteps : l.steps with
  | error e =>
    have herror : ∀ tat now', (l.take tat now').1 = .error e := by
      intro tat now'
      unfold take
      rw [hsteps]
    refine ⟨fun d hd _ => ?_, fun d hd _ => ?_⟩
    · rw [herror] at hd
      cases hd
    · rw [herror] at hd
      cases hd
  | ok s =>
    refine truthful_of_clear hsteps (hc s hsteps) ?_
    have hs := steps_ok hsteps
    have hnone : ∀ t, Within s none t := by
      intro t
      have h1 := hs.step_nonneg
      have h2 := hs.slack_nonneg
      show (0 : Int) ≤ s.step + s.slack
      omega
    cases times with
    | nil => exact hnone now
    | cons t times =>
      have hfirst := (hnone t).next hs
      rw [← take_row hsteps] at hfirst
      exact within_takes hsteps times hfirst hp

/-- The limiter as it is set up, 3000 a minute and 500 at once. -/
def defaultLimiter : TenantRateLimiter := ⟨3000, 500, by decide, by decide⟩

theorem headers_true_default : defaultLimiter.HeadersTrue := by
  refine headers_true defaultLimiter fun s hs => ?_
  have hsteps : (defaultLimiter.steps.toOption.map fun s => (s.step, s.slack)) = some (20000, 9980000) := by decide +kernel
  rw [hs] at hsteps
  obtain ⟨hstep, hslack⟩ := Prod.mk.inj (Option.some.inj hsteps)
  have hdoubt : defaultLimiter.doubt = 30000000000 * pow2 (-48) := by
    unfold doubt defaultLimiter
    norm_num
  have hp48 : pow2 (-48) = 1 / 281474976710656 := by rw [pow2_eq]; norm_num
  refine ⟨by omega, by decide, fun k _ _ => ?_, fun k _ _ => ?_, fun hlong => ?_⟩
  · rw [hdoubt, hp48, hstep, hslack]
    show ((3000 : ℕ) : ℚ) * _ + _ ≤ (((500 : ℕ) : ℚ) - k) * 60000000 + 30
    push_cast
    linarith
  · have hmax : ((9980000 - ((k : Int) - 1) * 20000 + 1 : Int) : ℚ) ≤
        ((max 20000 (9980000 - ((k : Int) - 1) * 20000 + 1) : Int) : ℚ) := Int.cast_le.2 (le_max_right _ _)
    rw [hdoubt, hp48, hstep, hslack]
    show (((500 : ℕ) : ℚ) - k) * 60000000 + 30 + _ < ((3000 : ℕ) : ℚ) * _
    push_cast at hmax ⊢
    linarith
  · omega

/-- One a minute, two at once. -/
def oneAMinute : TenantRateLimiter := ⟨1, 2, by decide, by decide⟩

/-- A microsecond before the budget is full, one more is told after the take, and is refused. -/
theorem not_headers_true : ¬ ∀ l : TenantRateLimiter, l.HeadersTrue := by
  intro h
  have htruth := h oneAMinute [0] 59999999 (by decide)
  obtain ⟨k, hk, hout⟩ := htruth.remaining ⟨true, 1, 1, 0⟩ (by decide +kernel) rfl
  have hk1 : k = 1 := by
    have : (1 : Int) = k := hk
    omega
  rw [hk1] at hout
  revert hout
  decide +kernel

end TenantRateLimiter

end AgentRuns
