import AgentRuns.Binary64
import AgentRuns.Fallible
import AgentRuns.Gcra

/-!
# The rate limiter

`TenantRateLimiter.take` of `api/ratelimit.py`: one upsert of the tenant's row on the database's clock, of whole
microseconds, and the headers computed in doubles from what it returns.  The interval and the tolerance are doubles of
seconds; each reaches the database as a `timedelta`.

    the row goes as `Gcra.next` has it, whatever becomes of the headers          (take_row)
    no header overflows, where an interval is a microsecond and more             (left_ok, wait_ok)
-/

namespace AgentRuns

open Fallible Binary64

/-! ## Python's numbers -/

/-- `OverflowError` -/
structure OverflowError where
  text : String
deriving DecidableEq

/-- A result, or an integer, as a float. -/
def float (q : ℚ) : Except OverflowError ℚ :=
  match double q with
  | some d => .ok d
  | none => .error ⟨"int too large to convert to float"⟩

/-- `round(x, 6)` -/
def round6 (x : ℚ) : Except OverflowError ℚ := float (roundEven (x * 1000000) / 1000000)

/-- The microseconds of `timedelta(seconds=…)`, of no less than none: the whole seconds, and the rest rounded. -/
def timedelta (seconds : ℚ) : Except OverflowError Int :=
  let whole := seconds.floor
  let micros := whole * 1000000 + roundEven (near ((seconds - whole) * 1000000))
  if micros < 1000000000 * 86400 * 1000000 then .ok micros
  else .error ⟨"days; must have magnitude <= 999999999"⟩

/-! ## The limiter -/

/-- A `TenantRateLimiter` that is enabled, with its `RateLimitSettings`. -/
structure TenantRateLimiter where
  perMinute : Nat
  burst : Nat
  enabled : 0 < perMinute
  burst_pos : 0 < burst

structure RateDecision where
  allowed : Bool
  limit : Nat
  remaining : Int
  /-- whole seconds until a request is allowed again, when refused -/
  retryAfter : Int
deriving DecidableEq

def RateDecision.headers (d : RateDecision) : List (String × String) :=
  [("X-RateLimit-Limit", toString d.limit), ("X-RateLimit-Remaining", toString d.remaining)]

/-- The interval and the tolerance, in seconds and as the database has them. -/
structure RateSteps where
  interval : ℚ
  tolerance : ℚ
  step : Int
  slack : Int

namespace TenantRateLimiter

variable (l : TenantRateLimiter)

def steps : Except OverflowError RateSteps := do
  let rate ← float l.perMinute
  let interval ← float (60 / rate)
  let more ← float ((l.burst : ℚ) - 1)
  let tolerance ← float (interval * more)
  let step ← timedelta interval
  let slack ← timedelta tolerance
  .ok ⟨interval, tolerance, step, slack⟩

/-- `extract(epoch from …)`, as a float. -/
def epoch (micros : Int) : Except OverflowError ℚ := float ((micros : ℚ) / 1000000)

def left (interval : ℚ) (taken : Int) : Except OverflowError ℚ := do
  let seconds ← epoch taken
  let budget ← float (seconds / interval)
  let burst ← float l.burst
  let difference ← float (burst - budget)
  round6 difference

def wait (tolerance : ℚ) (ahead : Int) : Except OverflowError ℚ := do
  let seconds ← epoch ahead
  let difference ← float (seconds - tolerance)
  round6 difference

/-- The upsert: the row after it, and `tat - now` of what it wrote, if it wrote. -/
def upsert (s : RateSteps) (tat : Option Int) (now : Int) : Option Int × Option Int :=
  match tat with
  | none => (some (now + s.step), some s.step)
  | some t =>
    let due := max t now
    if due - now ≤ s.slack then (some (due + s.step), some (due + s.step - now)) else (tat, none)

def take (tat : Option Int) (now : Int) : Except OverflowError RateDecision × Option Int :=
  match l.steps with
  | .error e => (.error e, tat)
  | .ok s =>
    match upsert s tat now with
    | (tat', some taken) =>
      ((l.left s.interval taken).map fun left => ⟨true, l.perMinute, max 0 left.floor, 0⟩, tat')
    | (tat', none) =>
      let ahead := (tat.getD now) - now
      ((wait s.tolerance ahead).map fun wait => ⟨false, l.perMinute, 0, max 1 wait.ceil⟩, tat')

/-- Takes at these times, one after another. -/
def takes : List Int → Option Int → List (Except OverflowError RateDecision) × Option Int
  | [], tat => ([], tat)
  | now :: times, tat =>
    ((l.take tat now).1 :: (takes times (l.take tat now).2).1, (takes times (l.take tat now).2).2)

end TenantRateLimiter

/-! ## Within range -/

theorem float_eq {q d : ℚ} (h : float q = .ok d) : d = near q := by
  unfold float at h
  split at h
  · next d' hd =>
    cases h
    exact double_eq_some hd
  · cases h

theorem float_of_le {q : ℚ} {e : ℤ} (h : |q| ≤ pow2 e) (hlow : -1022 ≤ e) (he : e < 1024) :
    float q = .ok (near q) ∧ |near q| ≤ pow2 e := by
  refine ⟨?_, abs_near_le hlow h⟩
  unfold float
  rw [double_of_le hlow he h]

theorem round6_of_le {x : ℚ} {e : ℤ} (h : |x| ≤ pow2 e) (hlow : 0 ≤ e) (he : e < 1023) : ∃ y, round6 x = .ok y := by
  obtain ⟨hneg, hpos⟩ := abs_le.1 h
  have hone : 1 ≤ pow2 e := pow2_mono (e := 0) hlow
  have hdouble : pow2 (e + 1) = pow2 e * 2 := pow2_add e 1
  have hround := roundEven_bounds (x * 1000000)
  have hbound : |(roundEven (x * 1000000) : ℚ) / 1000000| ≤ pow2 (e + 1) := by
    rw [abs_le, le_div_iff₀ (by norm_num), div_le_iff₀ (by norm_num), hdouble]
    constructor <;> nlinarith [hround.1, hround.2]
  exact ⟨_, (float_of_le hbound (by omega) (by omega)).1⟩

theorem timedelta_ok {seconds : ℚ} {micros : Int} (h : timedelta seconds = .ok micros) :
    micros = seconds.floor * 1000000 + roundEven (near ((seconds - seconds.floor) * 1000000)) ∧
      micros < 1000000000 * 86400 * 1000000 := by
  unfold timedelta at h
  dsimp only at h
  split at h
  · next hlt => cases h; exact ⟨rfl, hlt⟩
  · cases h

/-- The rest of a second is no less than none. -/
theorem rest_nonneg (seconds : ℚ) : 0 ≤ roundEven (near ((seconds - seconds.floor) * 1000000)) := by
  have hfloor := Rat.floor_le seconds
  have h : ((0 : ℤ) : ℚ) ≤ near ((seconds - seconds.floor) * 1000000) := by
    push_cast
    exact near_nonneg (mul_nonneg (by linarith) (by norm_num))
  exact le_roundEven h

theorem timedelta_nonneg {seconds : ℚ} {micros : Int} (h : timedelta seconds = .ok micros) (h0 : 0 ≤ seconds) : 0 ≤ micros := by
  have hfloor : 0 ≤ seconds.floor := Rat.le_floor_iff.2 (by exact_mod_cast h0)
  have hrest := rest_nonneg seconds
  rw [(timedelta_ok h).1]
  omega

/-- Seconds that a `timedelta` holds. -/
theorem le_of_timedelta {seconds : ℚ} {micros : Int} (h : timedelta seconds = .ok micros) : seconds ≤ pow2 47 := by
  obtain ⟨hmicros, hlt⟩ := timedelta_ok h
  have hrest := rest_nonneg seconds
  have hfloor : seconds.floor < 86400000000000 := by omega
  have hcast : (seconds.floor : ℚ) + 1 ≤ 86400000000000 := by exact_mod_cast hfloor
  have hs := Rat.lt_floor_add_one seconds
  push_cast at hs
  have hpow : pow2 47 = 140737488355328 := by
    rw [show (47 : ℤ) = ((47 : ℕ) : ℤ) from rfl, pow2_natCast]
    norm_num
  rw [hpow]
  linarith

/-- What comes to a microsecond is not next to nothing. -/
theorem pow2_le_of_timedelta {seconds : ℚ} {micros : Int} (h : timedelta seconds = .ok micros) (h0 : 0 ≤ seconds)
    (hpos : 0 < micros) : pow2 (-22) ≤ seconds := by
  by_contra hlt
  have hp22 : pow2 (-22) = 1 / 4194304 := by rw [pow2_eq]; norm_num
  have hp2 : pow2 (-2) = 1 / 4 := by rw [pow2_eq]; norm_num
  rw [hp22] at hlt
  have hfloor : seconds.floor = 0 := by
    have h1 : 0 ≤ seconds.floor := Rat.le_floor_iff.2 (by exact_mod_cast h0)
    have h2 := Rat.floor_le seconds
    have h3 : (seconds.floor : ℚ) < 1 := by linarith
    have h4 : seconds.floor < 1 := by exact_mod_cast h3
    omega
  have hnear : near ((seconds - seconds.floor) * 1000000) ≤ pow2 (-2) := by
    refine near_le_pow2 (by omega) ?_
    rw [hfloor, hp2]
    push_cast
    linarith
  have hround := (roundEven_bounds (near ((seconds - seconds.floor) * 1000000))).2
  rw [hp2] at hnear
  have hlt1 : (roundEven (near ((seconds - seconds.floor) * 1000000)) : ℚ) < 1 := by linarith
  have hlt1' : roundEven (near ((seconds - seconds.floor) * 1000000)) < 1 := by exact_mod_cast hlt1
  rw [(timedelta_ok h).1, hfloor] at hpos
  rw [hfloor] at hlt1'
  omega

namespace TenantRateLimiter

variable {l : TenantRateLimiter} {s : RateSteps}

/-- What is so of the steps. -/
structure Stepped (l : TenantRateLimiter) (s : RateSteps) : Prop where
  step : timedelta s.interval = .ok s.step
  slack : timedelta s.tolerance = .ok s.slack
  interval_nonneg : 0 ≤ s.interval
  tolerance_nonneg : 0 ≤ s.tolerance
  interval_eq : s.interval = near (60 / near l.perMinute)
  tolerance_eq : s.tolerance = near (s.interval * near ((l.burst : ℚ) - 1))

theorem burst_ge (l : TenantRateLimiter) : (0 : ℚ) ≤ (l.burst : ℚ) - 1 := by
  have h : (1 : ℚ) ≤ l.burst := by exact_mod_cast l.burst_pos
  linarith

theorem steps_ok (h : l.steps = .ok s) : Stepped l s := by
  unfold steps at h
  obtain ⟨rate, hrate, h⟩ := bind_ok.1 h
  obtain ⟨interval, hinterval, h⟩ := bind_ok.1 h
  obtain ⟨more, hmore, h⟩ := bind_ok.1 h
  obtain ⟨tolerance, htolerance, h⟩ := bind_ok.1 h
  obtain ⟨step, hstep, h⟩ := bind_ok.1 h
  obtain ⟨slack, hslack, h⟩ := bind_ok.1 h
  cases h
  have hrate0 : 0 ≤ rate := by rw [float_eq hrate]; exact near_nonneg (by positivity)
  have hinterval0 : 0 ≤ interval := by rw [float_eq hinterval]; exact near_nonneg (by positivity)
  have hmore0 : 0 ≤ near ((l.burst : ℚ) - 1) := near_nonneg l.burst_ge
  have hint : interval = near (60 / near l.perMinute) := by rw [float_eq hinterval, float_eq hrate]
  have htol : tolerance = near (interval * near ((l.burst : ℚ) - 1)) := by rw [float_eq htolerance, float_eq hmore]
  refine ⟨hstep, hslack, hinterval0, ?_, hint, htol⟩
  rw [htol]
  exact near_nonneg (mul_nonneg hinterval0 hmore0)

theorem Stepped.step_nonneg (h : Stepped l s) : 0 ≤ s.step := timedelta_nonneg h.step h.interval_nonneg

theorem Stepped.slack_nonneg (h : Stepped l s) : 0 ≤ s.slack := timedelta_nonneg h.slack h.tolerance_nonneg

theorem Stepped.ahead_le (h : Stepped l s) : s.step + s.slack ≤ 200000000000000000000 := by
  have h1 := (timedelta_ok h.step).2
  have h2 := (timedelta_ok h.slack).2
  omega

/-- A burst of more would take a tolerance no `timedelta` holds. -/
theorem Stepped.burst_le (h : Stepped l s) (hpos : 0 < s.step) : (l.burst : ℚ) ≤ pow2 72 := by
  have hi := pow2_le_of_timedelta h.step h.interval_nonneg hpos
  have ht := le_of_timedelta h.slack
  rw [h.tolerance_eq] at ht
  have hmore : near ((l.burst : ℚ) - 1) < pow2 70 := by
    by_contra hge
    have hprod : pow2 48 ≤ s.interval * near ((l.burst : ℚ) - 1) := by
      have hmul := mul_le_mul hi (not_lt.1 hge) (pow2_pos _).le h.interval_nonneg
      rwa [← pow2_add] at hmul
    have hle := (pow2_le_near (by omega) hprod).trans ht
    exact absurd hle (not_le.2 (pow2_lt.2 (by omega)))
  have hburst : (l.burst : ℚ) - 1 < pow2 70 := by
    by_contra hge
    exact absurd (pow2_le_near (by omega) (not_lt.1 hge)) (not_le.2 hmore)
  have h70 : pow2 72 = pow2 70 * 4 := by rw [show (72 : ℤ) = 70 + 2 from rfl, pow2_add]; rfl
  have h1 : 1 ≤ pow2 70 := pow2_mono (e := 0) (by omega)
  rw [h70]
  linarith

theorem epoch_ok {micros : Int} (h0 : 0 ≤ micros) (hle : micros ≤ 200000000000000000000) :
    epoch micros = .ok (near ((micros : ℚ) / 1000000)) ∧ 0 ≤ near ((micros : ℚ) / 1000000) ∧
      near ((micros : ℚ) / 1000000) ≤ pow2 48 := by
  have h0' : (0 : ℚ) ≤ micros := by exact_mod_cast h0
  have hle' : (micros : ℚ) ≤ 200000000000000000000 := by exact_mod_cast hle
  have hpow : pow2 48 = 281474976710656 := by
    rw [show (48 : ℤ) = ((48 : ℕ) : ℤ) from rfl, pow2_natCast]
    norm_num
  have hdiv : |(micros : ℚ) / 1000000| ≤ pow2 48 := by
    rw [abs_of_nonneg (by positivity), hpow, div_le_iff₀ (by norm_num)]
    linarith
  obtain ⟨hfloat, habs⟩ := float_of_le hdiv (by omega) (by omega)
  exact ⟨hfloat, near_nonneg (by positivity), (abs_le.1 habs).2⟩

/-- What is left can be told. -/
theorem left_ok (h : Stepped l s) (hpos : 0 < s.step) {taken : Int} (h0 : 0 ≤ taken)
    (hle : taken ≤ 200000000000000000000) : ∃ left, l.left s.interval taken = .ok left := by
  obtain ⟨hepoch, hsec0, hsec⟩ := epoch_ok h0 hle
  have hi := pow2_le_of_timedelta h.step h.interval_nonneg hpos
  have hipos : 0 < s.interval := (pow2_pos _).trans_le hi
  have hquot : |near ((taken : ℚ) / 1000000) / s.interval| ≤ pow2 70 := by
    rw [abs_of_nonneg (by positivity), div_le_iff₀ hipos]
    calc near ((taken : ℚ) / 1000000) ≤ pow2 48 := hsec
      _ = pow2 70 * pow2 (-22) := by rw [← pow2_add, show (70 : ℤ) + -22 = 48 from rfl]
      _ ≤ pow2 70 * s.interval := mul_le_mul_of_nonneg_left hi (pow2_pos _).le
  obtain ⟨hbudget, hbudget'⟩ := float_of_le hquot (by omega) (by omega)
  have hb : |(l.burst : ℚ)| ≤ pow2 72 := by
    rw [abs_of_nonneg (by positivity)]
    exact h.burst_le hpos
  obtain ⟨hburst, hburst'⟩ := float_of_le hb (by omega) (by omega)
  have hdiff : |near (l.burst : ℚ) - near (near ((taken : ℚ) / 1000000) / s.interval)| ≤ pow2 73 := by
    have h70 : pow2 70 ≤ pow2 72 := pow2_mono (by omega)
    have h73 : pow2 73 = pow2 72 * 2 := pow2_add 72 1
    calc _ ≤ |near (l.burst : ℚ)| + |near (near ((taken : ℚ) / 1000000) / s.interval)| := abs_sub _ _
      _ ≤ pow2 72 + pow2 70 := add_le_add hburst' hbudget'
      _ ≤ pow2 73 := by linarith
  obtain ⟨hdifference, hdifference'⟩ := float_of_le hdiff (by omega) (by omega)
  obtain ⟨left, hleft⟩ := round6_of_le hdifference' (by omega) (by omega)
  refine ⟨left, ?_⟩
  unfold TenantRateLimiter.left
  rw [hepoch, ok_bind, hbudget, ok_bind, hburst, ok_bind, hdifference, ok_bind]
  exact hleft

theorem wait_ok (h : Stepped l s) {ahead : Int} (h0 : 0 ≤ ahead) (hle : ahead ≤ 200000000000000000000) :
    ∃ wait, TenantRateLimiter.wait s.tolerance ahead = .ok wait := by
  obtain ⟨hepoch, hsec0, hsec⟩ := epoch_ok h0 hle
  have ht := le_of_timedelta h.slack
  have ht0 := h.tolerance_nonneg
  have hdiff : |near ((ahead : ℚ) / 1000000) - s.tolerance| ≤ pow2 48 := by
    have h47 : pow2 47 ≤ pow2 48 := pow2_mono (by omega)
    rw [abs_le]
    constructor <;> linarith
  obtain ⟨hdifference, hdifference'⟩ := float_of_le hdiff (by omega) (by omega)
  obtain ⟨wait, hwait⟩ := round6_of_le hdifference' (by omega) (by omega)
  refine ⟨wait, ?_⟩
  unfold TenantRateLimiter.wait
  rw [hepoch, ok_bind, hdifference, ok_bind]
  exact hwait

/-! ## The row -/

theorem upsert_eq (hs : 0 ≤ s.slack) (tat : Option Int) (now : Int) :
    upsert s tat now = (Gcra.next s.step s.slack tat now,
      if Gcra.ahead tat now ≤ s.slack then some (Gcra.ahead tat now + s.step) else none) := by
  cases tat with
  | none =>
    have h : Gcra.ahead none now ≤ s.slack := hs
    rw [Gcra.next_of_admits h, if_pos h]
    show (some (now + s.step), some s.step) = (some (now + 0 + s.step), some (0 + s.step))
    rw [Int.add_zero, Int.zero_add]
  | some t =>
    unfold upsert
    dsimp only
    have hahead : Gcra.ahead (some t) now = max t now - now := Gcra.ahead_some t now
    by_cases h : max t now - now ≤ s.slack
    · have hdue : now + (max t now - now) + s.step = max t now + s.step := by omega
      have htaken : max t now + s.step - now = max t now - now + s.step := by omega
      rw [Gcra.next_of_admits (by rw [hahead]; exact h), if_pos h, hahead, if_pos h, hdue, htaken]
    · rw [Gcra.next_of_refused (by rw [hahead]; exact h), if_neg h, hahead, if_neg h]

/-- A take is allowed, and tells what is left, or is refused, and tells the wait. -/
theorem take_cases (h : l.steps = .ok s) (tat : Option Int) (now : Int) :
    (Gcra.ahead tat now ≤ s.slack ∧ l.take tat now =
      ((l.left s.interval (Gcra.ahead tat now + s.step)).map fun left => ⟨true, l.perMinute, max 0 left.floor, 0⟩,
        Gcra.next s.step s.slack tat now)) ∨
    (¬ Gcra.ahead tat now ≤ s.slack ∧ l.take tat now =
      ((wait s.tolerance (Gcra.ahead tat now)).map fun wait => ⟨false, l.perMinute, 0, max 1 wait.ceil⟩,
        Gcra.next s.step s.slack tat now)) := by
  have hs := (steps_ok h).slack_nonneg
  unfold take
  rw [h]
  dsimp only
  rw [upsert_eq hs]
  by_cases had : Gcra.ahead tat now ≤ s.slack
  · rw [if_pos had]
    exact .inl ⟨had, rfl⟩
  · rw [if_neg had]
    refine .inr ⟨had, ?_⟩
    have hahead : tat.getD now - now = Gcra.ahead tat now := by
      cases tat with
      | none => exact absurd hs had
      | some t =>
        rw [Gcra.ahead_some] at had ⊢
        show t - now = _
        omega
    dsimp only
    rw [hahead]

theorem take_row (h : l.steps = .ok s) (tat : Option Int) (now : Int) :
    (l.take tat now).2 = Gcra.next s.step s.slack tat now := by
  rcases take_cases h tat now with ⟨-, ht⟩ | ⟨-, ht⟩
  · rw [ht]
  · rw [ht]

/-- What the decision of a take comes of. -/
theorem take_answer (h : l.steps = .ok s) {tat : Option Int} {now : Int} {d : RateDecision} (hd : (l.take tat now).1 = .ok d) :
    (Gcra.ahead tat now ≤ s.slack ∧ d.allowed = true ∧
      ∃ y, l.left s.interval (Gcra.ahead tat now + s.step) = .ok y ∧ d.remaining = max 0 y.floor) ∨
    (¬ Gcra.ahead tat now ≤ s.slack ∧ d.allowed = false ∧
      ∃ y, wait s.tolerance (Gcra.ahead tat now) = .ok y ∧ d.retryAfter = max 1 y.ceil) := by
  rcases take_cases h tat now with ⟨had, ht⟩ | ⟨had, ht⟩
  · rw [ht] at hd
    cases hleft : l.left s.interval (Gcra.ahead tat now + s.step) with
    | error e => rw [hleft] at hd; cases hd
    | ok y =>
      rw [hleft] at hd
      cases hd
      exact .inl ⟨had, rfl, y, rfl, rfl⟩
  · rw [ht] at hd
    cases hwait : wait s.tolerance (Gcra.ahead tat now) with
    | error e => rw [hwait] at hd; cases hd
    | ok y =>
      rw [hwait] at hd
      cases hd
      exact .inr ⟨had, rfl, y, rfl, rfl⟩

/-- Was it allowed?  One that raised was neither that nor refused. -/
def outcome (r : Except OverflowError RateDecision) : Option Bool := r.toOption.map RateDecision.allowed

theorem outcome_take (h : l.steps = .ok s) {tat : Option Int} {now : Int} {v : Bool}
    (hv : outcome (l.take tat now).1 = some v) : v = Gcra.admits s.slack tat now := by
  cases hd : (l.take tat now).1 with
  | error e => rw [hd] at hv; cases hv
  | ok d =>
    have hallowed : d.allowed = v := by
      rw [hd] at hv
      exact Option.some.inj hv
    obtain ⟨had, htrue, -⟩ | ⟨had, hfalse, -⟩ := take_answer h hd
    · rw [← hallowed, htrue, Gcra.admits, decide_eq_true had]
    · rw [← hallowed, hfalse, Gcra.admits, decide_eq_false had]

/-- The budget is no further ahead than a take leaves one. -/
def Within (s : RateSteps) (tat : Option Int) (now : Int) : Prop := Gcra.ahead tat now ≤ s.step + s.slack

theorem Within.later {tat : Option Int} {now now' : Int} (h : Within s tat now) (hle : now ≤ now') : Within s tat now' := by
  unfold Within at *
  cases tat with
  | none => exact h
  | some t =>
    rw [Gcra.ahead_some] at *
    omega

theorem Within.next (hs : Stepped l s) {tat : Option Int} {now : Int} (h : Within s tat now) :
    Within s (Gcra.next s.step s.slack tat now) now := by
  unfold Within at *
  by_cases had : Gcra.ahead tat now ≤ s.slack
  · rw [Gcra.ahead_next hs.step_nonneg had]
    omega
  · rw [Gcra.next_of_refused had]
    exact h

/-- A take that raises nothing. -/
theorem take_ok (h : l.steps = .ok s) (hpos : 0 < s.step) {tat : Option Int} {now : Int} (hw : Within s tat now) :
    outcome (l.take tat now).1 = some (Gcra.admits s.slack tat now) := by
  have hs := steps_ok h
  have hahead := Gcra.ahead_nonneg tat now
  have hbound := hs.ahead_le
  unfold Within at hw
  rcases take_cases h tat now with ⟨had, ht⟩ | ⟨had, ht⟩
  · have h0 : 0 ≤ Gcra.ahead tat now + s.step := by omega
    obtain ⟨left, hleft⟩ := left_ok hs hpos h0 (by omega)
    rw [ht, hleft, Gcra.admits, decide_eq_true had]
    rfl
  · obtain ⟨wait, hwait⟩ := wait_ok hs hahead (by omega)
    rw [ht, hwait, Gcra.admits, decide_eq_false had]
    rfl

end TenantRateLimiter

end AgentRuns
