import Mathlib.Algebra.Order.Field.Power
import Mathlib.Data.Rat.Floor
import Mathlib.Tactic.FieldSimp
import Mathlib.Tactic.Linarith
import Mathlib.Tactic.NormNum
import Mathlib.Tactic.Positivity
import Mathlib.Tactic.Ring

/-!
# Doubles

The binary64 format over the rationals: `near q` is the double nearest to `q`, ties to even, subnormal ones
included, as if there were no largest; `double q` is that, unless it overflows.  An operation of the format is the exact
one, rounded.

    x ≤ y → near x ≤ near y                              (near_mono)
    near (-x) = -near x                                  (near_neg)
    near (pow2 e) = pow2 e        where -1022 ≤ e        (near_pow2)
    near (near x) = near x                               (near_near)
    x < y → 0 < near (y - x)      where both are doubles (near_sub_pos)
    |near q - q| ≤ q * pow2 (-53)    where pow2 (-1022) ≤ q    (abs_near_sub_le_mul)
    |q| ≤ pow2 1000 → double q = some (near q)           (double_of_le)
-/

namespace Binary64

/-! ## Ties to even -/

/-- The integer nearest to `q`, of two the even one. -/
def roundEven (q : ℚ) : ℤ :=
  let n := q.floor
  if q - n < 1 / 2 then n
  else if 1 / 2 < q - n then n + 1
  else if n % 2 = 0 then n
  else n + 1

theorem roundEven_cases (q : ℚ) :
    (roundEven q = q.floor ∧ q - q.floor ≤ 1 / 2) ∨ (roundEven q = q.floor + 1 ∧ 1 / 2 ≤ q - q.floor) := by
  unfold roundEven
  dsimp only
  split
  · next h => exact .inl ⟨rfl, h.le⟩
  · next h =>
    split
    · next h' => exact .inr ⟨rfl, h'.le⟩
    · next h' =>
      split
      · exact .inl ⟨rfl, not_lt.1 h'⟩
      · exact .inr ⟨rfl, not_lt.1 h⟩

/-- It is within a half. -/
theorem roundEven_bounds (q : ℚ) : q - 1 / 2 ≤ roundEven q ∧ (roundEven q : ℚ) ≤ q + 1 / 2 := by
  have hle := Rat.floor_le q
  have hlt := Rat.lt_floor_add_one q
  push_cast at hlt
  rcases roundEven_cases q with ⟨h, hd⟩ | ⟨h, hd⟩
  · rw [h]
    constructor <;> linarith
  · rw [h]
    push_cast
    constructor <;> linarith

@[simp] theorem floor_intCast' (n : ℤ) : ((n : ℚ)).floor = n := Rat.floor_intCast n

@[simp] theorem roundEven_intCast (n : ℤ) : roundEven (n : ℚ) = n := by
  unfold roundEven
  simp

theorem roundEven_mono {x y : ℚ} (h : x ≤ y) : roundEven x ≤ roundEven y := by
  have hfloor : x.floor ≤ y.floor := Rat.le_floor_iff.2 ((Rat.floor_le x).trans h)
  by_cases heq : x.floor = y.floor
  · unfold roundEven
    dsimp only
    rw [heq]
    have hd : x - y.floor ≤ y - y.floor := by linarith
    split_ifs <;> first | omega | (exfalso; linarith)
  · have hnext : x.floor + 1 ≤ y.floor := by omega
    rcases roundEven_cases x with ⟨hx, -⟩ | ⟨hx, -⟩ <;> rcases roundEven_cases y with ⟨hy, -⟩ | ⟨hy, -⟩ <;> omega

/-- What rounds to no less than an integer is no less than it but for a half. -/
theorem le_roundEven {n : ℤ} {q : ℚ} (h : (n : ℚ) ≤ q) : n ≤ roundEven q := by
  have hmono := roundEven_mono h
  rwa [roundEven_intCast] at hmono

theorem roundEven_le {n : ℤ} {q : ℚ} (h : q ≤ n) : roundEven q ≤ n := by
  have hmono := roundEven_mono h
  rwa [roundEven_intCast] at hmono

/-! ## Powers of two -/

def pow2 : ℤ → ℚ
  | .ofNat n => ((2 ^ n : ℕ) : ℚ)
  | .negSucc n => 1 / ((2 ^ (n + 1) : ℕ) : ℚ)

theorem pow2_eq (e : ℤ) : pow2 e = (2 : ℚ) ^ e := by
  cases e with
  | ofNat n =>
    show ((2 ^ n : ℕ) : ℚ) = (2 : ℚ) ^ (n : ℤ)
    rw [zpow_natCast]
    push_cast
    rfl
  | negSucc n =>
    show 1 / ((2 ^ (n + 1) : ℕ) : ℚ) = (2 : ℚ) ^ (Int.negSucc n)
    rw [zpow_negSucc, one_div]
    push_cast
    rfl

theorem pow2_pos (e : ℤ) : 0 < pow2 e := by
  rw [pow2_eq]
  positivity

theorem pow2_add (e f : ℤ) : pow2 (e + f) = pow2 e * pow2 f := by
  simp only [pow2_eq]
  exact zpow_add₀ (by norm_num) e f

theorem pow2_mono {e f : ℤ} (h : e ≤ f) : pow2 e ≤ pow2 f := by
  simp only [pow2_eq]
  exact zpow_le_zpow_right₀ (by norm_num) h

theorem pow2_lt {e f : ℤ} : pow2 e < pow2 f ↔ e < f := by
  simp only [pow2_eq]
  exact zpow_lt_zpow_iff_right₀ (by norm_num)

theorem pow2_natCast (n : ℕ) : pow2 n = ((2 ^ n : ℕ) : ℚ) := rfl

/-! ## Exponents -/

/-- `e` where `pow2 e ≤ q < pow2 (e + 1)`. -/
def exponent (q : ℚ) : ℤ :=
  let k : ℤ := q.num.natAbs.log2 - q.den.log2
  if pow2 k ≤ q then k else k - 1

theorem exponent_spec {q : ℚ} (hq : 0 < q) : pow2 (exponent q) ≤ q ∧ q < pow2 (exponent q + 1) := by
  have hnum : q.num.natAbs ≠ 0 := Int.natAbs_ne_zero.2 (Rat.num_pos.2 hq).ne'
  have hden : q.den ≠ 0 := q.den_ne_zero
  have hd : (0 : ℚ) < q.den := by exact_mod_cast q.den_pos
  have habs : (q.num.natAbs : ℤ) = q.num := Int.natAbs_of_nonneg (Rat.num_pos.2 hq).le
  have hqd : q * q.den = (q.num.natAbs : ℚ) :=
    calc q * q.den = (q.num : ℚ) := Rat.mul_den_eq_num q
      _ = ((q.num.natAbs : ℤ) : ℚ) := congrArg _ habs.symm
      _ = (q.num.natAbs : ℚ) := Int.cast_natCast _
  have hnl : pow2 q.num.natAbs.log2 ≤ q.num.natAbs := by
    rw [pow2_natCast]
    exact_mod_cast Nat.log2_self_le hnum
  have hnu : (q.num.natAbs : ℚ) < pow2 (q.num.natAbs.log2 + 1) := by
    have hlt := Nat.lt_log2_self (n := q.num.natAbs)
    have hcast : pow2 (q.num.natAbs.log2 + 1) = ((2 ^ (q.num.natAbs.log2 + 1) : ℕ) : ℚ) := pow2_natCast _
    rw [hcast]
    exact_mod_cast hlt
  have hdl : pow2 q.den.log2 ≤ q.den := by
    rw [pow2_natCast]
    exact_mod_cast Nat.log2_self_le hden
  have hdu : (q.den : ℚ) < pow2 (q.den.log2 + 1) := by
    have hlt := Nat.lt_log2_self (n := q.den)
    have hcast : pow2 (q.den.log2 + 1) = ((2 ^ (q.den.log2 + 1) : ℕ) : ℚ) := pow2_natCast _
    rw [hcast]
    exact_mod_cast hlt
  have hupper : q < pow2 ((q.num.natAbs.log2 : ℤ) - q.den.log2 + 1) := by
    have hsplit : pow2 (q.num.natAbs.log2 + 1) = pow2 ((q.num.natAbs.log2 : ℤ) - q.den.log2 + 1) * pow2 q.den.log2 := by
      rw [← pow2_add]
      congr 1
      ring
    refine lt_of_mul_lt_mul_right ?_ (pow2_pos q.den.log2).le
    calc q * pow2 q.den.log2 ≤ q * q.den := mul_le_mul_of_nonneg_left hdl hq.le
      _ < pow2 (q.num.natAbs.log2 + 1) := by rw [hqd]; exact hnu
      _ = _ := hsplit
  have hlower : pow2 ((q.num.natAbs.log2 : ℤ) - q.den.log2 - 1) ≤ q := by
    have hsplit : pow2 ((q.num.natAbs.log2 : ℤ) - q.den.log2 - 1) * pow2 (q.den.log2 + 1) = pow2 q.num.natAbs.log2 := by
      rw [← pow2_add]
      congr 1
      ring
    refine le_of_mul_le_mul_right ?_ (pow2_pos (q.den.log2 + 1))
    calc _ = pow2 q.num.natAbs.log2 := hsplit
      _ ≤ q * q.den := by rw [hqd]; exact hnl
      _ ≤ q * pow2 (q.den.log2 + 1) := mul_le_mul_of_nonneg_left hdu.le hq.le
  unfold exponent
  dsimp only
  split
  · next h => exact ⟨h, hupper⟩
  · next h => exact ⟨hlower, by rw [sub_add_cancel]; exact not_le.1 h⟩

theorem exponent_mono {x y : ℚ} (hx : 0 < x) (h : x ≤ y) : exponent x ≤ exponent y := by
  have hle := (exponent_spec hx).1
  have hlt := (exponent_spec (hx.trans_le h)).2
  have := pow2_lt.1 (hle.trans_lt (h.trans_lt hlt))
  omega

theorem exponent_unique {q : ℚ} {e : ℤ} (hq : 0 < q) (hle : pow2 e ≤ q) (hlt : q < pow2 (e + 1)) : exponent q = e := by
  have hspec := exponent_spec hq
  have h1 := pow2_lt.1 (hspec.1.trans_lt hlt)
  have h2 := pow2_lt.1 (hle.trans_lt hspec.2)
  omega

/-! ## The nearest double -/

/-- The exponent of the last of a double's 53 bits; it is no less than the subnormal ones'. -/
def ulp (q : ℚ) : ℤ := max (exponent q - 52) (-1074)

/-- The double nearest to a positive number. -/
def nearest (q : ℚ) : ℚ := roundEven (q / pow2 (ulp q)) * pow2 (ulp q)

/-- The double nearest to a number. -/
def near (q : ℚ) : ℚ := if q = 0 then 0 else if 0 < q then nearest q else -nearest (-q)

/-- What a positive number is rounded to. -/
theorem nearest_eq {q : ℚ} (hq : 0 < q) : ∃ n : ℕ, n ≤ 2 ^ 53 ∧ nearest q = n * pow2 (ulp q) := by
  have hlow : (0 : ℤ) ≤ roundEven (q / pow2 (ulp q)) := by
    refine le_roundEven ?_
    have := pow2_pos (ulp q)
    push_cast
    positivity
  have hhigh : roundEven (q / pow2 (ulp q)) ≤ ((2 ^ 53 : ℕ) : ℤ) := by
    refine roundEven_le ?_
    rw [div_le_iff₀ (pow2_pos _), Int.cast_natCast, ← pow2_natCast, ← pow2_add]
    refine (exponent_spec hq).2.le.trans (pow2_mono ?_)
    unfold ulp
    push_cast
    omega
  obtain ⟨n, hn⟩ := Int.eq_ofNat_of_zero_le hlow
  refine ⟨n, by omega, ?_⟩
  unfold nearest
  rw [hn, Int.cast_natCast]

theorem nearest_nonneg {q : ℚ} (hq : 0 < q) : 0 ≤ nearest q := by
  obtain ⟨n, -, hn⟩ := nearest_eq hq
  rw [hn]
  exact mul_nonneg n.cast_nonneg (pow2_pos _).le

/-- It stays on its side of a power of two above the last bit. -/
theorem nearest_le_pow2 {q : ℚ} {e : ℤ} (he : ulp q ≤ e) (h : q ≤ pow2 e) : nearest q ≤ pow2 e := by
  have hsplit : pow2 e = pow2 (e - ulp q) * pow2 (ulp q) := by rw [← pow2_add, sub_add_cancel]
  obtain ⟨n, hn⟩ := Int.eq_ofNat_of_zero_le (sub_nonneg.2 he)
  have hint : pow2 (e - ulp q) = (((2 ^ n : ℕ) : ℤ) : ℚ) := by
    rw [hn, pow2_natCast]
    push_cast
    rfl
  have hle : roundEven (q / pow2 (ulp q)) ≤ ((2 ^ n : ℕ) : ℤ) := by
    refine roundEven_le ?_
    rw [← hint, div_le_iff₀ (pow2_pos _), ← hsplit]
    exact h
  have hle' : (roundEven (q / pow2 (ulp q)) : ℚ) ≤ pow2 (e - ulp q) := by
    rw [hint]
    exact_mod_cast hle
  unfold nearest
  rw [hsplit]
  exact mul_le_mul_of_nonneg_right hle' (pow2_pos _).le

theorem pow2_le_nearest {q : ℚ} {e : ℤ} (he : ulp q ≤ e) (h : pow2 e ≤ q) : pow2 e ≤ nearest q := by
  have hsplit : pow2 e = pow2 (e - ulp q) * pow2 (ulp q) := by rw [← pow2_add, sub_add_cancel]
  obtain ⟨n, hn⟩ := Int.eq_ofNat_of_zero_le (sub_nonneg.2 he)
  have hint : pow2 (e - ulp q) = (((2 ^ n : ℕ) : ℤ) : ℚ) := by
    rw [hn, pow2_natCast]
    push_cast
    rfl
  have hle : ((2 ^ n : ℕ) : ℤ) ≤ roundEven (q / pow2 (ulp q)) := by
    refine le_roundEven ?_
    rw [← hint, le_div_iff₀ (pow2_pos _), ← hsplit]
    exact h
  have hle' : pow2 (e - ulp q) ≤ (roundEven (q / pow2 (ulp q)) : ℚ) := by
    rw [hint]
    exact_mod_cast hle
  unfold nearest
  rw [hsplit]
  exact mul_le_mul_of_nonneg_right hle' (pow2_pos _).le

theorem nearest_mono {x y : ℚ} (hx : 0 < x) (h : x ≤ y) : nearest x ≤ nearest y := by
  have hexp := exponent_mono hx h
  have hulp : ulp x ≤ ulp y := max_le_max_right _ (by omega)
  by_cases heq : ulp x = ulp y
  · have hdiv : x / pow2 (ulp y) ≤ y / pow2 (ulp y) := div_le_div_of_nonneg_right h (pow2_pos _).le
    have hround : (roundEven (x / pow2 (ulp y)) : ℚ) ≤ roundEven (y / pow2 (ulp y)) := by
      exact_mod_cast roundEven_mono hdiv
    unfold nearest
    rw [heq]
    exact mul_le_mul_of_nonneg_right hround (pow2_pos _).le
  · -- a power of two is between them
    have hy : ulp y = exponent y - 52 := by unfold ulp at *; omega
    have hxe : exponent x + 1 ≤ ulp y + 52 := by unfold ulp at *; omega
    have hlow : nearest x ≤ pow2 (ulp y + 52) :=
      nearest_le_pow2 (by omega) ((exponent_spec hx).2.le.trans (pow2_mono hxe))
    have hhigh : pow2 (ulp y + 52) ≤ nearest y := by
      refine pow2_le_nearest (by omega) ?_
      have hle := (exponent_spec (hx.trans_le h)).1
      rwa [hy, sub_add_cancel]
    exact hlow.trans hhigh

@[simp] theorem near_zero : near 0 = 0 := if_pos rfl

theorem near_of_pos {q : ℚ} (hq : 0 < q) : near q = nearest q := by
  unfold near
  rw [if_neg hq.ne', if_pos hq]

theorem near_neg (q : ℚ) : near (-q) = -near q := by
  unfold near
  by_cases h0 : q = 0
  · simp [h0]
  · rcases lt_or_gt_of_ne h0 with h | h
    · rw [if_neg (by simpa using h0), if_pos (by linarith), if_neg h0, if_neg (by linarith), neg_neg]
    · rw [if_neg (by simpa using h0), if_neg (by linarith), if_neg h0, if_pos h, neg_neg]

theorem near_nonneg {q : ℚ} (hq : 0 ≤ q) : 0 ≤ near q := by
  rcases hq.eq_or_lt with rfl | hpos
  · rw [near_zero]
  · rw [near_of_pos hpos]
    exact nearest_nonneg hpos

theorem near_mono {x y : ℚ} (h : x ≤ y) : near x ≤ near y := by
  by_cases hx : 0 < x
  · rw [near_of_pos hx, near_of_pos (hx.trans_le h)]
    exact nearest_mono hx h
  · by_cases hy : 0 ≤ y
    · have hneg := near_nonneg (neg_nonneg.2 (not_lt.1 hx))
      rw [near_neg] at hneg
      have := near_nonneg hy
      linarith
    · have hmono : near (-y) ≤ near (-x) := by
        have hy' : 0 < -y := by linarith
        rw [near_of_pos hy', near_of_pos (by linarith : 0 < -x)]
        exact nearest_mono hy' (by linarith)
      rw [near_neg, near_neg] at hmono
      linarith

/-- A power of two is a double. -/
theorem near_pow2 {e : ℤ} (he : -1022 ≤ e) : near (pow2 e) = pow2 e := by
  have hpos := pow2_pos e
  have hexp : exponent (pow2 e) = e := exponent_unique hpos le_rfl (pow2_lt.2 (by omega))
  have hulp : ulp (pow2 e) ≤ e := by
    unfold ulp
    rw [hexp]
    omega
  rw [near_of_pos hpos]
  exact le_antisymm (nearest_le_pow2 hulp le_rfl) (pow2_le_nearest hulp le_rfl)

theorem near_le_pow2 {q : ℚ} {e : ℤ} (he : -1022 ≤ e) (h : q ≤ pow2 e) : near q ≤ pow2 e :=
  (near_mono h).trans_eq (near_pow2 he)

theorem pow2_le_near {q : ℚ} {e : ℤ} (he : -1022 ≤ e) (h : pow2 e ≤ q) : pow2 e ≤ near q :=
  (near_pow2 he).symm.trans_le (near_mono h)

/-! ## How near -/

/-- It is within half of its last bit. -/
theorem abs_nearest_sub_le (q : ℚ) : |nearest q - q| ≤ pow2 (ulp q - 1) := by
  have hpos := pow2_pos (ulp q)
  have hhalf : pow2 (ulp q) = pow2 (ulp q - 1) * 2 := by
    rw [show (2 : ℚ) = pow2 1 from rfl, ← pow2_add, sub_add_cancel]
  have hround := roundEven_bounds (q / pow2 (ulp q))
  have hq : q / pow2 (ulp q) * pow2 (ulp q) = q := div_mul_cancel₀ _ hpos.ne'
  have hle := mul_le_mul_of_nonneg_right hround.1 hpos.le
  have hge := mul_le_mul_of_nonneg_right hround.2 hpos.le
  rw [sub_mul, hq] at hle
  rw [add_mul, hq] at hge
  unfold nearest
  rw [abs_le]
  constructor <;> linarith

theorem abs_near_sub_le {q : ℚ} {e : ℤ} (he : -1022 ≤ e) (h : |q| ≤ pow2 e) : |near q - q| ≤ pow2 (e - 53) := by
  have hside : ∀ {x : ℚ}, 0 < x → x ≤ pow2 e → |nearest x - x| ≤ pow2 (e - 53) := by
    intro x hx hle
    have hexp : exponent x ≤ e := by
      have := pow2_lt.1 ((exponent_spec hx).1.trans_lt (hle.trans_lt (pow2_lt.2 (by omega : e < e + 1))))
      omega
    refine (abs_nearest_sub_le x).trans (pow2_mono ?_)
    unfold ulp
    omega
  obtain ⟨hneg, hpos⟩ := abs_le.1 h
  unfold near
  by_cases h0 : q = 0
  · rw [if_pos h0, h0, sub_zero, abs_zero]
    exact (pow2_pos _).le
  · rcases lt_or_gt_of_ne h0 with hlt | hgt
    · have hneg : -nearest (-q) - q = -(nearest (-q) - -q) := by ring
      rw [if_neg h0, if_neg (by linarith), hneg, abs_neg]
      exact hside (by linarith) (by linarith)
    · rw [if_neg h0, if_pos hgt]
      exact hside hgt hpos

/-- A number that is not next to nothing is rounded by a 2⁵³-rd of it at most. -/
theorem abs_near_sub_le_mul {q : ℚ} (h : pow2 (-1022) ≤ q) : |near q - q| ≤ q * pow2 (-53) := by
  have hpos : 0 < q := (pow2_pos _).trans_le h
  have hspec := exponent_spec hpos
  have hexp : -1022 ≤ exponent q := by
    have := pow2_lt.1 (h.trans_lt hspec.2)
    omega
  rw [near_of_pos hpos]
  have hulp : ulp q - 1 = exponent q + -53 := by
    unfold ulp
    omega
  calc |nearest q - q| ≤ pow2 (ulp q - 1) := abs_nearest_sub_le q
    _ = pow2 (exponent q) * pow2 (-53) := by rw [hulp, pow2_add]
    _ ≤ q * pow2 (-53) := mul_le_mul_of_nonneg_right hspec.1 (pow2_pos _).le

theorem pow2_neg53 : pow2 (-53) = 1 / 9007199254740992 := by
  rw [pow2_eq]
  norm_num

/-- No further out than a 2⁵³-rd. -/
theorem near_within {q : ℚ} (h : pow2 (-1022) ≤ q) :
    q * (1 - pow2 (-53)) ≤ near q ∧ near q ≤ q * (1 + pow2 (-53)) := by
  obtain ⟨hlow, hhigh⟩ := abs_le.1 (abs_near_sub_le_mul h)
  rw [mul_sub, mul_add, mul_one]
  constructor <;> linarith

/-- A quotient of two that are a little out. -/
theorem div_within {x y x' y' e : ℚ} (hx : 0 < x) (hy : 0 < y) (he : 0 < e) (hsmall : e ≤ 1 / 4)
    (hxl : x * (1 - e) ≤ x') (hxu : x' ≤ x * (1 + e)) (hyl : y * (1 - e) ≤ y') (hyu : y' ≤ y * (1 + e)) :
    x / y * (1 - 3 * e) ≤ x' / y' ∧ x' / y' ≤ x / y * (1 + 3 * e) := by
  have hy' : 0 < y' := (mul_pos hy (by linarith)).trans_le hyl
  have hq : 0 < x / y := div_pos hx hy
  have hx' : x / y * y = x := div_mul_cancel₀ _ hy.ne'
  constructor
  · rw [le_div_iff₀ hy']
    calc x / y * (1 - 3 * e) * y' ≤ x / y * (1 - 3 * e) * (y * (1 + e)) := by
          exact mul_le_mul_of_nonneg_left hyu (mul_nonneg hq.le (by linarith))
      _ = x / y * y * ((1 - 3 * e) * (1 + e)) := by ring
      _ ≤ x * (1 - e) := by
          rw [hx']
          exact mul_le_mul_of_nonneg_left (by nlinarith) hx.le
      _ ≤ x' := hxl
  · rw [div_le_iff₀ hy']
    calc x' ≤ x * (1 + e) := hxu
      _ ≤ x / y * y * ((1 + 3 * e) * (1 - e)) := by
          rw [hx']
          exact mul_le_mul_of_nonneg_left (by nlinarith) hx.le
      _ = x / y * (1 + 3 * e) * (y * (1 - e)) := by ring
      _ ≤ x / y * (1 + 3 * e) * y' := by
          exact mul_le_mul_of_nonneg_left hyl (mul_nonneg hq.le (by linarith))

/-! ## What is a double -/

/-- So many of a unit no less than the subnormal ones' last bit, of no more than 53 bits, are. -/
theorem near_scaled {n : ℕ} {e : ℤ} (h : n ≤ 2 ^ 53) (he : -1074 ≤ e) : near (n * pow2 e) = n * pow2 e := by
  rcases n.eq_zero_or_pos with rfl | hn
  · rw [Nat.cast_zero, zero_mul, near_zero]
  by_cases hmax : n = 2 ^ 53
  · have hpow : (n : ℚ) * pow2 e = pow2 (53 + e) := by rw [pow2_add, show (53 : ℤ) = ((53 : ℕ) : ℤ) from rfl, pow2_natCast, hmax]
    rw [hpow, near_pow2 (by omega)]
  · have hpos : 0 < (n : ℚ) * pow2 e := mul_pos (by exact_mod_cast hn) (pow2_pos e)
    have hlt : (n : ℚ) * pow2 e < pow2 (53 + e) := by
      rw [pow2_add]
      refine mul_lt_mul_of_pos_right ?_ (pow2_pos e)
      rw [show (53 : ℤ) = ((53 : ℕ) : ℤ) from rfl, pow2_natCast]
      exact_mod_cast lt_of_le_of_ne h hmax
    have hexp : exponent ((n : ℚ) * pow2 e) < 53 + e := pow2_lt.1 ((exponent_spec hpos).1.trans_lt hlt)
    have hulp : ulp ((n : ℚ) * pow2 e) ≤ e := by
      unfold ulp
      omega
    generalize hu : ulp ((n : ℚ) * pow2 e) = u at hulp
    obtain ⟨m, hm⟩ := Int.eq_ofNat_of_zero_le (sub_nonneg.2 hulp)
    have hdiv : (n : ℚ) * pow2 e / pow2 u = (((n * 2 ^ m : ℕ) : ℤ) : ℚ) := by
      have hsplit : pow2 e = pow2 (e - u) * pow2 u := by rw [← pow2_add, sub_add_cancel]
      rw [div_eq_iff (pow2_pos _).ne', Int.cast_natCast, Nat.cast_mul, ← pow2_natCast, ← hm, mul_assoc, ← hsplit]
    rw [near_of_pos hpos]
    unfold nearest
    rw [hu, hdiv, roundEven_intCast, ← hdiv, div_mul_cancel₀ _ (pow2_pos _).ne']

/-- An integer of no more than 53 bits is a double. -/
theorem near_natCast {n : ℕ} (h : n < 2 ^ 53) : near (n : ℚ) = n := by
  have hone : (n : ℚ) = n * pow2 0 := by rw [show pow2 0 = 1 from rfl, mul_one]
  rw [hone, near_scaled h.le (by omega)]

theorem near_near (q : ℚ) : near (near q) = near q := by
  have hpos : ∀ {q : ℚ}, 0 < q → near (near q) = near q := by
    intro q hq
    obtain ⟨n, hn, hnear⟩ := nearest_eq hq
    rw [near_of_pos hq, hnear]
    exact near_scaled hn (le_max_right _ _)
  rcases lt_trichotomy q 0 with hneg | rfl | hq
  · have h := hpos (neg_pos.2 hneg)
    rwa [near_neg, near_neg, neg_inj] at h
  · rw [near_zero, near_zero]
  · exact hpos hq

/-- A double is a whole number of the subnormal ones' last bit. -/
theorem near_multiple (q : ℚ) : ∃ n : ℤ, near q = n * pow2 (-1074) := by
  have hpos : ∀ {q : ℚ}, 0 < q → ∃ n : ℤ, near q = n * pow2 (-1074) := by
    intro q hq
    obtain ⟨n, -, hnear⟩ := nearest_eq hq
    obtain ⟨m, hm⟩ := Int.eq_ofNat_of_zero_le (sub_nonneg.2 (le_max_right (exponent q - 52) (-1074)))
    have hsplit : pow2 (ulp q) = pow2 m * pow2 (-1074) := by
      rw [← pow2_add]
      congr 1
      unfold ulp
      omega
    refine ⟨((n * 2 ^ m : ℕ) : ℤ), ?_⟩
    rw [near_of_pos hq, hnear, hsplit, pow2_natCast, Int.cast_natCast, Nat.cast_mul, mul_assoc]
  rcases lt_trichotomy q 0 with hneg | rfl | hq
  · obtain ⟨n, hn⟩ := hpos (neg_pos.2 hneg)
    refine ⟨-n, ?_⟩
    rw [near_neg] at hn
    push_cast
    linarith
  · exact ⟨0, by rw [near_zero, Int.cast_zero, zero_mul]⟩
  · exact hpos hq

/-- The difference of two doubles is not rounded to nothing. -/
theorem near_sub_pos {x y : ℚ} (hx : near x = x) (hy : near y = y) (h : x < y) : 0 < near (y - x) := by
  obtain ⟨n, hn⟩ := near_multiple x
  obtain ⟨m, hm⟩ := near_multiple y
  rw [hx] at hn
  rw [hy] at hm
  have hunit := pow2_pos (-1074)
  have hless : n < m := by
    rw [hn, hm] at h
    exact_mod_cast lt_of_mul_lt_mul_right h hunit.le
  have hone : (1 : ℚ) ≤ (m : ℚ) - n := by
    have : (n : ℚ) + 1 ≤ m := by exact_mod_cast hless
    linarith
  have hle : pow2 (-1074) ≤ y - x := by
    rw [hn, hm, ← sub_mul]
    exact le_mul_of_one_le_left hunit.le hone
  have hunits : near (pow2 (-1074)) = pow2 (-1074) := by
    have hscaled := near_scaled (show 1 ≤ 2 ^ 53 by norm_num) (le_refl (-1074 : ℤ))
    rwa [Nat.cast_one, one_mul] at hscaled
  have hmono := near_mono hle
  rw [hunits] at hmono
  exact hunit.trans_le hmono

/-! ## Overflow -/

/-- The double nearest to a number, unless that is beyond the largest. -/
def double (q : ℚ) : Option ℚ := if |near q| < pow2 1024 then some (near q) else none

theorem double_eq_some {q d : ℚ} (h : double q = some d) : d = near q := by
  unfold double at h
  split at h
  · exact (Option.some.inj h).symm
  · cases h

theorem abs_near_le {q : ℚ} {e : ℤ} (he : -1022 ≤ e) (h : |q| ≤ pow2 e) : |near q| ≤ pow2 e := by
  obtain ⟨hneg, hpos⟩ := abs_le.1 h
  have hle := near_le_pow2 he (neg_le.1 hneg)
  rw [near_neg] at hle
  exact abs_le.2 ⟨by linarith, near_le_pow2 he hpos⟩

theorem double_of_le {q : ℚ} {e : ℤ} (hlow : -1022 ≤ e) (he : e < 1024) (h : |q| ≤ pow2 e) : double q = some (near q) :=
  if_pos ((abs_near_le hlow h).trans_lt (pow2_lt.2 he))

end Binary64
