import AgentRuns.Binary64

/-!
# Arithmetics

An operation of an arithmetic is the exact one, rounded (`Rounding`).  The rounding keeps the order and what is of the
arithmetic already, and does not take the difference of two of its numbers for nothing.  The exact arithmetic is one (`exact`),
and the doubles are (`binary64`).
-/

structure Rounding where
  round : ℚ → ℚ
  round_zero : round 0 = 0
  mono : ∀ {x y}, x ≤ y → round x ≤ round y
  round_round : ∀ x, round (round x) = round x
  sub_pos : ∀ {x y}, round x = x → round y = y → x < y → 0 < round (y - x)

namespace Rounding

def exact : Rounding where
  round x := x
  round_zero := rfl
  mono h := h
  round_round _ := rfl
  sub_pos _ _ h := by linarith

def binary64 : Rounding where
  round := Binary64.near
  round_zero := Binary64.near_zero
  mono := Binary64.near_mono
  round_round := Binary64.near_near
  sub_pos := Binary64.near_sub_pos

variable (a : Rounding)

/-- The number is of the arithmetic. -/
def Holds (x : ℚ) : Prop := a.round x = x

theorem holds_round (x : ℚ) : a.Holds (a.round x) := a.round_round x

theorem round_nonneg {x : ℚ} (h : 0 ≤ x) : 0 ≤ a.round x := by
  rw [← a.round_zero]
  exact a.mono h

theorem round_nonpos {x : ℚ} (h : x ≤ 0) : a.round x ≤ 0 := by
  rw [← a.round_zero]
  exact a.mono h

/-- What is added to a number of the arithmetic does not make it less. -/
theorem le_round_add {x y : ℚ} (hx : a.Holds x) (hy : 0 ≤ y) : x ≤ a.round (x + y) :=
  calc x = a.round x := hx.symm
    _ ≤ a.round (x + y) := a.mono (le_add_of_nonneg_right hy)

/-- Nothing is left of `y` behind `x` exactly where it is no more. -/
theorem max_sub_eq_zero {x y : ℚ} (hx : a.Holds x) (hy : a.Holds y) : max 0 (a.round (y - x)) = 0 ↔ y ≤ x := by
  rw [max_eq_left_iff]
  constructor
  · intro h
    by_contra hlt
    exact absurd (a.sub_pos hx hy (not_le.1 hlt)) (not_lt.2 h)
  · intro h
    exact a.round_nonpos (sub_nonpos.2 h)

end Rounding
