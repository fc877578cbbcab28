import Mathlib.Data.Option.NAry

/-!
# NULL

A value that may be NULL is an `Option`.  SQL's conditions have three values: TRUE, FALSE and, as `none`, unknown.  A comparison
with NULL is unknown, and a WHERE takes what is TRUE.

    holds (and p q) = (holds p && holds q)               (holds_and)
    a WHERE of conditions takes what each of them does   (holds_all)
-/

namespace Nullable

variable {α : Type}

/-- Does a WHERE take the row? -/
def holds (p : Option Bool) : Bool := p = some true

/-- AND: FALSE where a side is, unknown where one is and the other is not FALSE. -/
def and : Option Bool → Option Bool → Option Bool
  | some false, _ => some false
  | some true, q => q
  | none, some false => some false
  | none, _ => none

/-- The conditions of a WHERE, all of them. -/
def all (ps : List (Option Bool)) : Option Bool := ps.foldr and (some true)

def eq [DecidableEq α] : Option α → Option α → Option Bool := Option.map₂ fun a b => decide (a = b)

def lt [LT α] [DecidableLT α] : Option α → Option α → Option Bool := Option.map₂ fun a b => decide (a < b)

def isIn [DecidableEq α] (a : Option α) (bs : List α) : Option Bool := a.map fun a => decide (a ∈ bs)

/-- LEAST ignores a NULL; it is NULL only where both are. -/
def least [Min α] : Option α → Option α → Option α := Option.merge min

theorem holds_and (p q : Option Bool) : holds (and p q) = (holds p && holds q) := by
  rcases p with _ | _ | _ <;> rcases q with _ | _ | _ <;> rfl

theorem holds_all (ps : List (Option Bool)) : holds (all ps) = ps.all holds := by
  induction ps with
  | nil => rfl
  | cons p ps ih =>
    show holds (and p (all ps)) = _
    rw [holds_and, ih, List.all_cons]

@[simp] theorem holds_eq [DecidableEq α] (a b : α) : holds (eq (some a) (some b)) = decide (a = b) := by
  simp [holds, eq]

@[simp] theorem holds_isIn [DecidableEq α] (a : α) (bs : List α) : holds (isIn (some a) bs) = decide (a ∈ bs) := by
  simp [holds, isIn]

@[simp] theorem holds_lt [LT α] [DecidableLT α] (a b : α) : holds (lt (some a) (some b)) = decide (a < b) := by
  simp [holds, lt]

/-- A comparison takes two values that are there. -/
theorem holds_lt_iff [LT α] [DecidableLT α] {a b : Option α} :
    holds (lt a b) = true ↔ ∃ x y, a = some x ∧ b = some y ∧ x < y := by
  unfold holds lt
  rw [decide_eq_true_iff, Option.map₂_eq_some_iff]
  constructor
  · rintro ⟨x, y, hx, hy, h⟩
    exact ⟨x, y, hx, hy, of_decide_eq_true h⟩
  · rintro ⟨x, y, hx, hy, h⟩
    exact ⟨x, y, hx, hy, decide_eq_true h⟩

end Nullable
