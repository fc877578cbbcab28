import Mathlib.Data.Set.Basic

/-!
# Counting under a lock

Transactions `ι` hold locks `κ`, each until it ends.  No two hold one lock (`Exclusive`).  A cap on a count
is kept by counting under an exclusive lock and writing before it is let go (`Capped`): whoever found room
and may still use it is alone.
-/

namespace Locking

variable {ι κ : Type}

/-! ## Exclusive locks -/

/-- No two transactions hold one lock. -/
def Exclusive (holds : ι → κ → Prop) : Prop := ∀ i j k, holds i k → holds j k → j = i

theorem Exclusive.mono {holds holds' : ι → κ → Prop} (h : Exclusive holds) (hsub : ∀ i k, holds' i k → holds i k) :
    Exclusive holds' :=
  fun i j k hi hj => h i j k (hsub i k hi) (hsub j k hj)

/-- One transaction takes a lock that no other one holds. -/
theorem Exclusive.take {holds holds' : ι → κ → Prop} (h : Exclusive holds) {i : ι} {k : κ}
    (hfree : ∀ j, holds j k → j = i) (hsub : ∀ j l, holds' j l → holds j l ∨ (j = i ∧ l = k)) : Exclusive holds' := by
  intro a b l ha hb
  rcases hsub a l ha with ha | ⟨rfl, rfl⟩
  · rcases hsub b l hb with hb | ⟨rfl, rfl⟩
    · exact h a b l ha hb
    · exact (hfree a ha).symm
  · rcases hsub b l hb with hb | ⟨rfl, -⟩
    · exact hfree b hb
    · rfl

/-! ## Caps -/

/-- The count is within its cap, and below it while somebody who counted may still add to it. -/
structure Capped (cap count : Nat) (found : ι → Prop) : Prop where
  bound : count ≤ cap
  room : ∀ i, found i → count < cap

variable {cap count count' : Nat} {found found' : ι → Prop}

/-- Nothing is added, and nobody new found room. -/
theorem Capped.mono (h : Capped cap count found) (hle : count' ≤ count) (hsub : ∀ i, found' i → ∃ j, found j) :
    Capped cap count' found' := by
  refine ⟨hle.trans h.bound, fun i hi => ?_⟩
  obtain ⟨j, hj⟩ := hsub i hi
  exact Nat.lt_of_le_of_lt hle (h.room j hj)

/-- Somebody counts, and finds room. -/
theorem Capped.counted (h : Capped cap count found) (hroom : count < cap) : Capped cap count found' :=
  ⟨h.bound, fun _ _ => hroom⟩

/-- Whoever found room uses it, being the only one. -/
theorem Capped.used (h : Capped cap count found) {i : ι} (hi : found i) (hle : count' ≤ count + 1)
    (halone : ∀ j, ¬found' j) : Capped cap count' found' :=
  ⟨hle.trans (h.room i hi), fun j hj => absurd hj (halone j)⟩

end Locking
