import AgentRuns.Timeline
import Mathlib.Algebra.Order.Group.Defs

/-!
# Time spent

How long a system on a clock was in the states that are `on`: the stretches between one action and
the next, and the last of them to `now` (`Run.spent`).  What a list of actions spends is what its
first part spends, and from there the rest (`spent_append`).
-/

namespace Timed.Run

section
variable {σ α τ : Type} [AddCommGroup τ] {on : σ → Bool} {step : σ → τ → α → σ} {t t' now : τ} {s : σ}

/-- The length of a stretch, for a state that is `on`. -/
def stretch (on : σ → Bool) (s : σ) (t t' : τ) : τ := if on s then t' - t else 0

/-- How long, from `t` to `now`, the state was `on`. -/
def spent (on : σ → Bool) (step : σ → τ → α → σ) (t : τ) (s : σ) : List (τ × α) → τ → τ
  | [], now => stretch on s t now
  | (next, a) :: l, now => stretch on s t next + spent on step next (step s next a) l now

theorem stretch_self : stretch on s t t = 0 := by
  unfold stretch
  rw [sub_self, ite_self]

theorem stretch_add : stretch on s t t' + stretch on s t' now = stretch on s t now := by
  unfold stretch
  cases on s
  · exact add_zero 0
  · rw [if_pos rfl, if_pos rfl, if_pos rfl, add_comm, sub_add_sub_cancel]

/-- The stretch that begins a list can be cut. -/
theorem stretch_add_spent (l : List (τ × α)) :
    stretch on s t t' + spent on step t' s l now = spent on step t s l now := by
  cases l with
  | nil => exact stretch_add
  | cons x l =>
    show stretch on s t t' + (stretch on s t' x.1 + _) = stretch on s t x.1 + _
    rw [← add_assoc, stretch_add]

theorem spent_append (l l' : List (τ × α)) (t' : τ) : ∀ {t : τ} {s : σ},
    spent on step t s (l ++ l') now = spent on step t s l t' + spent on step t' (after step s l) l' now := by
  induction l with
  | nil =>
    intro t s
    exact (stretch_add_spent l').symm
  | cons x l ih =>
    intro t s
    show stretch on s t x.1 + spent on step x.1 _ (l ++ l') now = stretch on s t x.1 + _ + _
    rw [ih, add_assoc]
    rfl

theorem spent_concat (l : List (τ × α)) (next : τ) (a : α) :
    spent on step t s (l ++ [(next, a)]) now =
      spent on step t s l next + stretch on (step (after step s l) next a) next now := by
  rw [spent_append l [(next, a)] next]
  show _ + (stretch on _ next next + _) = _
  rw [stretch_self, zero_add]
  rfl

/-- The last stretch goes on. -/
theorem spent_add (l : List (τ × α)) :
    spent on step t s l t' + stretch on (after step s l) t' now = spent on step t s l now := by
  calc spent on step t s l t' + stretch on (after step s l) t' now
      = spent on step t s (l ++ []) now := (spent_append l [] t').symm
    _ = spent on step t s l now := by rw [List.append_nil]

end

section
variable {σ α τ : Type} [AddCommGroup τ] [LinearOrder τ] [IsOrderedAddMonoid τ] {on : σ → Bool}
  {step : σ → τ → α → σ} {ok : σ → τ → α → Prop} {t now : τ} {s : σ}

theorem stretch_nonneg (h : t ≤ now) : 0 ≤ stretch on s t now := by
  unfold stretch
  cases on s
  · exact le_refl 0
  · exact sub_nonneg.2 h

/-- On a clock that never goes back, no less than none. -/
theorem spent_nonneg {l : List (τ × α)} : ∀ {t : τ} {s : σ}, Admitted step ok t s l → ends t l ≤ now →
    0 ≤ spent on step t s l now := by
  induction l with
  | nil =>
    intro t s _ h
    exact stretch_nonneg h
  | cons x l ih =>
    intro t s ⟨⟨hle, _⟩, ha⟩ h
    exact add_nonneg (stretch_nonneg hle) (ih ha h)

end

end Timed.Run
