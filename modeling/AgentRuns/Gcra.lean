import Mathlib.Data.List.Basic
import Mathlib.Tactic.Linarith
import Mathlib.Tactic.Ring

/-!
# The generic cell rate algorithm

A budget is one time, the theoretical arrival time: when it is full again.  It is `ahead` of now by what was taken
from it lately.  A take is admitted while that is within the tolerance, and puts the budget one interval further
ahead.

    the takes of one instant: the j-th is admitted  ↔  ahead + j * interval ≤ tolerance         (admitted_replicate)
    exactly k of them are  ↔  ahead + (k - 1) * interval ≤ tolerance < ahead + k * interval     (admitted_exactly_iff)
    n admitted takes between t and u:  (n - 1) * interval ≤ u - t + tolerance                   (admittedIn_le)
-/

namespace Gcra

/-- How far ahead of now the budget is; one that nothing was taken from yet is not. -/
def ahead (tat : Option Int) (now : Int) : Int :=
  match tat with
  | none => 0
  | some t => max t now - now

def admits (tolerance : Int) (tat : Option Int) (now : Int) : Bool := ahead tat now ≤ tolerance

/-- The budget after a take. -/
def next (interval tolerance : Int) (tat : Option Int) (now : Int) : Option Int :=
  if admits tolerance tat now then some (now + ahead tat now + interval) else tat

/-- The budget after takes at these times. -/
def after (interval tolerance : Int) : List Int → Option Int → Option Int
  | [], tat => tat
  | now :: times, tat => after interval tolerance times (next interval tolerance tat now)

/-- Which of them are admitted. -/
def admitted (interval tolerance : Int) : List Int → Option Int → List Bool
  | [], _ => []
  | now :: times, tat => admits tolerance tat now :: admitted interval tolerance times (next interval tolerance tat now)

/-- How many of them are, from `t` to `u`. -/
def admittedIn (interval tolerance t u : Int) : List Int → Option Int → Nat
  | [], _ => 0
  | now :: times, tat =>
    (if t ≤ now ∧ now ≤ u ∧ admits tolerance tat now = true then 1 else 0) +
      admittedIn interval tolerance t u times (next interval tolerance tat now)

variable {interval tolerance : Int}

theorem ahead_nonneg (tat : Option Int) (now : Int) : 0 ≤ ahead tat now := by
  unfold ahead
  split <;> omega

theorem ahead_some (t now : Int) : ahead (some t) now = max t now - now := rfl

theorem next_of_admits {tat : Option Int} {now : Int} (h : ahead tat now ≤ tolerance) :
    next interval tolerance tat now = some (now + ahead tat now + interval) := if_pos (decide_eq_true h)

theorem next_of_refused {tat : Option Int} {now : Int} (h : ¬ ahead tat now ≤ tolerance) :
    next interval tolerance tat now = tat := if_neg (by simpa [admits] using h)

/-- An admitted take leaves the budget one interval further ahead. -/
theorem ahead_next (hi : 0 ≤ interval) {tat : Option Int} {now : Int} (h : ahead tat now ≤ tolerance) :
    ahead (next interval tolerance tat now) now = ahead tat now + interval := by
  have := ahead_nonneg tat now
  rw [next_of_admits h, ahead_some]
  omega

/-! ## At one instant -/

theorem admitted_replicate (hi : 0 ≤ interval) (now : Int) (n : Nat) : ∀ tat : Option Int,
    admitted interval tolerance (List.replicate n now) tat =
      (List.range n).map fun j : Nat => decide (ahead tat now + (j : Int) * interval ≤ tolerance) := by
  induction n with
  | zero => intro tat; rfl
  | succ n ih =>
    intro tat
    rw [List.replicate_succ, List.range_succ_eq_map, List.map_cons, List.map_map, admitted, ih]
    have hfirst : admits tolerance tat now = decide (ahead tat now + ((0 : Nat) : Int) * interval ≤ tolerance) := by
      simp [admits]
    rw [hfirst]
    congr 1
    refine List.map_congr_left fun j _ => ?_
    have hsucc : ((j + 1 : Nat) : Int) * interval = j * interval + interval := by push_cast; ring
    by_cases h : ahead tat now ≤ tolerance
    · have hnext : ahead (next interval tolerance tat now) now + j * interval =
          ahead tat now + ((j + 1 : Nat) : Int) * interval := by rw [ahead_next hi h, hsucc]; ring
      show decide _ = decide (ahead tat now + ((j + 1 : Nat) : Int) * interval ≤ tolerance)
      rw [hnext]
    · -- refused, and so are the rest
      have hj : 0 ≤ (j : Int) * interval := Int.mul_nonneg (by omega) hi
      rw [next_of_refused h]
      show decide _ = decide (ahead tat now + ((j + 1 : Nat) : Int) * interval ≤ tolerance)
      rw [decide_eq_false (by omega), decide_eq_false (by omega)]

/-- So many are admitted, and no more. -/
theorem admitted_exactly_iff (hi : 0 ≤ interval) {now : Int} {tat : Option Int} {k : Nat} :
    admitted interval tolerance (List.replicate (k + 1) now) tat = List.replicate k true ++ [false] ↔
      (0 < k → ahead tat now + ((k : Int) - 1) * interval ≤ tolerance) ∧ tolerance < ahead tat now + k * interval := by
  rw [admitted_replicate hi]
  constructor
  · intro h
    have hat : ∀ j (b : Bool), (List.replicate k true ++ [false])[j]? = some b → j < k + 1 →
        decide (ahead tat now + (j : Int) * interval ≤ tolerance) = b := by
      intro j b hb hj
      rw [← h, List.getElem?_map, List.getElem?_range hj] at hb
      exact Option.some.inj hb
    refine ⟨fun hk => ?_, ?_⟩
    · have hin : (List.replicate k true ++ [false])[k - 1]? = some true := by
        rw [List.getElem?_append_left (by rw [List.length_replicate]; omega), List.getElem?_replicate, if_pos (by omega)]
      have hbefore := of_decide_eq_true (hat (k - 1) true hin (by omega))
      have hpred : ((k - 1 : Nat) : Int) = (k : Int) - 1 := by omega
      rwa [hpred] at hbefore
    · have hlast := of_decide_eq_false (hat k false (by simp) (by omega))
      omega
  · rintro ⟨hle, hlt⟩
    rw [List.range_succ, List.map_append, List.map_singleton, decide_eq_false (by omega)]
    congr 1
    rw [List.eq_replicate_iff]
    refine ⟨by simp, fun b hb => ?_⟩
    obtain ⟨j, hj, rfl⟩ := List.mem_map.1 hb
    have hj' := List.mem_range.1 hj
    have hmul : (j : Int) * interval ≤ ((k : Int) - 1) * interval := mul_le_mul_of_nonneg_right (by omega) hi
    have := hle (by omega)
    exact decide_eq_true (by omega)

/-! ## In a window -/

/-- `c` takes were admitted since `t`, as far as the budget tells. -/
def Spent (interval tolerance t u : Int) (c : Nat) (tat : Option Int) : Prop :=
  c = 0 ∨ ∃ x, tat = some x ∧ t + c * interval ≤ x ∧ ((c : Int) - 1) * interval ≤ u - t + tolerance

theorem Spent.other (hi : 0 ≤ interval) {t u : Int} {c : Nat} {tat : Option Int} (h : Spent interval tolerance t u c tat)
    (now : Int) : Spent interval tolerance t u c (next interval tolerance tat now) := by
  by_cases had : ahead tat now ≤ tolerance
  · rcases h with rfl | ⟨x, rfl, hx, hc⟩
    · exact .inl rfl
    · refine .inr ⟨_, next_of_admits had, ?_, hc⟩
      rw [ahead_some]
      omega
  · rw [next_of_refused had]
    exact h

/-- One more within the window. -/
theorem Spent.one_more {t u : Int} {c : Nat} {tat : Option Int} (h : Spent interval tolerance t u c tat)
    {now : Int} (ht : t ≤ now) (hu : now ≤ u) (had : ahead tat now ≤ tolerance) :
    Spent interval tolerance t u (c + 1) (next interval tolerance tat now) := by
  have hnonneg := ahead_nonneg tat now
  have hsucc : ((c + 1 : Nat) : Int) * interval = c * interval + interval := by push_cast; ring
  have hpred : (((c + 1 : Nat) : Int) - 1) * interval = c * interval := by push_cast; ring
  refine .inr ⟨_, next_of_admits had, ?_, ?_⟩
  · rw [hsucc]
    rcases h with rfl | ⟨x, rfl, hx, -⟩
    · simp only [Nat.cast_zero, zero_mul]
      omega
    · rw [ahead_some]
      omega
  · rw [hpred]
    rcases h with rfl | ⟨x, rfl, hx, -⟩
    · simp only [Nat.cast_zero, zero_mul]
      omega
    · rw [ahead_some] at had
      omega

theorem spent_admittedIn (hi : 0 ≤ interval) {t u : Int} (times : List Int) : ∀ {c : Nat} {tat : Option Int},
    Spent interval tolerance t u c tat →
      Spent interval tolerance t u (c + admittedIn interval tolerance t u times tat) (after interval tolerance times tat) := by
  induction times with
  | nil => intro c tat h; exact h
  | cons now times ih =>
    intro c tat h
    unfold admittedIn after
    by_cases hin : t ≤ now ∧ now ≤ u ∧ admits tolerance tat now = true
    · rw [if_pos hin, ← Nat.add_assoc]
      exact ih (h.one_more hin.1 hin.2.1 (of_decide_eq_true hin.2.2))
    · rw [if_neg hin, Nat.zero_add]
      exact ih (h.other hi now)

/-- However the takes are spread, from any budget. -/
theorem admittedIn_le (hi : 0 ≤ interval) {t u : Int} {times : List Int} {tat : Option Int}
    (hsome : 0 < admittedIn interval tolerance t u times tat) :
    ((admittedIn interval tolerance t u times tat : Int) - 1) * interval ≤ u - t + tolerance := by
  have hnone : Spent interval tolerance t u 0 tat := .inl rfl
  have h := spent_admittedIn hi times hnone
  rw [Nat.zero_add] at h
  rcases h with h0 | ⟨-, -, -, hle⟩
  · omega
  · exact hle

end Gcra
