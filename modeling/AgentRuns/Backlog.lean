import AgentRuns.Timeline
import Mathlib.Data.List.Sort
import Mathlib.Data.Finset.Card

/-!
# Waiting to be served

What waits is served in batches, in some order.  `amount` adds up over a run what each action counts where it
is taken.  Where every action leaves no more ahead of one that waits than there was, less what it serves and
with what newly comes ahead, it is served once the services add up to more than what was ahead and came
(`happens`, `served`).

    taken_or_before :  what a batch in order leaves out, it leaves out for what comes no later
    card_ahead      :  what is served of a finite set is no longer ahead
-/

namespace Backlog

open Timed

variable {σ α τ ι : Type}

/-- What the actions of a list count, each where it is taken. -/
def amount (step : σ → τ → α → σ) (weigh : σ → τ → α → ℕ) (s : σ) : List (τ × α) → ℕ
  | [] => 0
  | (now, a) :: l => weigh s now a + amount step weigh (step s now a) l

theorem amount_none (step : σ → τ → α → σ) (l : List (τ × α)) : ∀ s : σ, amount step (fun _ _ _ => 0) s l = 0 := by
  induction l with
  | nil => exact fun _ => rfl
  | cons x l ih => exact fun s => (Nat.zero_add _).trans (ih _)

section
variable [Preorder τ] {step : σ → τ → α → σ} {ok : σ → τ → α → Prop}

/-- **It happens.**  However the run goes on, what is waited for happens before the services exceed what was ahead and came. -/
theorem happens (P : τ → σ → Prop) (ahead : σ → ℕ) (serves comes : σ → τ → α → ℕ) (event : σ → τ → α → Prop)
    (hkeep : ∀ t s now a, P t s → t ≤ now → ok s now a → P now (step s now a))
    (hahead : ∀ t s now a, P t s → t ≤ now → ok s now a → ¬event s now a →
      ahead (step s now a) + serves s now a ≤ ahead s + comes s now a)
    {l : List (τ × α)} : ∀ {t : τ} {s : σ}, P t s → Run.Admitted step ok t s l →
      ahead s + amount step comes s l < amount step serves s l →
      ∃ l₁ now a l₂ t', l = l₁ ++ (now, a) :: l₂ ∧ (P t' (Run.after step s l₁) ∧ t' ≤ now ∧ ok (Run.after step s l₁) now a) ∧
        event (Run.after step s l₁) now a := by
  induction l with
  | nil =>
    intro t s _ _ hlt
    exact absurd hlt (Nat.not_lt_zero _)
  | cons x l ih =>
    obtain ⟨now, a⟩ := x
    intro t s hP hl hlt
    obtain ⟨⟨hle, hok⟩, hl⟩ := hl
    by_cases hevent : event s now a
    · exact ⟨[], now, a, l, t, rfl, ⟨hP, hle, hok⟩, hevent⟩
    · have hone := hahead t s now a hP hle hok hevent
      have hrest : ahead (step s now a) + amount step comes (step s now a) l < amount step serves (step s now a) l := by
        simp only [amount] at hlt
        omega
      obtain ⟨l₁, now', a', l₂, t', rfl, hthere, hevent⟩ := ih (hkeep t s now a hP hle hok) hl hrest
      exact ⟨(now, a) :: l₁, now', a', l₂, t', rfl, hthere, hevent⟩

/-- **Served.**  Or it no longer waits. -/
theorem served (P : τ → σ → Prop) (ahead : σ → ℕ) (serves comes : σ → τ → α → ℕ) (waits : σ → Prop)
    (hkeep : ∀ t s now a, P t s → t ≤ now → ok s now a → P now (step s now a))
    (hahead : ∀ t s now a, P t s → t ≤ now → ok s now a → waits s → waits (step s now a) →
      ahead (step s now a) + serves s now a ≤ ahead s + comes s now a)
    {l : List (τ × α)} {t : τ} {s : σ} (hP : P t s) (hl : Run.Admitted step ok t s l)
    (henough : ahead s + amount step comes s l < amount step serves s l) :
    ∃ l₁ l₂ t', l = l₁ ++ l₂ ∧ P t' (Run.after step s l₁) ∧ ¬waits (Run.after step s l₁) := by
  obtain ⟨l₁, now, a, l₂, t', rfl, ⟨hthere, hle, hok⟩, hevent⟩ := happens P ahead serves comes
    (fun s now a => ¬(waits s ∧ waits (step s now a))) hkeep
    (fun t s now a hP hle hok hboth => hahead t s now a hP hle hok (not_not.1 hboth).1 (not_not.1 hboth).2) hP hl henough
  by_cases hwaits : waits (Run.after step s l₁)
  · refine ⟨l₁ ++ [(now, a)], l₂, now, by rw [List.append_assoc]; rfl, ?_, ?_⟩
    · rw [Run.after_concat]
      exact hkeep _ _ now a hthere hle hok
    · rw [Run.after_concat]
      exact fun hstill => hevent ⟨hwaits, hstill⟩
  · exact ⟨l₁, (now, a) :: l₂, t', rfl, hthere, hwaits⟩

end

/-! ## Batches -/

/-- Something that may be taken is in the batch, or the batch is full of what comes no later. -/
theorem taken_or_before (le : α → α → Prop) [DecidableRel le] [Std.Total le] [IsTrans α le] (p : α → Bool) (n : ℕ)
    {l : List α} {a : α} (ha : a ∈ l) (hp : p a = true) :
    a ∈ ((l.insertionSort le).filter p).take n ∨
      ((((l.insertionSort le).filter p).take n).length = n ∧ ∀ b ∈ ((l.insertionSort le).filter p).take n, le b a) := by
  have hsorted : ((l.insertionSort le).filter p).Pairwise le := (List.pairwise_insertionSort le l).filter _
  have hmem : a ∈ (l.insertionSort le).filter p := List.mem_filter.2 ⟨(List.mem_insertionSort le).2 ha, hp⟩
  rw [← List.take_append_drop n ((l.insertionSort le).filter p)] at hsorted hmem
  rcases List.mem_append.1 hmem with htaken | hleft
  · exact .inl htaken
  · have hlong : n ≤ ((l.insertionSort le).filter p).length := by
      have hlen := List.length_pos_of_mem hleft
      rw [List.length_drop] at hlen
      omega
    exact .inr ⟨List.length_take_of_le hlong, fun b hb => (List.pairwise_append.1 hsorted).2.2 b hb a hleft⟩

/-- Those served were ahead, are so no longer, and only those who came are newly so. -/
theorem card_ahead [DecidableEq ι] {before after served came : Finset ι} (hserved : served ⊆ before)
    (hgone : Disjoint after served) (hafter : after ⊆ before ∪ came) :
    after.card + served.card ≤ before.card + came.card := by
  rw [← Finset.card_union_of_disjoint hgone]
  refine le_trans (Finset.card_le_card ?_) (Finset.card_union_le before came)
  exact Finset.union_subset hafter (hserved.trans Finset.subset_union_left)

end Backlog
