import AgentRuns.Fallible

/-!
# A recursive walk that may raise

Code that goes through a graph recursively, from a node to those it visits, and stops at a node
where it is `stuck` or where the stack is too deep.  `Steps visits k a b` is a way of `k` visits:

    walk … depth a = .ok ()  ↔  every way from a is shorter than depth and no node on it is stuck   (walk_ok)

A way that comes back where it began has no end (`Steps.again`); one down a rank is no longer than it (`Steps.ranked`).
-/

namespace Traversal

open Fallible

variable {α ε : Type}

/-- The walk from a node, with `depth` frames of the stack left. -/
def walk (visits : α → List α) (stuck : α → Option ε) (tooDeep : ε) : Nat → α → Except ε Unit
  | 0, _ => .error tooDeep
  | depth + 1, a =>
    match stuck a with
    | some raised => .error raised
    | none =>
      match each (walk visits stuck tooDeep depth) (visits a) with
      | .error raised => .error raised
      | .ok _ => .ok ()

/-- From `a` to `b` in so many visits. -/
inductive Steps (visits : α → List α) : Nat → α → α → Prop
  | refl (a : α) : Steps visits 0 a a
  | step {k : Nat} {a b c : α} : b ∈ visits a → Steps visits k b c → Steps visits (k + 1) a c

variable {visits : α → List α} {stuck : α → Option ε} {tooDeep : ε}

theorem Steps.trans {k l : Nat} {a b c : α} (h : Steps visits k a b) (h' : Steps visits l b c) :
    Steps visits (k + l) a c := by
  induction h with
  | refl a => rwa [Nat.zero_add]
  | @step k a b _ hb _ ih =>
    rw [Nat.add_right_comm]
    exact .step hb (ih h')

theorem walk_succ_ok {depth : Nat} {a : α} : walk visits stuck tooDeep (depth + 1) a = .ok () ↔
    stuck a = none ∧ ∀ b ∈ visits a, walk visits stuck tooDeep depth b = .ok () := by
  rw [walk]
  cases stuck a with
  | some raised => simp
  | none =>
    constructor
    · intro h
      cases he : each (walk visits stuck tooDeep depth) (visits a) with
      | error raised => simp [he] at h
      | ok us =>
        refine ⟨rfl, fun b hb => ?_⟩
        obtain ⟨_, -, hw⟩ := exists_of_mem_left (each_ok.1 he) hb
        exact hw
    · rintro ⟨-, h⟩
      obtain ⟨us, hus⟩ := each_total fun b hb => ⟨(), h b hb⟩
      simp [hus]

/-- **The walk.**  It returns exactly where every way ends in time and is free. -/
theorem walk_ok {depth : Nat} : ∀ {a : α}, walk visits stuck tooDeep depth a = .ok () ↔
    ∀ k b, Steps visits k a b → k < depth ∧ stuck b = none := by
  induction depth with
  | zero =>
    intro a
    refine iff_of_false (by simp [walk]) fun h => ?_
    have := (h 0 a (.refl a)).1
    omega
  | succ depth ih =>
    intro a
    rw [walk_succ_ok]
    constructor
    · rintro ⟨hfree, h⟩ k c hc
      cases hc with
      | refl => exact ⟨by omega, hfree⟩
      | step hb hc =>
        obtain ⟨hlt, hs⟩ := ih.1 (h _ hb) _ _ hc
        exact ⟨by omega, hs⟩
    · intro h
      refine ⟨(h 0 a (.refl a)).2, fun b hb => ih.2 fun k c hc => ?_⟩
      obtain ⟨hlt, hs⟩ := h (k + 1) c (.step hb hc)
      exact ⟨by omega, hs⟩

/-- Among nodes that visit only one another, down a rank, a way is no longer than the rank it begins at. -/
theorem Steps.ranked {within : α → Prop} {rank : α → Nat}
    (hdown : ∀ a, within a → ∀ b ∈ visits a, within b ∧ rank b < rank a) {k : Nat} {a b : α} (h : Steps visits k a b) :
    within a → within b ∧ k ≤ rank a := by
  induction h with
  | refl a => exact fun ha => ⟨ha, Nat.zero_le _⟩
  | step hb _ ih =>
    intro ha
    obtain ⟨hin, hlt⟩ := hdown _ ha _ hb
    obtain ⟨hend, hle⟩ := ih hin
    exact ⟨hend, by omega⟩

/-- Round and round. -/
theorem Steps.again {k : Nat} {a : α} (h : Steps visits (k + 1) a a) : ∀ n, ∃ m, n ≤ m ∧ Steps visits m a a := by
  intro n
  induction n with
  | zero => exact ⟨0, Nat.le_refl 0, .refl a⟩
  | succ n ih =>
    obtain ⟨m, hle, hm⟩ := ih
    exact ⟨m + (k + 1), by omega, hm.trans h⟩

end Traversal
