import AgentRuns.Fallible
import AgentRuns.Timeline

/-!
# What is seen of a system

A user sees part of the state (`view`), and what its own actions answer.  An action that works on what is seen as it does on the
whole state, `act (view s) = seen view (act s)`, tells its user nothing of the rest: two states that look the same answer the same
and look the same after it (`same_answer`), and so do whole runs (`Run.lockstep`).
-/

namespace Fallible

variable {ε σ τ α β : Type}

/-- What a program answers, and what is seen of the state it leaves. -/
def seen (view : σ → τ) : Except ε (σ × α) → Except ε (τ × α)
  | .error e => .error e
  | .ok (s, a) => .ok (view s, a)

@[simp] theorem seen_ok (view : σ → τ) (s : σ) (a : α) : seen view (.ok (s, a) : Except ε (σ × α)) = .ok (view s, a) := rfl

@[simp] theorem seen_error (view : σ → τ) (e : ε) : seen view (.error e : Except ε (σ × α)) = .error e := rfl

/-- A program goes on as it is seen. -/
theorem seen_bind (view : σ → τ) (x : Except ε β) (f : β → Except ε (σ × α)) :
    seen view (x >>= f) = x >>= fun b => seen view (f b) := by
  cases x <;> rfl

/-- What a program answers. -/
def answerOf : Except ε (σ × α) → Except ε α
  | .error e => .error e
  | .ok (_, a) => .ok a

theorem same_answer {view : σ → τ} {s s' : σ} {x x' : Except ε (σ × α)} (hs : view s = view s')
    (h : seen view x = seen view x') :
    answerOf x = answerOf x' ∧ view (orElse s x) = view (orElse s' x') := by
  cases x with
  | error e =>
    cases x' with
    | error e' =>
      cases h
      exact ⟨rfl, hs⟩
    | ok r' => cases h
  | ok r =>
    cases x' with
    | error e' => cases h
    | ok r' =>
      obtain ⟨hview, hanswer⟩ := Prod.mk.inj (Except.ok.inj h)
      exact ⟨congrArg Except.ok hanswer, hview⟩

end Fallible

namespace Timed.Run

variable {σ α β τ : Type} {step : σ → τ → α → σ} {see : σ → τ → α → List β} {R : σ → σ → Prop}
  {ok : τ → α → Prop}

/-- What each action keeps, a list of them keeps. -/
theorem after_kept {P : σ → Prop} (h : ∀ s now a, P s → ok now a → P (step s now a)) (l : List (τ × α)) :
    ∀ {s : σ}, P s → (∀ x ∈ l, ok x.1 x.2) → P (after step s l) := by
  induction l with
  | nil => exact fun hs _ => hs
  | cons x l ih =>
    intro s hs hok
    exact ih (h s x.1 x.2 hs (hok x List.mem_cons_self)) fun y hy => hok y (List.mem_cons_of_mem _ hy)

/-- Two runs of the same actions side by side: what relates the states, and lets each action be seen as the same, goes on. -/
theorem lockstep (h : ∀ s s' now a, R s s' → ok now a → see s now a = see s' now a ∧ R (step s now a) (step s' now a))
    (l : List (τ × α)) : ∀ {s s' : σ}, R s s' → (∀ x ∈ l, ok x.1 x.2) →
      trace step see s l = trace step see s' l ∧ R (after step s l) (after step s' l) := by
  induction l with
  | nil => exact fun hr _ => ⟨rfl, hr⟩
  | cons x l ih =>
    intro s s' hr hok
    obtain ⟨hsee, hr⟩ := h s s' x.1 x.2 hr (hok x List.mem_cons_self)
    obtain ⟨htrace, hr⟩ := ih hr fun y hy => hok y (List.mem_cons_of_mem _ hy)
    refine ⟨?_, hr⟩
    show see s x.1 x.2 ++ trace step see _ l = see s' x.1 x.2 ++ trace step see _ l
    rw [hsee, htrace]

end Timed.Run
