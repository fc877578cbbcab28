import Mathlib.Order.Defs.PartialOrder

/-!
# Runs on a clock that never goes back

A system takes one action after another, each at an instant no earlier than the last
(`Run`).  `ok` says which actions a run may take where: everything, for the plain runs.
What one step keeps, every run keeps (`Run.invariant`).  A list of actions replays to a run
(`Run.replay`).
-/

namespace Timed

variable {σ α τ : Type}

/-- From state `s` at `t`, actions `ok` admits lead to a state at a later instant. -/
inductive Run [Preorder τ] (step : σ → τ → α → σ) (ok : σ → τ → α → Prop) (t : τ) (s : σ) : τ → σ → Prop
  | refl : Run step ok t s t s
  | tail {t' : τ} {s' : σ} (now : τ) (a : α) :
      Run step ok t s t' s' → t' ≤ now → ok s' now a → Run step ok t s now (step s' now a)

/-- A run may take any action. -/
def anything (_ : σ) (_ : τ) (_ : α) : Prop := True

namespace Run

variable [Preorder τ] {step : σ → τ → α → σ} {ok : σ → τ → α → Prop} {t t' t'' : τ} {s s' s'' : σ}

theorem trans (h : Run step ok t s t' s') (h' : Run step ok t' s' t'' s'') : Run step ok t s t'' s'' := by
  induction h' with
  | refl => exact h
  | tail now a _ hle hok ih => exact .tail now a ih hle hok

theorem single {now : τ} {a : α} (hle : t ≤ now) (hok : ok s now a) : Run step ok t s now (step s now a) :=
  .tail now a .refl hle hok

/-- **Invariants.**  What holds at first and is kept by every admitted step holds at the end. -/
theorem invariant (P : τ → σ → Prop)
    (hstep : ∀ t s now a, P t s → t ≤ now → ok s now a → P now (step s now a))
    (h : Run step ok t s t' s') (h0 : P t s) : P t' s' := by
  induction h with
  | refl => exact h0
  | tail now a _ hle hok ih => exact hstep _ _ now a ih hle hok

/-- An invariant for a state property that does not speak of the clock. -/
theorem invariant' (P : σ → Prop) (hstep : ∀ s now a, P s → ok s now a → P (step s now a))
    (h : Run step ok t s t' s') (h0 : P s) : P s' :=
  h.invariant (fun _ => P) (fun _ s now a hp _ hok => hstep s now a hp hok) h0

/-- A run that takes only `ok` actions takes only actions a weaker `ok'` admits. -/
theorem weaken {ok' : σ → τ → α → Prop} (hok : ∀ s now a, ok s now a → ok' s now a)
    (h : Run step ok t s t' s') : Run step ok' t s t' s' := by
  induction h with
  | refl => exact .refl
  | tail now a _ hle ha ih => exact .tail now a ih hle (hok _ _ _ ha)

/-- The state after a list of actions. -/
def after (step : σ → τ → α → σ) (s : σ) : List (τ × α) → σ
  | [] => s
  | (now, a) :: l => after step (step s now a) l

/-- `ok` admits each action of the list where it is taken, and the clock never goes back. -/
def Admitted (step : σ → τ → α → σ) (ok : σ → τ → α → Prop) (t : τ) (s : σ) : List (τ × α) → Prop
  | [] => True
  | (now, a) :: l => (t ≤ now ∧ ok s now a) ∧ Admitted step ok now (step s now a) l

instance decidableAdmitted [DecidableLE τ] [∀ s now a, Decidable (ok s now a)] : ∀ (l : List (τ × α)) (t : τ) (s : σ),
    Decidable (Admitted step ok t s l)
  | [], _, _ => isTrue trivial
  | (now, a) :: l, t, s =>
    have := decidableAdmitted l now (step s now a)
    inferInstanceAs (Decidable ((t ≤ now ∧ ok s now a) ∧ Admitted step ok now (step s now a) l))

/-- `P` holds of every state a list of actions goes through. -/
def Always (step : σ → τ → α → σ) (P : σ → Prop) (s : σ) : List (τ × α) → Prop
  | [] => P s
  | (now, a) :: l => P s ∧ Always step P (step s now a) l

/-- Each action of the list is `ok` where it is taken. -/
def Each (step : σ → τ → α → σ) (ok : σ → τ → α → Prop) (s : σ) : List (τ × α) → Prop
  | [] => True
  | (now, a) :: l => ok s now a ∧ Each step ok (step s now a) l

omit [Preorder τ] in
/-- Where `ok` actions keep `P` and are `ok'` under it, a list of `ok` ones from `P` is one of
`ok'` ones. -/
theorem Each.under {ok' : σ → τ → α → Prop} {P : σ → Prop} (hstep : ∀ s now a, P s → ok s now a → P (step s now a))
    (hok : ∀ s now a, P s → ok s now a → ok' s now a) {l : List (τ × α)} : ∀ {s : σ}, P s → Each step ok s l →
    Each step ok' s l := by
  induction l with
  | nil => intro s _ _; trivial
  | cons x l ih =>
    intro s hP h
    exact ⟨hok s x.1 x.2 hP h.1, ih (hstep s x.1 x.2 hP h.1) h.2⟩

omit [Preorder τ] in
theorem Each.last {l : List (τ × α)} {now : τ} {a : α} : ∀ {s : σ}, Each step ok s (l ++ [(now, a)]) →
    ok (after step s l) now a := by
  induction l with
  | nil => intro s h; exact h.1
  | cons x l ih => intro s h; exact ih h.2

instance decidableEach [∀ s now a, Decidable (ok s now a)] : ∀ (l : List (τ × α)) (s : σ),
    Decidable (Each step ok s l)
  | [], _ => isTrue trivial
  | (now, a) :: l, s =>
    have := decidableEach l (step s now a)
    inferInstanceAs (Decidable (ok s now a ∧ Each step ok (step s now a) l))

omit [Preorder τ] in
theorem Always.head {P : σ → Prop} {l : List (τ × α)} (h : Always step P s l) : P s := by
  cases l with
  | nil => exact h
  | cons x l => exact h.1

/-- What `see` sees of each action of the list where it is taken. -/
def trace {β : Type} (step : σ → τ → α → σ) (see : σ → τ → α → List β) (s : σ) : List (τ × α) → List β
  | [] => []
  | (now, a) :: l => see s now a ++ trace step see (step s now a) l

/-- When the last action of the list is taken. -/
def ends (t : τ) : List (τ × α) → τ
  | [] => t
  | (now, _) :: l => ends now l

omit [Preorder τ] in
theorem after_concat (l : List (τ × α)) (now : τ) (a : α) : ∀ s : σ,
    after step s (l ++ [(now, a)]) = step (after step s l) now a := by
  induction l with
  | nil => intro s; rfl
  | cons x l ih => intro s; exact ih _

omit [Preorder τ] in
theorem trace_concat {β : Type} (see : σ → τ → α → List β) (l : List (τ × α)) (now : τ) (a : α) : ∀ s : σ,
    trace step see s (l ++ [(now, a)]) = trace step see s l ++ see (after step s l) now a := by
  induction l with
  | nil =>
    intro s
    show see s now a ++ [] = [] ++ see s now a
    rw [List.append_nil, List.nil_append]
  | cons x l ih =>
    intro s
    show see s x.1 x.2 ++ trace step see _ (l ++ [(now, a)]) = _
    rw [ih, ← List.append_assoc]
    rfl

omit [Preorder τ] in
theorem ends_concat (l : List (τ × α)) (now : τ) (a : α) : ∀ t : τ, ends t (l ++ [(now, a)]) = now := by
  induction l with
  | nil => intro t; rfl
  | cons x l ih => intro t; exact ih _

theorem admitted_concat (l : List (τ × α)) (now : τ) (a : α) : ∀ {t : τ} {s : σ},
    Admitted step ok t s (l ++ [(now, a)]) ↔
      Admitted step ok t s l ∧ ends t l ≤ now ∧ ok (after step s l) now a := by
  induction l with
  | nil =>
    intro t s
    exact ⟨fun h => ⟨trivial, h.1⟩, fun h => ⟨h.2, trivial⟩⟩
  | cons x l ih =>
    intro t s
    show (_ ∧ Admitted step ok _ _ (l ++ [(now, a)])) ↔ _
    rw [ih]
    exact and_assoc.symm

omit [Preorder τ] in
theorem after_append {l l' : List (τ × α)} : ∀ {s : σ}, after step s (l ++ l') = after step (after step s l) l' := by
  induction l with
  | nil => intro s; rfl
  | cons x l ih => intro s; exact ih

theorem admitted_append {now : τ} {a : α} {l l' : List (τ × α)} : ∀ {t : τ} {s : σ},
    Admitted step ok t s (l ++ (now, a) :: l') ↔
      Admitted step ok t s l ∧ (ends t l ≤ now ∧ ok (after step s l) now a) ∧
        Admitted step ok now (step (after step s l) now a) l' := by
  induction l with
  | nil => exact fun {t s} => ⟨fun h => ⟨trivial, h⟩, fun h => h.2⟩
  | cons x l ih =>
    intro t s
    show (_ ∧ Admitted step ok _ _ (l ++ (now, a) :: l')) ↔ _
    rw [ih]
    exact and_assoc.symm

/-- A list goes on with another, taken no earlier. -/
theorem Admitted.append {l l' : List (τ × α)} : ∀ {t : τ} {s : σ}, Admitted step ok t s l → ends t l ≤ t' →
    Admitted step ok t' (after step s l) l' → Admitted step ok t s (l ++ l') := by
  induction l with
  | nil =>
    intro t s _ hle h
    cases l' with
    | nil => exact h
    | cons x l' => exact ⟨⟨le_trans hle h.1.1, h.1.2⟩, h.2⟩
  | cons x l ih =>
    intro t s h hle h'
    exact ⟨h.1, ih h.2 hle h'⟩

theorem ends_append_le {now : τ} {l l' : List (τ × α)} : ∀ {t : τ}, ends t l ≤ t' → ends t' l' ≤ now →
    ends t (l ++ l') ≤ now := by
  induction l with
  | nil =>
    intro t hle h
    cases l' with
    | nil => exact le_trans hle h
    | cons x l' => exact h
  | cons x l ih =>
    intro t hle h
    exact ih (t := x.1) hle h

theorem replay_ends {l : List (τ × α)} : ∀ {t : τ} {s : σ}, Admitted step ok t s l →
    Run step ok t s (ends t l) (after step s l) := by
  induction l with
  | nil => intro t s _; exact .refl
  | cons x l ih =>
    intro t s ⟨⟨hle, hok⟩, h⟩
    exact (single hle hok).trans (ih h)

theorem replay {l : List (τ × α)} {t : τ} {s : σ} (h : Admitted step ok t s l) :
    ∃ t', Run step ok t s t' (after step s l) := ⟨_, replay_ends h⟩

theorem forget (h : Run step ok t s t' s') : Run step anything t s t' s' :=
  h.weaken fun _ _ _ _ => trivial

end Run

end Timed
