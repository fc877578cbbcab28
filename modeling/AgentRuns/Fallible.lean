import Mathlib.Data.List.Forall2

/-!
# Programs that can refuse

A program that raises is an `Except`: what it did when it returned, or why it refused.  A
successful run comes apart at its binds (`bind_ok`), its guards (`refuse_ok`) and its loops
over a list (`each_ok`), so no proof unfolds a whole program.
-/

namespace Fallible

variable {ε α β γ : Type}

theorem bind_ok {x : Except ε α} {f : α → Except ε β} {b : β} :
    (x >>= f) = .ok b ↔ ∃ a, x = .ok a ∧ f a = .ok b := by
  cases x with
  | error e => simp [bind, Except.bind]
  | ok a => simp [bind, Except.bind]

@[simp] theorem ok_bind (a : α) (f : α → Except ε β) : (Except.ok a >>= f) = f a := rfl

theorem error_bind (e : ε) (f : α → Except ε β) : (Except.error e >>= f) = .error e := rfl

/-- Raise `e` when `c` holds. -/
def refuse (c : Prop) [Decidable c] (e : ε) : Except ε Unit := if c then .error e else .ok ()

theorem refuse_ok {c : Prop} [Decidable c] {e : ε} {u : Unit} : refuse c e = .ok u ↔ ¬ c := by
  unfold refuse
  by_cases h : c <;> simp [h]

theorem refuse_of {c : Prop} [Decidable c] (e : ε) (h : c) : refuse c e = .error e := if_pos h

theorem refuse_of_not {c : Prop} [Decidable c] (e : ε) (h : ¬ c) : refuse c e = .ok () := if_neg h

/-- Run `f` on each element in turn; the first one refused refuses the whole. -/
def each (f : α → Except ε β) : List α → Except ε (List β)
  | [] => .ok []
  | a :: as =>
    match f a with
    | .error e => .error e
    | .ok b =>
      match each f as with
      | .error e => .error e
      | .ok bs => .ok (b :: bs)

theorem each_ok {f : α → Except ε β} : ∀ {as : List α} {bs : List β},
    each f as = .ok bs ↔ List.Forall₂ (fun a b => f a = .ok b) as bs := by
  intro as
  induction as with
  | nil =>
    intro bs
    constructor
    · intro h
      cases h
      exact .nil
    · intro h
      cases h
      rfl
  | cons a as ih =>
    intro bs
    unfold each
    constructor
    · intro h
      split at h
      · cases h
      · next b hb =>
        split at h
        · cases h
        · next bs' hbs =>
          cases h
          exact .cons hb (ih.1 hbs)
    · rintro (_ | ⟨hb, hbs⟩)
      rw [hb, ih.2 hbs]

/-- What a loop returns came of its own elements. -/
theorem each_mem {R : α → β → Prop} {as : List α} {bs : List β} (h : List.Forall₂ R as bs) :
    List.Forall₂ (fun a b => a ∈ as ∧ R a b) as bs := by
  induction h with
  | nil => exact .nil
  | cons hr _ ih =>
    exact .cons ⟨List.mem_cons_self, hr⟩ (ih.imp fun a b h => ⟨List.mem_cons_of_mem _ h.1, h.2⟩)

theorem exists_of_mem_right {R : α → β → Prop} {as : List α} {bs : List β} {b : β} (h : List.Forall₂ R as bs)
    (hb : b ∈ bs) : ∃ a ∈ as, R a b := by
  induction h with
  | nil => cases hb
  | cons hr _ ih =>
    rcases List.mem_cons.1 hb with rfl | hb
    · exact ⟨_, List.mem_cons_self, hr⟩
    · obtain ⟨a, ha, hab⟩ := ih hb
      exact ⟨a, List.mem_cons_of_mem _ ha, hab⟩

theorem exists_of_mem_left {R : α → β → Prop} {as : List α} {bs : List β} {a : α} (h : List.Forall₂ R as bs)
    (ha : a ∈ as) : ∃ b ∈ bs, R a b := by
  induction h with
  | nil => cases ha
  | cons hr _ ih =>
    rcases List.mem_cons.1 ha with rfl | ha
    · exact ⟨_, List.mem_cons_self, hr⟩
    · obtain ⟨b, hb, hab⟩ := ih ha
      exact ⟨b, List.mem_cons_of_mem _ hb, hab⟩

/-- A loop whose body is never refused is not refused. -/
theorem each_total {f : α → Except ε β} : ∀ {as : List α}, (∀ a ∈ as, ∃ b, f a = .ok b) →
    ∃ bs, each f as = .ok bs := by
  intro as
  induction as with
  | nil => intro _; exact ⟨[], rfl⟩
  | cons a as ih =>
    intro h
    obtain ⟨b, hb⟩ := h a List.mem_cons_self
    obtain ⟨bs, hbs⟩ := ih fun c hc => h c (List.mem_cons_of_mem _ hc)
    exact ⟨b :: bs, each_ok.2 (.cons hb (each_ok.1 hbs))⟩

/-- The whole state after a program, the old one when it refused: a transaction. -/
def orElse (s : α) : Except ε (α × γ) → α
  | .error _ => s
  | .ok (s', _) => s'

@[simp] theorem orElse_ok (s s' : α) (c : γ) : orElse s (.ok (s', c) : Except ε (α × γ)) = s' := rfl

/-- A result that passes a test is one. -/
theorem ok_of_any {ε α : Type} {x : Except ε α} {p : α → Bool} (h : x.toOption.any p = true) :
    ∃ a, x = .ok a ∧ p a = true := by
  cases x with
  | error e => cases h
  | ok a => exact ⟨a, rfl, h⟩

end Fallible
