import AgentRuns.Views
import Mathlib.Data.List.Induction
import Mathlib.Data.Set.Insert
import Mathlib.Logic.Function.Basic

/-!
# Objects that are written once

Under a key there is an object or none.  An object is created whole, where there is none, and is never changed: it is
there until it is removed.  A power cut may lose objects, and bring back what a key had before; it makes up none.

A system keeps to this (`Legal`) when each of its steps does, by what is seen of it (`legal_after`).  What follows:

    what is found was created                               (found_created)
    it stays until it is removed or the power is cut        (Legal.stays)
    a key takes no second object before that                (created_once)
-/

namespace ObjectStore

open Timed

/-- The object under each key, and all those it ever had. -/
structure Objects (κ β : Type) where
  at_ : κ → Option β
  former : κ → Set β

/-- What happens to the objects, and what is read of them; `op` tells whose doing it is. -/
inductive Event (ι κ β : Type) where
  | created (op : ι) (key : κ) (object : β)
  | removed (key : κ)
  | found (op : ι) (key : κ) (object : Option β)
  | cut

variable {ι κ β : Type}

def Objects.empty : Objects κ β := ⟨fun _ => none, fun _ => ∅⟩

variable [DecidableEq κ]

/-- One event, from the objects before it to those after. -/
inductive Takes : Objects κ β → Event ι κ β → Objects κ β → Prop
  | created {s : Objects κ β} {op : ι} {key : κ} {object : β} : s.at_ key = none → Takes s (.created op key object)
      ⟨Function.update s.at_ key (some object), Function.update s.former key (insert object (s.former key))⟩
  | removed {s : Objects κ β} {key : κ} : Takes s (.removed key) { s with at_ := Function.update s.at_ key none }
  | found {s : Objects κ β} {op : ι} {key : κ} {object : Option β} : s.at_ key = object → Takes s (.found op key object) s
  | cut {s s' : Objects κ β} : (∀ key object, s'.at_ key = some object → object ∈ s.former key) → s'.former = s.former →
      Takes s .cut s'

/-- Events one after another. -/
inductive Legal : Objects κ β → List (Event ι κ β) → Objects κ β → Prop
  | nil (s : Objects κ β) : Legal s [] s
  | cons {s s' s'' : Objects κ β} {e : Event ι κ β} {es : List (Event ι κ β)} :
      Takes s e s' → Legal s' es s'' → Legal s (e :: es) s''

variable {s s' s'' : Objects κ β} {e : Event ι κ β} {es es' : List (Event ι κ β)} {key : κ} {object : β} {op : ι}

theorem Legal.single (h : Takes s e s') : Legal s [e] s' := .cons h (.nil s')

theorem Legal.append (h : Legal s es s') (h' : Legal s' es' s'') : Legal s (es ++ es') s'' := by
  induction h with
  | nil => exact h'
  | cons he _ ih => exact .cons he (ih h')

/-- A run keeps to it when each step does, from states and pasts that `P` holds of. -/
theorem legal_after {σ α τ : Type} {step : σ → τ → α → σ} {see : σ → τ → α → List (Event ι κ β)} {view : σ → Objects κ β}
    {P : List (Event ι κ β) → σ → Prop} {ok : τ → α → Prop}
    (hstep : ∀ es s now a, P es s → ok now a →
      Legal (view s) (see s now a) (view (step s now a)) ∧ P (es ++ see s now a) (step s now a))
    {s : σ} (h0 : P [] s) (l : List (τ × α)) : (∀ x ∈ l, ok x.1 x.2) →
      Legal (view s) (Run.trace step see s l) (view (Run.after step s l)) ∧ P (Run.trace step see s l) (Run.after step s l) := by
  induction l using List.reverseRecOn with
  | nil => exact fun _ => ⟨.nil (view s), h0⟩
  | append_singleton l x ih =>
    intro hok
    obtain ⟨now, a⟩ := x
    obtain ⟨hlegal, hP⟩ := ih fun x hx => hok x (List.mem_append_left _ hx)
    obtain ⟨hlast, hP⟩ := hstep _ _ now a hP (hok (now, a) (List.mem_append_right _ List.mem_cons_self))
    rw [Run.after_concat, Run.trace_concat]
    exact ⟨hlegal.append hlast, hP⟩

/-! ## What was created -/

/-- The object is one the key has now, or had. -/
def Objects.Known (s : Objects κ β) : Prop := ∀ key object, s.at_ key = some object → object ∈ s.former key

theorem Takes.known (h : Takes s e s') (hs : s.Known) : s'.Known := by
  intro key object hobject
  cases h with
  | @created op k b hnone =>
    dsimp only at hobject ⊢
    by_cases hk : key = k
    · subst hk
      rw [Function.update_self] at hobject ⊢
      cases hobject
      exact Set.mem_insert ..
    · rw [Function.update_of_ne hk] at hobject ⊢
      exact hs key object hobject
  | @removed k =>
    dsimp only at hobject ⊢
    by_cases hk : key = k
    · subst hk
      rw [Function.update_self] at hobject
      cases hobject
    · rw [Function.update_of_ne hk] at hobject
      exact hs key object hobject
  | found => exact hs key object hobject
  | cut hkept hformer =>
    rw [hformer]
    exact hkept key object hobject

omit [DecidableEq κ] in
theorem known_empty : (Objects.empty : Objects κ β).Known := fun _ _ h => by cases h

/-- What a key had after an event, it had before, or has it by the event. -/
theorem Takes.former (h : Takes s e s') (hobject : object ∈ s'.former key) :
    object ∈ s.former key ∨ ∃ op, e = .created op key object := by
  cases h with
  | @created op k b hnone =>
    dsimp only at hobject
    by_cases hk : key = k
    · subst hk
      rw [Function.update_self] at hobject
      rcases Set.mem_insert_iff.1 hobject with rfl | hobject
      · exact .inr ⟨op, rfl⟩
      · exact .inl hobject
    · rw [Function.update_of_ne hk] at hobject
      exact .inl hobject
  | removed => exact .inl hobject
  | found => exact .inl hobject
  | cut _ hformer =>
    rw [hformer] at hobject
    exact .inl hobject

/-- Every object was there at first or was created. -/
theorem Legal.former (h : Legal s es s') (hobject : object ∈ s'.former key) :
    object ∈ s.former key ∨ ∃ op, .created op key object ∈ es := by
  induction h with
  | nil => exact .inl hobject
  | cons he _ ih =>
    rcases ih hobject with hobject | ⟨op, hmem⟩
    · rcases he.former hobject with hobject | ⟨op, rfl⟩
      · exact .inl hobject
      · exact .inr ⟨op, List.mem_cons_self⟩
    · exact .inr ⟨op, List.mem_cons_of_mem _ hmem⟩

theorem Legal.known (h : Legal s es s') (hs : s.Known) : s'.Known := by
  induction h with
  | nil => exact hs
  | cons he _ ih => exact ih (he.known hs)

/-- What is found was created. -/
theorem found_created (h : Legal Objects.empty es s) (hfound : .found op key (some object) ∈ es) :
    ∃ op', .created op' key object ∈ es := by
  obtain ⟨before, rest, rfl⟩ := List.append_of_mem hfound
  obtain ⟨s₁, hbefore, hrest⟩ : ∃ s₁, Legal Objects.empty before s₁ ∧ Legal s₁ (.found op key (some object) :: rest) s := by
    clear hfound
    generalize Objects.empty = s₀ at h
    induction before generalizing s₀ with
    | nil => exact ⟨s₀, .nil s₀, h⟩
    | cons e before ih =>
      cases h with
      | cons he h =>
        obtain ⟨s₁, hbefore, hrest⟩ := ih _ h
        exact ⟨s₁, .cons he hbefore, hrest⟩
  cases hrest with
  | cons he _ =>
    cases he with
    | found hat =>
      rcases hbefore.former (hbefore.known known_empty key object hat) with hmem | ⟨op', hmem⟩
      · exact absurd hmem (Set.notMem_empty object)
      · exact ⟨op', List.mem_append_left _ hmem⟩

/-! ## Until it is removed -/

/-- An event that may take the object under a key away. -/
def Event.takesAway (key : κ) : Event ι κ β → Bool
  | .removed k => k = key
  | .cut => true
  | _ => false

def Event.creates (key : κ) : Event ι κ β → Bool
  | .created _ k _ => k = key
  | _ => false

theorem Takes.stays (h : Takes s e s') (haway : e.takesAway key = false) (hat : s.at_ key = some object) :
    s'.at_ key = some object ∧ e.creates key = false := by
  cases h with
  | @created op k b hnone =>
    have hk : key ≠ k := by
      rintro rfl
      rw [hat] at hnone
      cases hnone
    exact ⟨(Function.update_of_ne hk ..).trans hat, decide_eq_false (Ne.symm hk)⟩
  | @removed k =>
    have hk : key ≠ k := by
      rintro rfl
      simp [Event.takesAway] at haway
    exact ⟨(Function.update_of_ne hk ..).trans hat, rfl⟩
  | found => exact ⟨hat, rfl⟩
  | cut => cases haway

/-- An object stays, and keeps others away from its key. -/
theorem Legal.stays (h : Legal s es s') (haway : ∀ e ∈ es, e.takesAway key = false) (hat : s.at_ key = some object) :
    s'.at_ key = some object ∧ ∀ e ∈ es, e.creates key = false := by
  induction h with
  | nil => exact ⟨hat, fun _ h => absurd h List.not_mem_nil⟩
  | cons he _ ih =>
    obtain ⟨hat, hno⟩ := he.stays (haway _ List.mem_cons_self) hat
    obtain ⟨hat, hrest⟩ := ih (fun e h => haway e (List.mem_cons_of_mem _ h)) hat
    exact ⟨hat, fun e h => (List.mem_cons.1 h).elim (fun he => he ▸ hno) (hrest e)⟩

/-- While nothing is taken away, a key takes one object. -/
theorem created_once (h : Legal s es s') (haway : ∀ e ∈ es, e.takesAway key = false) :
    (es.filter (Event.creates key)).length ≤ 1 := by
  induction h with
  | nil => exact Nat.zero_le 1
  | @cons s s₁ s' e es he h ih =>
    have hrest : ∀ e ∈ es, e.takesAway key = false := fun e h => haway e (List.mem_cons_of_mem _ h)
    by_cases hc : e.creates key = true
    · have hat : ∃ object, s₁.at_ key = some object := by
        cases he with
        | @created op k b _ =>
          obtain rfl : k = key := by simpa [Event.creates] using hc
          exact ⟨b, Function.update_self ..⟩
        | removed => cases hc
        | found => cases hc
        | cut => cases hc
      obtain ⟨object, hat⟩ := hat
      have hnone := (h.stays hrest hat).2
      rw [List.filter_cons_of_pos hc, List.filter_eq_nil_iff.2 fun e he => by simp [hnone e he]]
      exact le_rfl
    · rw [List.filter_cons_of_neg hc]
      exact ih hrest

/-- While nothing is taken away, what is found under a key is what was created there. -/
theorem found_unique (h : Legal Objects.empty es s) (haway : ∀ e ∈ es, e.takesAway key = false)
    (hcreated : .created op key object ∈ es) {op' : ι} {object' : β} (hfound : .found op' key (some object') ∈ es) :
    object' = object := by
  obtain ⟨op'', hcreated'⟩ := found_created h hfound
  have hmem : ∀ {op b}, .created op key b ∈ es → .created op key b ∈ es.filter (Event.creates key) := fun hb =>
    List.mem_filter.2 ⟨hb, by simp [Event.creates]⟩
  have hone := created_once h haway
  obtain ⟨e, he⟩ := List.length_eq_one_iff.1 (Nat.le_antisymm hone (List.length_pos_of_mem (hmem hcreated)))
  have h₁ := hmem hcreated
  have h₂ := hmem hcreated'
  rw [he, List.mem_singleton] at h₁ h₂
  rw [← h₁] at h₂
  cases h₂
  rfl

/-! ## Puts and readers by their number -/

theorem getElem?_concat {α : Type} {a b : α} {j : Nat} {l : List α} (h : (l ++ [a])[j]? = some b) :
    l[j]? = some b ∨ j = l.length ∧ b = a := by
  have hlt := (List.getElem?_eq_some_iff.1 h).1
  rw [List.length_append, List.length_singleton] at hlt
  by_cases hj : j < l.length
  · rw [List.getElem?_append_left hj] at h
    exact .inl h
  · obtain rfl : j = l.length := by omega
    rw [List.getElem?_concat_length] at h
    exact .inr ⟨rfl, (Option.some.inj h).symm⟩

theorem getElem?_concat_of_some {α : Type} {a b : α} {j : Nat} {l : List α} (h : l[j]? = some b) : (l ++ [a])[j]? = some b := by
  rw [List.getElem?_append_left (List.getElem?_eq_some_iff.1 h).1, h]

end ObjectStore
