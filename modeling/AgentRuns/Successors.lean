import Mathlib.Data.Finset.Card
import Mathlib.Order.Bounds.Basic

/-!
# One after another

The elements of a set in an order that come after a point, each the least after the one before.

    none is between one and the next                                     (Next.le_of_lt)
    n elements of S after a             →  a walk of n                   (Walk.exists_of_card)
-/

namespace Successive

variable {α : Type} [LinearOrder α] {S : Set α} {a t u : α} {ts : List α}

/-- The least after a point. -/
def Next (S : Set α) (a t : α) : Prop := IsLeast {u | u ∈ S ∧ a < u} t

theorem Next.mem (h : Next S a t) : t ∈ S := h.1.1

theorem Next.gt (h : Next S a t) : a < t := h.1.2

theorem Next.le (h : Next S a t) (hu : u ∈ S) (hlt : a < u) : t ≤ u := h.2 ⟨hu, hlt⟩

/-- None is between. -/
theorem Next.le_of_lt (h : Next S a t) (hu : u ∈ S) (hlt : u < t) : u ≤ a := by
  by_contra hgt
  exact absurd (h.le hu (not_le.1 hgt)) (not_le.2 hlt)

theorem Next.unique (h : Next S a t) (h' : Next S a u) : t = u := IsLeast.unique h h'

/-- These are the next after `a`, in a row. -/
inductive Walk (S : Set α) : α → List α → Prop
  | nil (a : α) : Walk S a []
  | cons {a t : α} {ts : List α} : Next S a t → Walk S t ts → Walk S a (t :: ts)

theorem Walk.mem (h : Walk S a ts) (ht : t ∈ ts) : t ∈ S ∧ a < t := by
  induction h with
  | nil => exact absurd ht List.not_mem_nil
  | cons hnext _ ih =>
    rcases List.mem_cons.1 ht with rfl | ht
    · exact ⟨hnext.mem, hnext.gt⟩
    · exact ⟨(ih ht).1, hnext.gt.trans (ih ht).2⟩

/-- They are in order. -/
theorem Walk.pairwise (h : Walk S a ts) : ts.Pairwise (· < ·) := by
  induction h with
  | nil => exact .nil
  | cons _ hwalk ih => exact .cons (fun t ht => (hwalk.mem ht).2) ih

theorem Walk.nodup (h : Walk S a ts) : ts.Nodup := h.pairwise.imp fun hlt => hlt.ne

/-- Where so many come after a point, there is a walk of them. -/
theorem Walk.exists_of_card (hnext : ∀ {b u}, u ∈ S → b < u → ∃ t, Next S b t) {last : α} (n : ℕ) :
    ∀ {a : α} {times : Finset α}, n ≤ times.card → (∀ t ∈ times, t ∈ S ∧ a < t ∧ t ≤ last) →
      ∃ ts, Walk S a ts ∧ ts.length = n ∧ ∀ t ∈ ts, t ≤ last := by
  induction n with
  | zero => intro a times _ _; exact ⟨[], .nil a, rfl, fun t ht => absurd ht List.not_mem_nil⟩
  | succ n ih =>
    intro a times hcard htimes
    obtain ⟨u, hu⟩ := Finset.card_pos.1 (by omega : 0 < times.card)
    obtain ⟨t, ht⟩ := hnext (htimes u hu).1 (htimes u hu).2.1
    have hle : ∀ v ∈ times, t ≤ v := fun v hv => ht.le (htimes v hv).1 (htimes v hv).2.1
    have hrest : ∀ v ∈ times.erase t, v ∈ S ∧ t < v ∧ v ≤ last := by
      intro v hv
      obtain ⟨hne, hv⟩ := Finset.mem_erase.1 hv
      exact ⟨(htimes v hv).1, (hle v hv).lt_of_ne hne.symm, (htimes v hv).2.2⟩
    have hn : n ≤ (times.erase t).card := by
      have := Finset.pred_card_le_card_erase (s := times) (a := t)
      omega
    obtain ⟨ts, hwalk, hlen, hlast⟩ := ih hn hrest
    refine ⟨t :: ts, .cons ht hwalk, by rw [List.length_cons, hlen], fun v hv => ?_⟩
    rcases List.mem_cons.1 hv with rfl | hv
    · exact (hle u hu).trans (htimes u hu).2.2
    · exact hlast v hv

end Successive
