import Mathlib.Algebra.Order.BigOperators.Group.Finset

/-!
# Sharing by need

Owners hold items: `held` has the pairs.  Who is granted one is among those who hold fewest, so an owner `t` that waits is
passed over by another only while that one holds no more than `t` does: `behind` counts how often that may still be.

    behind_le      :  no more than once more for each than `t` holds
    behind_step    :  only what the others return, and owners that are new, make it longer
    behind_grant   :  each grant that passes over `t` makes it shorter
-/

namespace Sharing

variable {κ ι : Type} [DecidableEq κ] [DecidableEq ι] {us vs : Finset κ} {held held' : Finset (κ × ι)} {t u : κ}

/-- How many items an owner holds. -/
def share (held : Finset (κ × ι)) (u : κ) : ℕ := (held.filter (·.1 = u)).card

/-- How many grants the others may get before `t`. -/
def behind (us : Finset κ) (held : Finset (κ × ι)) (t : κ) : ℕ := ∑ u ∈ us.erase t, (share held t + 1 - share held u)

/-- What owners other than `t` hold no longer. -/
def returned (t : κ) (held held' : Finset (κ × ι)) : Finset (κ × ι) := held.filter (·.1 ≠ t) \ held'

omit [DecidableEq ι] in
theorem behind_le : behind us held t ≤ (us.erase t).card * (share held t + 1) := by
  unfold behind
  refine (Finset.sum_le_card_nsmul _ _ (share held t + 1) fun u _ => Nat.sub_le _ _).trans_eq ?_
  rw [Nat.nsmul_eq_mul]

/-- An owner holds no less than before, but for what it returned. -/
theorem share_le (hu : u ≠ t) : share held u ≤ share held' u + ((returned t held held').filter (·.1 = u)).card := by
  unfold share returned
  rw [← Nat.sub_le_iff_le_add']
  refine (Finset.le_card_sdiff _ _).trans (Finset.card_le_card fun x hx => ?_)
  simp only [Finset.mem_sdiff, Finset.mem_filter, not_and] at hx ⊢
  obtain ⟨⟨hheld, rfl⟩, hnot⟩ := hx
  exact ⟨⟨⟨hheld, hu⟩, fun h => hnot h rfl⟩, rfl⟩

theorem sum_returned_le : ∑ u ∈ us, ((returned t held held').filter (·.1 = u)).card ≤ (returned t held held').card := by
  rw [Finset.sum_card_fiberwise_eq_card_filter]
  exact Finset.card_filter_le _ _

/-- As long as `t` is granted nothing. -/
theorem behind_step (ht : share held' t ≤ share held t) :
    behind vs held' t ≤ behind us held t + (returned t held held').card + (vs \ us).card * (share held t + 1) := by
  have hsplit : vs.erase t ⊆ us.erase t ∪ vs \ us := by
    intro u hu
    obtain ⟨hne, hu⟩ := Finset.mem_erase.1 hu
    by_cases hin : u ∈ us
    · exact Finset.mem_union_left _ (Finset.mem_erase.2 ⟨hne, hin⟩)
    · exact Finset.mem_union_right _ (Finset.mem_sdiff.2 ⟨hu, hin⟩)
  have hold : ∑ u ∈ us.erase t, (share held' t + 1 - share held' u) ≤ behind us held t + (returned t held held').card := by
    have hone : ∀ u ∈ us.erase t, share held' t + 1 - share held' u ≤
        (share held t + 1 - share held u) + ((returned t held held').filter (·.1 = u)).card := by
      intro u hu
      have hle : share held u ≤ share held' u + ((returned t held held').filter (·.1 = u)).card :=
        share_le (Finset.ne_of_mem_erase hu)
      omega
    calc ∑ u ∈ us.erase t, (share held' t + 1 - share held' u)
        ≤ ∑ u ∈ us.erase t, ((share held t + 1 - share held u) + ((returned t held held').filter (·.1 = u)).card) :=
          Finset.sum_le_sum hone
      _ = behind us held t + ∑ u ∈ us.erase t, ((returned t held held').filter (·.1 = u)).card := Finset.sum_add_distrib
      _ ≤ behind us held t + (returned t held held').card := Nat.add_le_add_left sum_returned_le _
  have hnew : ∑ u ∈ vs \ us, (share held' t + 1 - share held' u) ≤ (vs \ us).card * (share held t + 1) := by
    refine (Finset.sum_le_card_nsmul _ _ (share held t + 1) fun u _ => ?_).trans_eq (Nat.nsmul_eq_mul _ _)
    omega
  calc behind vs held' t
      ≤ ∑ u ∈ us.erase t ∪ vs \ us, (share held' t + 1 - share held' u) := Finset.sum_le_sum_of_subset hsplit
    _ ≤ ∑ u ∈ us.erase t, (share held' t + 1 - share held' u) + ∑ u ∈ vs \ us, (share held' t + 1 - share held' u) := by
        rw [← Finset.sum_union_inter]
        exact Nat.le_add_right _ _
    _ ≤ behind us held t + (returned t held held').card + (vs \ us).card * (share held t + 1) := Nat.add_le_add hold hnew

/-- Another is granted one, that held no more than `t`. -/
theorem behind_grant {i : ι} (hu : u ∈ us.erase t) (hle : share held u ≤ share held t) (hnew : (u, i) ∉ held) :
    behind us (insert (u, i) held) t + 1 ≤ behind us held t := by
  have hne : u ≠ t := Finset.ne_of_mem_erase hu
  have hshare : share (insert (u, i) held) u = share held u + 1 := by
    unfold share
    rw [Finset.filter_insert, if_pos rfl, Finset.card_insert_of_notMem]
    exact fun h => hnew (Finset.mem_filter.1 h).1
  have hother : ∀ v, v ≠ u → share (insert (u, i) held) v = share held v := by
    intro v hv
    unfold share
    rw [Finset.filter_insert, if_neg (fun h => hv h.symm)]
  unfold behind
  rw [hother t hne.symm, ← Finset.add_sum_erase _ _ hu, ← Finset.add_sum_erase _ _ hu, hshare]
  have hrest : ∑ v ∈ (us.erase t).erase u, (share held t + 1 - share (insert (u, i) held) v) =
      ∑ v ∈ (us.erase t).erase u, (share held t + 1 - share held v) :=
    Finset.sum_congr rfl fun v hv => by rw [hother v (Finset.ne_of_mem_erase hv)]
  omega

end Sharing
