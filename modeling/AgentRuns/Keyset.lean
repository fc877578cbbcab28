import Mathlib.Data.List.Sort
import Mathlib.Order.Basic

/-!
# Keyset pages

Rows are read a page at a time in the order of a key: a page is what follows a position, and one row more than a page is
fetched to tell whether another follows.  A walk follows the pages, the rows being others at each request.

    (following key rows after).Pairwise (key · < key ·)                                    (following_sorted)
    following key rows after = page … ++ following key rows k,   k = next …                (following_next)
    the walk's rows are in strict order, whatever the rows are at each request             (walk_ordered)
    what is there at every request is in the walk, once it is done or has come so far      (walk_reaches)
    a walk of rows that stay is done when its pages could hold them                        (walk_done)
-/

namespace Keyset

variable {α κ : Type} [LinearOrder κ]

/-! ## One page -/

/-- The rows after a position, in the order of their keys. -/
def following (key : α → κ) (rows : List α) (after : Option κ) : List α :=
  (rows.filter fun a => ∀ k ∈ after, k < key a).insertionSort fun a b => key a ≤ key b

/-- One row more than a page. -/
def fetch (key : α → κ) (limit : Nat) (rows : List α) (after : Option κ) : List α := (following key rows after).take (limit + 1)

/-- The rows of the page. -/
def page (key : α → κ) (limit : Nat) (rows : List α) (after : Option κ) : List α := (fetch key limit rows after).take limit

/-- Where the next page starts, when there is one. -/
def next (key : α → κ) (limit : Nat) (rows : List α) (after : Option κ) : Option κ :=
  if limit < (fetch key limit rows after).length then (page key limit rows after).getLast?.map key else none

section
variable {key : α → κ} {limit : Nat} {rows : List α} {after : Option κ} {k : κ} {a : α}

theorem mem_following : a ∈ following key rows after ↔ a ∈ rows ∧ ∀ k ∈ after, k < key a := by
  unfold following
  rw [List.mem_insertionSort, List.mem_filter, decide_eq_true_iff]

/-- Rows no two with one key stand in strict order. -/
theorem following_sorted (hn : (rows.map key).Nodup) (after : Option κ) :
    (following key rows after).Pairwise fun a b => key a < key b := by
  have hle : (following key rows after).Pairwise fun a b => key a ≤ key b := by
    have : Std.Total fun a b : α => key a ≤ key b := ⟨fun a b => le_total (key a) (key b)⟩
    have : IsTrans α fun a b : α => key a ≤ key b := ⟨fun a b c => le_trans⟩
    exact List.pairwise_insertionSort _ _
  have hne : (following key rows after).Pairwise fun a b => key a ≠ key b := by
    have hperm : (following key rows after).Perm (rows.filter fun a => ∀ k ∈ after, k < key a) :=
      List.perm_insertionSort _ _
    have hkept : ((rows.filter fun a => ∀ k ∈ after, k < key a).map key).Nodup :=
      (List.Sublist.map key List.filter_sublist).nodup hn
    exact List.pairwise_map.1 ((hperm.map key).nodup_iff.2 hkept)
  exact hle.imp₂ (fun a b => lt_of_le_of_ne) hne

theorem page_eq : page key limit rows after = (following key rows after).take limit := by
  unfold page fetch
  rw [List.take_take, Nat.min_eq_left (by omega)]

theorem of_mem_page (h : a ∈ page key limit rows after) : a ∈ rows ∧ ∀ k ∈ after, k < key a := by
  rw [page_eq] at h
  exact mem_following.1 (List.mem_of_mem_take h)

theorem next_eq : next key limit rows after =
    if limit < (following key rows after).length then (page key limit rows after).getLast?.map key else none := by
  unfold next fetch
  rw [List.length_take]
  congr 1
  simp

theorem page_sorted (hn : (rows.map key).Nodup) (limit : Nat) (after : Option κ) :
    (page key limit rows after).Pairwise fun a b => key a < key b := by
  rw [page_eq]
  exact (following_sorted hn after).sublist (List.take_sublist _ _)

/-- Without a next page the page is all that follows. -/
theorem page_of_next_none (hlimit : 0 < limit) (h : next key limit rows after = none) :
    page key limit rows after = following key rows after := by
  rw [next_eq] at h
  have hle : (following key rows after).length ≤ limit := by
    by_contra hlt
    rw [if_pos (by omega), Option.map_eq_none_iff, List.getLast?_eq_none_iff, page_eq, List.take_eq_nil_iff] at h
    rcases h with h | h
    · omega
    · rw [h] at hlt
      exact hlt (Nat.zero_le limit)
  rw [page_eq, List.take_of_length_le hle]

/-- The next page starts after the last row of this one. -/
theorem last_of_next (h : next key limit rows after = some k) :
    limit < (following key rows after).length ∧ ∃ front a, page key limit rows after = front ++ [a] ∧ key a = k := by
  rw [next_eq] at h
  by_cases hlt : limit < (following key rows after).length
  · rw [if_pos hlt, Option.map_eq_some_iff] at h
    obtain ⟨a, ha, hk⟩ := h
    obtain ⟨front, hfront⟩ := List.getLast?_eq_some_iff.1 ha
    exact ⟨hlt, front, a, hfront, hk⟩
  · rw [if_neg hlt] at h
    cases h

/-- The page goes up to where the next one starts. -/
theorem page_le (hn : (rows.map key).Nodup) (h : next key limit rows after = some k) (ha : a ∈ page key limit rows after) :
    key a ≤ k := by
  obtain ⟨-, front, b, hpage, rfl⟩ := last_of_next h
  have hsorted := page_sorted hn limit after
  rw [hpage] at ha hsorted
  rcases List.mem_append.1 ha with ha | ha
  · exact le_of_lt ((List.pairwise_append.1 hsorted).2.2 a ha b List.mem_cons_self)
  · rw [List.mem_singleton.1 ha]

/-- What follows is the page and what follows the next position. -/
theorem following_next (hn : (rows.map key).Nodup) (h : next key limit rows after = some k) :
    following key rows after = page key limit rows after ++ following key rows (some k) := by
  have hsorted := following_sorted hn after
  obtain ⟨-, front, b, hpage, hb⟩ := last_of_next h
  have hbmem : b ∈ page key limit rows after := by
    rw [hpage]
    exact List.mem_append_right _ List.mem_cons_self
  have hsplit : following key rows after = page key limit rows after ++ (following key rows after).drop limit := by
    rw [page_eq, List.take_append_drop]
  have hrest : (following key rows after).drop limit = following key rows (some k) := by
    have hparts := hsplit ▸ hsorted
    obtain ⟨-, hdrop, hcross⟩ := List.pairwise_append.1 hparts
    have hnodup : ∀ {as : List α}, (as.Pairwise fun a b => key a < key b) → as.Nodup := by
      intro as has
      exact has.imp fun hlt he => (ne_of_lt hlt) (congrArg key he)
    have hperm : ((following key rows after).drop limit).Perm (following key rows (some k)) := by
      rw [List.perm_ext_iff_of_nodup (hnodup hdrop) (hnodup (following_sorted hn (some k)))]
      intro a
      rw [mem_following]
      constructor
      · intro ha
        refine ⟨(mem_following.1 (List.mem_of_mem_drop ha)).1, fun k' hk' => ?_⟩
        cases hk'
        exact hb ▸ hcross b hbmem a ha
      · rintro ⟨ha, hlt⟩
        have hk : k < key a := hlt k rfl
        have hmem : a ∈ following key rows after := by
          refine mem_following.2 ⟨ha, fun k' hk' => ?_⟩
          have hb' := (of_mem_page hbmem).2 k' hk'
          exact lt_trans hb' (hb ▸ hk)
        rw [hsplit] at hmem
        rcases List.mem_append.1 hmem with hmem | hmem
        · exact absurd (page_le hn h hmem) (not_le.2 hk)
        · exact hmem
    exact List.Perm.eq_of_pairwise (fun a b _ _ hab hba => (lt_asymm hab hba).elim) hdrop (following_sorted hn (some k)) hperm
  rw [← hrest]
  exact hsplit

/-- A page is what follows up to the next position. -/
theorem mem_page (hlimit : 0 < limit) (hn : (rows.map key).Nodup) : a ∈ page key limit rows after ↔
    a ∈ rows ∧ (∀ k ∈ after, k < key a) ∧ ∀ k ∈ next key limit rows after, key a ≤ k := by
  constructor
  · intro ha
    obtain ⟨hmem, hafter⟩ := of_mem_page ha
    exact ⟨hmem, hafter, fun k hk => page_le hn hk ha⟩
  · rintro ⟨hmem, hafter, hle⟩
    have ha := mem_following.2 ⟨hmem, hafter⟩
    cases hnext : next key limit rows after with
    | none => exact page_of_next_none hlimit hnext ▸ ha
    | some k =>
      rw [following_next hn hnext] at ha
      rcases List.mem_append.1 ha with ha | ha
      · exact ha
      · have hlt : k < key a := (mem_following.1 ha).2 k rfl
        exact absurd (hle k hnext) (not_le.2 hlt)

end

/-! ## Walks -/

/-- Where a walk has come. -/
inductive Ending (κ : Type) where
  /-- the last page carries no position -/
  | done
  /-- the next page is after it -/
  | more (after : Option κ)

/-- A walk over the rows as they are at each request: its pages, and where it has come. -/
def walk (key : α → κ) (limit : Nat) : Option κ → List (List α) → List (List α) × Ending κ
  | after, [] => ([], .more after)
  | after, rows :: later =>
    match next key limit rows after with
    | none => ([page key limit rows after], .done)
    | some k => (page key limit rows after :: (walk key limit (some k) later).1, (walk key limit (some k) later).2)

/-- The walk has come past a key. -/
def Ending.Past : Ending κ → κ → Prop
  | done, _ => True
  | more after, k => ∃ k' ∈ after, k ≤ k'

section
variable {key : α → κ} {limit : Nat}

/-- The rows of a walk are after where it starts, in strict order. -/
theorem walk_ordered : ∀ (states : List (List α)) (after : Option κ), (∀ rows ∈ states, (rows.map key).Nodup) →
    ((walk key limit after states).1.flatten.Pairwise fun a b => key a < key b) ∧
      ∀ a ∈ (walk key limit after states).1.flatten, ∀ k ∈ after, k < key a
  | [], after, _ => ⟨List.Pairwise.nil, fun a ha => by cases ha⟩
  | rows :: later, after, hn => by
    have hrows := hn rows List.mem_cons_self
    have hpage : ∀ a ∈ page key limit rows after, ∀ k ∈ after, k < key a := fun a ha => (of_mem_page ha).2
    unfold walk
    cases hnext : next key limit rows after with
    | none =>
      dsimp only
      rw [List.flatten_singleton]
      exact ⟨page_sorted hrows limit after, hpage⟩
    | some k =>
      obtain ⟨hsorted, hafter⟩ := walk_ordered later (some k) fun rows' h => hn rows' (List.mem_cons_of_mem _ h)
      have hcross : ∀ a ∈ page key limit rows after, ∀ b ∈ (walk key limit (some k) later).1.flatten, key a < key b :=
        fun a ha b hb => lt_of_le_of_lt (page_le hrows hnext ha) (hafter b hb k rfl)
      dsimp only
      rw [List.flatten_cons]
      refine ⟨List.pairwise_append.2 ⟨page_sorted hrows limit after, hsorted, hcross⟩, fun a ha => ?_⟩
      rcases List.mem_append.1 ha with ha | ha
      · exact hpage a ha
      · intro k' hk'
        obtain ⟨-, front, b, hlast, rfl⟩ := last_of_next hnext
        have hb : b ∈ page key limit rows after := hlast ▸ List.mem_append_right _ List.mem_cons_self
        exact lt_trans (hpage b hb k' hk') (hafter a ha _ rfl)

theorem Ending.Past.of_le {ending : Ending κ} {j k : κ} (h : ending.Past k) (hle : j ≤ k) : ending.Past j := by
  cases ending with
  | done => exact trivial
  | more after =>
    obtain ⟨k', hk', hle'⟩ := h
    exact ⟨k', hk', le_trans hle hle'⟩

/-- A walk is past where it started. -/
theorem walk_started : ∀ (states : List (List α)) (k : κ), (walk key limit (some k) states).2.Past k
  | [], k => ⟨k, rfl, le_refl k⟩
  | rows :: later, k => by
    unfold walk
    cases hnext : next key limit rows (some k) with
    | none => exact trivial
    | some k' =>
      obtain ⟨-, front, b, hlast, rfl⟩ := last_of_next hnext
      have hb : b ∈ page key limit rows (some k) := hlast ▸ List.mem_append_right _ List.mem_cons_self
      exact (walk_started later (key b)).of_le (le_of_lt ((of_mem_page hb).2 k rfl))

/-- And past what it has read. -/
theorem walk_past : ∀ (states : List (List α)) (after : Option κ), (∀ rows ∈ states, (rows.map key).Nodup) →
    ∀ a ∈ (walk key limit after states).1.flatten, (walk key limit after states).2.Past (key a)
  | [], _, _ => fun a ha => by cases ha
  | rows :: later, after, hn => by
    have hrows := hn rows List.mem_cons_self
    unfold walk
    cases hnext : next key limit rows after with
    | none => exact fun _ _ => trivial
    | some k =>
      dsimp only
      rw [List.flatten_cons]
      intro a ha
      rcases List.mem_append.1 ha with ha | ha
      · exact (walk_started later k).of_le (page_le hrows hnext ha)
      · exact walk_past later (some k) (fun rows' h => hn rows' (List.mem_cons_of_mem _ h)) a ha

/-- A key that is there at every request is in the walk, once it has come past it. -/
theorem walk_reaches (hlimit : 0 < limit) {p : κ} : ∀ (states : List (List α)) (after : Option κ),
    (∀ rows ∈ states, (rows.map key).Nodup) → (∀ k ∈ after, k < p) →
    (∀ rows ∈ states.take (walk key limit after states).1.length, ∃ a ∈ rows, key a = p) →
    (walk key limit after states).2.Past p → ∃ a ∈ (walk key limit after states).1.flatten, key a = p
  | [], after, _, hafter, _, hpast => by
    obtain ⟨k, hk, hle⟩ := hpast
    exact absurd (hafter k hk) (not_lt.2 hle)
  | rows :: later, after, hn, hafter, hthere, hpast => by
    have hrows := hn rows List.mem_cons_self
    unfold walk at hthere hpast ⊢
    cases hnext : next key limit rows after with
    | none =>
      rw [hnext] at hthere
      obtain ⟨a, ha, rfl⟩ := hthere rows List.mem_cons_self
      refine ⟨a, ?_, rfl⟩
      dsimp only
      rw [List.flatten_singleton, mem_page hlimit hrows, hnext]
      exact ⟨ha, hafter, fun k hk => by cases hk⟩
    | some k =>
      rw [hnext] at hthere hpast
      dsimp only at hthere hpast ⊢
      rw [List.length_cons, List.take_succ_cons] at hthere
      rw [List.flatten_cons]
      by_cases hle : p ≤ k
      · obtain ⟨a, ha, rfl⟩ := hthere rows List.mem_cons_self
        refine ⟨a, List.mem_append_left _ ((mem_page hlimit hrows).2 ⟨ha, hafter, fun k' hk' => ?_⟩), rfl⟩
        rw [hnext] at hk'
        cases hk'
        exact hle
      · obtain ⟨a, ha, hk⟩ := walk_reaches hlimit later (some k) (fun rows' h => hn rows' (List.mem_cons_of_mem _ h))
          (fun k' hk' => by cases hk'; exact not_le.1 hle) (fun rows' h => hthere rows' (List.mem_cons_of_mem _ h)) hpast
        exact ⟨a, List.mem_append_right _ ha, hk⟩

/-- While the rows stay, a walk that its requests can hold is done, and has all that follows. -/
theorem walk_done (hlimit : 0 < limit) {rows : List α} (hn : (rows.map key).Nodup) : ∀ (n : Nat) (after : Option κ), 0 < n →
    (following key rows after).length ≤ n * limit →
    (walk key limit after (List.replicate n rows)).2 = .done ∧
      (walk key limit after (List.replicate n rows)).1.flatten = following key rows after
  | 0, _, h, _ => absurd h (lt_irrefl 0)
  | n + 1, after, _, hlen => by
    rw [List.replicate_succ]
    unfold walk
    cases hnext : next key limit rows after with
    | none =>
      dsimp only
      rw [List.flatten_singleton]
      exact ⟨rfl, page_of_next_none hlimit hnext⟩
    | some k =>
      have hsplit := following_next hn hnext
      obtain ⟨hlt, -⟩ := last_of_next hnext
      have hpage : (page key limit rows after).length = limit := by
        rw [page_eq, List.length_take]
        omega
      have hparts := congrArg List.length hsplit
      rw [List.length_append, hpage] at hparts
      have hmul : (n + 1) * limit = n * limit + limit := Nat.succ_mul n limit
      have hpos : 0 < n := by
        rcases Nat.eq_zero_or_pos n with rfl | h
        · omega
        · exact h
      obtain ⟨hdone, hall⟩ := walk_done hlimit hn n (some k) hpos (by omega)
      dsimp only
      rw [List.flatten_cons, hall]
      exact ⟨hdone, hsplit.symm⟩

end

end Keyset
