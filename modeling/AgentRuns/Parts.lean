import AgentRuns.Table

/-!
# A part of a table

`t.only p` is the table of the rows `p` holds of.  A statement about rows of the part does to it what it does to the whole table,
one about other rows leaves it:

    (t.put a).only p  =  (t.only p).put a          `p` holds of `a` as it does of the row with its key      (only_put)
    (t.insert a).only p  =  (t.only p).insert a    no row but the part's has the key                        (only_insert)
    (t.erase q).only p  =  (t.only p).erase q                                                               (only_erase)
-/

namespace Relational

namespace Table

variable {α κ : Type} {key : α → κ} {t t' : Table key} {p q : α → Bool} {a : α} {as : List α}

theorem ext_rows (h : t.rows = t'.rows) : t = t' := by
  cases t
  cases t'
  cases h
  rfl

/-- The rows `p` holds of. -/
def only (t : Table key) (p : α → Bool) : Table key := ⟨t.rows.filter p, t.keys_nodup p⟩

theorem mem_only : a ∈ (t.only p).rows ↔ a ∈ t.rows ∧ p a = true := List.mem_filter

theorem only_congr (h : ∀ a ∈ t.rows, p a = q a) : t.only p = t.only q := ext_rows (List.filter_congr h)

/-- A query of rows of the part alone. -/
theorem rows_find?_only (h : ∀ a ∈ t.rows, q a = true → p a = true) : (t.only p).rows.find? q = t.rows.find? q := by
  show (t.rows.filter p).find? q = t.rows.find? q
  rw [← List.head?_filter, ← List.head?_filter, List.filter_filter]
  refine congrArg List.head? (List.filter_congr fun a ha => ?_)
  cases hq : q a with
  | false => rfl
  | true => rw [h a ha hq, Bool.true_and]

variable [DecidableEq κ]

theorem find?_only (t : Table key) (p : α → Bool) (k : κ) : (t.only p).find? k = (t.find? k).filter p := by
  have h : t.only p = t.erase (!p ·) := ext_rows (by simp [only, erase])
  rw [h, find?_erase]
  simp

/-- A row of the part, where the part is the same. -/
theorem find?_of_only (h : t'.only p = t.only p) {k : κ} (hp : p a = true) (ha : t'.find? k = some a) : t.find? k = some a := by
  have hpart : (t.only p).find? k = some a := by
    rw [← h, find?_only, ha]
    exact Option.filter_some_pos hp
  rw [find?_only] at hpart
  exact (Option.filter_eq_some_iff.1 hpart).1

/-- Whose a row is, where the rows of all others are the same. -/
theorem owner_of_only {ω : Type} [DecidableEq ω] {owner : α → ω} {o : ω} {k : κ}
    (h : ∀ other, other ≠ o → t'.only (owner · = other) = t.only (owner · = other))
    (hown : ∀ a, t.find? k = some a → owner a = o) (ha : t'.find? k = some a) : owner a = o := by
  by_contra hne
  exact hne (hown a (find?_of_only (h (owner a) hne) (decide_eq_true rfl) ha))

/-! ## Statements about the part -/

theorem put_of_none (h : t.find? (key a) = none) : t.put a = t := by
  refine ext_rows ((List.map_congr_left fun b hb => ?_).trans (List.map_id _))
  refine if_neg fun he => find?_eq_none.1 h ?_
  rw [← he]
  exact List.mem_map_of_mem hb

theorem only_put (h : ∀ b, t.find? (key a) = some b → p b = p a) : (t.put a).only p = (t.only p).put a := by
  refine ext_rows ?_
  show (t.rows.map fun b => if key b = key a then a else b).filter p =
    (t.rows.filter p).map fun b => if key b = key a then a else b
  rw [List.filter_map]
  congr 1
  refine List.filter_congr fun b hb => ?_
  rw [Function.comp_apply]
  by_cases hk : key b = key a
  · rw [if_pos hk, h b (hk ▸ find?_of_mem hb)]
  · rw [if_neg hk]

theorem only_insert (hp : p a = true) (h : ∀ b, t.find? (key a) = some b → p b = true) :
    (t.insert a).only p = (t.only p).insert a := by
  cases hf : t.find? (key a) with
  | none =>
    refine ext_rows ?_
    rw [rows_insert (by rw [find?_only, hf]; rfl)]
    show (t.insert a).rows.filter p = t.rows.filter p ++ [a]
    rw [rows_insert hf, List.filter_append, List.filter_cons_of_pos hp, List.filter_nil]
  | some b =>
    obtain ⟨hb, hk⟩ := find?_eq_some.1 hf
    rw [insert_of_mem (List.mem_map.2 ⟨b, hb, hk⟩), insert_of_mem (List.mem_map.2 ⟨b, mem_only.2 ⟨hb, h b hf⟩, hk⟩)]

theorem only_insertAll : ∀ {t : Table key}, (∀ a ∈ as, p a = true) →
    (∀ a ∈ as, ∀ b, t.find? (key a) = some b → p b = true) → (t.insertAll as).only p = (t.only p).insertAll as := by
  induction as with
  | nil => intro t _ _; rfl
  | cons a as ih =>
    intro t hp h
    show ((t.insert a).insertAll as).only p = ((t.only p).insert a).insertAll as
    rw [← only_insert (hp a List.mem_cons_self) (h a List.mem_cons_self)]
    refine ih (fun c hc => hp c (List.mem_cons_of_mem _ hc)) fun c hc b hb => ?_
    cases hf : t.find? (key a) with
    | some _ =>
      rw [insert_of_mem (by_contra fun hn => by rw [find?_eq_none.2 hn] at hf; cases hf)] at hb
      exact h c (List.mem_cons_of_mem _ hc) b hb
    | none =>
      rw [find?_insert hf] at hb
      split at hb
      · cases hb
        exact hp a List.mem_cons_self
      · exact h c (List.mem_cons_of_mem _ hc) b hb

omit [DecidableEq κ] in
theorem only_erase : (t.erase q).only p = (t.only p).erase q := by
  refine ext_rows ?_
  show (t.rows.filter fun a => !q a).filter p = (t.rows.filter p).filter fun a => !q a
  rw [List.filter_filter, List.filter_filter]
  exact List.filter_congr fun a _ => Bool.and_comm _ _

omit [DecidableEq κ] in
theorem only_modify {f : α → α} {hf : ∀ a, key (f a) = key a} (h : ∀ a, p (f a) = p a) :
    (t.modify f hf).only p = (t.only p).modify f hf := by
  refine ext_rows ?_
  show (t.rows.map f).filter p = (t.rows.filter p).map f
  rw [List.filter_map]
  congr 1
  exact List.filter_congr fun a _ => h a

/-! ## Statements about other rows -/

theorem only_put_other (hp : p a = false) (h : ∀ b, t.find? (key a) = some b → p b = false) : (t.put a).only p = t.only p := by
  rw [only_put fun b hb => (h b hb).trans hp.symm]
  refine put_of_none ?_
  rw [find?_only, Option.filter_eq_none_iff]
  intro b hb
  rw [h b hb]
  exact Bool.false_ne_true

theorem only_insert_other (hp : p a = false) : (t.insert a).only p = t.only p := by
  cases hf : t.find? (key a) with
  | none =>
    refine ext_rows ?_
    show (t.insert a).rows.filter p = t.rows.filter p
    rw [rows_insert hf, List.filter_append, List.filter_cons_of_neg (by rw [hp]; exact Bool.false_ne_true), List.filter_nil,
      List.append_nil]
  | some b =>
    obtain ⟨hb, hk⟩ := find?_eq_some.1 hf
    rw [insert_of_mem (List.mem_map.2 ⟨b, hb, hk⟩)]

theorem only_insertAll_other : ∀ {t : Table key}, (∀ a ∈ as, p a = false) → (t.insertAll as).only p = t.only p := by
  induction as with
  | nil => intro t _; rfl
  | cons a as ih =>
    intro t hp
    show ((t.insert a).insertAll as).only p = t.only p
    rw [ih fun c hc => hp c (List.mem_cons_of_mem _ hc), only_insert_other (hp a List.mem_cons_self)]

omit [DecidableEq κ] in
theorem only_erase_other (h : ∀ a ∈ t.rows, q a = true → p a = false) : (t.erase q).only p = t.only p := by
  refine ext_rows ?_
  show (t.rows.filter fun a => !q a).filter p = t.rows.filter p
  rw [List.filter_filter]
  refine List.filter_congr fun a ha => ?_
  cases hq : q a with
  | false => exact Bool.and_true _
  | true => rw [h a ha hq, Bool.false_and]

omit [DecidableEq κ] in
theorem only_modify_other {f : α → α} {hf : ∀ a, key (f a) = key a} (h : ∀ a, p (f a) = p a)
    (hsame : ∀ a ∈ t.rows, p a = true → f a = a) : (t.modify f hf).only p = t.only p := by
  rw [only_modify h]
  refine ext_rows ((List.map_congr_left fun a ha => ?_).trans (List.map_id _))
  exact hsame a (mem_only.1 ha).1 (mem_only.1 ha).2

end Table

end Relational
