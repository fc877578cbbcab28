import Mathlib.Data.List.Nodup
import Mathlib.Data.List.Count
import Mathlib.Data.List.Perm.Subperm

/-!
# Tables with a primary key

A table is the list of its rows, no two with one key.  `insert` is
`INSERT … ON CONFLICT DO NOTHING`, `put` writes back a row that is there
(`UPDATE` by primary key), `putAll` a batch of them, `erase` is `DELETE … WHERE`.

    (t.put a).find? k  =  if key a = k then (t.find? k).map fun _ => a else t.find? k      (find?_put)
    (t.putAll as).find? k  =  the row of `as` with key `k`, if `t` has one, else `t.find? k`

`insertAll` adds a batch of rows, whole when they are all new (`rows_insertAll`).  Counts over two tables
are compared key by key (`countP_le`, `countP_le_succ`).  A unique index stays one (`Unique`).
-/

namespace Relational

/-- The rows of a table, in their physical order, `key` being the primary key. -/
structure Table {α κ : Type} (key : α → κ) where
  rows : List α
  nodup : (rows.map key).Nodup

namespace Table

variable {α κ : Type} {key : α → κ}

/-- A table with no rows. -/
def empty : Table key := ⟨[], List.nodup_nil⟩

variable [DecidableEq κ]

/-- The row under a key. -/
def find? (t : Table key) (k : κ) : Option α := t.rows.find? fun a => key a = k

/-- Add a row whose key is new; a row whose key is taken is dropped. -/
def insert (t : Table key) (a : α) : Table key :=
  if h : key a ∈ t.rows.map key then t
  else ⟨t.rows ++ [a], by
    rw [List.map_append, List.nodup_append]
    refine ⟨t.nodup, by simp, fun x hx y hy => ?_⟩
    rw [List.map_singleton, List.mem_singleton] at hy
    rintro rfl
    exact h (hy ▸ hx)⟩

/-- Add a batch of rows, one after another. -/
def insertAll (t : Table key) (as : List α) : Table key := as.foldl insert t

/-- Write a row over the one that has its key. -/
def put (t : Table key) (a : α) : Table key :=
  ⟨t.rows.map fun b => if key b = key a then a else b, by
    have : key ∘ (fun b => if key b = key a then a else b) = key := by
      funext b
      by_cases h : key b = key a <;> simp [h]
    rw [List.map_map, this]
    exact t.nodup⟩

/-- Write a batch of rows, one after another. -/
def putAll (t : Table key) (as : List α) : Table key := as.foldl put t

/-- `UPDATE … SET` over the whole table, the key kept. -/
def modify (t : Table key) (f : α → α) (hf : ∀ a, key (f a) = key a) : Table key :=
  ⟨t.rows.map f, by
    rw [List.map_map, show key ∘ f = key from funext hf]
    exact t.nodup⟩

/-- Delete the rows `p` holds of. -/
def erase (t : Table key) (p : α → Bool) : Table key :=
  ⟨t.rows.filter fun a => !p a, (List.Sublist.map key List.filter_sublist).nodup t.nodup⟩

/-! ## Lookup -/

theorem find?_eq_some {t : Table key} {k : κ} {a : α} :
    t.find? k = some a ↔ a ∈ t.rows ∧ key a = k := by
  unfold find?
  constructor
  · intro h
    exact ⟨List.mem_of_find?_eq_some h, by simpa using List.find?_some h⟩
  · rintro ⟨hm, hk⟩
    cases h : t.rows.find? fun a => key a = k with
    | none => exact absurd (List.find?_eq_none.1 h a hm) (by simp [hk])
    | some b =>
      have hb : key b = k := by simpa using List.find?_some h
      rw [List.inj_on_of_nodup_map t.nodup (List.mem_of_find?_eq_some h) hm (hb.trans hk.symm)]

theorem find?_eq_none {t : Table key} {k : κ} : t.find? k = none ↔ k ∉ t.rows.map key := by
  unfold find?
  rw [List.find?_eq_none]
  simp

theorem find?_of_mem {t : Table key} {a : α} (h : a ∈ t.rows) : t.find? (key a) = some a :=
  find?_eq_some.2 ⟨h, rfl⟩

theorem key_of_find? {t : Table key} {k : κ} {a : α} (h : t.find? k = some a) : key a = k :=
  (find?_eq_some.1 h).2

theorem mem_of_find? {t : Table key} {k : κ} {a : α} (h : t.find? k = some a) : a ∈ t.rows :=
  (find?_eq_some.1 h).1

/-! ## Insert -/

theorem insert_of_mem {t : Table key} {a : α} (h : key a ∈ t.rows.map key) : t.insert a = t := by
  unfold insert
  rw [dif_pos h]

theorem rows_insert {t : Table key} {a : α} (h : t.find? (key a) = none) :
    (t.insert a).rows = t.rows ++ [a] := by
  unfold insert
  rw [dif_neg (find?_eq_none.1 h)]

theorem find?_insert {t : Table key} {a : α} (h : t.find? (key a) = none) (k : κ) :
    (t.insert a).find? k = if key a = k then some a else t.find? k := by
  unfold find? at *
  rw [rows_insert h, List.find?_append]
  by_cases hk : key a = k
  · subst hk
    rw [h]
    simp
  · simp [hk]

theorem find?_insert_of_ne {t : Table key} {a : α} {k : κ} (hk : key a ≠ k) :
    (t.insert a).find? k = t.find? k := by
  by_cases h : key a ∈ t.rows.map key
  · rw [insert_of_mem h]
  · rw [find?_insert (find?_eq_none.2 h), if_neg hk]

theorem insertAll_append (t : Table key) (as bs : List α) :
    t.insertAll (as ++ bs) = (t.insertAll as).insertAll bs := List.foldl_append

theorem find?_insertAll {as : List α} : ∀ (t : Table key) (k : κ),
    (t.insertAll as).find? k = (t.find? k).or (as.find? fun a => key a = k) := by
  induction as with
  | nil =>
    intro t k
    exact (Option.or_none).symm
  | cons a as ih =>
    intro t k
    show ((t.insert a).insertAll as).find? k = _
    rw [ih, List.find?_cons]
    by_cases hk : key a = k
    · rw [decide_eq_true hk]
      subst hk
      cases h : t.find? (key a) with
      | none => rw [find?_insert h, if_pos rfl, Option.some_or, Option.none_or]
      | some b =>
        rw [insert_of_mem (by_contra fun hn => by rw [find?_eq_none.2 hn] at h; cases h), h, Option.some_or, Option.some_or]
    · rw [decide_eq_false hk, find?_insert_of_ne hk]

/-- A batch of new rows, no two with one key, is added whole. -/
theorem rows_insertAll {as : List α} : ∀ {t : Table key}, (as.map key).Nodup → (∀ a ∈ as, t.find? (key a) = none) →
    (t.insertAll as).rows = t.rows ++ as := by
  induction as with
  | nil => intro t _ _; exact (List.append_nil _).symm
  | cons a as ih =>
    intro t hn hnew
    rw [List.map_cons, List.nodup_cons] at hn
    have ha : t.find? (key a) = none := hnew a List.mem_cons_self
    have hrows := @ih (t.insert a) hn.2 fun b hb => by
      rw [find?_insert_of_ne, hnew b (List.mem_cons_of_mem _ hb)]
      intro he
      exact hn.1 (he ▸ List.mem_map_of_mem hb)
    show ((t.insert a).insertAll as).rows = _
    rw [hrows, rows_insert ha, List.append_assoc, List.singleton_append]

/-! ## Put -/

theorem mem_put {t : Table key} {a b : α} :
    b ∈ (t.put a).rows ↔ (b = a ∧ key a ∈ t.rows.map key) ∨ (b ∈ t.rows ∧ key b ≠ key a) := by
  simp only [put, List.mem_map]
  constructor
  · rintro ⟨c, hc, rfl⟩
    by_cases h : key c = key a
    · rw [if_pos h]
      exact Or.inl ⟨rfl, c, hc, h⟩
    · rw [if_neg h]
      exact Or.inr ⟨hc, h⟩
  · rintro (⟨rfl, c, hc, h⟩ | ⟨hb, h⟩)
    · exact ⟨c, hc, if_pos h⟩
    · exact ⟨b, hb, if_neg h⟩

theorem find?_put (t : Table key) (a : α) (k : κ) :
    (t.put a).find? k = if key a = k then (t.find? k).map fun _ => a else t.find? k := by
  split
  · next h =>
    subst h
    cases hf : t.find? (key a) with
    | none =>
      rw [Option.map_none, find?_eq_none]
      have := find?_eq_none.1 hf
      rintro hm
      obtain ⟨b, hb, he⟩ := List.mem_map.1 hm
      rcases mem_put.1 hb with ⟨-, h⟩ | ⟨-, h⟩
      · exact this h
      · exact h he
    | some b =>
      rw [Option.map_some, find?_eq_some]
      refine ⟨mem_put.2 (Or.inl ⟨rfl, ?_⟩), rfl⟩
      exact List.mem_map.2 ⟨b, mem_of_find? hf, key_of_find? hf⟩
  · next h =>
    cases hf : t.find? k with
    | none =>
      rw [find?_eq_none]
      have := find?_eq_none.1 hf
      rintro hm
      obtain ⟨b, hb, he⟩ := List.mem_map.1 hm
      rcases mem_put.1 hb with ⟨rfl, -⟩ | ⟨hb, -⟩
      · exact h he
      · exact this (List.mem_map.2 ⟨b, hb, he⟩)
    | some b =>
      obtain ⟨hb, rfl⟩ := find?_eq_some.1 hf
      exact find?_eq_some.2 ⟨mem_put.2 (Or.inr ⟨hb, fun he => h he.symm⟩), rfl⟩

theorem find?_put_self {t : Table key} {a b : α} {k : κ} (hk : key a = k) (h : t.find? k = some b) :
    (t.put a).find? k = some a := by
  rw [find?_put, if_pos hk, h, Option.map_some]

theorem find?_put_of_ne {t : Table key} {a : α} {k : κ} (hk : key a ≠ k) :
    (t.put a).find? k = t.find? k := by
  rw [find?_put, if_neg hk]

/-- What is found behind a write over `b` was found before, or it is what was written. -/
theorem of_find?_put {t : Table key} {a b c : α} {k : κ} (hb : t.find? (key b) = some b) (hkey : key a = key b)
    (h : (t.put a).find? k = some c) : t.find? k = some c ∨ (t.find? k = some b ∧ c = a) := by
  by_cases hk : key a = k
  · have hfound : t.find? k = some b := by rw [← hk, hkey, hb]
    rw [find?_put_self hk hfound] at h
    exact Or.inr ⟨hfound, (Option.some.inj h).symm⟩
  · rw [find?_put_of_ne hk] at h
    exact Or.inl h

/-! ## Modify -/

theorem find?_modify (t : Table key) (f : α → α) (hf : ∀ a, key (f a) = key a) (k : κ) :
    (t.modify f hf).find? k = (t.find? k).map f := by
  show (t.rows.map f).find? (fun a => key a = k) = (t.rows.find? fun a => key a = k).map f
  rw [List.find?_map]
  congr 2
  funext a
  rw [Function.comp_apply, hf]

/-! ## Batches -/

theorem putAll_cons (t : Table key) (a : α) (as : List α) : t.putAll (a :: as) = (t.put a).putAll as := rfl

theorem putAll_singleton (t : Table key) (a : α) : t.putAll [a] = t.put a := rfl

theorem find?_putAll_of_ne {as : List α} : ∀ {t : Table key} {k : κ}, (∀ a ∈ as, key a ≠ k) →
    (t.putAll as).find? k = t.find? k := by
  induction as with
  | nil => intro t k _; rfl
  | cons a as ih =>
    intro t k h
    rw [putAll_cons, ih fun b hb => h b (List.mem_cons_of_mem _ hb),
      find?_put_of_ne (h a List.mem_cons_self)]

theorem find?_putAll_of_mem {as : List α} : ∀ {t : Table key} {a b : α}, (as.map key).Nodup → a ∈ as →
    t.find? (key a) = some b → (t.putAll as).find? (key a) = some a := by
  induction as with
  | nil => intro t a b _ h; cases h
  | cons c as ih =>
    intro t a b hn h hf
    rw [List.map_cons, List.nodup_cons] at hn
    rw [putAll_cons]
    rcases List.mem_cons.1 h with rfl | h
    · rw [find?_putAll_of_ne, find?_put_self rfl hf]
      intro d hd he
      exact hn.1 (List.mem_map.2 ⟨d, hd, he⟩)
    · have hne : key c ≠ key a := fun he => hn.1 (List.mem_map.2 ⟨a, h, he.symm⟩)
      exact ih hn.2 h (by rw [find?_put_of_ne hne, hf])

theorem mem_putAll {as : List α} : ∀ {t : Table key} {b : α}, b ∈ (t.putAll as).rows →
    b ∈ as ∨ (b ∈ t.rows ∧ ∀ a ∈ as, key a ≠ key b) := by
  induction as with
  | nil => intro t b h; exact Or.inr ⟨h, fun a ha => by cases ha⟩
  | cons a as ih =>
    intro t b h
    rcases ih (putAll_cons t a as ▸ h) with h | ⟨h, hne⟩
    · exact Or.inl (List.mem_cons_of_mem _ h)
    · rcases mem_put.1 h with ⟨rfl, -⟩ | ⟨h, hk⟩
      · exact Or.inl List.mem_cons_self
      · refine Or.inr ⟨h, fun c hc => ?_⟩
        rcases List.mem_cons.1 hc with rfl | hc
        · exact fun he => hk he.symm
        · exact hne c hc

/-! ## Update and delete -/

omit [DecidableEq κ] in
theorem mem_erase {t : Table key} {p : α → Bool} {a : α} : a ∈ (t.erase p).rows ↔ a ∈ t.rows ∧ p a = false := by
  simp [erase, List.mem_filter]

theorem find?_erase (t : Table key) (p : α → Bool) (k : κ) : (t.erase p).find? k = (t.find? k).filter (!p ·) := by
  cases h : t.find? k with
  | none =>
    rw [find?_eq_none] at h
    rw [Option.filter_none, find?_eq_none]
    intro hm
    obtain ⟨a, ha, hk⟩ := List.mem_map.1 hm
    exact h (List.mem_map.2 ⟨a, (mem_erase.1 ha).1, hk⟩)
  | some a =>
    obtain ⟨hm, rfl⟩ := find?_eq_some.1 h
    by_cases hp : p a = true
    · rw [Option.filter_some_neg (by simp [hp]), find?_eq_none]
      intro hb
      obtain ⟨b, hb, hk⟩ := List.mem_map.1 hb
      obtain ⟨hb, hpb⟩ := mem_erase.1 hb
      rw [List.inj_on_of_nodup_map t.nodup hb hm hk, hp] at hpb
      cases hpb
    · rw [Option.filter_some_pos (by simp [hp]), find?_eq_some]
      exact ⟨mem_erase.2 ⟨hm, by simpa using hp⟩, rfl⟩

theorem find?_erase_self (t : Table key) (k : κ) : (t.erase (key · = k)).find? k = none := by
  rw [find?_erase, Option.filter_eq_none_iff]
  intro a ha
  simpa using key_of_find? ha

theorem find?_erase_of_ne (t : Table key) {k k' : κ} (h : k' ≠ k) : (t.erase (key · = k)).find? k' = t.find? k' := by
  rw [find?_erase]
  cases hf : t.find? k' with
  | none => rfl
  | some a =>
    refine Option.filter_some_pos ?_
    rw [key_of_find? hf]
    simpa using h

/-- Of rows no two with one key, one has the key of `a`. -/
theorem filter_key {as : List α} {a : α} (hn : (as.map key).Nodup) (ha : a ∈ as) :
    as.filter (fun b => key b = key a) = [a] := by
  induction as with
  | nil => cases ha
  | cons b as ih =>
    rw [List.map_cons, List.nodup_cons] at hn
    obtain ⟨hb, hn⟩ := hn
    rcases List.mem_cons.1 ha with rfl | ha
    · rw [List.filter_cons_of_pos (by simp), List.filter_eq_nil_iff.2]
      intro c hc
      have : key c ≠ key a := fun he => hb (he ▸ List.mem_map.2 ⟨c, hc, rfl⟩)
      simpa using this
    · have : key b ≠ key a := fun he => hb (he ▸ List.mem_map.2 ⟨a, ha, rfl⟩)
      rw [List.filter_cons_of_neg (by simpa using this)]
      exact ih hn ha

/-! ## Counts -/

omit [DecidableEq κ] in
/-- The keys of the rows `p` holds of. -/
theorem keys_nodup (t : Table key) (p : α → Bool) : ((t.rows.filter p).map key).Nodup :=
  (List.Sublist.map key List.filter_sublist).nodup t.nodup

omit [DecidableEq κ] in
theorem countP_eq (t : Table key) (p : α → Bool) : t.rows.countP p = ((t.rows.filter p).map key).length := by
  rw [List.length_map, List.countP_eq_length_filter]

omit [DecidableEq κ] in
/-- Every counted row was a counted row. -/
theorem countP_le {t t' : Table key} {p : α → Bool}
    (h : ∀ a ∈ t'.rows, p a = true → ∃ b ∈ t.rows, key b = key a ∧ p b = true) : t'.rows.countP p ≤ t.rows.countP p := by
  rw [countP_eq, countP_eq]
  refine (List.subperm_of_subset (keys_nodup t' p) fun k hk => ?_).length_le
  obtain ⟨a, ha, rfl⟩ := List.mem_map.1 hk
  obtain ⟨ha, hp⟩ := List.mem_filter.1 ha
  obtain ⟨b, hb, hk, hp⟩ := h a ha hp
  exact List.mem_map.2 ⟨b, List.mem_filter.2 ⟨hb, hp⟩, hk⟩

omit [DecidableEq κ] in
/-- Every counted row was a counted row, but the one under `k`. -/
theorem countP_le_succ {t t' : Table key} {p : α → Bool} (k : κ)
    (h : ∀ a ∈ t'.rows, p a = true → key a ≠ k → ∃ b ∈ t.rows, key b = key a ∧ p b = true) :
    t'.rows.countP p ≤ t.rows.countP p + 1 := by
  rw [countP_eq, countP_eq, ← List.length_cons (a := k)]
  refine (List.subperm_of_subset (keys_nodup t' p) fun l hl => ?_).length_le
  obtain ⟨a, ha, rfl⟩ := List.mem_map.1 hl
  obtain ⟨ha, hp⟩ := List.mem_filter.1 ha
  by_cases hk : key a = k
  · exact hk ▸ List.mem_cons_self
  · obtain ⟨b, hb, hkey, hp⟩ := h a ha hp hk
    exact List.mem_cons_of_mem _ (List.mem_map.2 ⟨b, List.mem_filter.2 ⟨hb, hp⟩, hkey⟩)

/-! ## Unique indexes -/

/-- No two rows have one value of the index. -/
def Unique {β : Type} (t : Table key) (index : α → β) : Prop :=
  ∀ a ∈ t.rows, ∀ b ∈ t.rows, index a = index b → a = b

namespace Unique

variable {β : Type} {t : Table key} {index : α → β} {a b : α}

theorem insert (h : t.Unique index) (hfree : ∀ b ∈ t.rows, index b ≠ index a) (hnew : t.find? (key a) = none) :
    (t.insert a).Unique index := by
  intro x hx y hy hxy
  rw [rows_insert hnew, List.mem_append, List.mem_singleton] at hx hy
  rcases hx with hx | rfl
  · rcases hy with hy | rfl
    · exact h x hx y hy hxy
    · exact absurd hxy (hfree x hx)
  · rcases hy with hy | rfl
    · exact absurd hxy.symm (hfree y hy)
    · rfl

theorem put (h : t.Unique index) (hfree : ∀ b ∈ t.rows, key b ≠ key a → index b ≠ index a) : (t.put a).Unique index := by
  intro x hx y hy hxy
  rcases mem_put.1 hx with ⟨rfl, -⟩ | ⟨hx', hkx⟩
  · rcases mem_put.1 hy with ⟨rfl, -⟩ | ⟨hy', hky⟩
    · rfl
    · exact absurd hxy.symm (hfree y hy' hky)
  · rcases mem_put.1 hy with ⟨rfl, -⟩ | ⟨hy, -⟩
    · exact absurd hxy (hfree x hx' hkx)
    · exact h x hx' y hy hxy

/-- A row that is written back with the index it had. -/
theorem put_same (h : t.Unique index) (hb : b ∈ t.rows) (hkey : key a = key b) (hindex : index a = index b) :
    (t.put a).Unique index :=
  h.put fun x hx hne he => hne (by rw [h x hx b hb (he.trans hindex), hkey])

omit [DecidableEq κ] in
theorem erase (h : t.Unique index) (p : α → Bool) : (t.erase p).Unique index :=
  fun x hx y hy hxy => h x (mem_erase.1 hx).1 y (mem_erase.1 hy).1 hxy

omit [DecidableEq κ] in
theorem modify (h : t.Unique index) {f : α → α} (hf : ∀ a, key (f a) = key a) (hindex : ∀ a, index (f a) = index a) :
    (t.modify f hf).Unique index := by
  intro x hx y hy hxy
  obtain ⟨a, ha, rfl⟩ := List.mem_map.1 hx
  obtain ⟨b, hb, rfl⟩ := List.mem_map.1 hy
  rw [hindex, hindex] at hxy
  rw [h a ha b hb hxy]

end Unique

end Table

end Relational
