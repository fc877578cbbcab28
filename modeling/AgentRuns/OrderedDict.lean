import AgentRuns.Table

/-!
# Ordered dictionaries

`collections.OrderedDict`: its items in order, no two with one key.  `set` keeps the place of a key that is there,
`moveToEnd` and `evict` (`popitem(last=False)` down to a length) make it a cache that lets the least recently used
go first.  What is in a cache was put there (`mem_set`, `mem_moveToEnd`, `mem_evict`), and it is no longer than it
may be (`length_evict`).
-/

namespace Relational

variable {κ ν : Type} [DecidableEq κ]

/-- The items of an ordered dictionary, first the one to go. -/
abbrev OrderedDict (κ ν : Type) := Table (Prod.fst : κ × ν → κ)

namespace OrderedDict

/-- `d.get(k)` -/
def get? (d : OrderedDict κ ν) (k : κ) : Option ν := (d.find? k).map Prod.snd

/-- `d[k] = v` -/
def set (d : OrderedDict κ ν) (k : κ) (v : ν) : OrderedDict κ ν :=
  if (d.find? k).isSome then d.put (k, v) else d.insert (k, v)

/-- `d.move_to_end(k)`, of a key that is there. -/
def moveToEnd (d : OrderedDict κ ν) (k : κ) : OrderedDict κ ν :=
  match d.find? k with
  | none => d
  | some item => (d.erase (·.1 = k)).insert item

/-- `while len(d) > n: d.popitem(last=False)`, on the items. -/
def popTo (n : Nat) : List (κ × ν) → List (κ × ν)
  | [] => []
  | item :: items => if n < (item :: items).length then popTo n items else item :: items

omit [DecidableEq κ] in
theorem popTo_sublist (n : Nat) (items : List (κ × ν)) : (popTo n items).Sublist items := by
  induction items with
  | nil => exact List.Sublist.refl _
  | cons item items ih =>
    unfold popTo
    split
    · exact ih.cons item
    · exact List.Sublist.refl _

omit [DecidableEq κ] in
theorem length_popTo (n : Nat) (items : List (κ × ν)) : (popTo n items).length ≤ n := by
  induction items with
  | nil => exact Nat.zero_le n
  | cons item items ih =>
    unfold popTo
    split
    · exact ih
    · next h => exact Nat.not_lt.1 h

def evict (n : Nat) (d : OrderedDict κ ν) : OrderedDict κ ν :=
  ⟨popTo n d.rows, ((popTo_sublist n d.rows).map Prod.fst).nodup d.nodup⟩

variable {d : OrderedDict κ ν} {k : κ} {v : ν} {item : κ × ν}

theorem mem_of_get? (h : d.get? k = some v) : (k, v) ∈ d.rows := by
  obtain ⟨item, hitem, rfl⟩ := Option.map_eq_some_iff.1 h
  have hk : item.1 = k := Table.key_of_find? hitem
  subst hk
  exact Table.mem_of_find? hitem

/-- An item after an assignment is the one assigned, or was there. -/
theorem mem_set (h : item ∈ (d.set k v).rows) : item = (k, v) ∨ item ∈ d.rows := by
  unfold set at h
  split at h
  · obtain ⟨other, hother, rfl⟩ := List.mem_map.1 h
    split
    · exact .inl rfl
    · exact .inr hother
  · next hnone =>
    have hnew : d.find? (Prod.fst (k, v)) = none := by simpa using hnone
    rw [Table.rows_insert hnew, List.mem_append, List.mem_singleton] at h
    exact h.symm

theorem mem_moveToEnd (h : item ∈ (d.moveToEnd k).rows) : item ∈ d.rows := by
  unfold moveToEnd at h
  split at h
  · exact h
  · next moved hmoved =>
    have hgone : (d.erase (·.1 = k)).find? moved.1 = none := by
      have hkey : moved.1 = k := Table.key_of_find? hmoved
      rw [hkey]
      exact Table.find?_erase_self d k
    rw [Table.rows_insert hgone, List.mem_append, List.mem_singleton] at h
    rcases h with h | rfl
    · exact (Table.mem_erase.1 h).1
    · exact Table.mem_of_find? hmoved

theorem length_moveToEnd : (d.moveToEnd k).rows.length ≤ d.rows.length := by
  have hsub : (d.moveToEnd k).rows ⊆ d.rows := fun _ => mem_moveToEnd
  have hnodup : (d.moveToEnd k).rows.Nodup := List.Nodup.of_map _ (d.moveToEnd k).nodup
  exact (List.subperm_of_subset hnodup hsub).length_le

omit [DecidableEq κ] in
theorem mem_evict {n : Nat} (h : item ∈ (d.evict n).rows) : item ∈ d.rows := (popTo_sublist n d.rows).subset h

omit [DecidableEq κ] in
theorem length_evict (n : Nat) (d : OrderedDict κ ν) : (d.evict n).rows.length ≤ n := length_popTo n d.rows

end OrderedDict

end Relational
