import AgentRuns.JsonText
import Mathlib.Data.Nat.Digits.Lemmas

/-!
# Text, as Python handles it

A Python str is its code points, lone surrogates among them.  `partition`, `strip`, `decimal` (`str` of an
int), `number` (`int` of digits) and `encode` (UTF-8) are Python's; `split` and `join` at one character are
`List.splitOn` and `List.intercalate`.

    partition sep (u ++ sep ++ v) = (u, sep, v)      where sep does not begin inside u      (partition_append)
    number (decimal n) = n                                                                  (number_decimal)
    (decimal (number s)).length ≤ s.length                                           (length_decimal_number)
    encode s = encode s' = some _ → s = s'                                               (encode_injective)
-/

namespace PyText

open JsonText (points Scalar)

/-! ## Parts of a text -/

/-- `str.partition`: what stands before the separator, the separator, and what follows it. -/
def partition (sep : List Nat) : List Nat → List Nat × List Nat × List Nat
  | [] => ([], [], [])
  | n :: s =>
    if sep.isPrefixOf (n :: s) then ([], sep, (n :: s).drop sep.length)
    else (n :: (partition sep s).1, (partition sep s).2)

theorem partition_append {n : Nat} {rest u v : List Nat} (hu : n ∉ u) :
    partition (n :: rest) (u ++ (n :: rest ++ v)) = (u, n :: rest, v) := by
  induction u with
  | nil =>
    show partition (n :: rest) (n :: (rest ++ v)) = _
    rw [partition, if_pos (by simp), ← List.cons_append, List.drop_left]
  | cons m u ih =>
    rw [List.mem_cons, not_or] at hu
    have hp : (n :: rest).isPrefixOf (m :: (u ++ (n :: rest ++ v))) = false := by
      simp [List.isPrefixOf, hu.1]
    rw [List.cons_append, partition, hp, ih hu.2]
    rfl

/-- What stands before the separator does not hold it. -/
theorem notMem_partition {n : Nat} {s : List Nat} : n ∉ (partition [n] s).1 := by
  induction s with
  | nil => simp [partition]
  | cons m s ih =>
    unfold partition
    split
    · simp
    · next h =>
      have hne : n ≠ m := by
        rintro rfl
        simp at h
      simpa [hne] using ih

/-- The parts are of the text. -/
theorem mem_partition {sep s : List Nat} {n : Nat} (h : n ∈ (partition sep s).1 ∨ n ∈ (partition sep s).2.2) : n ∈ s := by
  induction s with
  | nil => rcases h with h | h <;> cases h
  | cons m s ih =>
    unfold partition at h
    split at h
    · rcases h with h | h
      · cases h
      · exact List.mem_of_mem_drop h
    · rcases h with h | h
      · rcases List.mem_cons.1 h with rfl | h
        · exact List.mem_cons_self
        · exact List.mem_cons_of_mem _ (ih (.inl h))
      · exact List.mem_cons_of_mem _ (ih (.inr h))

/-- And those of a split. -/
theorem mem_splitOn {sep n : Nat} {s part : List Nat} (hpart : part ∈ s.splitOn sep) (h : n ∈ part) : n ∈ s := by
  have hjoin : ∀ parts : List (List Nat), part ∈ parts → n ∈ List.intercalate [sep] parts := by
    intro parts
    induction parts with
    | nil =>
      intro hmem
      cases hmem
    | cons p parts ih =>
      intro hmem
      cases parts with
      | nil => simpa [List.mem_singleton.1 hmem] using h
      | cons q parts =>
        rw [List.intercalate_cons_cons, List.append_assoc]
        rcases List.mem_cons.1 hmem with rfl | hmem
        · exact List.mem_append_left _ h
        · exact List.mem_append_right _ (List.mem_cons_of_mem _ (ih hmem))
  have hmem := hjoin _ hpart
  rwa [List.intercalate_splitOn] at hmem

/-- `str.isspace`, of one character. -/
def space (n : Nat) : Bool :=
  (9 ≤ n ∧ n ≤ 13) ∨ (28 ≤ n ∧ n ≤ 32) ∨ n = 133 ∨ n = 160 ∨ n = 5760 ∨ (8192 ≤ n ∧ n ≤ 8202) ∨ n = 8232 ∨ n = 8233 ∨
    n = 8239 ∨ n = 8287 ∨ n = 12288

/-- `str.strip`. -/
def strip (s : List Nat) : List Nat := ((s.dropWhile space).reverse.dropWhile space).reverse

theorem strip_of_solid {s : List Nat} (h : ∀ n ∈ s, space n = false) : strip s = s := by
  have hdrop : ∀ {l : List Nat}, (∀ n ∈ l, space n = false) → l.dropWhile space = l := by
    intro l hl
    cases l with
    | nil => rfl
    | cons n l => rw [List.dropWhile_cons, hl n List.mem_cons_self, if_neg (by decide)]
  unfold strip
  rw [hdrop h, hdrop fun n hn => h n (List.mem_reverse.1 hn), List.reverse_reverse]

/-! ## Numbers -/

/-- `'0'` to `'9'`. -/
def digit (n : Nat) : Bool := 48 ≤ n ∧ n ≤ 57

theorem digit_iff {n : Nat} : digit n = true ↔ 48 ≤ n ∧ n ≤ 57 := by simp [digit]

/-- `str` of an int that is not negative. -/
def decimal (n : Nat) : List Nat := if n = 0 then [48] else ((Nat.digits 10 n).map (48 + ·)).reverse

/-- `int` of decimal digits. -/
def number (s : List Nat) : Nat := Nat.ofDigits 10 (s.reverse.map (· - 48))

theorem digit_decimal (n : Nat) : ∀ d ∈ decimal n, digit d = true := by
  intro d hd
  unfold decimal at hd
  rw [digit_iff]
  split at hd
  · rw [List.mem_singleton] at hd
    omega
  · obtain ⟨e, he, rfl⟩ := List.mem_map.1 (List.mem_reverse.1 hd)
    have := Nat.digits_lt_base (by decide : 1 < 10) he
    omega

theorem decimal_ne_nil (n : Nat) : decimal n ≠ [] := by
  unfold decimal
  split
  · simp
  · next h => simpa using Nat.digits_ne_nil_iff_ne_zero.2 h

theorem number_decimal (n : Nat) : number (decimal n) = n := by
  unfold number decimal
  split
  · next h =>
    rw [h]
    rfl
  · rw [List.reverse_reverse, List.map_map]
    have hid : (fun d => d - 48) ∘ (fun d => 48 + d) = id := by
      funext d
      simp
    rw [hid, List.map_id, Nat.ofDigits_digits]

/-- Leading zeros are what a number read and written again loses. -/
theorem length_decimal_number {s : List Nat} (hne : s ≠ []) (hs : ∀ d ∈ s, digit d = true) :
    (decimal (number s)).length ≤ s.length := by
  have hpos : 0 < s.length := List.length_pos_iff.2 hne
  unfold decimal
  split
  · exact hpos
  · next h =>
    rw [List.length_reverse, List.length_map]
    have hlt : number s < 10 ^ s.length := by
      have hb : ∀ d ∈ s.reverse.map (· - 48), d < 10 := by
        intro d hd
        obtain ⟨e, he, rfl⟩ := List.mem_map.1 hd
        have := digit_iff.1 (hs e (List.mem_reverse.1 he))
        omega
      have := Nat.ofDigits_lt_base_pow_length (by decide : 1 < 10) hb
      rwa [List.length_map, List.length_reverse] at this
    exact (Nat.digits_length_le_iff (by decide) _).2 hlt

/-! ## UTF-8 -/

instance (n : Nat) : Decidable (Scalar n) := inferInstanceAs (Decidable (_ ∨ _ ∧ _))

/-- `str.encode()`; none of a lone surrogate (`UnicodeEncodeError`). -/
def encode (s : List Nat) : Option (List UInt8) :=
  if ∀ n ∈ s, Scalar n then some (String.ofList (s.map Char.ofNat)).toUTF8.data.toList else none

theorem encode_isSome {s : List Nat} : (encode s).isSome = true ↔ ∀ n ∈ s, Scalar n := by
  unfold encode
  split
  · next h => simpa using h
  · next h => simpa using h

theorem toNat_ofNat {n : Nat} (h : Scalar n) : (Char.ofNat n).toNat = n := by
  have hv : n.isValidChar := h
  unfold Char.ofNat
  rw [dif_pos hv]
  rfl

/-- Two texts with one encoding are one. -/
theorem encode_injective {s s' : List Nat} {bytes : List UInt8} (h : encode s = some bytes)
    (h' : encode s' = some bytes) : s = s' := by
  unfold encode at h h'
  split at h
  · next hs =>
    split at h'
    · next hs' =>
      have hb := (Option.some.inj h).trans (Option.some.inj h').symm
      have hstr : String.ofList (s.map Char.ofNat) = String.ofList (s'.map Char.ofNat) := by
        rw [← String.toByteArray_inj]
        exact ByteArray.ext (Array.toList_inj.1 hb)
      have hchars := String.ofList_injective hstr
      have hback : ∀ {l : List Nat}, (∀ n ∈ l, Scalar n) → (l.map Char.ofNat).map Char.toNat = l := by
        intro l hl
        rw [List.map_map]
        exact (List.map_congr_left fun n hn => toNat_ofNat (hl n hn)).trans (List.map_id l)
      rw [← hback hs, hchars, hback hs']
    · cases h'
  · cases h

end PyText
