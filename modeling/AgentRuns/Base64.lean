import Mathlib.Data.List.TakeWhile

/-!
# Base64, as Python reads and writes it

`encode` is `base64.urlsafe_b64encode`, its padding included.  `decode` is `base64.urlsafe_b64decode`, which takes both
alphabets, skips what belongs to neither, and stops where the padding completes a quantum.

    decode (encode bs) = some bs                               (decode_encode)
    repad (unpadded (encode bs)) = encode bs                   (repad_unpadded)
    (unpadded (encode bs)).length = (4 * bs.length + 2) / 3    (length_unpadded)
-/

namespace Base64

/-! ## Alphabet -/

/-- The character of a sextet, of the URL-safe alphabet. -/
def digit (n : Nat) : Char :=
  if n < 26 then Char.ofNat (65 + n)
  else if n < 52 then Char.ofNat (71 + n)
  else if n < 62 then Char.ofNat (n - 4)
  else if n = 62 then '-' else '_'

/-- The sextet of a character, of either alphabet. -/
def value? (c : Char) : Option Nat :=
  if 'A' ≤ c ∧ c ≤ 'Z' then some (c.toNat - 65)
  else if 'a' ≤ c ∧ c ≤ 'z' then some (c.toNat - 71)
  else if '0' ≤ c ∧ c ≤ '9' then some (c.toNat + 4)
  else if c = '-' ∨ c = '+' then some 62
  else if c = '_' ∨ c = '/' then some 63
  else none

theorem value?_digit : ∀ n < 64, value? (digit n) = some n := by
  decide +kernel

theorem digit_ne_pad : ∀ n < 64, digit n ≠ '=' := by
  decide +kernel

/-! ## Encoding -/

/-- `base64.urlsafe_b64encode`. -/
def encode : List UInt8 → List Char
  | a :: b :: c :: bytes =>
    digit (a.toNat / 4) :: digit (a.toNat % 4 * 16 + b.toNat / 16) :: digit (b.toNat % 16 * 4 + c.toNat / 64) ::
      digit (c.toNat % 64) :: encode bytes
  | [a, b] => [digit (a.toNat / 4), digit (a.toNat % 4 * 16 + b.toNat / 16), digit (b.toNat % 16 * 4), '=']
  | [a] => [digit (a.toNat / 4), digit (a.toNat % 4 * 16), '=', '=']
  | [] => []

/-- `.rstrip("=")`. -/
def unpadded (text : List Char) : List Char := (text.reverse.dropWhile (· = '=')).reverse

/-- `cursor + "=" * (-len(cursor) % 4)`. -/
def repad (text : List Char) : List Char := text ++ List.replicate ((4 - text.length % 4) % 4) '='

/-! ## Decoding -/

/-- `binascii.a2b_base64`, not strict: how many characters of a quantum are read, what is left of the last one, and the
padding read since. -/
def scan : Nat → Nat → Nat → List Char → Option (List UInt8)
  | quad, _, _, [] => if quad = 0 then some [] else none
  | quad, left, pads, c :: text =>
    if c = '=' then
      if 2 ≤ quad then
        if 4 ≤ quad + (pads + 1) then some [] else scan quad left (pads + 1) text
      else scan quad left pads text
    else
      match value? c with
      | none => scan quad left pads text
      | some v =>
        match quad with
        | 0 => scan 1 v 0 text
        | 1 => (scan 2 (v % 16) 0 text).map (UInt8.ofNat (left * 4 + v / 16) :: ·)
        | 2 => (scan 3 (v % 4) 0 text).map (UInt8.ofNat (left * 16 + v / 4) :: ·)
        | _ => (scan 0 0 0 text).map (UInt8.ofNat (left * 64 + v) :: ·)

/-- `base64.urlsafe_b64decode`. -/
def decode (text : List Char) : Option (List UInt8) := scan 0 0 0 text

/-! ## Round trip -/

section
variable {n left pads : Nat} {text : List Char}

theorem scan_first (h : n < 64) : scan 0 left pads (digit n :: text) = scan 1 n 0 text := by
  simp only [scan, if_neg (digit_ne_pad n h), value?_digit n h]

theorem scan_second (h : n < 64) : scan 1 left pads (digit n :: text) =
    (scan 2 (n % 16) 0 text).map (UInt8.ofNat (left * 4 + n / 16) :: ·) := by
  simp only [scan, if_neg (digit_ne_pad n h), value?_digit n h]

theorem scan_third (h : n < 64) : scan 2 left pads (digit n :: text) =
    (scan 3 (n % 4) 0 text).map (UInt8.ofNat (left * 16 + n / 4) :: ·) := by
  simp only [scan, if_neg (digit_ne_pad n h), value?_digit n h]

theorem scan_fourth (h : n < 64) : scan 3 left pads (digit n :: text) =
    (scan 0 0 0 text).map (UInt8.ofNat (left * 64 + n) :: ·) := by
  simp only [scan, if_neg (digit_ne_pad n h), value?_digit n h]

end

/-- A byte is what its sextets come to. -/
theorem ofNat_eq (a : UInt8) {n : Nat} (h : n = a.toNat) : UInt8.ofNat n = a := by
  subst h
  exact UInt8.ofNat_toNat

theorem decode_encode : ∀ bytes : List UInt8, decode (encode bytes) = some bytes
  | a :: b :: c :: bytes => by
    have ha := a.toNat_lt
    have hb := b.toNat_lt
    have hc := c.toNat_lt
    have ih := decode_encode bytes
    unfold decode at ih ⊢
    rw [encode, scan_first (by omega), scan_second (by omega), scan_third (by omega), scan_fourth (by omega), ih]
    simp only [Option.map_some]
    rw [ofNat_eq a (by omega), ofNat_eq b (by omega), ofNat_eq c (by omega)]
  | [a, b] => by
    have ha := a.toNat_lt
    have hb := b.toNat_lt
    unfold decode
    rw [encode, scan_first (by omega), scan_second (by omega), scan_third (by omega)]
    show some [_, _] = _
    rw [ofNat_eq a (by omega), ofNat_eq b (by omega)]
  | [a] => by
    have ha := a.toNat_lt
    unfold decode
    rw [encode, scan_first (by omega), scan_second (by omega)]
    show some [_] = _
    rw [ofNat_eq a (by omega)]
  | [] => rfl

/-! ## Padding -/

/-- The characters of the data, and the padding after them. -/
theorem encode_padded : ∀ bytes : List UInt8, ∃ data : List Char, encode bytes = repad data ∧ (∀ c ∈ data, c ≠ '=') ∧
    data.length = (4 * bytes.length + 2) / 3
  | a :: b :: c :: bytes => by
    have ha := a.toNat_lt
    have hb := b.toNat_lt
    have hc := c.toNat_lt
    obtain ⟨data, hdata, hpad, hlen⟩ := encode_padded bytes
    refine ⟨digit (a.toNat / 4) :: digit (a.toNat % 4 * 16 + b.toNat / 16) :: digit (b.toNat % 16 * 4 + c.toNat / 64) ::
      digit (c.toNat % 64) :: data, ?_, ?_, ?_⟩
    · rw [encode, hdata]
      unfold repad
      simp only [List.length_cons, List.cons_append]
      rw [show (data.length + 1 + 1 + 1 + 1) % 4 = data.length % 4 by omega]
    · simp only [List.mem_cons]
      rintro d (rfl | rfl | rfl | rfl | hd)
      · exact digit_ne_pad _ (by omega)
      · exact digit_ne_pad _ (by omega)
      · exact digit_ne_pad _ (by omega)
      · exact digit_ne_pad _ (by omega)
      · exact hpad d hd
    · simp only [List.length_cons]
      omega
  | [a, b] => by
    have ha := a.toNat_lt
    have hb := b.toNat_lt
    refine ⟨[digit (a.toNat / 4), digit (a.toNat % 4 * 16 + b.toNat / 16), digit (b.toNat % 16 * 4)], rfl, ?_, by simp⟩
    simp only [List.mem_cons, List.not_mem_nil, or_false]
    rintro d (rfl | rfl | rfl)
    · exact digit_ne_pad _ (by omega)
    · exact digit_ne_pad _ (by omega)
    · exact digit_ne_pad _ (by omega)
  | [a] => by
    have ha := a.toNat_lt
    refine ⟨[digit (a.toNat / 4), digit (a.toNat % 4 * 16)], rfl, ?_, by simp⟩
    simp only [List.mem_cons, List.not_mem_nil, or_false]
    rintro d (rfl | rfl)
    · exact digit_ne_pad _ (by omega)
    · exact digit_ne_pad _ (by omega)
  | [] => ⟨[], rfl, fun c hc => (List.not_mem_nil hc).elim, rfl⟩

/-- Padding comes off whole. -/
theorem unpadded_repad {data : List Char} (h : ∀ c ∈ data, c ≠ '=') : unpadded (repad data) = data := by
  unfold unpadded repad
  rw [List.reverse_append, List.reverse_replicate, List.dropWhile_append_of_pos]
  · rw [List.dropWhile_eq_self_iff.2, List.reverse_reverse]
    intro hl
    simpa using h _ (List.mem_reverse.1 (List.getElem_mem hl))
  · intro c hc
    simpa using (List.mem_replicate.1 hc).2

theorem repad_unpadded (bytes : List UInt8) : repad (unpadded (encode bytes)) = encode bytes := by
  obtain ⟨data, hdata, hpad, -⟩ := encode_padded bytes
  rw [hdata, unpadded_repad hpad]

theorem length_unpadded (bytes : List UInt8) : (unpadded (encode bytes)).length = (4 * bytes.length + 2) / 3 := by
  obtain ⟨data, hdata, hpad, hlen⟩ := encode_padded bytes
  rw [hdata, unpadded_repad hpad, hlen]

end Base64
