import Mathlib.Tactic.Common

/-!
# JSON text, as Python reads and writes it

`dict` is `json.dumps` of a dict of texts, compact and ASCII only: what is not printable ASCII is escaped, as a pair of
surrogates above the basic plane.  `loads` is `json.loads`, which takes any whitespace, numbers and nesting, and keeps a
lone surrogate.

    loads (dict members) = some (.obj members)     (loads_dict)
    every character of dict members is ASCII       (dict_ascii)

A text that is read is its code points, since a Python str may hold surrogates and a `String` may not.
-/

namespace JsonText

/-- What `json.loads` gives.  A dict's members are as they are written: of two with one name the later counts. -/
inductive Value where
  | null
  | bool (b : Bool)
  | num (text : List Char)
  | str (points : List Nat)
  | arr (items : List Value)
  | obj (members : List (List Nat × Value))

/-- The code points of a text. -/
def points (text : String) : List Nat := text.toList.map Char.toNat

/-- A code point that is not a surrogate. -/
def Scalar (n : Nat) : Prop := n < 55296 ∨ 57343 < n ∧ n < 1114112

theorem scalar_points (text : String) : ∀ n ∈ points text, Scalar n := by
  intro n hn
  obtain ⟨c, -, rfl⟩ := List.mem_map.1 hn
  exact c.valid

/-! ## Writing -/

def hexDigit (n : Nat) : Char := if n < 10 then Char.ofNat (48 + n) else Char.ofNat (87 + n)

/-- `"\\u{0:04x}"`. -/
def unicode (n : Nat) : List Char :=
  ['\\', 'u', hexDigit (n / 4096 % 16), hexDigit (n / 256 % 16), hexDigit (n / 16 % 16), hexDigit (n % 16)]

/-- `ESCAPE_DCT`. -/
def shortEscape? (n : Nat) : Option Char :=
  if n = 92 then some '\\'
  else if n = 34 then some '"'
  else if n = 8 then some 'b'
  else if n = 12 then some 'f'
  else if n = 10 then some 'n'
  else if n = 13 then some 'r'
  else if n = 9 then some 't'
  else none

/-- `py_encode_basestring_ascii`, of one code point. -/
def escape (n : Nat) : List Char :=
  match shortEscape? n with
  | some e => ['\\', e]
  | none =>
    if 32 ≤ n ∧ n ≤ 126 then [Char.ofNat n]
    else if n < 65536 then unicode n
    else unicode (55296 + (n - 65536) / 1024) ++ unicode (56320 + (n - 65536) % 1024)

def quoted (text : List Nat) : List Char := '"' :: (text.flatMap escape ++ ['"'])

def member (m : List Nat × List Nat) : List Char := quoted m.1 ++ ':' :: quoted m.2

/-- The members, with a comma between two. -/
def commas : List (List Nat × List Nat) → List Char
  | [] => []
  | [m] => member m
  | m :: ms => member m ++ ',' :: commas ms

/-- `json.dumps(…, separators=(",", ":"))`, of a dict of texts. -/
def dict (ms : List (List Nat × List Nat)) : List Char := '{' :: (commas ms ++ ['}'])

/-! ## Reading a text -/

def hexValue? (c : Char) : Option Nat :=
  if '0' ≤ c ∧ c ≤ '9' then some (c.toNat - 48)
  else if 'a' ≤ c ∧ c ≤ 'f' then some (c.toNat - 87)
  else if 'A' ≤ c ∧ c ≤ 'F' then some (c.toNat - 55)
  else none

def hex4? (a b c d : Char) : Option Nat := do
  let a ← hexValue? a
  let b ← hexValue? b
  let c ← hexValue? c
  let d ← hexValue? d
  some (a * 4096 + b * 256 + c * 16 + d)

/-- `BACKSLASH`. -/
def shortValue? (c : Char) : Option Nat :=
  if c = '"' ∨ c = '\\' ∨ c = '/' then some c.toNat
  else if c = 'b' then some 8
  else if c = 'f' then some 12
  else if c = 'n' then some 10
  else if c = 'r' then some 13
  else if c = 't' then some 9
  else none

/-- `scanstring`, after the opening quote: each escape by itself. -/
def units : List Char → Option (List Nat × List Char)
  | [] => none
  | c :: text =>
    if c = '"' then some ([], text)
    else if c = '\\' then
      match text with
      | [] => none
      | e :: text =>
        if e = 'u' then
          match text with
          | a :: b :: c :: d :: text => (hex4? a b c d).bind fun n => (units text).map (Prod.map (n :: ·) id)
          | _ => none
        else (shortValue? e).bind fun n => (units text).map (Prod.map (n :: ·) id)
    else if c.toNat < 32 then none
    else (units text).map (Prod.map (c.toNat :: ·) id)

/-- A high surrogate and the low one after it are one code point. -/
def joined : List Nat → List Nat
  | h :: l :: ns =>
    if 55296 ≤ h ∧ h ≤ 56319 ∧ 56320 ≤ l ∧ l ≤ 57343 then (65536 + (h - 55296) * 1024 + (l - 56320)) :: joined ns
    else h :: joined (l :: ns)
  | ns => ns

def string (text : List Char) : Option (List Nat × List Char) := (units text).map (Prod.map joined id)

/-! ## Reading a value -/

def skip (text : List Char) : List Char := text.dropWhile fun c => c = ' ' ∨ c = '\t' ∨ c = '\n' ∨ c = '\r'

/-- A run of digits. -/
def digits (text : List Char) : List Char × List Char := (text.takeWhile Char.isDigit, text.dropWhile Char.isDigit)

/-- `(0|[1-9]\d*)`. -/
def whole : List Char → Option (List Char × List Char)
  | '0' :: text => some (['0'], text)
  | text => if (digits text).1 = [] then none else some (digits text)

/-- `(\.\d+)?`. -/
def fraction : List Char → List Char × List Char
  | '.' :: text => if (digits text).1 = [] then ([], '.' :: text) else Prod.map ('.' :: ·) id (digits text)
  | text => ([], text)

/-- `([eE][-+]?\d+)?`. -/
def exponent : List Char → List Char × List Char
  | e :: text =>
    if e = 'e' ∨ e = 'E' then
      match text with
      | s :: rest =>
        if s = '+' ∨ s = '-' then
          if (digits rest).1 = [] then ([], e :: text) else Prod.map ([e, s] ++ ·) id (digits rest)
        else if (digits text).1 = [] then ([], e :: text) else Prod.map (e :: ·) id (digits text)
      | [] => ([], [e])
    else ([], e :: text)
  | [] => ([], [])

def number (text : List Char) : Option (List Char × List Char) := do
  let (sign, text) := match text with
    | '-' :: text => (['-'], text)
    | text => ([], text)
  let (i, text) ← whole text
  let (f, text) := fraction text
  let (e, text) := exponent text
  some (sign ++ i ++ f ++ e, text)

/-- The text after a mark. -/
def after (mark : Char) : List Char → Option (List Char)
  | [] => none
  | c :: text => if c = mark then some text else none

mutual

/-- `scan_once`. -/
def value : Nat → List Char → Option (Value × List Char)
  | 0, _ => none
  | fuel + 1, text =>
    match text with
    | '"' :: text => (string text).map (Prod.map .str id)
    | '{' :: text =>
      match after '}' (skip text) with
      | some text => some (.obj [], text)
      | none => (members fuel (skip text)).map (Prod.map .obj id)
    | '[' :: text =>
      match after ']' (skip text) with
      | some text => some (.arr [], text)
      | none => (items fuel (skip text)).map (Prod.map .arr id)
    | 'n' :: 'u' :: 'l' :: 'l' :: text => some (.null, text)
    | 't' :: 'r' :: 'u' :: 'e' :: text => some (.bool true, text)
    | 'f' :: 'a' :: 'l' :: 's' :: 'e' :: text => some (.bool false, text)
    | 'N' :: 'a' :: 'N' :: text => some (.num ['N', 'a', 'N'], text)
    | 'I' :: 'n' :: 'f' :: 'i' :: 'n' :: 'i' :: 't' :: 'y' :: text => some (.num "Infinity".toList, text)
    | '-' :: 'I' :: 'n' :: 'f' :: 'i' :: 'n' :: 'i' :: 't' :: 'y' :: text => some (.num "-Infinity".toList, text)
    | text => (number text).map (Prod.map .num id)

/-- `JSONObject`, from the first name on. -/
def members : Nat → List Char → Option (List (List Nat × Value) × List Char)
  | 0, _ => none
  | fuel + 1, text => do
    let text ← after '"' text
    let (name, text) ← string text
    let text ← after ':' (skip text)
    let (v, text) ← value fuel (skip text)
    match after '}' (skip text) with
    | some text => some ([(name, v)], text)
    | none => do
      let text ← after ',' (skip text)
      (members fuel (skip text)).map (Prod.map ((name, v) :: ·) id)

/-- `JSONArray`, from the first item on. -/
def items : Nat → List Char → Option (List Value × List Char)
  | 0, _ => none
  | fuel + 1, text => do
    let (v, text) ← value fuel text
    match after ']' (skip text) with
    | some text => some ([v], text)
    | none => do
      let text ← after ',' (skip text)
      (items fuel (skip text)).map (Prod.map (v :: ·) id)

end

/-- `json.loads`.  A level is read from at least one character. -/
def loads (text : List Char) : Option Value :=
  match after '\ufeff' text with
  | some _ => none
  | none =>
    match value (text.length + 1) (skip text) with
    | some (v, rest) => if skip rest = [] then some v else none
    | none => none

/-! ## Round trip -/

/-- What an escaped code point is read as, before surrogates are joined. -/
def pieces (n : Nat) : List Nat :=
  if n < 65536 then [n]
  else [55296 + (n - 65536) / 1024, 56320 + (n - 65536) % 1024]

theorem pieces_of_lt {n : Nat} (h : n < 65536) : pieces n = [n] := if_pos h

theorem pieces_of_not_lt {n : Nat} (h : ¬ n < 65536) :
    pieces n = [55296 + (n - 65536) / 1024, 56320 + (n - 65536) % 1024] := if_neg h

theorem hexValue?_hexDigit : ∀ n < 16, hexValue? (hexDigit n) = some n := by
  decide +kernel

theorem hex4?_hexDigit {n : Nat} (h : n < 65536) : hex4? (hexDigit (n / 4096 % 16)) (hexDigit (n / 256 % 16))
    (hexDigit (n / 16 % 16)) (hexDigit (n % 16)) = some n := by
  unfold hex4?
  rw [hexValue?_hexDigit _ (by omega), hexValue?_hexDigit _ (by omega), hexValue?_hexDigit _ (by omega),
    hexValue?_hexDigit _ (by omega)]
  show some _ = some n
  congr 1
  omega

theorem units_unicode {n : Nat} (h : n < 65536) (text : List Char) :
    units (unicode n ++ text) = (units text).map (Prod.map (n :: ·) id) := by
  show units ('\\' :: 'u' :: hexDigit (n / 4096 % 16) :: hexDigit (n / 256 % 16) :: hexDigit (n / 16 % 16) ::
    hexDigit (n % 16) :: text) = _
  rw [units, if_neg (by decide), if_pos rfl]
  simp only [if_true]
  rw [hex4?_hexDigit h, Option.bind_some]

theorem units_short {e : Char} {n : Nat} (hu : e ≠ 'u') (h : shortValue? e = some n) (text : List Char) :
    units ('\\' :: e :: text) = (units text).map (Prod.map (n :: ·) id) := by
  rw [units.eq_def]
  simp only [if_neg (show '\\' ≠ '"' by decide), if_true, if_neg hu]
  rw [h, Option.bind_some]

theorem units_plain {c : Char} (hquote : c ≠ '"') (hback : c ≠ '\\') (h : 32 ≤ c.toNat) (text : List Char) :
    units (c :: text) = (units text).map (Prod.map (c.toNat :: ·) id) := by
  rw [units.eq_def]
  simp only [if_neg hquote, if_neg hback]
  rw [if_neg (by omega)]

theorem shortEscape?_mem {n : Nat} {e : Char} (h : shortEscape? n = some e) : n ∈ [92, 34, 8, 12, 10, 13, 9] := by
  by_contra hn
  simp only [List.mem_cons, List.not_mem_nil, or_false, not_or] at hn
  unfold shortEscape? at h
  simp [hn] at h

/-- A short escape is read back. -/
theorem shortEscape?_read {n : Nat} {e : Char} (h : shortEscape? n = some e) :
    e ≠ 'u' ∧ shortValue? e = some n ∧ n < 65536 := by
  have hall : ∀ n ∈ [92, 34, 8, 12, 10, 13, 9],
      (shortEscape? n).all (fun e => e ≠ 'u' ∧ shortValue? e = some n ∧ n < 65536) = true := by
    decide
  have hn := hall n (shortEscape?_mem h)
  rw [h, Option.all_some] at hn
  exact of_decide_eq_true hn

/-- A printable ASCII character. -/
theorem toNat_printable : ∀ n < 127, 32 ≤ n → (Char.ofNat n).toNat = n := by
  decide +kernel

theorem units_escape {n : Nat} (hmax : n < 1114112) (text : List Char) :
    units (escape n ++ text) = (units text).map (Prod.map (pieces n ++ ·) id) := by
  unfold escape
  cases hshort : shortEscape? n with
  | some e =>
    obtain ⟨hu, hvalue, hlt⟩ := shortEscape?_read hshort
    rw [pieces_of_lt hlt]
    exact units_short hu hvalue text
  | none =>
    dsimp only
    by_cases hprint : 32 ≤ n ∧ n ≤ 126
    · have hnat := toNat_printable n (by omega) hprint.1
      have hquote : Char.ofNat n ≠ '"' := by
        intro he
        rw [he] at hnat
        subst hnat
        revert hshort
        decide
      have hback : Char.ofNat n ≠ '\\' := by
        intro he
        rw [he] at hnat
        subst hnat
        revert hshort
        decide
      rw [if_pos hprint, pieces_of_lt (by omega)]
      have hplain := units_plain hquote hback (by omega) text
      rw [hnat] at hplain
      exact hplain
    · rw [if_neg hprint]
      by_cases hlt : n < 65536
      · rw [if_pos hlt, pieces_of_lt hlt]
        exact units_unicode hlt text
      · rw [if_neg hlt, pieces_of_not_lt hlt, List.append_assoc, units_unicode (by omega), units_unicode (by omega),
          Option.map_map]
        rfl

theorem units_quoted (rest : List Char) : ∀ text : List Nat, (∀ n ∈ text, Scalar n) →
    units (text.flatMap escape ++ '"' :: rest) = some (text.flatMap pieces, rest)
  | [], _ => by
    show units ('"' :: rest) = some ([], rest)
    rw [units.eq_def]
    rfl
  | n :: text, h => by
    have hn : n < 55296 ∨ 57343 < n ∧ n < 1114112 := h n List.mem_cons_self
    rw [List.flatMap_cons, List.append_assoc, units_escape (by omega),
      units_quoted rest text fun m hm => h m (List.mem_cons_of_mem _ hm)]
    rfl

/-- What is not a high surrogate stands alone. -/
theorem joined_cons {n : Nat} (h : n < 55296 ∨ 56319 < n) (ns : List Nat) : joined (n :: ns) = n :: joined ns := by
  cases ns with
  | nil => rfl
  | cons m ns =>
    rw [joined, if_neg]
    omega

theorem joined_pieces : ∀ text : List Nat, (∀ n ∈ text, Scalar n) → joined (text.flatMap pieces) = text
  | [], _ => rfl
  | n :: text, h => by
    have hn : n < 55296 ∨ 57343 < n ∧ n < 1114112 := h n List.mem_cons_self
    have ih := joined_pieces text fun m hm => h m (List.mem_cons_of_mem _ hm)
    rw [List.flatMap_cons]
    by_cases hlt : n < 65536
    · rw [pieces_of_lt hlt, List.singleton_append, joined_cons (by omega), ih]
    · have hpair : 65536 + (55296 + (n - 65536) / 1024 - 55296) * 1024 + (56320 + (n - 65536) % 1024 - 56320) = n := by
        omega
      rw [pieces_of_not_lt hlt, List.cons_append, List.singleton_append, joined, if_pos (by omega), hpair, ih]

theorem string_quoted {text : List Nat} (h : ∀ n ∈ text, Scalar n) (rest : List Char) :
    string (text.flatMap escape ++ '"' :: rest) = some (text, rest) := by
  unfold string
  rw [units_quoted rest text h, Option.map_some, Prod.map_apply, joined_pieces text h]
  rfl

theorem quoted_append (text : List Nat) (rest : List Char) :
    quoted text ++ rest = '"' :: (text.flatMap escape ++ '"' :: rest) := by
  simp [quoted]

theorem value_quoted (fuel : Nat) {text : List Nat} (h : ∀ n ∈ text, Scalar n) (rest : List Char) :
    value (fuel + 1) (quoted text ++ rest) = some (.str text, rest) := by
  rw [quoted_append, value, string_quoted h]
  rfl

/-- Nothing is skipped before a mark. -/
theorem skip_mark {c : Char} (h : c ≠ ' ' ∧ c ≠ '\t' ∧ c ≠ '\n' ∧ c ≠ '\r') (text : List Char) : skip (c :: text) = c :: text := by
  unfold skip
  rw [List.dropWhile_cons_of_neg]
  simp [h]

theorem skip_quoted (text : List Nat) (rest : List Char) : skip (quoted text ++ rest) = quoted text ++ rest :=
  skip_mark (by decide) _

theorem after_mark (mark : Char) (text : List Char) : after mark (mark :: text) = some text := if_pos rfl

theorem after_ne {mark c : Char} (h : c ≠ mark) (text : List Char) : after mark (c :: text) = none := if_neg h

/-- A member's name and text hold no surrogate. -/
def Written (m : List Nat × List Nat) : Prop := (∀ n ∈ m.1, Scalar n) ∧ ∀ n ∈ m.2, Scalar n

section
variable (fuel : Nat) {m : List Nat × List Nat} (h : Written m) (rest : List Char)
include h

/-- The last member, and the brace after it. -/
theorem members_last : members (fuel + 2) (member m ++ '}' :: rest) = some ([(m.1, .str m.2)], rest) := by
  unfold member
  rw [List.append_assoc, List.cons_append, quoted_append, members, after_mark]
  simp only [Option.bind_eq_bind, Option.bind_some]
  rw [string_quoted h.1, Option.bind_some, skip_mark (by decide), after_mark, Option.bind_some, skip_quoted,
    value_quoted fuel h.2, Option.bind_some, skip_mark (by decide), after_mark]

/-- A member, the comma after it, and the rest of them. -/
theorem members_more : members (fuel + 2) (member m ++ ',' :: rest) =
    (members (fuel + 1) (skip rest)).map (Prod.map ((m.1, .str m.2) :: ·) id) := by
  unfold member
  rw [List.append_assoc, List.cons_append, quoted_append, members, after_mark]
  simp only [Option.bind_eq_bind, Option.bind_some]
  rw [string_quoted h.1, Option.bind_some, skip_mark (by decide), after_mark, Option.bind_some, skip_quoted,
    value_quoted fuel h.2, Option.bind_some, skip_mark (by decide), after_ne (by decide), after_mark, Option.bind_some]

end

/-- The members start with a quote. -/
theorem commas_append (m : List Nat × List Nat) (ms : List (List Nat × List Nat)) (rest : List Char) :
    ∃ text, commas (m :: ms) ++ rest = '"' :: text := by
  cases ms with
  | nil => exact ⟨_, rfl⟩
  | cons => exact ⟨_, rfl⟩

theorem skip_commas (m : List Nat × List Nat) (ms : List (List Nat × List Nat)) (rest : List Char) :
    skip (commas (m :: ms) ++ rest) = commas (m :: ms) ++ rest := by
  obtain ⟨text, h⟩ := commas_append m ms rest
  rw [h]
  exact skip_mark (by decide) text

theorem members_commas (rest : List Char) : ∀ (ms : List (List Nat × List Nat)) (m : List Nat × List Nat) (fuel : Nat),
    (∀ m' ∈ m :: ms, Written m') → ms.length + 2 ≤ fuel → members fuel (commas (m :: ms) ++ '}' :: rest) =
      some ((m :: ms).map fun m => (m.1, .str m.2), rest)
  | [], m, fuel, h, hfuel => by
    obtain ⟨k, rfl⟩ := Nat.exists_eq_add_of_le' hfuel
    exact members_last k (h m List.mem_cons_self) rest
  | n :: ms, m, fuel, h, hfuel => by
    rw [List.length_cons] at hfuel
    obtain ⟨k, rfl⟩ : ∃ k, fuel = k + 2 := ⟨fuel - 2, by omega⟩
    have ih := members_commas rest ms n (k + 1) (fun m' hm => h m' (List.mem_cons_of_mem _ hm)) (by omega)
    have hcommas : commas (m :: n :: ms) = member m ++ ',' :: commas (n :: ms) := rfl
    rw [hcommas, List.append_assoc, List.cons_append, members_more k (h m List.mem_cons_self), skip_commas, ih]
    rfl

/-- The members take a character each, at least. -/
theorem length_commas : ∀ ms : List (List Nat × List Nat), ms.length ≤ (commas ms).length
  | [] => by simp
  | [m] => by
    simp only [commas, member, quoted, List.length_append, List.length_cons, List.length_nil]
    omega
  | m :: n :: ms => by
    have ih := length_commas (n :: ms)
    have hcommas : commas (m :: n :: ms) = member m ++ ',' :: commas (n :: ms) := rfl
    simp only [hcommas, List.length_append, List.length_cons] at ih ⊢
    omega

/-- What is written of a dict is read back. -/
theorem loads_dict {ms : List (List Nat × List Nat)} (h : ∀ m ∈ ms, Written m) :
    loads (dict ms) = some (.obj (ms.map fun m => (m.1, .str m.2))) := by
  cases ms with
  | nil => rfl
  | cons m ms =>
    have hlen := length_commas (m :: ms)
    obtain ⟨text, htext⟩ := commas_append m ms ['}']
    have hread := members_commas [] ms m (dict (m :: ms)).length h (by
      simp only [dict, List.length_cons, List.length_append, List.length_nil] at hlen ⊢
      omega)
    have hvalue : value ((dict (m :: ms)).length + 1) (skip (dict (m :: ms))) =
        some (.obj ((m :: ms).map fun m => (m.1, .str m.2)), []) := by
      generalize (dict (m :: ms)).length = fuel at hread ⊢
      unfold dict
      rw [skip_mark (by decide), value, skip_commas, htext, after_ne (by decide), ← htext, hread]
      rfl
    unfold loads
    rw [show after '\ufeff' (dict (m :: ms)) = none from after_ne (by decide) _, hvalue]
    rfl

/-! ## ASCII -/

theorem hexDigit_ascii : ∀ n < 16, (hexDigit n).toNat < 128 := by
  decide +kernel

theorem unicode_ascii (n : Nat) : ∀ c ∈ unicode n, c.toNat < 128 := by
  unfold unicode
  simp only [List.mem_cons, List.not_mem_nil, or_false]
  rintro c (rfl | rfl | rfl | rfl | rfl | rfl)
  · decide
  · decide
  · exact hexDigit_ascii _ (by omega)
  · exact hexDigit_ascii _ (by omega)
  · exact hexDigit_ascii _ (by omega)
  · exact hexDigit_ascii _ (by omega)

theorem shortEscape?_ascii {n : Nat} {e : Char} (h : shortEscape? n = some e) : e.toNat < 128 := by
  have hall : ∀ n ∈ [92, 34, 8, 12, 10, 13, 9], (shortEscape? n).all (fun e => e.toNat < 128) = true := by
    decide
  have hn := hall n (shortEscape?_mem h)
  rw [h, Option.all_some] at hn
  exact of_decide_eq_true hn

theorem escape_ascii (n : Nat) : ∀ d ∈ escape n, d.toNat < 128 := by
  unfold escape
  cases hshort : shortEscape? n with
  | some e =>
    simp only [List.mem_cons, List.not_mem_nil, or_false]
    rintro d (rfl | rfl)
    · decide
    · exact shortEscape?_ascii hshort
  | none =>
    dsimp only
    split
    · intro d hd
      rw [List.mem_singleton.1 hd, toNat_printable n (by omega) (by omega)]
      omega
    · split
      · exact unicode_ascii _
      · intro d hd
        rcases List.mem_append.1 hd with hd | hd
        · exact unicode_ascii _ d hd
        · exact unicode_ascii _ d hd

theorem quoted_ascii (text : List Nat) : ∀ d ∈ quoted text, d.toNat < 128 := by
  unfold quoted
  simp only [List.mem_cons, List.mem_append, List.mem_flatMap, List.not_mem_nil, or_false]
  rintro d (rfl | ⟨n, -, hd⟩ | rfl)
  · decide
  · exact escape_ascii n d hd
  · decide

theorem member_ascii (m : List Nat × List Nat) : ∀ d ∈ member m, d.toNat < 128 := by
  unfold member
  intro d hd
  rcases List.mem_append.1 hd with hd | hd
  · exact quoted_ascii _ d hd
  · rcases List.mem_cons.1 hd with rfl | hd
    · decide
    · exact quoted_ascii _ d hd

theorem commas_ascii : ∀ ms : List (List Nat × List Nat), ∀ d ∈ commas ms, d.toNat < 128
  | [] => by simp [commas]
  | [m] => member_ascii m
  | m :: n :: ms => by
    have ih := commas_ascii (n :: ms)
    intro d hd
    rcases List.mem_append.1 hd with hd | hd
    · exact member_ascii m d hd
    · rcases List.mem_cons.1 hd with rfl | hd
      · decide
      · exact ih d hd

theorem dict_ascii (ms : List (List Nat × List Nat)) : ∀ d ∈ dict ms, d.toNat < 128 := by
  unfold dict
  simp only [List.mem_cons, List.mem_append, List.not_mem_nil, or_false]
  rintro d (rfl | hd | rfl)
  · decide
  · exact commas_ascii ms d hd
  · decide

/-! ## Lengths -/

theorem length_escape_basic {n : Nat} (h : n < 65536) : (escape n).length ≤ 6 := by
  unfold escape
  cases shortEscape? n with
  | some e =>
    show 2 ≤ 6
    omega
  | none =>
    dsimp only
    split
    · show 1 ≤ 6
      omega
    · show 6 ≤ 6
      omega

/-- Above the basic plane a code point takes a pair of escapes. -/
theorem length_escape_astral {n : Nat} (h : 65536 ≤ n) : (escape n).length = 12 := by
  have hshort : shortEscape? n = none := by
    cases hs : shortEscape? n with
    | none => rfl
    | some e =>
      have := (shortEscape?_read hs).2.2
      omega
  unfold escape
  rw [hshort]
  dsimp only
  rw [if_neg (by omega), if_neg (by omega)]
  rfl

theorem length_quoted (text : List Nat) : (quoted text).length = 2 + (text.flatMap escape).length := by
  unfold quoted
  simp only [List.length_cons, List.length_append, List.length_nil]
  omega

theorem length_quoted_basic {text : List Nat} (h : ∀ n ∈ text, n < 65536) : (quoted text).length ≤ 2 + 6 * text.length := by
  rw [length_quoted]
  induction text with
  | nil => simp
  | cons n text ih =>
    have hn := length_escape_basic (h n List.mem_cons_self)
    have hrest := ih fun m hm => h m (List.mem_cons_of_mem _ hm)
    rw [List.flatMap_cons, List.length_append, List.length_cons]
    omega

theorem length_quoted_astral {text : List Nat} (h : ∀ n ∈ text, 65536 ≤ n) : (quoted text).length = 2 + 12 * text.length := by
  rw [length_quoted]
  induction text with
  | nil => simp
  | cons n text ih =>
    have hn := length_escape_astral (h n List.mem_cons_self)
    have hrest := ih fun m hm => h m (List.mem_cons_of_mem _ hm)
    rw [List.flatMap_cons, List.length_append, List.length_cons]
    omega

theorem length_dict_pair (a b c d : List Nat) : (dict [(a, b), (c, d)]).length =
    5 + (quoted a).length + (quoted b).length + (quoted c).length + (quoted d).length := by
  have hcommas : commas [(a, b), (c, d)] = member (a, b) ++ ',' :: member (c, d) := rfl
  simp only [dict, hcommas, member, List.length_cons, List.length_append, List.length_nil]
  omega

end JsonText
