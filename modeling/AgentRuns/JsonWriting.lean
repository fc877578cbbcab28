import AgentRuns.JsonText

/-!
# Values written as JSON

`Style.dumps` writes any value compactly, whatever way a text is escaped (`Style`): to ASCII (`ascii`), or only where JSON
asks for it (`plain`), as `ensure_ascii=False` and pydantic do.

    loads (dumps v) = some v     of numbers that are JSON's and texts without surrogates      (loads_dumps)
-/

namespace JsonText

/-- A way to write a text: how a code point is escaped, and what of it is read before surrogates are joined. -/
structure Style where
  escape : Nat → List Char
  pieces : Nat → List Nat
  units_escape : ∀ {n : Nat}, Scalar n → ∀ text, units (escape n ++ text) = (units text).map (Prod.map (pieces n ++ ·) id)
  joined_pieces : ∀ text : List Nat, (∀ n ∈ text, Scalar n) → joined (text.flatMap pieces) = text

/-- `ensure_ascii=True` -/
def ascii : Style where
  escape := escape
  pieces := pieces
  units_escape h := units_escape (by unfold Scalar at h; omega)
  joined_pieces := joined_pieces

/-! ## Only what must be escaped -/

/-- `py_encode_basestring`, of one code point. -/
def escapePlain (n : Nat) : List Char :=
  match shortEscape? n with
  | some e => ['\\', e]
  | none => if n < 32 then unicode n else [Char.ofNat n]

theorem toNat_ofNat {n : Nat} (h : Scalar n) : (Char.ofNat n).toNat = n := by
  have hvalid : n.isValidChar := h
  unfold Char.ofNat
  rw [dif_pos hvalid]
  rfl

theorem units_escapePlain {n : Nat} (h : Scalar n) (text : List Char) :
    units (escapePlain n ++ text) = (units text).map (Prod.map ([n] ++ ·) id) := by
  unfold escapePlain
  cases hshort : shortEscape? n with
  | some e =>
    obtain ⟨hu, hvalue, -⟩ := shortEscape?_read hshort
    exact units_short hu hvalue text
  | none =>
    dsimp only
    by_cases hlow : n < 32
    · rw [if_pos hlow]
      exact units_unicode (by omega) text
    · have hnat := toNat_ofNat h
      have hquote : Char.ofNat n ≠ '"' := by
        intro he
        rw [he] at hnat
        subst hnat
        revert hshort
        decide
      have hback : Char.ofNat n ≠ '\\' := by
        intro he
        rw [he] at hnat
        subst hnat
        revert hshort
        decide
      have hplain := units_plain hquote hback (by omega) text
      rw [hnat] at hplain
      rw [if_neg hlow]
      exact hplain

theorem joined_scalar : ∀ text : List Nat, (∀ n ∈ text, Scalar n) → joined (text.flatMap fun n => [n]) = text
  | [], _ => rfl
  | n :: text, h => by
    have hn : n < 55296 ∨ 57343 < n ∧ n < 1114112 := h n List.mem_cons_self
    rw [List.flatMap_cons, List.singleton_append, joined_cons (by omega),
      joined_scalar text fun m hm => h m (List.mem_cons_of_mem _ hm)]

/-- `ensure_ascii=False` -/
def plain : Style where
  escape := escapePlain
  pieces n := [n]
  units_escape := units_escapePlain
  joined_pieces := joined_scalar

/-! ## Numbers -/

/-- Nothing of a number follows. -/
def Closed (rest : List Char) : Prop := rest = [] ∨ ∃ c text, rest = c :: text ∧ (c = ',' ∨ c = ']' ∨ c = '}')

/-- `\d+` -/
def Digits (ds : List Char) : Prop := ds ≠ [] ∧ ∀ d ∈ ds, d.isDigit = true

/-- `-?(0|[1-9]\d*)(\.\d+)?([eE][-+]?\d+)?`, part by part. -/
inductive Lexeme : List Char → Prop
  | parts {sign i f e : List Char} (hsign : sign = [] ∨ sign = ['-'])
      (hi : i = ['0'] ∨ Digits i ∧ i.head? ≠ some '0')
      (hf : f = [] ∨ ∃ ds, f = '.' :: ds ∧ Digits ds)
      (he : e = [] ∨ ∃ m s ds, e = m :: (s ++ ds) ∧ (m = 'e' ∨ m = 'E') ∧ (s = [] ∨ s = ['+'] ∨ s = ['-']) ∧ Digits ds) :
      Lexeme (sign ++ i ++ f ++ e)

/-- No digit comes first. -/
def NoDigit (rest : List Char) : Prop := ∀ c ∈ rest.head?, c.isDigit = false

theorem digits_append {ds rest : List Char} (h : ∀ d ∈ ds, d.isDigit = true) (hrest : NoDigit rest) :
    digits (ds ++ rest) = (ds, rest) := by
  have hstop : rest.takeWhile Char.isDigit = [] ∧ rest.dropWhile Char.isDigit = rest := by
    cases rest with
    | nil => exact ⟨rfl, rfl⟩
    | cons c rest =>
      have hc : ¬ c.isDigit = true := by
        rw [hrest c rfl]
        decide
      exact ⟨List.takeWhile_cons_of_neg hc, List.dropWhile_cons_of_neg hc⟩
  unfold digits
  rw [List.takeWhile_append_of_pos h, List.dropWhile_append_of_pos h, hstop.1, hstop.2, List.append_nil]

theorem Closed.noDigit {rest : List Char} (h : Closed rest) : NoDigit rest := by
  rcases h with rfl | ⟨c, text, rfl, hc⟩
  · intro c hc
    cases hc
  · intro d hd
    cases hd
    rcases hc with rfl | rfl | rfl <;> decide

theorem whole_append {i rest : List Char} (hi : i = ['0'] ∨ Digits i ∧ i.head? ≠ some '0') (hrest : NoDigit rest) :
    whole (i ++ rest) = some (i, rest) := by
  rcases hi with rfl | ⟨⟨hne, hds⟩, hzero⟩
  · rfl
  · have hd := digits_append hds hrest
    cases i with
    | nil => exact absurd rfl hne
    | cons d ds =>
      have hd0 : d ≠ '0' := fun h => hzero (by rw [h]; rfl)
      rw [List.cons_append] at hd ⊢
      rw [whole.eq_def]
      split
      · next heq => exact absurd (List.cons.inj heq).1 hd0
      · rw [hd, if_neg hne]

theorem fraction_append {f rest : List Char} (hf : f = [] ∨ ∃ ds, f = '.' :: ds ∧ Digits ds) (hrest : NoDigit rest)
    (hdot : rest.head? ≠ some '.') : fraction (f ++ rest) = (f, rest) := by
  rcases hf with rfl | ⟨ds, rfl, hne, hds⟩
  · rw [List.nil_append, fraction.eq_def]
    split
    · exact absurd rfl hdot
    · rfl
  · rw [List.cons_append, fraction, digits_append hds hrest, if_neg hne]
    rfl

theorem exponent_append {e rest : List Char} (he : e = [] ∨ ∃ m s ds, e = m :: (s ++ ds) ∧ (m = 'e' ∨ m = 'E') ∧
    (s = [] ∨ s = ['+'] ∨ s = ['-']) ∧ Digits ds) (hrest : Closed rest) : exponent (e ++ rest) = (e, rest) := by
  rcases he with rfl | ⟨m, s, ds, rfl, hm, hs, hne, hds⟩
  · rcases hrest with rfl | ⟨c, text, rfl, hc⟩
    · rfl
    · rw [List.nil_append, exponent.eq_def]
      rcases hc with rfl | rfl | rfl <;> rfl
  · have hd := digits_append hds hrest.noDigit
    rw [List.cons_append, exponent.eq_def]
    dsimp only
    rw [if_pos hm]
    rcases hs with rfl | rfl | rfl
    · cases ds with
      | nil => exact absurd rfl hne
      | cons d ds =>
        have hsign : ¬ (d = '+' ∨ d = '-') := by
          have hdigit := hds d List.mem_cons_self
          rintro (rfl | rfl) <;> revert hdigit <;> decide
        rw [List.nil_append, List.cons_append] at *
        dsimp only
        rw [if_neg hsign, hd, if_neg hne]
        rfl
    · show (if (digits (ds ++ rest)).1 = [] then _ else Prod.map ([m, '+'] ++ ·) id (digits (ds ++ rest))) = _
      rw [hd, if_neg hne]
      rfl
    · show (if (digits (ds ++ rest)).1 = [] then _ else Prod.map ([m, '-'] ++ ·) id (digits (ds ++ rest))) = _
      rw [hd, if_neg hne]
      rfl

/-- A number starts with a digit or a sign and a digit. -/
theorem Lexeme.head {text : List Char} (h : Lexeme text) :
    (∃ d ds, text = d :: ds ∧ d.isDigit = true) ∨ ∃ d ds, text = '-' :: d :: ds ∧ d.isDigit = true := by
  obtain ⟨hsign, hi, hf, he⟩ := h
  next sign i f e =>
  obtain ⟨d, ds, rfl, hd⟩ : ∃ d ds, i = d :: ds ∧ d.isDigit = true := by
    rcases hi with rfl | ⟨⟨hne, hds⟩, -⟩
    · exact ⟨'0', [], rfl, rfl⟩
    · cases i with
      | nil => exact absurd rfl hne
      | cons d ds => exact ⟨d, ds, rfl, hds d List.mem_cons_self⟩
  rcases hsign with rfl | rfl
  · exact .inl ⟨d, ds ++ f ++ e, by simp, hd⟩
  · exact .inr ⟨d, ds ++ f ++ e, by simp, hd⟩

theorem number_append {text rest : List Char} (h : Lexeme text) (hrest : Closed rest) :
    number (text ++ rest) = some (text, rest) := by
  obtain ⟨hsign, hi, hf, he⟩ := h
  next sign i f e =>
  -- what follows the whole part, and what follows the fraction
  have hexp : NoDigit (e ++ rest) ∧ (e ++ rest).head? ≠ some '.' := by
    rcases he with rfl | ⟨m, s, ds, rfl, hm, -, -⟩
    · refine ⟨hrest.noDigit, ?_⟩
      rcases hrest with rfl | ⟨c, text, rfl, hc⟩
      · decide
      · rcases hc with rfl | rfl | rfl <;> exact fun h => by cases h
    · refine ⟨fun c hc => ?_, fun h => ?_⟩
      · cases hc
        rcases hm with rfl | rfl <;> rfl
      · cases h
        rcases hm with hm | hm <;> cases hm
  have hfrac : NoDigit (f ++ (e ++ rest)) := by
    rcases hf with rfl | ⟨ds, rfl, -⟩
    · exact hexp.1
    · intro c hc
      cases hc
      rfl
  have htext : sign ++ i ++ f ++ e ++ rest = sign ++ (i ++ (f ++ (e ++ rest))) := by simp
  rw [htext]
  unfold number
  rcases hsign with rfl | rfl
  · rw [List.nil_append]
    have hminus : (i ++ (f ++ (e ++ rest))).head? ≠ some '-' := by
      rcases hi with rfl | ⟨⟨hne, hds⟩, -⟩
      · exact fun heq => by cases heq
      · cases i with
        | nil => exact absurd rfl hne
        | cons d ds =>
          intro heq
          have hd := hds d List.mem_cons_self
          rw [Option.some.inj heq] at hd
          cases hd
    split
    next sign' text' heq =>
    split at heq
    · next htext => exact absurd (by rw [htext]; rfl) hminus
    · cases heq
      rw [whole_append hi hfrac]
      simp only [Option.bind_eq_bind, Option.bind_some]
      rw [fraction_append hf hexp.1 hexp.2, exponent_append he hrest]
  · simp only [List.singleton_append]
    rw [whole_append hi hfrac]
    simp only [Option.bind_eq_bind, Option.bind_some]
    rw [fraction_append hf hexp.1 hexp.2, exponent_append he hrest]

/-- A number is read where one stands. -/
theorem value_number (fuel : Nat) {text : List Char} (h : Lexeme text) (rest : List Char) :
    value (fuel + 1) (text ++ rest) = (number (text ++ rest)).map (Prod.map .num id) := by
  have hhead : ∀ c tail, text ++ rest = c :: tail →
      c.isDigit = true ∨ c = '-' ∧ ∃ d tail', tail = d :: tail' ∧ d.isDigit = true := by
    intro c tail heq
    rcases h.head with ⟨d, ds, rfl, hd⟩ | ⟨d, ds, rfl, hd⟩
    · rw [List.cons_append] at heq
      exact .inl ((List.cons.inj heq).1 ▸ hd)
    · rw [List.cons_append, List.cons_append] at heq
      obtain ⟨rfl, rfl⟩ := List.cons.inj heq
      exact .inr ⟨rfl, d, ds ++ rest, rfl, hd⟩
  have hno : ∀ {c : Char} {tail : List Char} {P : Prop}, text ++ rest = c :: tail → c.isDigit = false → c ≠ '-' → P := by
    intro c tail P heq hc hminus
    rcases hhead c tail heq with hd | ⟨hm, -⟩
    · rw [hc] at hd
      cases hd
    · exact absurd hm hminus
  rw [value.eq_def]
  dsimp only
  split
  · next heq => exact hno heq rfl (by decide)
  · next heq => exact hno heq rfl (by decide)
  · next heq => exact hno heq rfl (by decide)
  · next heq => exact hno heq rfl (by decide)
  · next heq => exact hno heq rfl (by decide)
  · next heq => exact hno heq rfl (by decide)
  · next heq => exact hno heq rfl (by decide)
  · next heq => exact hno heq rfl (by decide)
  · next heq =>
    rcases hhead _ _ heq with hd | ⟨-, d, tail', htail, hd⟩
    · cases hd
    · rw [← (List.cons.inj htail).1] at hd
      cases hd
  · rfl

/-! ## Values -/

mutual

/-- Its numbers are JSON's, and its texts hold no surrogates. -/
def Value.Proper : Value → Prop
  | .null => True
  | .bool _ => True
  | .num text => Lexeme text
  | .str points => ∀ n ∈ points, Scalar n
  | .arr items => ProperItems items
  | .obj members => ProperMembers members

def ProperItems : List Value → Prop
  | [] => True
  | v :: vs => v.Proper ∧ ProperItems vs

def ProperMembers : List (List Nat × Value) → Prop
  | [] => True
  | (k, v) :: ms => (∀ n ∈ k, Scalar n) ∧ v.Proper ∧ ProperMembers ms

end

namespace Style

variable (w : Style)

def quoted (text : List Nat) : List Char := '"' :: (text.flatMap w.escape ++ ['"'])

mutual

/-- `json.dumps(…, separators=(",", ":"))` -/
def dumps : Value → List Char
  | .null => "null".toList
  | .bool b => if b then "true".toList else "false".toList
  | .num text => text
  | .str points => w.quoted points
  | .arr items => '[' :: ((dumpsItems items).drop 1 ++ [']'])
  | .obj members => '{' :: ((dumpsMembers members).drop 1 ++ ['}'])

/-- The items, a comma before each. -/
def dumpsItems : List Value → List Char
  | [] => []
  | v :: vs => ',' :: (dumps v ++ dumpsItems vs)

def dumpsMembers : List (List Nat × Value) → List Char
  | [] => []
  | (k, v) :: ms => ',' :: (w.quoted k ++ ':' :: (dumps v ++ dumpsMembers ms))

end

/-! ## What is read of it -/

theorem units_text (rest : List Char) : ∀ text : List Nat, (∀ n ∈ text, Scalar n) →
    units (text.flatMap w.escape ++ '"' :: rest) = some (text.flatMap w.pieces, rest)
  | [], _ => by
    show units ('"' :: rest) = some ([], rest)
    rw [units.eq_def]
    rfl
  | n :: text, h => by
    rw [List.flatMap_cons, List.append_assoc, w.units_escape (h n List.mem_cons_self),
      units_text rest text fun m hm => h m (List.mem_cons_of_mem _ hm)]
    rfl

theorem string_text {text : List Nat} (h : ∀ n ∈ text, Scalar n) (rest : List Char) :
    string (text.flatMap w.escape ++ '"' :: rest) = some (text, rest) := by
  unfold string
  rw [w.units_text rest text h, Option.map_some, Prod.map_apply, w.joined_pieces text h]
  rfl

theorem quoted_cons (text : List Nat) (rest : List Char) :
    w.quoted text ++ rest = '"' :: (text.flatMap w.escape ++ '"' :: rest) := by
  simp [quoted]

/-- A value starts with no whitespace and ends no brackets. -/
theorem dumps_head {v : Value} (h : v.Proper) (rest : List Char) :
    ∃ c text, w.dumps v ++ rest = c :: text ∧ c ∉ [' ', '\t', '\n', '\r', ']', '}', '\ufeff'] := by
  cases v with
  | null => exact ⟨'n', _, rfl, by decide⟩
  | bool b =>
    cases b with
    | true => exact ⟨'t', _, rfl, by decide⟩
    | false => exact ⟨'f', _, rfl, by decide⟩
  | num text =>
    unfold dumps
    have hdigit : ∀ d : Char, d.isDigit = true → d ∉ [' ', '\t', '\n', '\r', ']', '}', '\ufeff'] := by
      intro d hd hmem
      simp only [List.mem_cons, List.not_mem_nil, or_false] at hmem
      rcases hmem with rfl | rfl | rfl | rfl | rfl | rfl | rfl <;> revert hd <;> decide
    unfold Value.Proper at h
    rcases h.head with ⟨d, ds, rfl, hd⟩ | ⟨d, ds, rfl, hd⟩
    · exact ⟨d, ds ++ rest, rfl, hdigit d hd⟩
    · exact ⟨'-', d :: ds ++ rest, rfl, by decide⟩
  | str points => exact ⟨'"', _, w.quoted_cons points rest, by decide⟩
  | arr items => exact ⟨'[', _, by rw [dumps]; rfl, by decide⟩
  | obj members => exact ⟨'{', _, by rw [dumps]; rfl, by decide⟩

theorem skip_dumps {v : Value} (h : v.Proper) (rest : List Char) : skip (w.dumps v ++ rest) = w.dumps v ++ rest := by
  obtain ⟨c, text, heq, hc⟩ := w.dumps_head h rest
  rw [heq]
  refine skip_mark ?_ text
  simp only [List.mem_cons, List.not_mem_nil, or_false, not_or] at hc
  exact ⟨hc.1, hc.2.1, hc.2.2.1, hc.2.2.2.1⟩

/-- No value is taken for the end of an array. -/
theorem after_dumps {v : Value} (h : v.Proper) (rest : List Char) {mark : Char} (hmark : mark ∈ [']', '}', '\ufeff']) :
    after mark (w.dumps v ++ rest) = none := by
  obtain ⟨c, text, heq, hc⟩ := w.dumps_head h rest
  rw [heq]
  refine after_ne ?_ text
  rintro rfl
  revert hc
  simp only [List.mem_cons, List.not_mem_nil, or_false] at hmark ⊢
  rcases hmark with rfl | rfl | rfl <;> decide

/-- What follows an item, or a member: a comma or the bracket. -/
theorem closed_items {bracket : Char} (hb : bracket = ']' ∨ bracket = '}') (vs : List Value) (rest : List Char) :
    Closed (w.dumpsItems vs ++ bracket :: rest) := by
  cases vs with
  | nil =>
    refine .inr ⟨bracket, rest, by rw [dumpsItems]; rfl, ?_⟩
    exact .inr hb
  | cons v vs => exact .inr ⟨',', _, by rw [dumpsItems]; rfl, .inl rfl⟩

theorem closed_members (ms : List (List Nat × Value)) (rest : List Char) : Closed (w.dumpsMembers ms ++ '}' :: rest) := by
  cases ms with
  | nil => exact .inr ⟨'}', rest, by rw [dumpsMembers]; rfl, .inr (.inr rfl)⟩
  | cons m ms => exact .inr ⟨',', _, by rw [dumpsMembers]; rfl, .inl rfl⟩

theorem dumps_pos {v : Value} (h : v.Proper) : 0 < (w.dumps v).length := by
  obtain ⟨c, text, heq, -⟩ := w.dumps_head h []
  rw [List.append_nil] at heq
  rw [heq]
  exact Nat.succ_pos _

theorem items_drop (v : Value) (vs : List Value) : (w.dumpsItems (v :: vs)).drop 1 = w.dumps v ++ w.dumpsItems vs := by
  rw [dumpsItems]
  rfl

theorem length_items (v : Value) (vs : List Value) :
    (w.dumpsItems (v :: vs)).length = (w.dumps v).length + (w.dumpsItems vs).length + 1 := by
  rw [dumpsItems, List.length_cons, List.length_append]

theorem members_drop (k : List Nat) (v : Value) (ms : List (List Nat × Value)) (rest : List Char) :
    (w.dumpsMembers ((k, v) :: ms)).drop 1 ++ rest =
      '"' :: (k.flatMap w.escape ++ '"' :: ':' :: (w.dumps v ++ (w.dumpsMembers ms ++ rest))) := by
  rw [dumpsMembers]
  simp [quoted]

theorem length_members (k : List Nat) (v : Value) (ms : List (List Nat × Value)) :
    (w.dumpsMembers ((k, v) :: ms)).length = (w.quoted k).length + (w.dumps v).length + (w.dumpsMembers ms).length + 2 := by
  rw [dumpsMembers]
  simp only [List.length_cons, List.length_append]
  omega

mutual

/-- A value is read back, whatever follows it, from as much fuel as it has characters. -/
theorem value_dumps : ∀ (v : Value) (fuel : Nat) (rest : List Char), v.Proper → Closed rest → (w.dumps v).length ≤ fuel →
    value fuel (w.dumps v ++ rest) = some (v, rest)
  | .null, fuel, rest, h, _, hfuel => by
    obtain ⟨n, rfl⟩ := Nat.exists_eq_add_of_le' (Nat.le_trans (w.dumps_pos h) hfuel)
    rw [dumps]
    rfl
  | .bool b, fuel, rest, h, _, hfuel => by
    obtain ⟨n, rfl⟩ := Nat.exists_eq_add_of_le' (Nat.le_trans (w.dumps_pos h) hfuel)
    rw [dumps]
    cases b <;> rfl
  | .num text, fuel, rest, h, hrest, hfuel => by
    obtain ⟨n, rfl⟩ := Nat.exists_eq_add_of_le' (Nat.le_trans (w.dumps_pos h) hfuel)
    rw [Value.Proper] at h
    rw [dumps]
    show value (n + 1) (text ++ rest) = _
    rw [value_number n h, number_append h hrest]
    rfl
  | .str points, fuel, rest, h, _, hfuel => by
    obtain ⟨n, rfl⟩ := Nat.exists_eq_add_of_le' (Nat.le_trans (w.dumps_pos h) hfuel)
    rw [Value.Proper] at h
    rw [dumps, quoted_cons]
    show value (n + 1) ('"' :: _) = _
    rw [value, w.string_text h]
    rfl
  | .arr [], fuel, rest, h, _, hfuel => by
    obtain ⟨n, rfl⟩ := Nat.exists_eq_add_of_le' (Nat.le_trans (w.dumps_pos h) hfuel)
    rw [dumps, dumpsItems]
    rfl
  | .arr (v :: vs), fuel, rest, h, _, hfuel => by
    obtain ⟨n, rfl⟩ := Nat.exists_eq_add_of_le' (Nat.le_trans (w.dumps_pos h) hfuel)
    rw [Value.Proper] at h
    have hv : v.Proper := by
      rw [ProperItems] at h
      exact h.1
    have hlen : (w.dumpsItems (v :: vs)).length ≤ n := by
      rw [dumps, List.length_cons, List.length_append, List.length_drop, w.length_items] at hfuel
      rw [w.length_items]
      simp only [List.length_cons, List.length_nil] at hfuel
      omega
    have hitems := items_dumps (v :: vs) n rest (List.cons_ne_nil v vs) h hlen
    have htext : w.dumps (.arr (v :: vs)) ++ rest = '[' :: ((w.dumpsItems (v :: vs)).drop 1 ++ ']' :: rest) := by
      rw [dumps]
      simp
    rw [htext]
    show value (n + 1) _ = _
    rw [w.items_drop, List.append_assoc] at hitems ⊢
    rw [value, w.skip_dumps hv, w.after_dumps hv _ (by decide), hitems]
    rfl
  | .obj [], fuel, rest, h, _, hfuel => by
    obtain ⟨n, rfl⟩ := Nat.exists_eq_add_of_le' (Nat.le_trans (w.dumps_pos h) hfuel)
    rw [dumps, dumpsMembers]
    rfl
  | .obj ((k, v) :: ms), fuel, rest, h, _, hfuel => by
    obtain ⟨n, rfl⟩ := Nat.exists_eq_add_of_le' (Nat.le_trans (w.dumps_pos h) hfuel)
    rw [Value.Proper] at h
    have hlen : (w.dumpsMembers ((k, v) :: ms)).length ≤ n := by
      rw [dumps, List.length_cons, List.length_append, List.length_drop, w.length_members] at hfuel
      rw [w.length_members]
      simp only [List.length_cons, List.length_nil] at hfuel
      omega
    have hmembers := members_dumps ((k, v) :: ms) n rest (List.cons_ne_nil (k, v) ms) h hlen
    have htext : w.dumps (.obj ((k, v) :: ms)) ++ rest = '{' :: ((w.dumpsMembers ((k, v) :: ms)).drop 1 ++ '}' :: rest) := by
      rw [dumps]
      simp
    rw [htext]
    show value (n + 1) _ = _
    rw [w.members_drop] at hmembers ⊢
    rw [value, skip_mark (by decide), after_ne (by decide), hmembers]
    rfl

theorem items_dumps : ∀ (vs : List Value) (fuel : Nat) (rest : List Char), vs ≠ [] → ProperItems vs →
    (w.dumpsItems vs).length ≤ fuel → items fuel ((w.dumpsItems vs).drop 1 ++ ']' :: rest) = some (vs, rest)
  | [], _, _, hne, _, _ => absurd rfl hne
  | v :: vs, fuel, rest, _, h, hfuel => by
    rw [w.length_items] at hfuel
    obtain ⟨n, rfl⟩ : ∃ n, fuel = n + 1 := ⟨fuel - 1, by omega⟩
    rw [ProperItems] at h
    have hv := value_dumps v n (w.dumpsItems vs ++ ']' :: rest) h.1 (w.closed_items (.inl rfl) vs rest) (by omega)
    rw [w.items_drop, List.append_assoc, items, hv]
    simp only [Option.bind_eq_bind, Option.bind_some]
    cases vs with
    | nil =>
      rw [dumpsItems, List.nil_append, skip_mark (by decide), after_mark]
    | cons v' vs =>
      have hv' : v'.Proper := by
        have := h.2
        rw [ProperItems] at this
        exact this.1
      have hrest := items_dumps (v' :: vs) n rest (List.cons_ne_nil v' vs) h.2 (by omega)
      have htext : w.dumpsItems (v' :: vs) ++ ']' :: rest = ',' :: (w.dumps v' ++ (w.dumpsItems vs ++ ']' :: rest)) := by
        rw [dumpsItems]
        simp
      rw [w.items_drop, List.append_assoc] at hrest
      rw [htext, skip_mark (by decide), after_ne (by decide), after_mark, Option.bind_some, w.skip_dumps hv', hrest]
      rfl

theorem members_dumps : ∀ (ms : List (List Nat × Value)) (fuel : Nat) (rest : List Char), ms ≠ [] → ProperMembers ms →
    (w.dumpsMembers ms).length ≤ fuel → members fuel ((w.dumpsMembers ms).drop 1 ++ '}' :: rest) = some (ms, rest)
  | [], _, _, hne, _, _ => absurd rfl hne
  | (k, v) :: ms, fuel, rest, _, h, hfuel => by
    rw [w.length_members] at hfuel
    obtain ⟨n, rfl⟩ : ∃ n, fuel = n + 1 := ⟨fuel - 1, by omega⟩
    rw [ProperMembers] at h
    obtain ⟨hk, hv, hms⟩ := h
    have hvalue := value_dumps v n (w.dumpsMembers ms ++ '}' :: rest) hv (w.closed_members ms rest) (by omega)
    rw [w.members_drop, members, after_mark]
    simp only [Option.bind_eq_bind, Option.bind_some]
    rw [w.string_text hk, Option.bind_some, skip_mark (by decide), after_mark, Option.bind_some, w.skip_dumps hv, hvalue,
      Option.bind_some]
    cases ms with
    | nil =>
      rw [dumpsMembers, List.nil_append, skip_mark (by decide), after_mark]
    | cons m ms =>
      obtain ⟨k', v'⟩ := m
      have hrest := members_dumps ((k', v') :: ms) n rest (List.cons_ne_nil (k', v') ms) hms (by omega)
      have htext : w.dumpsMembers ((k', v') :: ms) ++ '}' :: rest =
          ',' :: ((w.dumpsMembers ((k', v') :: ms)).drop 1 ++ '}' :: rest) := by
        rw [dumpsMembers]
        rfl
      rw [htext, skip_mark (by decide), after_ne (by decide), after_mark, Option.bind_some]
      rw [w.members_drop] at hrest ⊢
      rw [skip_mark (by decide), hrest]
      rfl

end

/-- **Round trip.**  What is written of a value is read back. -/
theorem loads_dumps {v : Value} (h : v.Proper) : loads (w.dumps v) = some v := by
  have hread := w.value_dumps v ((w.dumps v).length + 1) [] h (.inl rfl) (Nat.le_succ _)
  have hskip := w.skip_dumps h []
  have hafter := w.after_dumps h [] (show '\ufeff' ∈ [']', '}', '\ufeff'] by decide)
  rw [List.append_nil] at hread hskip hafter
  unfold loads
  rw [hafter, hskip, hread]
  rfl

end Style

/-! ## Natural numbers -/

theorem head_toDigits : ∀ n : Nat, 0 < n → (Nat.toDigits 10 n).head? ≠ some '0' := by
  intro n
  induction n using Nat.strongRecOn with
  | _ n ih =>
    intro hpos
    by_cases hlt : n < 10
    · have hall : ∀ n < 10, 0 < n → [Nat.digitChar n].head? ≠ some '0' := by decide
      rw [Nat.toDigits_of_lt_base hlt]
      exact hall n hlt hpos
    · have hle := Nat.not_lt.1 hlt
      have hne : Nat.toDigits 10 (n / 10) ≠ [] := Nat.toDigits_ne_nil
      rw [Nat.toDigits_of_base_le (by decide) hle, List.head?_append, List.head?_eq_some_head hne, Option.some_or,
        ← List.head?_eq_some_head hne]
      exact ih (n / 10) (by omega) (by omega)

/-- `str` of a natural number is a number of JSON. -/
theorem lexeme_nat (n : Nat) : Lexeme (toString n).toList := by
  have htext : (toString n).toList = Nat.toDigits 10 n := Nat.toList_repr
  have hi : Nat.toDigits 10 n = ['0'] ∨ Digits (Nat.toDigits 10 n) ∧ (Nat.toDigits 10 n).head? ≠ some '0' := by
    rcases Nat.eq_zero_or_pos n with rfl | hpos
    · exact .inl rfl
    · exact .inr ⟨⟨Nat.toDigits_ne_nil, fun d hd => Nat.isDigit_of_mem_toDigits (by decide) (by decide) hd⟩, head_toDigits n hpos⟩
  rw [htext]
  have h := Lexeme.parts (.inl rfl) hi (.inl rfl) (.inl rfl)
  rwa [List.nil_append, List.append_nil, List.append_nil] at h

end JsonText
