import AgentRuns.Json
import AgentRuns.JsonText
import AgentRuns.Sha256

/-!
# The canonical text of JSON

`canonical` is `json.dumps(value, sort_keys=True, separators=(",", ":"), ensure_ascii=False)` and `inputSha256` the digest
that stands for a schedule's input.  A change of the numbers alone (`mapNumbers`) can be read off the text:

    canonical j = canonical (mapNumbers f j)  ↔  f t = t, of every number t in j      (canonical_mapNumbers)
-/

namespace AgentRuns

namespace Json

/-! ## Writing -/

/-- `py_encode_basestring`, of one character. -/
def escape (c : Char) : List Char :=
  match JsonText.shortEscape? c.toNat with
  | some e => ['\\', e]
  | none => if c.toNat < 32 then JsonText.unicode c.toNat else [c]

def quoted (s : String) : List Char := '"' :: (s.toList.flatMap escape ++ ['"'])

mutual

def canonical : Json → List Char
  | null => "null".toList
  | bool b => if b then "true".toList else "false".toList
  | num _ text => text.toList
  | str s => quoted s
  | arr xs => '[' :: ((canonicalItems xs).drop 1 ++ [']'])
  | obj ms => '{' :: ((canonicalMembers ms).drop 1 ++ ['}'])

/-- The items, a comma before each. -/
def canonicalItems : List Json → List Char
  | [] => []
  | x :: xs => ',' :: (canonical x ++ canonicalItems xs)

def canonicalMembers : List (String × Json) → List Char
  | [] => []
  | (k, x) :: ms => ',' :: (quoted k ++ ':' :: (canonical x ++ canonicalMembers ms))

end

example : canonical (obj [("a", arr [num 1 "1", bool true]), ("b", str "\n")]) =
    "\x7b\"a\":[1,true],\"b\":\"\\n\"\x7d".toList := by
  decide

/-! ## Numbers -/

mutual

/-- The texts of its numbers, from left to right. -/
def numbers : Json → List String
  | num _ text => [text]
  | arr xs => numbersItems xs
  | obj ms => numbersMembers ms
  | _ => []

def numbersItems : List Json → List String
  | [] => []
  | x :: xs => numbers x ++ numbersItems xs

def numbersMembers : List (String × Json) → List String
  | [] => []
  | (_, x) :: ms => numbers x ++ numbersMembers ms

end

mutual

/-- The value with its numbers written as `f` writes them. -/
def mapNumbers (f : String → String) : Json → Json
  | num value text => num value (f text)
  | arr xs => arr (mapNumbersItems f xs)
  | obj ms => obj (mapNumbersMembers f ms)
  | j => j

def mapNumbersItems (f : String → String) : List Json → List Json
  | [] => []
  | x :: xs => mapNumbers f x :: mapNumbersItems f xs

def mapNumbersMembers (f : String → String) : List (String × Json) → List (String × Json)
  | [] => []
  | (k, x) :: ms => (k, mapNumbers f x) :: mapNumbersMembers f ms

end

section
variable {f g : String → String}

mutual

theorem mapNumbers_of_fixed : ∀ {j : Json}, (∀ t ∈ numbers j, f t = t) → mapNumbers f j = j
  | null, _ => by rw [mapNumbers] <;> simp
  | bool _, _ => by rw [mapNumbers] <;> simp
  | str _, _ => by rw [mapNumbers] <;> simp
  | num _ text, h => by
    rw [mapNumbers, h text]
    rw [numbers]
    exact List.mem_singleton_self text
  | arr xs, h => by
    rw [numbers] at h
    rw [mapNumbers, mapNumbersItems_of_fixed h]
  | obj ms, h => by
    rw [numbers] at h
    rw [mapNumbers, mapNumbersMembers_of_fixed h]

theorem mapNumbersItems_of_fixed : ∀ {xs : List Json}, (∀ t ∈ numbersItems xs, f t = t) → mapNumbersItems f xs = xs
  | [], _ => by rw [mapNumbersItems]
  | x :: xs, h => by
    rw [numbersItems] at h
    rw [mapNumbersItems, mapNumbers_of_fixed fun t ht => h t (List.mem_append_left _ ht),
      mapNumbersItems_of_fixed fun t ht => h t (List.mem_append_right _ ht)]

theorem mapNumbersMembers_of_fixed : ∀ {ms : List (String × Json)}, (∀ t ∈ numbersMembers ms, f t = t) →
    mapNumbersMembers f ms = ms
  | [], _ => by rw [mapNumbersMembers]
  | (k, x) :: ms, h => by
    rw [numbersMembers] at h
    rw [mapNumbersMembers, mapNumbers_of_fixed fun t ht => h t (List.mem_append_left _ ht),
      mapNumbersMembers_of_fixed fun t ht => h t (List.mem_append_right _ ht)]

end

mutual

theorem mapNumbers_mapNumbers : ∀ j : Json, mapNumbers g (mapNumbers f j) = mapNumbers (g ∘ f) j
  | null => by simp only [mapNumbers]
  | bool _ => by simp only [mapNumbers]
  | str _ => by simp only [mapNumbers]
  | num _ _ => by simp only [mapNumbers, Function.comp_apply]
  | arr xs => by simp only [mapNumbers, mapNumbersItems_mapNumbersItems xs]
  | obj ms => by simp only [mapNumbers, mapNumbersMembers_mapNumbersMembers ms]

theorem mapNumbersItems_mapNumbersItems : ∀ xs : List Json,
    mapNumbersItems g (mapNumbersItems f xs) = mapNumbersItems (g ∘ f) xs
  | [] => by simp only [mapNumbersItems]
  | x :: xs => by simp only [mapNumbersItems, mapNumbers_mapNumbers x, mapNumbersItems_mapNumbersItems xs]

theorem mapNumbersMembers_mapNumbersMembers : ∀ ms : List (String × Json),
    mapNumbersMembers g (mapNumbersMembers f ms) = mapNumbersMembers (g ∘ f) ms
  | [] => by simp only [mapNumbersMembers]
  | (_, x) :: ms => by simp only [mapNumbersMembers, mapNumbers_mapNumbers x, mapNumbersMembers_mapNumbersMembers ms]

end

end

/-! ## Reading the numbers off the text -/

/-- A character of a number's text. -/
def numeralChar (c : Char) : Bool := c.isDigit || c == '-' || c == '+' || c == '.' || c == 'e'

/-- Is it a number's text, by its characters? -/
def numeral (text : String) : Bool := text.toList.all numeralChar

/-- A text that does not go on with a number. -/
def Stops (text : List Char) : Prop := text.takeWhile numeralChar = []

theorem stops_cons {c : Char} {text : List Char} (h : numeralChar c = false) : Stops (c :: text) := by
  simp [Stops, h]

theorem numeral_cancel {a b : String} {x y : List Char} (ha : numeral a = true) (hb : numeral b = true) (hx : Stops x)
    (hy : Stops y) (h : a.toList ++ x = b.toList ++ y) : a = b ∧ x = y := by
  have hpos : ∀ {t : String} {z : List Char}, numeral t = true → Stops z → (t.toList ++ z).takeWhile numeralChar = t.toList := by
    intro t z ht hz
    rw [List.takeWhile_append_of_pos (List.all_eq_true.1 ht), show z.takeWhile numeralChar = [] from hz, List.append_nil]
  have hab : a.toList = b.toList := by rw [← hpos ha hx, h, hpos hb hy]
  rw [hab, List.append_cancel_left_eq] at h
  exact ⟨String.toList_inj.1 hab, h⟩

theorem stops_items (xs : List Json) {x : List Char} (hx : Stops x) : Stops (canonicalItems xs ++ x) := by
  cases xs with
  | nil =>
    rw [canonicalItems]
    exact hx
  | cons y ys =>
    rw [canonicalItems]
    exact stops_cons (by decide)

theorem stops_members (ms : List (String × Json)) {x : List Char} (hx : Stops x) : Stops (canonicalMembers ms ++ x) := by
  cases ms with
  | nil =>
    rw [canonicalMembers]
    exact hx
  | cons m ms =>
    rw [canonicalMembers]
    exact stops_cons (by decide)

theorem items_of_drop {f : String → String} {xs : List Json} {x y : List Char}
    (h : (canonicalItems xs).drop 1 ++ x = (canonicalItems (mapNumbersItems f xs)).drop 1 ++ y) :
    canonicalItems xs ++ x = canonicalItems (mapNumbersItems f xs) ++ y := by
  cases xs with
  | nil =>
    rw [mapNumbersItems] at h ⊢
    rw [canonicalItems] at h ⊢
    exact h
  | cons v xs =>
    rw [mapNumbersItems] at h ⊢
    rw [canonicalItems, canonicalItems] at h ⊢
    exact congrArg (',' :: ·) h

theorem members_of_drop {f : String → String} {ms : List (String × Json)} {x y : List Char}
    (h : (canonicalMembers ms).drop 1 ++ x = (canonicalMembers (mapNumbersMembers f ms)).drop 1 ++ y) :
    canonicalMembers ms ++ x = canonicalMembers (mapNumbersMembers f ms) ++ y := by
  cases ms with
  | nil =>
    rw [mapNumbersMembers] at h ⊢
    rw [canonicalMembers] at h ⊢
    exact h
  | cons m ms =>
    rw [mapNumbersMembers] at h ⊢
    rw [canonicalMembers, canonicalMembers] at h ⊢
    exact congrArg (',' :: ·) h

theorem scalar_cancel {f : String → String} {j : Json} {x y : List Char} (hn : numbers j = []) (hm : mapNumbers f j = j)
    (h : canonical j ++ x = canonical (mapNumbers f j) ++ y) : (∀ t ∈ numbers j, f t = t) ∧ x = y := by
  rw [hm, List.append_cancel_left_eq] at h
  rw [hn]
  exact ⟨fun t ht => absurd ht List.not_mem_nil, h⟩

section
variable {f : String → String}

mutual

/-- What comes before a text that stops is told from it, number by number. -/
theorem canonical_cancel (hf : ∀ t, numeral t = true → numeral (f t) = true) : ∀ {j : Json},
    (∀ t ∈ numbers j, numeral t = true) → ∀ {x y : List Char}, Stops x → Stops y →
    canonical j ++ x = canonical (mapNumbers f j) ++ y → (∀ t ∈ numbers j, f t = t) ∧ x = y
  | null, _, x, y, _, _, h => scalar_cancel (by simp only [numbers]) (by simp only [mapNumbers]) h
  | bool _, _, x, y, _, _, h => scalar_cancel (by simp only [numbers]) (by simp only [mapNumbers]) h
  | str _, _, x, y, _, _, h => scalar_cancel (by simp only [numbers]) (by simp only [mapNumbers]) h
  | num _ text, hj, x, y, hx, hy, h => by
    rw [numbers] at hj ⊢
    rw [mapNumbers, canonical, canonical] at h
    have htext := hj text (List.mem_singleton_self text)
    obtain ⟨hsame, hxy⟩ := numeral_cancel htext (hf text htext) hx hy h
    exact ⟨fun t ht => by rw [List.mem_singleton.1 ht, ← hsame], hxy⟩
  | arr xs, hj, x, y, _, _, h => by
    rw [numbers] at hj ⊢
    rw [mapNumbers, canonical, canonical, List.cons_append, List.cons_append, List.cons_inj_right, List.append_assoc,
      List.append_assoc] at h
    have h := items_of_drop h
    obtain ⟨hsame, hxy⟩ := canonicalItems_cancel hf hj (stops_cons (by decide)) (stops_cons (by decide)) h
    exact ⟨hsame, (List.cons_inj_right _).1 hxy⟩
  | obj ms, hj, x, y, _, _, h => by
    rw [numbers] at hj ⊢
    rw [mapNumbers, canonical, canonical, List.cons_append, List.cons_append, List.cons_inj_right, List.append_assoc,
      List.append_assoc] at h
    have h := members_of_drop h
    obtain ⟨hsame, hxy⟩ := canonicalMembers_cancel hf hj (stops_cons (by decide)) (stops_cons (by decide)) h
    exact ⟨hsame, (List.cons_inj_right _).1 hxy⟩

theorem canonicalItems_cancel (hf : ∀ t, numeral t = true → numeral (f t) = true) : ∀ {xs : List Json},
    (∀ t ∈ numbersItems xs, numeral t = true) → ∀ {x y : List Char}, Stops x → Stops y →
    canonicalItems xs ++ x = canonicalItems (mapNumbersItems f xs) ++ y → (∀ t ∈ numbersItems xs, f t = t) ∧ x = y
  | [], _, x, y, _, _, h => by
    rw [mapNumbersItems, canonicalItems] at h
    exact ⟨fun t ht => absurd ht (by rw [numbersItems]; exact List.not_mem_nil), h⟩
  | v :: xs, hv, x, y, hx, hy, h => by
    rw [numbersItems] at hv ⊢
    rw [mapNumbersItems, canonicalItems, canonicalItems, List.cons_append, List.cons_append, List.cons_inj_right,
      List.append_assoc, List.append_assoc] at h
    obtain ⟨hsame, h⟩ := canonical_cancel hf (fun t ht => hv t (List.mem_append_left _ ht)) (stops_items xs hx) (stops_items _ hy) h
    obtain ⟨hrest, hxy⟩ := canonicalItems_cancel hf (fun t ht => hv t (List.mem_append_right _ ht)) hx hy h
    exact ⟨fun t ht => (List.mem_append.1 ht).elim (hsame t) (hrest t), hxy⟩

theorem canonicalMembers_cancel (hf : ∀ t, numeral t = true → numeral (f t) = true) :
    ∀ {ms : List (String × Json)}, (∀ t ∈ numbersMembers ms, numeral t = true) → ∀ {x y : List Char}, Stops x → Stops y →
    canonicalMembers ms ++ x = canonicalMembers (mapNumbersMembers f ms) ++ y → (∀ t ∈ numbersMembers ms, f t = t) ∧ x = y
  | [], _, x, y, _, _, h => by
    rw [mapNumbersMembers, canonicalMembers] at h
    exact ⟨fun t ht => absurd ht (by rw [numbersMembers]; exact List.not_mem_nil), h⟩
  | (k, v) :: ms, hv, x, y, hx, hy, h => by
    rw [numbersMembers] at hv ⊢
    rw [mapNumbersMembers, canonicalMembers, canonicalMembers, List.cons_append, List.cons_append, List.cons_inj_right,
      List.append_assoc, List.append_assoc, List.append_cancel_left_eq, List.cons_append, List.cons_append,
      List.cons_inj_right, List.append_assoc, List.append_assoc] at h
    obtain ⟨hsame, h⟩ := canonical_cancel hf (fun t ht => hv t (List.mem_append_left _ ht)) (stops_members ms hx) (stops_members _ hy) h
    obtain ⟨hrest, hxy⟩ := canonicalMembers_cancel hf (fun t ht => hv t (List.mem_append_right _ ht)) hx hy h
    exact ⟨fun t ht => (List.mem_append.1 ht).elim (hsame t) (hrest t), hxy⟩

end

/-- Canonical texts are equal where the numbers are. -/
theorem canonical_mapNumbers (hf : ∀ t, numeral t = true → numeral (f t) = true) {j : Json}
    (hj : ∀ t ∈ numbers j, numeral t = true) :
    canonical (mapNumbers f j) = canonical j ↔ ∀ t ∈ numbers j, f t = t := by
  constructor
  · intro h
    have h : canonical j ++ [] = canonical (mapNumbers f j) ++ [] := by rw [h]
    exact (canonical_cancel hf hj (by rfl) (by rfl) h).1
  · intro h
    rw [mapNumbers_of_fixed h]

end

/-! ## Digests -/

/-- `input_sha256`. -/
def inputSha256 (value : Json) : String :=
  String.ofList ((Sha256.hex (Sha256.sha256 (String.ofList value.canonical).toUTF8.data.toList)).map Char.ofNat)

end Json

end AgentRuns
