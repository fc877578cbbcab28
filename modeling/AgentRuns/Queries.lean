import AgentRuns.PyText

/-!
# Queries of a URL

`urlencode` and `parse_qsl` of urllib.parse, with the UTF-8 and the percent-encoding under them.  Texts are code points, and
bytes are numbers below 256.

    parseQsl (urlencode items) = items                                                  (parseQsl_urlencode)
    every character of urlencode items is a letter, a digit or one of  _ . - ~ + % & =     (urlencode_quoted)
-/

namespace Queries

open PyText
open JsonText (Scalar points)

/-! ## UTF-8 -/

/-- The bytes of a code point. -/
def utf8 (n : Nat) : List Nat :=
  if n < 128 then [n]
  else if n < 2048 then [192 + n / 64, 128 + n % 64]
  else if n < 65536 then [224 + n / 4096, 128 + n / 64 % 64, 128 + n % 64]
  else [240 + n / 262144, 128 + n / 4096 % 64, 128 + n / 64 % 64, 128 + n % 64]

/-- A code point begun: the bytes to come, the bits so far, and between what the next byte lies. -/
structure Begun where
  left : Nat
  bits : Nat
  low : Nat
  high : Nat

/-- What a first byte gives, and what it begins; 65533 is the replacement of one that begins nothing. -/
def first (b : Nat) : List Nat × Option Begun :=
  if b < 128 then ([b], none)
  else if 194 ≤ b ∧ b ≤ 223 then ([], some ⟨1, b - 192, 128, 191⟩)
  else if b = 224 then ([], some ⟨2, 0, 160, 191⟩)
  else if b = 237 then ([], some ⟨2, 13, 128, 159⟩)
  else if 225 ≤ b ∧ b ≤ 239 then ([], some ⟨2, b - 224, 128, 191⟩)
  else if b = 240 then ([], some ⟨3, 0, 144, 191⟩)
  else if 241 ≤ b ∧ b ≤ 243 then ([], some ⟨3, b - 240, 128, 191⟩)
  else if b = 244 then ([], some ⟨3, 4, 128, 143⟩)
  else ([65533], none)

/-- The rest of a text, within a code point or between two. -/
def decodeFrom : Option Begun → List Nat → List Nat
  | none, [] => []
  | some _, [] => [65533]
  | none, b :: bytes => (first b).1 ++ decodeFrom (first b).2 bytes
  | some c, b :: bytes =>
    if c.low ≤ b ∧ b ≤ c.high then
      if c.left = 1 then (c.bits * 64 + (b - 128)) :: decodeFrom none bytes
      else decodeFrom (some ⟨c.left - 1, c.bits * 64 + (b - 128), 128, 191⟩) bytes
    else 65533 :: ((first b).1 ++ decodeFrom (first b).2 bytes)

/-- `bytes.decode("utf-8", "replace")`. -/
def decode (bytes : List Nat) : List Nat := decodeFrom none bytes

theorem decodeFrom_next {c : Begun} {b : Nat} (h : c.low ≤ b ∧ b ≤ c.high) (hleft : c.left ≠ 1) (bytes : List Nat) :
    decodeFrom (some c) (b :: bytes) = decodeFrom (some ⟨c.left - 1, c.bits * 64 + (b - 128), 128, 191⟩) bytes := by
  rw [decodeFrom, if_pos h, if_neg hleft]

theorem decodeFrom_last {c : Begun} {b n : Nat} (h : c.low ≤ b ∧ b ≤ c.high) (hleft : c.left = 1)
    (hn : c.bits * 64 + (b - 128) = n) (bytes : List Nat) :
    decodeFrom (some c) (b :: bytes) = n :: decodeFrom none bytes := by
  rw [decodeFrom, if_pos h, if_pos hleft, hn]

/-- What begins a code point of three or four bytes. -/
theorem first_three {n : Nat} (h : Scalar n) (hlow : 2048 ≤ n) (hhigh : n < 65536) :
    ∃ c, first (224 + n / 4096) = ([], some c) ∧ c.left = 2 ∧ c.bits = n / 4096 ∧ c.low ≤ 128 + n / 64 % 64 ∧ 128 + n / 64 % 64 ≤ c.high := by
  unfold Scalar at h
  unfold first
  by_cases h0 : n / 4096 = 0
  · refine ⟨⟨2, 0, 160, 191⟩, ?_, rfl, h0.symm, ?_⟩
    · rw [if_neg (by omega), if_neg (by omega), if_pos (by omega)]
    · dsimp only
      omega
  · by_cases h13 : n / 4096 = 13
    · refine ⟨⟨2, 13, 128, 159⟩, ?_, rfl, h13.symm, ?_⟩
      · rw [if_neg (by omega), if_neg (by omega), if_neg (by omega), if_pos (by omega)]
      · dsimp only
        omega
    · refine ⟨⟨2, 224 + n / 4096 - 224, 128, 191⟩, ?_, rfl, by dsimp only; omega, ?_⟩
      · rw [if_neg (by omega), if_neg (by omega), if_neg (by omega), if_neg (by omega), if_pos (by omega)]
      · dsimp only
        omega

theorem first_four {n : Nat} (hlow : 65536 ≤ n) (hhigh : n < 1114112) :
    ∃ c, first (240 + n / 262144) = ([], some c) ∧ c.left = 3 ∧ c.bits = n / 262144 ∧ c.low ≤ 128 + n / 4096 % 64 ∧
      128 + n / 4096 % 64 ≤ c.high := by
  unfold first
  by_cases h0 : n / 262144 = 0
  · refine ⟨⟨3, 0, 144, 191⟩, ?_, rfl, h0.symm, ?_⟩
    · rw [if_neg (by omega), if_neg (by omega), if_neg (by omega), if_neg (by omega), if_neg (by omega), if_pos (by omega)]
    · dsimp only
      omega
  · by_cases h4 : n / 262144 = 4
    · refine ⟨⟨3, 4, 128, 143⟩, ?_, rfl, h4.symm, ?_⟩
      · rw [if_neg (by omega), if_neg (by omega), if_neg (by omega), if_neg (by omega), if_neg (by omega), if_neg (by omega),
          if_neg (by omega), if_pos (by omega)]
      · dsimp only
        omega
    · refine ⟨⟨3, 240 + n / 262144 - 240, 128, 191⟩, ?_, rfl, by dsimp only; omega, ?_⟩
      · rw [if_neg (by omega), if_neg (by omega), if_neg (by omega), if_neg (by omega), if_neg (by omega), if_neg (by omega),
          if_pos (by omega)]
      · dsimp only
        omega

theorem decodeFrom_utf8 {n : Nat} (h : Scalar n) (bytes : List Nat) :
    decodeFrom none (utf8 n ++ bytes) = n :: decodeFrom none bytes := by
  have hmax : n < 1114112 := by
    unfold Scalar at h
    omega
  unfold utf8
  by_cases h1 : n < 128
  · rw [if_pos h1]
    show (first n).1 ++ decodeFrom (first n).2 bytes = _
    unfold first
    rw [if_pos h1]
    rfl
  · rw [if_neg h1]
    by_cases h2 : n < 2048
    · rw [if_pos h2]
      have hfirst : first (192 + n / 64) = ([], some ⟨1, 192 + n / 64 - 192, 128, 191⟩) := by
        unfold first
        rw [if_neg (by omega), if_pos (by omega)]
      show (first (192 + n / 64)).1 ++ decodeFrom (first (192 + n / 64)).2 ((128 + n % 64) :: bytes) = _
      rw [hfirst, List.nil_append, decodeFrom_last (n := n) (by dsimp only; omega) rfl (by dsimp only; omega)]
    · rw [if_neg h2]
      by_cases h3 : n < 65536
      · rw [if_pos h3]
        obtain ⟨c, hfirst, hleft, hbits, hrange⟩ := first_three h (by omega) h3
        show (first (224 + n / 4096)).1 ++ decodeFrom (first (224 + n / 4096)).2
          ((128 + n / 64 % 64) :: (128 + n % 64) :: bytes) = _
        rw [hfirst, List.nil_append, decodeFrom_next hrange (by omega),
          decodeFrom_last (n := n) (by dsimp only; omega) (by dsimp only; omega) (by dsimp only; omega)]
      · rw [if_neg h3]
        obtain ⟨c, hfirst, hleft, hbits, hrange⟩ := first_four (by omega) hmax
        show (first (240 + n / 262144)).1 ++ decodeFrom (first (240 + n / 262144)).2
          ((128 + n / 4096 % 64) :: (128 + n / 64 % 64) :: (128 + n % 64) :: bytes) = _
        rw [hfirst, List.nil_append, decodeFrom_next hrange (by omega),
          decodeFrom_next (by dsimp only; omega) (by dsimp only; omega),
          decodeFrom_last (n := n) (by dsimp only; omega) (by dsimp only; omega) (by dsimp only; omega)]

/-- A text is read back from its bytes. -/
theorem decode_utf8 {text : List Nat} (h : ∀ n ∈ text, Scalar n) : decode (text.flatMap utf8) = text := by
  unfold decode
  induction text with
  | nil => rfl
  | cons n text ih =>
    rw [List.flatMap_cons, decodeFrom_utf8 (h n List.mem_cons_self), ih fun m hm => h m (List.mem_cons_of_mem _ hm)]

theorem utf8_lt {n : Nat} (h : Scalar n) : ∀ b ∈ utf8 n, b < 256 := by
  unfold Scalar at h
  intro b hb
  unfold utf8 at hb
  split at hb
  · rw [List.mem_singleton.1 hb]
    omega
  · split at hb
    · simp only [List.mem_cons, List.not_mem_nil, or_false] at hb
      omega
    · split at hb
      · simp only [List.mem_cons, List.not_mem_nil, or_false] at hb
        omega
      · simp only [List.mem_cons, List.not_mem_nil, or_false] at hb
        omega

/-- However its bytes go on, the code point begun is no surrogate. -/
def Begun.Sound (c : Begun) : Prop :=
  128 ≤ c.low ∧ c.high ≤ 191 ∧
    ((c.left = 1 ∧ (c.bits * 64 + (c.high - 128) < 55296 ∨
        57343 < c.bits * 64 + (c.low - 128) ∧ c.bits * 64 + (c.high - 128) < 1114112)) ∨
      (c.left = 2 ∧ (c.bits * 4096 + (c.high - 128) * 64 + 63 < 55296 ∨
        57343 < c.bits * 4096 + (c.low - 128) * 64 ∧ c.bits * 4096 + (c.high - 128) * 64 + 63 < 1114112)) ∨
      (c.left = 3 ∧ 57343 < c.bits * 262144 + (c.low - 128) * 4096 ∧
        c.bits * 262144 + (c.high - 128) * 4096 + 4095 < 1114112))

theorem first_sound (b : Nat) : (∀ n ∈ (first b).1, Scalar n) ∧ ∀ c ∈ (first b).2, c.Sound := by
  have hbegun : ∀ c : Begun, c.Sound → (∀ n ∈ ([] : List Nat), Scalar n) ∧ ∀ c' ∈ some c, c'.Sound := by
    intro c hc
    constructor
    · intro n hn
      cases hn
    · intro c' hc'
      cases hc'
      exact hc
  have hplain : ∀ n, Scalar n → (∀ m ∈ [n], Scalar m) ∧ ∀ c ∈ (none : Option Begun), c.Sound := by
    intro n hn
    constructor
    · intro m hm
      rw [List.mem_singleton.1 hm]
      exact hn
    · intro c hc
      cases hc
  unfold first
  split
  · next h => exact hplain b (.inl (by omega))
  · split
    · exact hbegun _ (by unfold Begun.Sound; dsimp only; omega)
    · split
      · exact hbegun _ (by unfold Begun.Sound; dsimp only; omega)
      · split
        · exact hbegun _ (by unfold Begun.Sound; dsimp only; omega)
        · split
          · exact hbegun _ (by unfold Begun.Sound; dsimp only; omega)
          · split
            · exact hbegun _ (by unfold Begun.Sound; dsimp only; omega)
            · split
              · exact hbegun _ (by unfold Begun.Sound; dsimp only; omega)
              · split
                · exact hbegun _ (by unfold Begun.Sound; dsimp only; omega)
                · exact hplain 65533 (.inr (by omega))

/-- What bytes decode to holds no surrogate. -/
theorem decodeFrom_scalar (bytes : List Nat) : ∀ begun : Option Begun, (∀ c ∈ begun, c.Sound) →
    ∀ n ∈ decodeFrom begun bytes, Scalar n := by
  induction bytes with
  | nil =>
    intro begun _ n hn
    cases begun with
    | none => cases hn
    | some c =>
      rw [List.mem_singleton.1 hn]
      exact .inr (by omega)
  | cons b bytes ih =>
    have hfirst : ∀ n ∈ (first b).1 ++ decodeFrom (first b).2 bytes, Scalar n := by
      intro n hn
      rcases List.mem_append.1 hn with hn | hn
      · exact (first_sound b).1 n hn
      · exact ih _ (first_sound b).2 n hn
    intro begun hbegun n hn
    cases begun with
    | none => exact hfirst n hn
    | some c =>
      obtain ⟨hlow, hhigh, hleft⟩ := hbegun c rfl
      unfold decodeFrom at hn
      split at hn
      · next hrange =>
        split at hn
        · next hlast =>
          rcases List.mem_cons.1 hn with hn | hn
          · rw [hn]
            unfold Scalar
            omega
          · refine ih none (fun c' hc' => ?_) n hn
            cases hc'
        · next hmore =>
          refine ih _ (fun c' hc' => ?_) n hn
          cases hc'
          refine ⟨by dsimp only; omega, by dsimp only; omega, ?_⟩
          dsimp only
          omega
      · rcases List.mem_cons.1 hn with hn | hn
        · rw [hn]
          exact .inr (by omega)
        · exact hfirst n hn

/-! ## Percent-encoding -/

/-- `_ALWAYS_SAFE`. -/
def alwaysSafe (b : Nat) : Bool :=
  (48 ≤ b ∧ b ≤ 57) ∨ (65 ≤ b ∧ b ≤ 90) ∨ (97 ≤ b ∧ b ≤ 122) ∨ b = 95 ∨ b = 46 ∨ b = 45 ∨ b = 126

def hexDigit (n : Nat) : Nat := if n < 10 then 48 + n else 55 + n

/-- A byte of `quote_plus`. -/
def quoteByte (b : Nat) : List Nat :=
  if alwaysSafe b then [b] else if b = 32 then [43] else [37, hexDigit (b / 16), hexDigit (b % 16)]

/-- `quote_plus`. -/
def quotePlus (text : List Nat) : List Nat := (text.flatMap utf8).flatMap quoteByte

def hexValue? (n : Nat) : Option Nat :=
  if 48 ≤ n ∧ n ≤ 57 then some (n - 48)
  else if 65 ≤ n ∧ n ≤ 70 then some (n - 55)
  else if 97 ≤ n ∧ n ≤ 102 then some (n - 87)
  else none

/-- `unquote_to_bytes`: a `%` before anything but two hexadecimal digits stays. -/
def unquoteToBytes : List Nat → List Nat
  | 37 :: a :: b :: text =>
    match hexValue? a, hexValue? b with
    | some a, some b => (a * 16 + b) :: unquoteToBytes text
    | _, _ => 37 :: unquoteToBytes (a :: b :: text)
  | n :: text => n :: unquoteToBytes text
  | [] => []

/-- The rest of a text, after a run of ASCII. -/
def unquoteFrom (run : List Nat) : List Nat → List Nat
  | [] => decode (unquoteToBytes run)
  | n :: text =>
    if n < 128 then unquoteFrom (run ++ [n]) text else decode (unquoteToBytes run) ++ n :: unquoteFrom [] text

/-- `unquote`: each run of ASCII is decoded by itself. -/
def unquote (text : List Nat) : List Nat := unquoteFrom [] text

/-- `string.replace("+", " ")`. -/
def spaces (text : List Nat) : List Nat := text.map fun n => if n = 43 then 32 else n

/-- `unquote_plus`. -/
def unquotePlus (text : List Nat) : List Nat := unquote (spaces text)

theorem unquoteFrom_ascii {text : List Nat} (h : ∀ n ∈ text, n < 128) :
    ∀ run, unquoteFrom run text = decode (unquoteToBytes (run ++ text)) := by
  induction text with
  | nil =>
    intro run
    rw [unquoteFrom, List.append_nil]
  | cons n text ih =>
    intro run
    rw [unquoteFrom, if_pos (h n List.mem_cons_self), ih fun m hm => h m (List.mem_cons_of_mem _ hm), List.append_assoc]
    rfl

theorem hexDigit_range {n : Nat} (h : n < 16) : (48 ≤ hexDigit n ∧ hexDigit n ≤ 57) ∨ (65 ≤ hexDigit n ∧ hexDigit n ≤ 70) := by
  unfold hexDigit
  split
  · exact .inl ⟨by omega, by omega⟩
  · exact .inr ⟨by omega, by omega⟩

theorem hexValue?_hexDigit : ∀ n < 16, hexValue? (hexDigit n) = some n := by
  decide

theorem alwaysSafe_range {b : Nat} (h : alwaysSafe b = true) :
    (48 ≤ b ∧ b ≤ 57) ∨ (65 ≤ b ∧ b ≤ 90) ∨ (97 ≤ b ∧ b ≤ 122) ∨ b = 95 ∨ b = 46 ∨ b = 45 ∨ b = 126 := by
  simpa [alwaysSafe] using h

/-- What a quoted text is made of. -/
def Quoted (n : Nat) : Prop := alwaysSafe n = true ∨ n = 43 ∨ n = 37

theorem quoteByte_quoted {b : Nat} (h : b < 256) : ∀ n ∈ quoteByte b, Quoted n := by
  have hhex : ∀ d < 16, Quoted (hexDigit d) := by
    intro d hd
    have := hexDigit_range hd
    refine .inl ?_
    simp only [alwaysSafe, decide_eq_true_eq]
    omega
  intro n hn
  unfold quoteByte at hn
  split at hn
  · next hsafe =>
    rw [List.mem_singleton.1 hn]
    exact .inl hsafe
  · split at hn
    · rw [List.mem_singleton.1 hn]
      exact .inr (.inl rfl)
    · simp only [List.mem_cons, List.not_mem_nil, or_false] at hn
      rcases hn with rfl | rfl | rfl
      · exact .inr (.inr rfl)
      · exact hhex _ (by omega)
      · exact hhex _ (by omega)

theorem quotePlus_quoted {text : List Nat} (h : ∀ n ∈ text, Scalar n) : ∀ n ∈ quotePlus text, Quoted n := by
  intro n hn
  obtain ⟨b, hb, hn⟩ := List.mem_flatMap.1 hn
  obtain ⟨m, hm, hb⟩ := List.mem_flatMap.1 hb
  exact quoteByte_quoted (utf8_lt (h m hm) b hb) n hn

theorem Quoted.range {n : Nat} (h : Quoted n) : n < 128 ∧ n ≠ 38 ∧ n ≠ 61 := by
  rcases h with h | rfl | rfl
  · have := alwaysSafe_range h
    omega
  · omega
  · omega

theorem unquoteToBytes_plain {n : Nat} (h : n ≠ 37) (text : List Nat) : unquoteToBytes (n :: text) = n :: unquoteToBytes text := by
  rw [unquoteToBytes]
  intro a b rest hn _
  exact h hn

/-- A quoted byte is read back. -/
theorem unquoteToBytes_quoteByte {b : Nat} (h : b < 256) (text : List Nat) :
    unquoteToBytes (spaces (quoteByte b) ++ text) = b :: unquoteToBytes text := by
  unfold quoteByte
  by_cases hsafe : alwaysSafe b = true
  · rw [if_pos hsafe]
    have hrange := alwaysSafe_range hsafe
    show unquoteToBytes ((if b = 43 then 32 else b) :: text) = _
    rw [if_neg (by omega), unquoteToBytes_plain (by omega)]
  · rw [if_neg hsafe]
    by_cases hspace : b = 32
    · rw [if_pos hspace, hspace]
      show unquoteToBytes (32 :: text) = _
      rw [unquoteToBytes_plain (by omega)]
    · rw [if_neg hspace]
      have hhigh := hexDigit_range (n := b / 16) (by omega)
      have hlow := hexDigit_range (n := b % 16) (by omega)
      show unquoteToBytes ((if 37 = 43 then 32 else 37) :: (if hexDigit (b / 16) = 43 then 32 else hexDigit (b / 16)) ::
        (if hexDigit (b % 16) = 43 then 32 else hexDigit (b % 16)) :: text) = _
      rw [if_neg (by omega), if_neg (by omega), if_neg (by omega), unquoteToBytes, hexValue?_hexDigit _ (by omega),
        hexValue?_hexDigit _ (by omega)]
      dsimp only
      congr 1
      omega

theorem unquoteToBytes_flatMap {bytes : List Nat} (h : ∀ b ∈ bytes, b < 256) :
    unquoteToBytes (spaces (bytes.flatMap quoteByte)) = bytes := by
  induction bytes with
  | nil => rfl
  | cons b bytes ih =>
    have happend : spaces ((b :: bytes).flatMap quoteByte) = spaces (quoteByte b) ++ spaces (bytes.flatMap quoteByte) := by
      rw [List.flatMap_cons]
      exact List.map_append
    rw [happend, unquoteToBytes_quoteByte (h b List.mem_cons_self), ih fun c hc => h c (List.mem_cons_of_mem _ hc)]

theorem unquotePlus_quotePlus {text : List Nat} (h : ∀ n ∈ text, Scalar n) : unquotePlus (quotePlus text) = text := by
  have hascii : ∀ n ∈ spaces (quotePlus text), n < 128 := by
    intro n hn
    obtain ⟨m, hm, rfl⟩ := List.mem_map.1 hn
    have := (quotePlus_quoted h m hm).range
    split
    · omega
    · exact this.1
  have hbytes : ∀ b ∈ text.flatMap utf8, b < 256 := by
    intro b hb
    obtain ⟨n, hn, hb⟩ := List.mem_flatMap.1 hb
    exact utf8_lt (h n hn) b hb
  unfold unquotePlus unquote
  rw [unquoteFrom_ascii hascii, List.nil_append]
  unfold quotePlus
  rw [unquoteToBytes_flatMap hbytes, decode_utf8 h]

/-! ## Items -/

/-- `urlencode`, of a list of pairs. -/
def urlencode (items : List (List Nat × List Nat)) : List Nat :=
  List.intercalate [38] (items.map fun item => quotePlus item.1 ++ 61 :: quotePlus item.2)

/-- `parse_qsl(…, keep_blank_values=True)`. -/
def parseQsl (query : List Nat) : List (List Nat × List Nat) :=
  (query.splitOn 38).filterMap fun nameValue =>
    if nameValue = [] then none
    else
      let (name, _, value) := partition [61] nameValue
      some (unquotePlus name, unquotePlus value)

/-- Items of texts without surrogates. -/
def Writable (items : List (List Nat × List Nat)) : Prop :=
  ∀ item ∈ items, (∀ n ∈ item.1, Scalar n) ∧ ∀ n ∈ item.2, Scalar n

/-- The items of a query are read back as they were written. -/
theorem parseQsl_urlencode {items : List (List Nat × List Nat)} (h : Writable items) : parseQsl (urlencode items) = items := by
  unfold parseQsl urlencode
  cases items with
  | nil => rfl
  | cons item rest =>
    have hamp : ∀ part ∈ (item :: rest).map fun item => quotePlus item.1 ++ 61 :: quotePlus item.2, 38 ∉ part := by
      intro part hpart hmem
      obtain ⟨i, hi, rfl⟩ := List.mem_map.1 hpart
      rcases List.mem_append.1 hmem with hmem | hmem
      · exact (quotePlus_quoted (h i hi).1 38 hmem).range.2.1 rfl
      · rcases List.mem_cons.1 hmem with hmem | hmem
        · omega
        · exact (quotePlus_quoted (h i hi).2 38 hmem).range.2.1 rfl
    rw [List.splitOn_intercalate 38 hamp (by simp), List.filterMap_map]
    have hread : ∀ i ∈ item :: rest, ((fun nameValue => if nameValue = [] then none else
        let (name, _, value) := partition [61] nameValue
        some (unquotePlus name, unquotePlus value)) ∘ fun item => quotePlus item.1 ++ 61 :: quotePlus item.2) i = some i := by
      intro i hi
      have heq : 61 ∉ quotePlus i.1 := fun hmem => (quotePlus_quoted (h i hi).1 61 hmem).range.2.2 rfl
      show (if quotePlus i.1 ++ 61 :: quotePlus i.2 = [] then none else _) = _
      have hitem : (fun item : List Nat × List Nat => quotePlus item.1 ++ 61 :: quotePlus item.2) i =
          quotePlus i.1 ++ ([61] ++ quotePlus i.2) := rfl
      rw [if_neg (by simp), hitem, partition_append heq]
      dsimp only
      rw [unquotePlus_quotePlus (h i hi).1, unquotePlus_quotePlus (h i hi).2]
    rw [List.filterMap_congr hread]
    exact List.filterMap_some

theorem urlencode_quoted {items : List (List Nat × List Nat)} (h : Writable items) :
    ∀ n ∈ urlencode items, Quoted n ∨ n = 38 ∨ n = 61 := by
  have hparts : ∀ (parts : List (List Nat)), (∀ part ∈ parts, ∀ n ∈ part, Quoted n ∨ n = 38 ∨ n = 61) →
      ∀ n ∈ List.intercalate [38] parts, Quoted n ∨ n = 38 ∨ n = 61 := by
    intro parts
    induction parts with
    | nil =>
      intro _ n hn
      cases hn
    | cons part parts ih =>
      intro hparts n hn
      cases parts with
      | nil => exact hparts part List.mem_cons_self n (by simpa using hn)
      | cons second parts =>
        rw [List.intercalate_cons_cons, List.append_assoc] at hn
        rcases List.mem_append.1 hn with hn | hn
        · exact hparts part List.mem_cons_self n hn
        · rcases List.mem_cons.1 hn with hn | hn
          · exact .inr (.inl hn)
          · exact ih (fun p hp => hparts p (List.mem_cons_of_mem _ hp)) n hn
  refine hparts _ fun part hpart n hn => ?_
  obtain ⟨i, hi, rfl⟩ := List.mem_map.1 hpart
  rcases List.mem_append.1 hn with hn | hn
  · exact .inl (quotePlus_quoted (h i hi).1 n hn)
  · rcases List.mem_cons.1 hn with hn | hn
    · exact .inr (.inr hn)
    · exact .inl (quotePlus_quoted (h i hi).2 n hn)

theorem unquoteFrom_scalar {text : List Nat} (h : ∀ n ∈ text, Scalar n) :
    ∀ run, ∀ n ∈ unquoteFrom run text, Scalar n := by
  have hdecode : ∀ bytes, ∀ n ∈ decode bytes, Scalar n := by
    intro bytes
    refine decodeFrom_scalar bytes none fun c hc => ?_
    cases hc
  induction text with
  | nil =>
    intro run
    exact hdecode _
  | cons m text ih =>
    intro run n hn
    have ih := ih fun k hk => h k (List.mem_cons_of_mem _ hk)
    unfold unquoteFrom at hn
    split at hn
    · exact ih _ n hn
    · rcases List.mem_append.1 hn with hn | hn
      · exact hdecode _ n hn
      · rcases List.mem_cons.1 hn with hn | hn
        · rw [hn]
          exact h m List.mem_cons_self
        · exact ih _ n hn

theorem unquotePlus_scalar {text : List Nat} (h : ∀ n ∈ text, Scalar n) : ∀ n ∈ unquotePlus text, Scalar n := by
  refine unquoteFrom_scalar (fun n hn => ?_) []
  obtain ⟨m, hm, rfl⟩ := List.mem_map.1 hn
  split
  · exact .inl (by omega)
  · exact h m hm

/-- What a query is read as can be written. -/
theorem parseQsl_writable {query : List Nat} (h : ∀ n ∈ query, Scalar n) : Writable (parseQsl query) := by
  intro item hitem
  obtain ⟨part, hpart, hitem⟩ := List.mem_filterMap.1 hitem
  split at hitem
  · cases hitem
  · cases hitem
    have hscalar : ∀ n ∈ part, Scalar n := fun n hn => h n (mem_splitOn hpart hn)
    exact ⟨unquotePlus_scalar fun n hn => hscalar n (mem_partition (.inl hn)),
      unquotePlus_scalar fun n hn => hscalar n (mem_partition (.inr hn))⟩

end Queries
