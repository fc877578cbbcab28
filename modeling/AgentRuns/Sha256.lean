import Mathlib.Data.List.Basic

/-!
# SHA-256 and HMAC

The hash and the keyed hash over it, byte by byte as the standards define them.

    (hexdigest key message).length = 64                                              (length_hexdigest)
    each of them is '0' to '9' or 'a' to 'f'                                          (hexdigest_range)
-/

namespace Sha256

/-! ## The compression -/

/-- The eight words a block is folded into. -/
structure Chain where
  a : UInt32
  b : UInt32
  c : UInt32
  d : UInt32
  e : UInt32
  f : UInt32
  g : UInt32
  h : UInt32
  deriving DecidableEq, Repr

namespace Chain

def add (s t : Chain) : Chain :=
  ⟨s.a + t.a, s.b + t.b, s.c + t.c, s.d + t.d, s.e + t.e, s.f + t.f, s.g + t.g, s.h + t.h⟩

def words (s : Chain) : List UInt32 := [s.a, s.b, s.c, s.d, s.e, s.f, s.g, s.h]

end Chain

/-- The square roots of the first eight primes, their fractions' first 32 bits. -/
def start : Chain :=
  ⟨0x6a09e667, 0xbb67ae85, 0x3c6ef372, 0xa54ff53a,
    0x510e527f, 0x9b05688c, 0x1f83d9ab, 0x5be0cd19⟩

/-- The cube roots of the first sixty-four, likewise. -/
def constants : List UInt32 :=
  [ 0x428a2f98, 0x71374491, 0xb5c0fbcf, 0xe9b5dba5, 0x3956c25b, 0x59f111f1, 0x923f82a4, 0xab1c5ed5,
    0xd807aa98, 0x12835b01, 0x243185be, 0x550c7dc3, 0x72be5d74, 0x80deb1fe, 0x9bdc06a7, 0xc19bf174,
    0xe49b69c1, 0xefbe4786, 0x0fc19dc6, 0x240ca1cc, 0x2de92c6f, 0x4a7484aa, 0x5cb0a9dc, 0x76f988da,
    0x983e5152, 0xa831c66d, 0xb00327c8, 0xbf597fc7, 0xc6e00bf3, 0xd5a79147, 0x06ca6351, 0x14292967,
    0x27b70a85, 0x2e1b2138, 0x4d2c6dfc, 0x53380d13, 0x650a7354, 0x766a0abb, 0x81c2c92e, 0x92722c85,
    0xa2bfe8a1, 0xa81a664b, 0xc24b8b70, 0xc76c51a3, 0xd192e819, 0xd6990624, 0xf40e3585, 0x106aa070,
    0x19a4c116, 0x1e376c08, 0x2748774c, 0x34b0bcb5, 0x391c0cb3, 0x4ed8aa4a, 0x5b9cca4f, 0x682e6ff3,
    0x748f82ee, 0x78a5636f, 0x84c87814, 0x8cc70208, 0x90befffa, 0xa4506ceb, 0xbef9a3f7, 0xc67178f2 ]

def rotr (n : UInt32) (x : UInt32) : UInt32 := (x >>> n) ||| (x <<< (32 - n))

def round (s : Chain) (k w : UInt32) : Chain :=
  let t1 := s.h + (rotr 6 s.e ^^^ rotr 11 s.e ^^^ rotr 25 s.e) + ((s.e &&& s.f) ^^^ (~~~s.e &&& s.g)) + k + w
  let t2 := (rotr 2 s.a ^^^ rotr 13 s.a ^^^ rotr 22 s.a) + ((s.a &&& s.b) ^^^ (s.a &&& s.c) ^^^ (s.b &&& s.c))
  ⟨t1 + t2, s.a, s.b, s.c, s.d + t1, s.e, s.f, s.g⟩

/-- The next word of the schedule, of the sixteen before it. -/
def extend (w : List UInt32) : UInt32 :=
  let w1 := w.getD 1 0
  let w14 := w.getD 14 0
  (rotr 17 w14 ^^^ rotr 19 w14 ^^^ (w14 >>> 10)) + w.getD 9 0 + (rotr 7 w1 ^^^ rotr 18 w1 ^^^ (w1 >>> 3)) + w.getD 0 0

/-- The rounds, with the sixteen words of the schedule at hand. -/
def rounds : List UInt32 → Chain → List UInt32 → Chain
  | [], s, _ => s
  | k :: ks, s, w => rounds ks (round s k (w.getD 0 0)) (w.drop 1 ++ [extend w])

def word (b : List UInt8) : UInt32 :=
  b.foldl (fun w x => (w <<< 8) ||| x.toUInt32) 0

/-- Lists of so many, the last the rest. -/
def chunks (size : Nat) : Nat → List UInt8 → List (List UInt8)
  | 0, _ => []
  | n + 1, l => l.take size :: chunks size n (l.drop size)

def compress (s : Chain) (block : List UInt8) : Chain :=
  s.add (rounds constants s ((chunks 4 16 block).map word))

/-! ## The hash -/

/-- A length in bits, in eight bytes. -/
def lengthBytes (n : Nat) : List UInt8 :=
  [7, 6, 5, 4, 3, 2, 1, 0].map fun i : Nat => UInt8.ofNat (n >>> (8 * i))

/-- The message, a one bit, zeros, and its length in bits. -/
def pad (message : List UInt8) : List UInt8 :=
  message ++ [0x80] ++ List.replicate ((119 - message.length % 64) % 64) 0 ++ lengthBytes (message.length * 8)

def bytes (w : UInt32) : List UInt8 := [(w >>> 24).toUInt8, (w >>> 16).toUInt8, (w >>> 8).toUInt8, w.toUInt8]

def sha256 (message : List UInt8) : List UInt8 :=
  (((chunks 64 ((pad message).length / 64) (pad message)).foldl compress start).words).flatMap bytes

theorem length_sha256 (message : List UInt8) : (sha256 message).length = 32 := rfl

/-! ## The keyed hash -/

/-- A key of the block's size: a long one is hashed, a short one filled up with zeros. -/
def blockKey (key : List UInt8) : List UInt8 :=
  let k := if 64 < key.length then sha256 key else key
  k ++ List.replicate (64 - k.length) 0

def hmac (key message : List UInt8) : List UInt8 :=
  sha256 ((blockKey key).map (· ^^^ 0x5c) ++ sha256 ((blockKey key).map (· ^^^ 0x36) ++ message))

/-- `'0'` to `'9'` and `'a'` to `'f'`. -/
def hexDigit (n : Nat) : Nat := if n < 10 then 48 + n else 87 + n

/-- `bytes.hex`. -/
def hex (b : List UInt8) : List Nat := b.flatMap fun x => [hexDigit (x.toNat / 16), hexDigit (x.toNat % 16)]

theorem hex_cons (x : UInt8) (b : List UInt8) :
    hex (x :: b) = hexDigit (x.toNat / 16) :: hexDigit (x.toNat % 16) :: hex b := rfl

theorem length_hex (b : List UInt8) : (hex b).length = 2 * b.length := by
  induction b with
  | nil => rfl
  | cons x b ih =>
    rw [hex_cons, List.length_cons, List.length_cons, List.length_cons, ih]
    omega

theorem hexDigit_range {n : Nat} (h : n < 16) : (48 ≤ hexDigit n ∧ hexDigit n ≤ 57) ∨ (97 ≤ hexDigit n ∧ hexDigit n ≤ 102) := by
  unfold hexDigit
  split
  · exact .inl ⟨by omega, by omega⟩
  · exact .inr ⟨by omega, by omega⟩

theorem hex_range (b : List UInt8) : ∀ n ∈ hex b, (48 ≤ n ∧ n ≤ 57) ∨ (97 ≤ n ∧ n ≤ 102) := by
  intro n hn
  obtain ⟨x, -, hx⟩ := List.mem_flatMap.1 hn
  have hlt := x.toNat_lt
  simp only [List.mem_cons, List.not_mem_nil, or_false] at hx
  rcases hx with rfl | rfl
  · exact hexDigit_range (by omega)
  · exact hexDigit_range (by omega)

theorem hexDigit_inj {m n : Nat} (h : hexDigit m = hexDigit n) (hm : m < 16) (hn : n < 16) : m = n := by
  unfold hexDigit at h
  split at h <;> split at h <;> omega

theorem hex_inj {a : List UInt8} : ∀ {b : List UInt8}, hex a = hex b → a = b := by
  induction a with
  | nil =>
    intro b h
    cases b with
    | nil => rfl
    | cons y b => rw [hex_cons] at h; cases h
  | cons x a ih =>
    intro b h
    cases b with
    | nil => rw [hex_cons] at h; cases h
    | cons y b =>
      rw [hex_cons, hex_cons] at h
      injection h with hhigh h
      injection h with hlow h
      have hx := x.toNat_lt
      have hy := y.toNat_lt
      have h1 := hexDigit_inj hhigh (by omega) (by omega)
      have h2 := hexDigit_inj hlow (by omega) (by omega)
      have hxy : x.toNat = y.toNat := by omega
      rw [UInt8.toNat_inj.1 hxy, ih h]

/-- `hmac.new(key, message, sha256).hexdigest()`. -/
def hexdigest (key message : List UInt8) : List Nat := hex (hmac key message)

theorem hexdigest_range (key message : List UInt8) :
    ∀ n ∈ hexdigest key message, (48 ≤ n ∧ n ≤ 57) ∨ (97 ≤ n ∧ n ≤ 102) := hex_range _

theorem length_hexdigest (key message : List UInt8) : (hexdigest key message).length = 64 := by
  unfold hexdigest hmac
  rw [length_hex, length_sha256]

example : hexdigest "key".toUTF8.data.toList "The quick brown fox jumps over the lazy dog".toUTF8.data.toList =
    ("f7bc83f430538424b13298e6aa6fb143ef4d59a14946175997479dbc2d1a3cd8".toList.map Char.toNat) := by
  decide +kernel

end Sha256
