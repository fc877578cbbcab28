import AgentRuns.Fallible
import AgentRuns.PyText
import AgentRuns.Sha256
import Mathlib.Algebra.Order.Group.Unbundled.Int
import Mathlib.Data.Set.Function

/-!
# The signature of a delivery

`sign` writes the header `t=<unix seconds>,v1=<digest>` over `"<t>."` and the body, with one digest for each secret;
`verify_signature` splits it by hand.  Both are the SDK's, and the service signs with the same `sign`.

    verify_signature of a header sign wrote  ↔  the same body, one of its secrets, in tolerance     (sign_verified)
    verify_signature returns, and rightly    ↔  the stamp, the secret and the digests can be read   (verify_returns_iff)

A stamp of more than 4300 digits is not one Python reads as an int, and a lone surrogate has no bytes: the receiver
raises on either, though a malformed header should be `False`, never an exception.
-/

namespace AgentRuns

open Fallible JsonText PyText Sha256

/-- What Python raises of a text. -/
inductive TextError
  /-- an int of more than `sys.get_int_max_str_digits()` digits -/
  | valueError
  /-- a lone surrogate -/
  | unicodeEncodeError
deriving DecidableEq, Repr

/-- `sys.int_info.default_max_str_digits`. -/
def maxStrDigits : Nat := 4300

/-- `f"{timestamp}"`. -/
def strOfInt (n : Int) : Except TextError (List Nat) :=
  if maxStrDigits < (decimal n.natAbs).length then .error .valueError
  else .ok (if n < 0 then 45 :: decimal n.natAbs else decimal n.natAbs)

/-- `int(stamp)`, of digits. -/
def intOfStr (stamp : List Nat) : Except TextError Int :=
  if maxStrDigits < stamp.length then .error .valueError else .ok (number stamp)

/-- `text.encode()`. -/
def encoded (text : List Nat) : Except TextError (List UInt8) :=
  match encode text with
  | some bytes => .ok bytes
  | none => .error .unicodeEncodeError

/-! ## The program -/

/-- `sign`. -/
def sign (secret : List Nat) (timestamp : Int) (body : List UInt8) (previous : Option (List Nat)) :
    Except TextError (List Nat) := do
  let stamp ← strOfInt timestamp
  let stamped ← encoded (stamp ++ points ".")
  let signed := stamped ++ body
  let keys := match previous with
    | none => [secret]
    | some previous => [secret, previous]
  let digests ← each (fun key => do return hexdigest (← encoded key) signed) keys
  return List.intercalate (points ",") ((points "t=" ++ stamp) :: digests.map (points "v1=" ++ ·))

/-- A part of the header: its name, the separator and its value, stripped. -/
def pieces (part : List Nat) : List Nat × List Nat × List Nat :=
  let (name, separator, value) := partition (points "=") part
  (PyText.strip name, PyText.strip separator, PyText.strip value)

/-- One turn of the loop over the parts. -/
def takePart (taken : List Nat × List (List Nat)) (part : List Nat) : List Nat × List (List Nat) :=
  let (name, separator, value) := pieces part
  if separator ≠ [] ∧ name = points "t" then (value, taken.2)
  else if separator ≠ [] ∧ name = points "v1" ∧ value ≠ [] then (taken.1, taken.2 ++ [value])
  else taken

/-- The stamp and the digests of a header. -/
def parts (header : List Nat) : List Nat × List (List Nat) :=
  (header.splitOn 44).foldl takePart ([], [])

/-- `any(hmac.compare_digest(expected, digest.encode()) for digest in digests)`. -/
def anyDigest (expected : List UInt8) : List (List Nat) → Except TextError Bool
  | [] => .ok false
  | digest :: digests => do
    let bytes ← encoded digest
    if bytes = expected then return true
    anyDigest expected digests

/-- `verify_signature`, with the clock it reads when no time is given. -/
def verifySignature (clock : Int) (secret : List Nat) (header : Option (List Nat)) (body : List UInt8)
    (now : Option Int) (tolerance : Int) : Except TextError Bool := do
  let (stamp, digests) := parts (header.getD [])
  if ¬ (stamp ≠ [] ∧ ∀ n ∈ stamp, digit n = true) ∨ digests = [] then return false
  let current := now.getD clock
  let timestamp ← intOfStr stamp
  if tolerance < |current - timestamp| then return false
  let signature ← sign secret timestamp body none
  let expected ← encoded (partition (points ",v1=") signature).2.2
  anyDigest expected digests

/-! ## What is signed -/

/-- The bytes a digest is of: `"<t>."` and the body. -/
def message (timestamp : Nat) (body : List UInt8) : List UInt8 :=
  ((encode (decimal timestamp ++ points ".")).getD []) ++ body

theorem encoded_ok {text : List Nat} {bytes : List UInt8} : encoded text = .ok bytes ↔ encode text = some bytes := by
  unfold encoded
  cases encode text with
  | none => simp
  | some b => simp

theorem encode_of_scalar {text : List Nat} (h : ∀ n ∈ text, Scalar n) : ∃ bytes, encode text = some bytes :=
  Option.isSome_iff_exists.1 (encode_isSome.2 h)

theorem scalar_of_lt {text : List Nat} (h : ∀ n ∈ text, n < 128) : ∀ n ∈ text, Scalar n :=
  fun n hn => .inl (Nat.lt_trans (h n hn) (by decide))

theorem decimal_lt (n : Nat) : ∀ d ∈ decimal n, d < 128 := by
  intro d hd
  have := digit_iff.1 (digit_decimal n d hd)
  omega

theorem hexdigest_lt (key message : List UInt8) : ∀ n ∈ hexdigest key message, n < 128 := by
  intro n hn
  have := hexdigest_range key message n hn
  omega

theorem encode_stamped (t : Nat) : ∃ bytes, encode (decimal t ++ points ".") = some bytes ∧ ∀ body, message t body = bytes ++ body := by
  have hlt : ∀ n ∈ decimal t ++ points ".", n < 128 := by
    intro n hn
    rcases List.mem_append.1 hn with hn | hn
    · exact decimal_lt t n hn
    · rw [List.mem_singleton.1 (show n ∈ [46] from hn)]
      decide
  obtain ⟨bytes, hbytes⟩ := encode_of_scalar (scalar_of_lt hlt)
  refine ⟨bytes, hbytes, fun body => ?_⟩
  unfold message
  rw [hbytes, Option.getD_some]

/-- Two bodies signed at one time are two messages. -/
theorem message_inj {t : Nat} {body body' : List UInt8} : message t body = message t body' ↔ body = body' :=
  List.append_right_inj _

/-- The header of a stamp and its digests. -/
def headerOf (stamp : List Nat) (digests : List (List Nat)) : List Nat :=
  List.intercalate (points ",") ((points "t=" ++ stamp) :: digests.map (points "v1=" ++ ·))

/-- The secrets a header is signed with. -/
def keys (secret : List Nat) (previous : Option (List Nat)) : List (List Nat) := secret :: previous.toList

/-- A header is signed when its time has the digits Python writes and its secrets are text with bytes. -/
theorem sign_ok {secret : List Nat} {t : Nat} {body : List UInt8} {previous : Option (List Nat)} {signed : List Nat} :
    sign secret t body previous = .ok signed ↔ (decimal t).length ≤ maxStrDigits ∧ ∃ digests,
      List.Forall₂ (fun key digest => ∃ bytes, encode key = some bytes ∧ digest = hexdigest bytes (message t body))
        (keys secret previous) digests ∧ signed = headerOf (decimal t) digests := by
  obtain ⟨stamped, hstamped, hmessage⟩ := encode_stamped t
  have hkeys : (match previous with
      | none => [secret]
      | some previous => [secret, previous]) = keys secret previous := by
    cases previous <;> rfl
  unfold sign strOfInt
  rw [Int.natAbs_natCast, hkeys]
  by_cases hlen : maxStrDigits < (decimal t).length
  · rw [if_pos hlen]
    constructor
    · intro h
      cases h
    · rintro ⟨h, -⟩
      omega
  · rw [if_neg hlen, if_neg (by omega)]
    simp only [bind_ok, encoded_ok, each_ok, pure, Except.pure, Except.ok.injEq, exists_eq_left', hstamped,
      Option.some.injEq]
    constructor
    · rintro ⟨digests, hdigests, rfl⟩
      refine ⟨by omega, digests, hdigests.imp ?_, rfl⟩
      rintro key digest ⟨bytes, hbytes, rfl⟩
      exact ⟨bytes, hbytes, by rw [hmessage]⟩
    · rintro ⟨-, digests, hdigests, rfl⟩
      refine ⟨digests, hdigests.imp ?_, rfl⟩
      rintro key digest ⟨bytes, hbytes, rfl⟩
      exact ⟨bytes, hbytes, by rw [hmessage]⟩

/-! ## What is read -/

/-- A value a header carries as it is: not empty, no whitespace and no comma. -/
def Solid (value : List Nat) : Prop := value ≠ [] ∧ ∀ n ∈ value, space n = false ∧ n ≠ 44

theorem solid_decimal (t : Nat) : Solid (decimal t) := by
  refine ⟨decimal_ne_nil t, fun n hn => ?_⟩
  have := digit_iff.1 (digit_decimal t n hn)
  simp only [space, decide_eq_false_iff_not]
  omega

theorem solid_hexdigest (key message : List UInt8) : Solid (hexdigest key message) := by
  constructor
  · intro h
    have hlen := length_hexdigest key message
    rw [h] at hlen
    cases hlen
  · intro n hn
    have := hexdigest_range key message n hn
    simp only [space, decide_eq_false_iff_not]
    omega

theorem pieces_named (name : List Nat) {value : List Nat} (hname : Solid name) (heq : 61 ∉ name) (hvalue : Solid value) :
    pieces (name ++ (points "=" ++ value)) = (name, points "=", value) := by
  unfold pieces
  rw [show points "=" = [61] from rfl, partition_append heq]
  dsimp only
  rw [strip_of_solid fun n hn => (hname.2 n hn).1, strip_of_solid fun n hn => (hvalue.2 n hn).1,
    strip_of_solid (by decide)]

theorem takePart_stamp {stamp : List Nat} (h : Solid stamp) (taken : List Nat × List (List Nat)) :
    takePart taken (points "t=" ++ stamp) = (stamp, taken.2) := by
  have hpieces := pieces_named (points "t") ⟨by decide, by decide⟩ (by decide) h
  unfold takePart
  rw [show points "t=" ++ stamp = points "t" ++ (points "=" ++ stamp) from rfl, hpieces]
  exact if_pos ⟨by decide, rfl⟩

theorem takePart_digest {digest : List Nat} (h : Solid digest) (taken : List Nat × List (List Nat)) :
    takePart taken (points "v1=" ++ digest) = (taken.1, taken.2 ++ [digest]) := by
  have hpieces := pieces_named (points "v1") ⟨by decide, by decide⟩ (by decide) h
  unfold takePart
  rw [show points "v1=" ++ digest = points "v1" ++ (points "=" ++ digest) from rfl, hpieces]
  dsimp only
  rw [if_neg (by decide), if_pos ⟨by decide, rfl, h.1⟩]

theorem foldl_takePart {digests : List (List Nat)} (h : ∀ digest ∈ digests, Solid digest) :
    ∀ taken : List Nat × List (List Nat),
      (digests.map (points "v1=" ++ ·)).foldl takePart taken = (taken.1, taken.2 ++ digests) := by
  induction digests with
  | nil =>
    intro taken
    simp
  | cons digest digests ih =>
    intro taken
    rw [List.map_cons, List.foldl_cons, takePart_digest (h digest List.mem_cons_self),
      ih fun d hd => h d (List.mem_cons_of_mem _ hd), List.append_assoc]
    rfl

/-- The parts of a header are the ones it was joined of. -/
theorem parts_headerOf {stamp : List Nat} {digests : List (List Nat)} (hstamp : Solid stamp)
    (hdigests : ∀ digest ∈ digests, Solid digest) : parts (headerOf stamp digests) = (stamp, digests) := by
  have hcomma : ∀ part ∈ (points "t=" ++ stamp) :: digests.map (points "v1=" ++ ·), 44 ∉ part := by
    intro part hpart hmem
    rcases List.mem_cons.1 hpart with rfl | hpart
    · rcases List.mem_append.1 hmem with hmem | hmem
      · exact absurd hmem (by decide)
      · exact (hstamp.2 44 hmem).2 rfl
    · obtain ⟨digest, hdigest, rfl⟩ := List.mem_map.1 hpart
      rcases List.mem_append.1 hmem with hmem | hmem
      · exact absurd hmem (by decide)
      · exact ((hdigests digest hdigest).2 44 hmem).2 rfl
  unfold parts headerOf
  rw [show points "," = [44] from rfl, List.splitOn_intercalate 44 hcomma (by simp), List.foldl_cons,
    takePart_stamp hstamp, foldl_takePart hdigests, List.nil_append]

/-! ## What is compared -/

/-- The digest a secret gives the body under the stamp. -/
def right (key : List UInt8) (stamp : List Nat) (body : List UInt8) : List Nat := hexdigest key (message (number stamp) body)

/-- Every digest read before the right one has bytes. -/
def Readable (right : List Nat) (digests : List (List Nat)) : Prop :=
  ∀ digest ∈ digests.takeWhile (· ≠ right), ∀ n ∈ digest, Scalar n

theorem anyDigest_spec {right : List Nat} {expected : List UInt8} (h : encode right = some expected) (digests : List (List Nat)) :
    (Readable right digests → anyDigest expected digests = .ok (decide (right ∈ digests))) ∧
      (¬ Readable right digests → anyDigest expected digests = .error .unicodeEncodeError) := by
  induction digests with
  | nil => exact ⟨fun _ => rfl, fun hr => absurd (by intro d hd; cases hd) hr⟩
  | cons digest digests ih =>
    by_cases heq : digest = right
    · -- the right one: nothing after it is read
      have hread : Readable right (digest :: digests) := by
        intro d hd
        simp [heq] at hd
      refine ⟨fun _ => ?_, fun hr => absurd hread hr⟩
      unfold anyDigest
      rw [encoded_ok.2 (heq ▸ h)]
      simp [heq, pure, Except.pure]
    · have hiff : Readable right (digest :: digests) ↔ (∀ n ∈ digest, Scalar n) ∧ Readable right digests := by
        simp [Readable, heq]
      rw [hiff]
      unfold anyDigest
      by_cases hscalar : ∀ n ∈ digest, Scalar n
      · obtain ⟨bytes, hbytes⟩ := encode_of_scalar hscalar
        have hne : bytes ≠ expected := fun hb => heq (encode_injective (hb ▸ hbytes) h)
        have hmem : (right ∈ digest :: digests) = (right ∈ digests) := by simp [Ne.symm heq]
        rw [encoded_ok.2 hbytes, ok_bind, if_neg hne]
        simp only [hmem]
        exact ⟨fun hr => ih.1 hr.2, fun hr => ih.2 fun hr' => hr ⟨hscalar, hr'⟩⟩
      · refine ⟨fun hr => absurd hr.1 hscalar, fun _ => ?_⟩
        unfold encoded
        rw [Option.not_isSome_iff_eq_none.1 fun hs => hscalar (encode_isSome.1 hs)]
        rfl

instance (right : List Nat) (digests : List (List Nat)) : Decidable (Readable right digests) :=
  inferInstanceAs (Decidable (∀ _ ∈ _, ∀ _ ∈ _, _))

/-- The stamp is digits, and there are digests to compare. -/
def Formed (stamp : List Nat) (digests : List (List Nat)) : Prop :=
  (stamp ≠ [] ∧ ∀ n ∈ stamp, digit n = true) ∧ digests ≠ []

instance (stamp : List Nat) (digests : List (List Nat)) : Decidable (Formed stamp digests) :=
  inferInstanceAs (Decidable (_ ∧ _))

section
variable {clock : Int} {secret : List Nat} {header : Option (List Nat)} {body : List UInt8} {now : Option Int} {tolerance : Int}
  {stamp : List Nat} {digests : List (List Nat)}

theorem sign_one {t : Nat} {key : List UInt8} (hlen : (decimal t).length ≤ maxStrDigits) (hkey : encode secret = some key) :
    sign secret t body none = .ok (headerOf (decimal t) [hexdigest key (message t body)]) :=
  sign_ok.2 ⟨hlen, _, .cons ⟨key, hkey, rfl⟩ .nil, rfl⟩

theorem sign_unencodable {t : Nat} (hlen : (decimal t).length ≤ maxStrDigits) (hkey : encode secret = none) :
    sign secret t body none = .error .unicodeEncodeError := by
  obtain ⟨stamped, hstamped, -⟩ := encode_stamped t
  unfold sign strOfInt
  rw [Int.natAbs_natCast, if_neg (by omega), if_neg (by omega), ok_bind, encoded_ok.2 hstamped, ok_bind]
  have herror : encoded secret = .error .unicodeEncodeError := by
    unfold encoded
    rw [hkey]
  simp only [each, herror, error_bind]

/-- What follows `,v1=` in the header of one digest. -/
theorem partition_headerOf {stamp : List Nat} (h : Solid stamp) (digest : List Nat) :
    (partition (points ",v1=") (headerOf stamp [digest])).2.2 = digest := by
  have hhead : headerOf stamp [digest] = (points "t=" ++ stamp) ++ (points ",v1=" ++ digest) := by
    show List.intercalate _ [_, _] = _
    rw [List.intercalate_cons_cons, List.intercalate_singleton, List.append_assoc, List.append_assoc, List.append_assoc]
    rfl
  have hcomma : 44 ∉ points "t=" ++ stamp := by
    intro hmem
    rcases List.mem_append.1 hmem with hmem | hmem
    · exact absurd hmem (by decide)
    · exact (h.2 44 hmem).2 rfl
  rw [hhead, show points ",v1=" = 44 :: points "v1=" from rfl, partition_append hcomma]

/-- What the receiver answers, or raises. -/
theorem verifySignature_eq (hparts : parts (header.getD []) = (stamp, digests)) :
    verifySignature clock secret header body now tolerance =
      if ¬ Formed stamp digests then .ok false
      else if maxStrDigits < stamp.length then .error .valueError
      else if tolerance < |now.getD clock - number stamp| then .ok false
      else match encode secret with
        | none => .error .unicodeEncodeError
        | some key =>
          if Readable (right key stamp body) digests then .ok (decide (right key stamp body ∈ digests))
          else .error .unicodeEncodeError := by
  unfold verifySignature
  rw [hparts]
  dsimp only
  by_cases hformed : Formed stamp digests
  · rw [if_neg (by unfold Formed at hformed; tauto), if_neg (not_not.2 hformed)]
    unfold intOfStr
    by_cases hlen : maxStrDigits < stamp.length
    · rw [if_pos hlen, if_pos hlen]
      rfl
    · rw [if_neg hlen, if_neg hlen, ok_bind]
      by_cases hlate : tolerance < |now.getD clock - number stamp|
      · rw [if_pos hlate, if_pos hlate]
        rfl
      · rw [if_neg hlate, if_neg hlate]
        have hshort : (decimal (number stamp)).length ≤ maxStrDigits :=
          Nat.le_trans (length_decimal_number hformed.1.1 hformed.1.2) (by omega)
        cases hkey : encode secret with
        | none => rw [sign_unencodable hshort hkey, error_bind]
        | some key =>
          obtain ⟨expected, hexpected⟩ := encode_of_scalar (scalar_of_lt (hexdigest_lt key (message (number stamp) body)))
          have hspec := anyDigest_spec hexpected digests
          rw [sign_one hshort hkey, ok_bind, partition_headerOf (solid_decimal _), encoded_ok.2 hexpected, ok_bind]
          dsimp only
          by_cases hread : Readable (right key stamp body) digests
          · rw [if_pos hread, hspec.1 hread]
            rfl
          · rw [if_neg hread, hspec.2 hread]
  · rw [if_pos (by unfold Formed at hformed; tauto), if_pos hformed]
    rfl

/-- The receiver is answered when what it reads can be read. -/
theorem verify_answers (hparts : parts (header.getD []) = (stamp, digests)) :
    (∃ accepted, verifySignature clock secret header body now tolerance = .ok accepted) ↔
      (Formed stamp digests → stamp.length ≤ maxStrDigits ∧
        (|now.getD clock - number stamp| ≤ tolerance → ∃ key, encode secret = some key ∧ Readable (right key stamp body) digests)) := by
  rw [verifySignature_eq hparts]
  by_cases hformed : Formed stamp digests
  · by_cases hlong : maxStrDigits < stamp.length
    · simp [hformed, hlong, Nat.not_le.2 hlong]
    · by_cases hlate : tolerance < |now.getD clock - number stamp|
      · simp [hformed, hlong, hlate, Nat.not_lt.1 hlong, not_le.2 hlate]
      · cases hkey : encode secret with
        | none => simp [hformed, hlong, hlate, not_lt.1 hlate]
        | some key =>
          by_cases hread : Readable (right key stamp body) digests
          · simp [hformed, hlong, hlate, hread, Nat.not_lt.1 hlong]
          · simp [hformed, hlong, hlate, hread, not_lt.1 hlate]
  · simp [hformed]

/-- And accepts what is formed, in time, and has the right digest before any that cannot be read. -/
theorem verify_accepts (hparts : parts (header.getD []) = (stamp, digests)) :
    verifySignature clock secret header body now tolerance = .ok true ↔
      Formed stamp digests ∧ stamp.length ≤ maxStrDigits ∧ |now.getD clock - number stamp| ≤ tolerance ∧
        ∃ key, encode secret = some key ∧ Readable (right key stamp body) digests ∧ right key stamp body ∈ digests := by
  rw [verifySignature_eq hparts]
  by_cases hformed : Formed stamp digests
  · by_cases hlong : maxStrDigits < stamp.length
    · simp [hformed, hlong, Nat.not_le.2 hlong]
    · by_cases hlate : tolerance < |now.getD clock - number stamp|
      · simp [hformed, hlong, hlate, not_le.2 hlate]
      · cases hkey : encode secret with
        | none => simp [hformed, hlong, hlate]
        | some key =>
          by_cases hread : Readable (right key stamp body) digests
          · simp [hformed, hlong, hlate, hread, Nat.not_lt.1 hlong, not_lt.1 hlate]
          · simp [hformed, hlong, hlate, hread]
  · simp [hformed]

/-! ## A header read back -/

/-- No two of these keys and messages have one digest. -/
def CollisionFree (signed : Set (List UInt8 × List UInt8)) : Prop :=
  signed.InjOn fun keyed => hexdigest keyed.1 keyed.2

/-- What a header and its reader sign: the body under each of the header's secrets, and the body read under the reader's. -/
def SignedBy (secret : List Nat) (previous : Option (List Nat)) (reader : List Nat) (t : Nat) (body read : List UInt8) :
    Set (List UInt8 × List UInt8) :=
  {keyed | (∃ key ∈ keys secret previous, encode key = some keyed.1 ∧ keyed.2 = message t body) ∨
    (encode reader = some keyed.1 ∧ keyed.2 = message t read)}

theorem mem_digests {previous : Option (List Nat)} {reader : List Nat} {t : Nat} {read : List UInt8} {key : List UInt8}
    (hfree : CollisionFree (SignedBy secret previous reader t body read)) (hkey : encode reader = some key)
    (hdigests : List.Forall₂ (fun key digest => ∃ bytes, encode key = some bytes ∧ digest = hexdigest bytes (message t body))
      (keys secret previous) digests) :
    hexdigest key (message t read) ∈ digests ↔ read = body ∧ reader ∈ keys secret previous := by
  constructor
  · intro hmem
    obtain ⟨secret', hsecret', bytes, hbytes, heq⟩ := exists_of_mem_right hdigests hmem
    have hpair : (key, message t read) = (bytes, message t body) :=
      hfree (.inr ⟨hkey, rfl⟩) (.inl ⟨secret', hsecret', hbytes, rfl⟩) heq
    obtain ⟨rfl, hmessage⟩ := Prod.mk.inj hpair
    rw [encode_injective hkey hbytes]
    exact ⟨message_inj.1 hmessage, hsecret'⟩
  · rintro ⟨rfl, hreader⟩
    obtain ⟨digest, hdigest, bytes, hbytes, rfl⟩ := exists_of_mem_left hdigests hreader
    rw [hkey] at hbytes
    cases hbytes
    exact hdigest

/-- The header of a delivery is accepted with either of the secrets it was signed with, for the body it was signed for,
within the tolerance either way, and with nothing else; a reader whose secret is text is always answered. -/
theorem sign_verified {previous : Option (List Nat)} {reader : List Nat} {t : Nat} {read : List UInt8} {signed : List Nat}
    (hsign : sign secret t body previous = .ok signed) (hfree : CollisionFree (SignedBy secret previous reader t body read)) :
    (verifySignature clock reader (some signed) read now tolerance = .ok true ↔
      read = body ∧ (reader = secret ∨ previous = some reader) ∧ |now.getD clock - t| ≤ tolerance) ∧
      ((∀ n ∈ reader, Scalar n) → ∃ accepted, verifySignature clock reader (some signed) read now tolerance = .ok accepted) := by
  obtain ⟨hlen, digests, hdigests, rfl⟩ := sign_ok.1 hsign
  have hhex : ∀ digest ∈ digests, ∃ key body, digest = hexdigest key body := by
    intro digest hdigest
    obtain ⟨_, _, bytes, _, rfl⟩ := exists_of_mem_right hdigests hdigest
    exact ⟨_, _, rfl⟩
  have hsolid : ∀ digest ∈ digests, Solid digest := by
    intro digest hdigest
    obtain ⟨key, body, rfl⟩ := hhex digest hdigest
    exact solid_hexdigest key body
  have hread : ∀ right, Readable right digests := by
    intro right digest hdigest
    obtain ⟨key, body, rfl⟩ := hhex digest ((List.takeWhile_sublist _).subset hdigest)
    exact scalar_of_lt (hexdigest_lt key body)
  have hformed : Formed (decimal t) digests := by
    refine ⟨⟨decimal_ne_nil t, digit_decimal t⟩, ?_⟩
    rintro rfl
    cases hdigests
  have hkeys : reader ∈ keys secret previous ↔ reader = secret ∨ previous = some reader := by
    simp [keys]
  have hparts : parts ((some (headerOf (decimal t) digests)).getD []) = (decimal t, digests) :=
    parts_headerOf (solid_decimal t) hsolid
  have hright : ∀ key, right key (decimal t) read = hexdigest key (message t read) := by
    intro key
    unfold right
    rw [number_decimal]
  rw [verify_accepts hparts, verify_answers hparts, number_decimal, ← hkeys]
  constructor
  · constructor
    · rintro ⟨-, -, htime, key, hkey, -, hmem⟩
      rw [hright] at hmem
      obtain ⟨hbody, hreader⟩ := (mem_digests hfree hkey hdigests).1 hmem
      exact ⟨hbody, hreader, htime⟩
    · rintro ⟨hbody, hreader, htime⟩
      obtain ⟨_, _, key, hkey, _⟩ := exists_of_mem_left hdigests hreader
      refine ⟨hformed, hlen, htime, key, hkey, hread _, ?_⟩
      rw [hright]
      exact (mem_digests hfree hkey hdigests).2 ⟨hbody, hreader⟩
  · intro hscalar _
    obtain ⟨key, hkey⟩ := encode_of_scalar hscalar
    exact ⟨hlen, fun _ => ⟨key, hkey, hread _⟩⟩

/-- With the secret a rotation replaced, at the edge of the tolerance. -/
theorem sign_verified_previous :
    verifySignature 0 (points "old") (some (points ("t=1700000000," ++
      "v1=29810abc729e7b7322b3ce2c7456a99bca762870c031aa43455fd67b43aab3c0," ++
      "v1=2b5e6fc3cac3432cb8a3476c75510114966afb97256d20b9198872431b7ceca6"))) [123, 125] (some 1700000300) 300 = .ok true := by
  have hsign : sign (points "new") (1700000000 : Nat) [123, 125] (some (points "old")) = .ok (points ("t=1700000000," ++
      "v1=29810abc729e7b7322b3ce2c7456a99bca762870c031aa43455fd67b43aab3c0," ++
      "v1=2b5e6fc3cac3432cb8a3476c75510114966afb97256d20b9198872431b7ceca6")) := by
    decide +kernel
  have hfree : CollisionFree (SignedBy (points "new") (some (points "old")) (points "old") 1700000000 [123, 125] [123, 125]) := by
    have hkeys : ∀ key m, (key, m) ∈ SignedBy (points "new") (some (points "old")) (points "old") 1700000000 [123, 125] [123, 125] →
        (key = [110, 101, 119] ∨ key = [111, 108, 100]) ∧ m = message 1700000000 [123, 125] := by
      have hnew : encode (points "new") = some [110, 101, 119] := by decide +kernel
      have hold : encode (points "old") = some [111, 108, 100] := by decide +kernel
      rintro key m (⟨secret, hsecret, hkey, rfl⟩ | ⟨hkey, rfl⟩)
      · rcases List.mem_cons.1 hsecret with rfl | hsecret
        · rw [hnew] at hkey
          exact ⟨.inl (Option.some.inj hkey).symm, rfl⟩
        · rw [List.mem_singleton.1 hsecret, hold] at hkey
          exact ⟨.inr (Option.some.inj hkey).symm, rfl⟩
      · rw [hold] at hkey
        exact ⟨.inr (Option.some.inj hkey).symm, rfl⟩
    have hne : hexdigest [110, 101, 119] (message 1700000000 [123, 125]) ≠ hexdigest [111, 108, 100] (message 1700000000 [123, 125]) := by
      decide +kernel
    rintro ⟨key, m⟩ h ⟨key', m'⟩ h' heq
    obtain ⟨hkey, rfl⟩ := hkeys key m h
    obtain ⟨hkey', rfl⟩ := hkeys key' m' h'
    rcases hkey with rfl | rfl <;> rcases hkey' with rfl | rfl
    · rfl
    · exact absurd heq hne
    · exact absurd heq.symm hne
    · rfl
  exact (sign_verified hsign hfree).1.2 ⟨rfl, .inr rfl, by decide⟩

/-! ## Any header -/

/-- The header has the field, with the value. -/
def Carries (header : Option (List Nat)) (name value : List Nat) : Prop :=
  ∃ part ∈ (header.getD []).splitOn 44, (pieces part).1 = name ∧ (pieces part).2.1 ≠ [] ∧ (pieces part).2.2 = value

/-- The header carries a time within the tolerance, and the digest of that time and the body under the secret. -/
def Signs (clock : Int) (secret : List Nat) (header : Option (List Nat)) (body : List UInt8) (now : Option Int) (tolerance : Int) : Prop :=
  ∃ stamp key, Carries header (points "t") stamp ∧ (∀ n ∈ stamp, digit n = true) ∧
    |now.getD clock - number stamp| ≤ tolerance ∧ encode secret = some key ∧
      Carries header (points "v1") (hexdigest key (message (number stamp) body))

theorem takePart_cases (taken : List Nat × List (List Nat)) (part : List Nat) :
    ((takePart taken part).1 = taken.1 ∨ ((pieces part).1 = points "t" ∧ (pieces part).2.1 ≠ [] ∧ (takePart taken part).1 = (pieces part).2.2)) ∧
    ∀ digest ∈ (takePart taken part).2, digest ∈ taken.2 ∨
      ((pieces part).1 = points "v1" ∧ (pieces part).2.1 ≠ [] ∧ (pieces part).2.2 = digest) := by
  unfold takePart
  dsimp only
  split
  · next h => exact ⟨.inr ⟨h.2, h.1, rfl⟩, fun _ hd => .inl hd⟩
  · split
    · next h =>
      refine ⟨.inl rfl, fun digest hd => ?_⟩
      rcases List.mem_append.1 hd with hd | hd
      · exact .inl hd
      · exact .inr ⟨h.2.1, h.1, (List.mem_singleton.1 hd).symm⟩
    · exact ⟨.inl rfl, fun _ hd => .inl hd⟩

/-- What the loop has taken, the header carries. -/
def Taken (header : Option (List Nat)) (taken : List Nat × List (List Nat)) : Prop :=
  (taken.1 = [] ∨ Carries header (points "t") taken.1) ∧ ∀ digest ∈ taken.2, Carries header (points "v1") digest

theorem Taken.step {taken : List Nat × List (List Nat)} {part : List Nat} (h : Taken header taken)
    (hpart : part ∈ (header.getD []).splitOn 44) : Taken header (takePart taken part) := by
  obtain ⟨hstamp, hdigests⟩ := takePart_cases taken part
  constructor
  · rcases hstamp with hstamp | ⟨hname, hsep, hvalue⟩
    · rw [hstamp]
      exact h.1
    · exact .inr ⟨part, hpart, hname, hsep, hvalue.symm⟩
  · intro digest hd
    rcases hdigests digest hd with hd | ⟨hname, hsep, hvalue⟩
    · exact h.2 digest hd
    · exact ⟨part, hpart, hname, hsep, hvalue⟩

theorem Taken.run {read : List (List Nat)} (hread : ∀ part ∈ read, part ∈ (header.getD []).splitOn 44) :
    ∀ {taken : List Nat × List (List Nat)}, Taken header taken → Taken header (read.foldl takePart taken) := by
  induction read with
  | nil => exact fun h => h
  | cons part read ih =>
    intro taken h
    exact ih (fun q hq => hread q (List.mem_cons_of_mem _ hq)) (h.step (hread part List.mem_cons_self))

theorem carries_parts (hparts : parts (header.getD []) = (stamp, digests)) : Taken header (stamp, digests) := by
  rw [← hparts]
  exact Taken.run (fun _ h => h) ⟨.inl rfl, fun _ hd => by cases hd⟩

/-- The stamp has the digits Python reads; and in time, the secret and the digests read before the right one are text. -/
def Legible (clock : Int) (secret : List Nat) (header : Option (List Nat)) (body : List UInt8) (now : Option Int) (tolerance : Int) : Prop :=
  ∀ stamp digests, parts (header.getD []) = (stamp, digests) → Formed stamp digests → stamp.length ≤ maxStrDigits ∧
    (|now.getD clock - number stamp| ≤ tolerance → ∃ key, encode secret = some key ∧ Readable (right key stamp body) digests)

/-- The receiver is answered, and rightly, exactly when what it was sent is legible. -/
theorem verify_returns_iff (clock : Int) (secret : List Nat) (header : Option (List Nat)) (body : List UInt8)
    (now : Option Int) (tolerance : Int) :
    ((∃ accepted, verifySignature clock secret header body now tolerance = .ok accepted) ∧
      (verifySignature clock secret header body now tolerance = .ok true → Signs clock secret header body now tolerance)) ↔
      Legible clock secret header body now tolerance := by
  obtain ⟨stamp, digests, hparts⟩ : ∃ stamp digests, parts (header.getD []) = (stamp, digests) := ⟨_, _, rfl⟩
  have hlegible : Legible clock secret header body now tolerance ↔ (Formed stamp digests → stamp.length ≤ maxStrDigits ∧
      (|now.getD clock - number stamp| ≤ tolerance → ∃ key, encode secret = some key ∧ Readable (right key stamp body) digests)) := by
    constructor
    · intro h
      exact h stamp digests hparts
    · intro h stamp' digests' hparts'
      obtain ⟨rfl, rfl⟩ := Prod.mk.inj (hparts.symm.trans hparts')
      exact h
  obtain ⟨hstamp, hdigests⟩ := carries_parts hparts
  rw [hlegible, ← verify_answers hparts, and_iff_left_iff_imp]
  intro _ htrue
  obtain ⟨hformed, -, htime, key, hkey, -, hmem⟩ := (verify_accepts hparts).1 htrue
  exact ⟨stamp, key, hstamp.resolve_left hformed.1.1, hformed.1.2, htime, hkey, hdigests _ hmem⟩

/-- A header of a stamp too long for an int raises in its receiver. -/
theorem long_stamp_raises : ¬ ∃ accepted,
    verifySignature 0 (points "whsec") (some (headerOf (List.replicate 4301 49) [points "a"])) [] (some 0) 300 = .ok accepted := by
  have hsolid : Solid (List.replicate 4301 49) := by
    refine ⟨List.ne_nil_of_length_pos (by rw [List.length_replicate]; decide), fun n hn => ?_⟩
    rw [List.eq_of_mem_replicate hn]
    decide
  have hparts : parts ((some (headerOf (List.replicate 4301 49) [points "a"])).getD []) = (List.replicate 4301 49, [points "a"]) :=
    parts_headerOf hsolid (by intro d hd; rw [List.mem_singleton.1 hd]; exact ⟨by decide, by decide⟩)
  have hformed : Formed (List.replicate 4301 49) [points "a"] := by
    refine ⟨⟨hsolid.1, fun n hn => ?_⟩, List.cons_ne_nil _ _⟩
    rw [List.eq_of_mem_replicate hn]
    decide
  rw [verify_answers hparts]
  intro h
  have hlen := (h hformed).1
  rw [List.length_replicate] at hlen
  exact absurd hlen (by decide)

end

end AgentRuns
