import AgentRuns.Base64
import AgentRuns.JsonText
import AgentRuns.Requests

/-!
# Cursors

A cursor is the position a page ended at: the JSON of the columns a listing is ordered by, in URL-safe base64 without padding.

    decodeCursor datetimes fields (some (encodeCursor datetimes fields p)) = .ok (some p)     (decodeCursor_encodeCursor)
    a cursor of n characters of JSON has (4 n + 2) / 3                                        (length_encodeCursor)
-/

namespace AgentRuns

open JsonText

/-- `CURSOR_MAX_CHARS`. -/
def cursorMaxChars : Nat := 1024

/-- What `datetime.fromisoformat` reads. -/
structure ReadDatetime where
  instant : Instant
  /-- its `tzinfo` is not `None` -/
  aware : Bool

/-- The text of a datetime the database returned, and what is read of a text (`none`: a `ValueError`). -/
structure Datetimes where
  isoformat : Instant → String
  fromisoformat : List Nat → Option ReadDatetime
  fromisoformat_isoformat : ∀ t, fromisoformat (points (isoformat t)) = some ⟨t, true⟩

/-- The columns a listing is ordered by, in `sort_keys` order. -/
structure CursorFields where
  instant : String
  id : String
  sorted : instant < id

/-- A position: the instant and the id, in code points, of the last row of a page. -/
structure Position where
  instant : Instant
  id : List Nat
deriving DecidableEq

/-- A row's position. -/
def Position.of (instant : Instant) (id : String) : Position := ⟨instant, points id⟩

section
variable (datetimes : Datetimes) (fields : CursorFields)

/-! ## Writing -/

/-- `json.dumps(dict(position), sort_keys=True, …)`. -/
def cursorText (p : Position) : String :=
  String.ofList (dict [(points fields.instant, points (datetimes.isoformat p.instant)), (points fields.id, p.id)])

/-- `encode_cursor`. -/
def encodeCursor (p : Position) : String :=
  String.ofList (Base64.unpadded (Base64.encode (cursorText datetimes fields p).toUTF8.data.toList))

/-! ## Reading -/

def notOurs : ServiceError := .unprocessable "invalid cursor: copy it from the previous page's Link header"

/-- `position[name]`: of two members with one name, the later. -/
def lookup (members : List (List Nat × Value)) (name : String) : Option Value :=
  (members.reverse.find? fun m => m.1 = points name).map (·.2)

/-- A cursor member is a string. -/
def text? : Value → Option (List Nat)
  | .str text => some text
  | _ => none

/-- `set(position) == set(fields)`. -/
def exactly (members : List (List Nat × Value)) : Bool :=
  (members.all fun m => m.1 = points fields.instant ∨ m.1 = points fields.id) &&
    (lookup members fields.instant).isSome && (lookup members fields.id).isSome

/-- The position a dict names. -/
def positionOf (members : List (List Nat × Value)) : Option Position := do
  let instant ← (lookup members fields.instant).bind text?
  let id ← (lookup members fields.id).bind text?
  let read ← datetimes.fromisoformat instant
  if read.aware then some ⟨read.instant, id⟩ else none

/-- The position a JSON value names: a dict's, of exactly the fields. -/
def valuePosition : Value → Option Position
  | .obj members => if exactly fields members then positionOf datetimes fields members else none
  | _ => none

/-- What `decode_cursor` reads of a text; `none` where it raises. -/
def readCursor (cursor : String) : Option Position := do
  let bytes ← Base64.decode (Base64.repad cursor.toList)
  let raw ← String.fromUTF8? ⟨bytes.toArray⟩
  let value ← loads raw.toList
  valuePosition datetimes fields value

/-- `decode_cursor`. -/
def decodeCursor (cursor : Option String) : Except ServiceError (Option Position) :=
  match cursor with
  | none => .ok none
  | some cursor =>
    if cursor = "" then .ok none
    else
      match readCursor datetimes fields cursor with
      | some p => .ok (some p)
      | none => .error notOurs

end

/-! ## Round trip -/

section
variable {datetimes : Datetimes} {fields : CursorFields} {p : Position}

theorem points_injective : Function.Injective points := by
  intro s t h
  have hchar : Function.Injective Char.toNat := fun c d h => by
    rw [← Char.ofNat_toNat c, ← Char.ofNat_toNat d, h]
  exact String.toList_inj.1 (List.map_injective_iff.2 hchar h)

/-- The two columns have two names. -/
theorem CursorFields.ne (fields : CursorFields) : points fields.instant ≠ points fields.id := by
  intro h
  have hlt := fields.sorted
  rw [points_injective h] at hlt
  exact String.lt_irrefl _ hlt

theorem lookup_instant (instant id : Value) :
    lookup [(points fields.instant, instant), (points fields.id, id)] fields.instant = some instant := by
  simp [lookup, fields.ne.symm]

theorem lookup_id (instant id : Value) :
    lookup [(points fields.instant, instant), (points fields.id, id)] fields.id = some id := by
  simp [lookup]

theorem exactly_members (instant id : Value) :
    exactly fields [(points fields.instant, instant), (points fields.id, id)] = true := by
  unfold exactly
  rw [lookup_instant, lookup_id]
  simp

theorem positionOf_members (p : Position) : positionOf datetimes fields
    [(points fields.instant, .str (points (datetimes.isoformat p.instant))), (points fields.id, .str p.id)] = some p := by
  unfold positionOf
  rw [lookup_instant, lookup_id]
  simp only [Option.bind_eq_bind, Option.bind_some, text?, datetimes.fromisoformat_isoformat, if_true]

theorem valuePosition_members (p : Position) : valuePosition datetimes fields
    (.obj [(points fields.instant, .str (points (datetimes.isoformat p.instant))), (points fields.id, .str p.id)]) = some p := by
  unfold valuePosition
  dsimp only
  rw [if_pos (exactly_members _ _)]
  exact positionOf_members p

/-- A text's bytes are read as the text. -/
theorem fromUTF8?_toUTF8 (text : String) : String.fromUTF8? ⟨text.toUTF8.data.toList.toArray⟩ = some text :=
  dif_pos text.isValidUTF8

theorem loads_cursorText (datetimes : Datetimes) (fields : CursorFields) (h : ∀ n ∈ p.id, Scalar n) : loads (cursorText datetimes fields p).toList = some
    (.obj [(points fields.instant, .str (points (datetimes.isoformat p.instant))), (points fields.id, .str p.id)]) := by
  unfold cursorText
  rw [String.toList_ofList, loads_dict]
  · rfl
  · simp only [List.mem_cons, List.not_mem_nil, or_false]
    rintro m (rfl | rfl)
    · exact ⟨scalar_points _, scalar_points _⟩
    · exact ⟨scalar_points _, h⟩

theorem readCursor_encodeCursor (h : ∀ n ∈ p.id, Scalar n) :
    readCursor datetimes fields (encodeCursor datetimes fields p) = some p := by
  have hloads := loads_cursorText datetimes fields h
  unfold readCursor encodeCursor
  generalize cursorText datetimes fields p = raw at hloads ⊢
  rw [String.toList_ofList, Base64.repad_unpadded, Base64.decode_encode]
  simp only [Option.bind_eq_bind, Option.bind_some]
  rw [fromUTF8?_toUTF8, Option.bind_some, hloads, Option.bind_some, valuePosition_members]

/-- An ASCII character is a byte. -/
theorem utf8ByteSize_ascii : ∀ text : List Char, (∀ c ∈ text, c.toNat < 128) → (String.ofList text).utf8ByteSize = text.length
  | [], _ => rfl
  | c :: text, h => by
    have hc : c.utf8Size = 1 := by
      have hlt : c.toNat < 128 := h c List.mem_cons_self
      exact Char.utf8Size_eq_one_iff.2 (UInt32.le_iff_toNat_le.2 (Nat.le_of_lt_succ hlt))
    have ih := utf8ByteSize_ascii text fun d hd => h d (List.mem_cons_of_mem _ hd)
    rw [String.ofList_cons, String.utf8ByteSize_append, String.utf8ByteSize_singleton, hc, ih, List.length_cons]
    omega

/-- Four characters of a cursor hold three of its JSON. -/
theorem length_encodeCursor (datetimes : Datetimes) (fields : CursorFields) (p : Position) : (encodeCursor datetimes fields p).length =
    (4 * (dict [(points fields.instant, points (datetimes.isoformat p.instant)), (points fields.id, p.id)]).length + 2) / 3 := by
  unfold encodeCursor
  have hsize : ∀ text : String, text.toUTF8.data.size = text.utf8ByteSize := fun _ => rfl
  rw [String.length_ofList, Base64.length_unpadded, Array.length_toList, hsize]
  unfold cursorText
  rw [utf8ByteSize_ascii _ (dict_ascii _)]

/-- A cursor is not empty. -/
theorem encodeCursor_ne (p : Position) : encodeCursor datetimes fields p ≠ "" := by
  intro h
  have hlen := length_encodeCursor datetimes fields p
  rw [h] at hlen
  simp only [dict, String.length_empty, List.length_cons] at hlen
  omega

theorem decodeCursor_encodeCursor (h : ∀ n ∈ p.id, Scalar n) :
    decodeCursor datetimes fields (some (encodeCursor datetimes fields p)) = .ok (some p) := by
  unfold decodeCursor
  dsimp only
  rw [if_neg (encodeCursor_ne p), readCursor_encodeCursor h]

end

end AgentRuns
