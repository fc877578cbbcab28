import AgentRuns.Paging
import AgentRuns.PyText

/-!
# The cursors a listing is sent

One it issued, and one it did not.  `decode_cursor` gives back the position of the one, or refuses the other as a 422; what it
gives is handed to the database, which compares it with the columns.

    an issued cursor is admitted and decoded     ↔  its names, time and id take at most 755 characters of JSON   (issued_cursor_iff)
    a sent cursor is refused or can be compared  ↔  the id and time it spells are ones the database takes        (forged_cursor_iff)

A cursor may spell a NUL, a lone surrogate, or an offset of a day: nothing in `_member` looks, and the database raises.
-/

namespace AgentRuns

open Relational Fallible JsonText

/-! ## Issued -/

/-- How many characters JSON takes for one of a text. -/
def width (n : Nat) : Nat :=
  if n ∈ [92, 34, 8, 12, 10, 13, 9] then 2 else if 32 ≤ n ∧ n ≤ 126 then 1 else if n < 65536 then 6 else 12

/-- And for a text, without its quotes. -/
def textWidth (text : List Nat) : Nat := (text.map width).sum

theorem length_escape (n : Nat) : (escape n).length = width n := by
  unfold escape width
  cases h : shortEscape? n with
  | some e =>
    rw [if_pos (shortEscape?_mem h)]
    rfl
  | none =>
    have hmem : n ∉ [92, 34, 8, 12, 10, 13, 9] := by
      intro hmem
      simp only [List.mem_cons, List.not_mem_nil, or_false] at hmem
      rcases hmem with rfl | rfl | rfl | rfl | rfl | rfl | rfl <;> cases h
    rw [if_neg hmem]
    dsimp only
    split
    · rfl
    · split <;> rfl

theorem length_quoted_width (text : List Nat) : (quoted text).length = 2 + textWidth text := by
  rw [length_quoted, List.length_flatMap]
  unfold textWidth
  rw [List.map_congr_left fun n _ => length_escape n]

/-- The listing takes back the cursor it makes of a position: `CursorQuery` admits it, and it decodes to the position. -/
def Listing.TakesBack {σ : Type} (l : Listing σ) (datetimes : Datetimes) (p : Position) : Prop :=
  (encodeCursor datetimes l.fields p).length ≤ cursorMaxChars ∧
    decodeCursor datetimes l.fields (some (encodeCursor datetimes l.fields p)) = .ok (some p)

/-- What the position takes in JSON: its columns' names, its time and its id. -/
def Listing.spelledWidth {σ : Type} (l : Listing σ) (datetimes : Datetimes) (p : Position) : Nat :=
  textWidth (points l.fields.instant) + textWidth (points (datetimes.isoformat p.instant)) +
    textWidth (points l.fields.id) + textWidth p.id

/-- With thirteen marks around them, 768 characters of JSON are 1024 of base64. -/
theorem admitted_iff (datetimes : Datetimes) {σ : Type} (l : Listing σ) (p : Position) :
    l.Admitted datetimes p ↔ l.spelledWidth datetimes p ≤ 755 := by
  unfold Listing.Admitted Listing.spelledWidth cursorMaxChars
  rw [length_encodeCursor, length_dict_pair, length_quoted_width, length_quoted_width, length_quoted_width,
    length_quoted_width]
  omega

/-- A listing takes back the cursor of any of its rows exactly when its position takes at most 755 characters in JSON. -/
theorem issued_cursor_iff (datetimes : Datetimes) (collation : Collation) (tenantId : String) (endpoint : Endpoint)
    (row : (endpoint.listing collation tenantId).Row) :
    (endpoint.listing collation tenantId).TakesBack datetimes ((endpoint.listing collation tenantId).position row) ↔
      (endpoint.listing collation tenantId).spelledWidth datetimes ((endpoint.listing collation tenantId).position row) ≤ 755 := by
  constructor
  · rintro ⟨hadmitted, -⟩
    exact (admitted_iff datetimes _ _).1 hadmitted
  · intro hwidth
    exact ⟨(admitted_iff datetimes _ _).2 hwidth, decodeCursor_encodeCursor (Listing.scalar_position row)⟩

/-- Times as `isoformat` writes the first second of 1970. -/
def secondDatetimes : Datetimes where
  isoformat t := if t = 1 then "1970-01-01T00:00:01+00:00" else spelledDatetimes.isoformat t
  fromisoformat text := if text = points "1970-01-01T00:00:01+00:00" then some ⟨1, true⟩ else spelledDatetimes.fromisoformat text
  fromisoformat_isoformat t := by
    by_cases h : t = 1
    · rw [if_pos h, if_pos rfl, h]
    · have hne : points (spelledDatetimes.isoformat t) ≠ points "1970-01-01T00:00:01+00:00" := by
        intro he
        have htext := congrArg String.toList (points_injective he)
        rw [show spelledDatetimes.isoformat t = "2026-10-01T00:00:00+00:00" ++ String.ofList _ from rfl, String.toList_append] at htext
        cases congrArg List.head? htext
      rw [if_neg h, if_neg hne]
      exact spelledDatetimes.fromisoformat_isoformat t

/-- The first of two pages ends on a run whose cursor is not taken back. -/
theorem astral_not_taken_back : ∃ p ∈ (RunStore.list plainCollation "t" everyRun).sent ⟨1, by decide⟩ none [astralRuns, astralRuns],
    ¬ (RunStore.list plainCollation "t" everyRun).TakesBack secondDatetimes p := by
  refine ⟨_, later_sent astral_rows, fun h => ?_⟩
  exact not_admitted_astral secondDatetimes (RunStore.list plainCollation "t" everyRun) 1
    (le_of_eq (astral_length '🚀').symm) (astral_above (by decide)) h.1

/-! ## Sent -/

/-- What the database and its driver make of a time: of its offset from UTC, in microseconds. -/
structure Comparing where
  /-- `utcoffset()` of the time read of a text -/
  utcoffset : List Nat → Int
  takesOffset : Int → Bool

/-- The members of a cursor: the text of its time and what is read of it, and its id. -/
structure Members where
  text : List Nat
  instant : Instant
  id : List Nat

def Members.position (m : Members) : Position := ⟨m.instant, m.id⟩

section
variable (datetimes : Datetimes) (fields : CursorFields) (comparing : Comparing)

/-- `{name: _member(position[name], kind) …}`. -/
def membersOf (members : List (List Nat × Value)) : Option Members := do
  let text ← (lookup members fields.instant).bind text?
  let id ← (lookup members fields.id).bind text?
  let read ← datetimes.fromisoformat text
  if read.aware then some ⟨text, read.instant, id⟩ else none

def valueMembers : Value → Option Members
  | .obj members => if exactly fields members then membersOf datetimes fields members else none
  | _ => none

/-- What the base64 of a cursor spells in JSON; `none` where it is not base64, not UTF-8 or not JSON. -/
def spelled (cursor : String) : Option Value := do
  let bytes ← Base64.decode (Base64.repad cursor.toList)
  let raw ← String.fromUTF8? ⟨bytes.toArray⟩
  loads raw.toList

/-- `decode_cursor`, with the members as they were written. -/
def decodeMembers (cursor : Option String) : Except ServiceError (Option Members) :=
  match cursor with
  | none => .ok none
  | some cursor =>
    if cursor = "" then .ok none
    else
      match (spelled cursor).bind (valueMembers datetimes fields) with
      | some m => .ok (some m)
      | none => .error notOurs

/-- A text without NUL that has bytes, and a time of an offset the database takes. -/
def Comparing.compares (m : Members) : Prop := (∀ n ∈ m.id, n ≠ 0 ∧ Scalar n) ∧ comparing.takesOffset (comparing.utcoffset m.text) = true

instance (m : Members) : Decidable (comparing.compares m) := inferInstanceAs (Decidable (_ ∧ _))

/-- The base64 of the cursor spells an object of the two columns, and these texts. -/
def Spells (cursor : String) (text id : List Nat) : Prop :=
  ∃ members, spelled cursor = some (.obj members) ∧ exactly fields members = true ∧
    lookup members fields.instant = some (.str text) ∧ lookup members fields.id = some (.str id)

/-- The text is that of a time with an offset. -/
def Aware (text : List Nat) : Prop := ∃ t, datetimes.fromisoformat text = some ⟨t, true⟩

/-- The route, and the database under it: it raises where it is handed a member it does not take. -/
def Listing.answer {σ : Type} (l : Listing σ) (s : σ) (limit : PageLimit) (cursor : Option String) :
    Except ServiceError (List l.Item × Option String) := do
  refuse (cursor.any fun c => cursorMaxChars < c.length) tooLong
  let after ← decodeMembers datetimes l.fields cursor
  let _ ← l.rows s
  refuse (after.all (fun m => comparing.compares m) = false) (.internal "internal error")
  let page ← l.page s limit (after.map Members.position)
  .ok (page.items, page.after.map (encodeCursor datetimes l.fields))

end

section
variable {datetimes : Datetimes} {fields : CursorFields} {comparing : Comparing} {cursor : String}

theorem text?_some {v : Value} {text : List Nat} : text? v = some text ↔ v = .str text := by
  cases v <;> simp [text?]

theorem bind_text?_some {v : Option Value} {text : List Nat} : v.bind text? = some text ↔ v = some (.str text) := by
  cases v with
  | none => simp
  | some v => rw [Option.bind_some, text?_some, Option.some.injEq]

/-- The members read are the ones spelled. -/
theorem valueMembers_some {v : Value} {m : Members} : valueMembers datetimes fields v = some m ↔
    ∃ members, v = .obj members ∧ exactly fields members = true ∧ lookup members fields.instant = some (.str m.text) ∧
      lookup members fields.id = some (.str m.id) ∧ datetimes.fromisoformat m.text = some ⟨m.instant, true⟩ := by
  constructor
  · intro h
    cases v with
    | obj members =>
      unfold valueMembers at h
      dsimp only at h
      split at h
      · next hexactly =>
        unfold membersOf at h
        simp only [Option.bind_eq_bind, Option.bind_eq_some_iff] at h
        obtain ⟨text, htext, id, hid, read, hread, h⟩ := h
        split at h
        · next haware =>
          cases h
          refine ⟨members, rfl, hexactly, bind_text?_some.1 (Option.bind_eq_some_iff.2 htext),
            bind_text?_some.1 (Option.bind_eq_some_iff.2 hid), ?_⟩
          rw [hread, ← haware]
        · cases h
      · cases h
    | _ => cases h
  · rintro ⟨members, rfl, hexactly, htext, hid, hread⟩
    unfold valueMembers
    dsimp only
    rw [if_pos hexactly]
    unfold membersOf
    simp only [htext, hid, Option.bind_eq_bind, Option.bind_some, text?, hread, if_true]

theorem decodeMembers_some {m : Members} (hne : cursor ≠ "") : decodeMembers datetimes fields (some cursor) = .ok (some m) ↔
    Spells fields cursor m.text m.id ∧ datetimes.fromisoformat m.text = some ⟨m.instant, true⟩ := by
  have hread : decodeMembers datetimes fields (some cursor) = .ok (some m) ↔
      (spelled cursor).bind (valueMembers datetimes fields) = some m := by
    unfold decodeMembers
    dsimp only
    rw [if_neg hne]
    cases (spelled cursor).bind (valueMembers datetimes fields) with
    | none => simp
    | some m' => simp
  rw [hread, Option.bind_eq_some_iff]
  unfold Spells
  constructor
  · rintro ⟨v, hv, hm⟩
    obtain ⟨members, rfl, hexactly, htext, hid, hiso⟩ := valueMembers_some.1 hm
    exact ⟨⟨members, hv, hexactly, htext, hid⟩, hiso⟩
  · rintro ⟨⟨members, hv, hexactly, htext, hid⟩, hiso⟩
    exact ⟨_, hv, valueMembers_some.2 ⟨members, rfl, hexactly, htext, hid, hiso⟩⟩

/-- What a position's cursor spells. -/
theorem spells_encodeCursor {p : Position} (h : ∀ n ∈ p.id, Scalar n) :
    Spells fields (encodeCursor datetimes fields p) (points (datetimes.isoformat p.instant)) p.id := by
  refine ⟨_, ?_, exactly_members _ _, lookup_instant _ _, lookup_id _ _⟩
  have hloads := loads_cursorText datetimes fields h
  unfold spelled encodeCursor
  generalize cursorText datetimes fields p = raw at hloads ⊢
  rw [String.toList_ofList, Base64.repad_unpadded, Base64.decode_encode]
  simp only [Option.bind_eq_bind, Option.bind_some]
  rw [fromUTF8?_toUTF8, Option.bind_some, hloads]

/-- A cursor is refused, is empty, or names members. -/
theorem decodeMembers_cases (datetimes : Datetimes) (fields : CursorFields) (cursor : String) :
    decodeMembers datetimes fields (some cursor) = .error notOurs ∨
      (cursor = "" ∧ decodeMembers datetimes fields (some cursor) = .ok none) ∨
      (cursor ≠ "" ∧ ∃ m, decodeMembers datetimes fields (some cursor) = .ok (some m)) := by
  unfold decodeMembers
  dsimp only
  by_cases hempty : cursor = ""
  · rw [if_pos hempty]
    exact .inr (.inl ⟨hempty, rfl⟩)
  · rw [if_neg hempty]
    cases (spelled cursor).bind (valueMembers datetimes fields) with
    | none => exact .inl rfl
    | some m => exact .inr (.inr ⟨hempty, m, rfl⟩)

theorem valuePosition_eq (v : Value) :
    valuePosition datetimes fields v = (valueMembers datetimes fields v).map Members.position := by
  cases v with
  | obj members =>
    unfold valuePosition valueMembers
    dsimp only
    split
    · unfold positionOf membersOf
      cases (lookup members fields.instant).bind text? with
      | none => rfl
      | some text =>
        cases (lookup members fields.id).bind text? with
        | none => rfl
        | some id =>
          simp only [Option.bind_eq_bind, Option.bind_some]
          cases datetimes.fromisoformat text with
          | none => rfl
          | some read =>
            rw [Option.bind_some, Option.bind_some]
            split <;> rfl
    · rfl
  | _ => rfl

theorem readCursor_eq (c : String) :
    readCursor datetimes fields c = ((spelled c).bind (valueMembers datetimes fields)).map Members.position := by
  unfold readCursor spelled
  simp only [Option.bind_eq_bind]
  cases Base64.decode (Base64.repad c.toList) with
  | none => rfl
  | some bytes =>
    rw [Option.bind_some, Option.bind_some]
    cases String.fromUTF8? ⟨bytes.toArray⟩ with
    | none => rfl
    | some raw =>
      rw [Option.bind_some, Option.bind_some]
      cases loads raw.toList with
      | none => rfl
      | some v => exact valuePosition_eq v

/-- What is decoded is what `decode_cursor` answers. -/
theorem decodeCursor_members (cursor : Option String) : decodeCursor datetimes fields cursor =
    (decodeMembers datetimes fields cursor).map (Option.map Members.position) := by
  unfold decodeCursor decodeMembers
  cases cursor with
  | none => rfl
  | some c =>
    dsimp only
    split
    · rfl
    · rw [readCursor_eq]
      cases (spelled c).bind (valueMembers datetimes fields) <;> rfl

/-- The members a cursor names are compared, told of what it spells. -/
theorem compares_iff : (∀ m, decodeMembers datetimes fields (some cursor) = .ok (some m) → comparing.compares m) ↔
    ∀ text id, Spells fields cursor text id → Aware datetimes text →
      (∀ n ∈ id, n ≠ 0 ∧ Scalar n) ∧ comparing.takesOffset (comparing.utcoffset text) = true := by
  constructor
  · rintro h text id hspells ⟨t, haware⟩
    have hne : cursor ≠ "" := by
      rintro rfl
      obtain ⟨members, hspelled, -⟩ := hspells
      cases hspelled
    exact h ⟨text, t, id⟩ ((decodeMembers_some hne).2 ⟨hspells, haware⟩)
  · intro h m hm
    have hne : cursor ≠ "" := by
      rintro rfl
      cases hm
    obtain ⟨hspells, haware⟩ := (decodeMembers_some hne).1 hm
    exact h m.text m.id hspells ⟨m.instant, haware⟩

/-! ## The route -/

section
variable {σ : Type} {l : Listing σ}

/-- Where the database takes what it is handed, the route answers the page. -/
theorem answer_eq_request (s : σ) (limit : PageLimit)
    (h : ∀ m, decodeMembers datetimes l.fields (some cursor) = .ok (some m) → comparing.compares m) :
    l.answer datetimes comparing s limit (some cursor) = l.request datetimes s limit (some cursor) := by
  unfold Listing.answer Listing.request
  rw [decodeCursor_members]
  cases refuse ((some cursor).any fun c => cursorMaxChars < c.length) Listing.tooLong with
  | error e => rfl
  | ok u =>
    rw [ok_bind, ok_bind]
    cases hafter : decodeMembers datetimes l.fields (some cursor) with
    | error e => rfl
    | ok after =>
      have htaken : ¬ after.all (fun m => comparing.compares m) = false := by
        cases after with
        | none => simp
        | some m => simpa using h m hafter
      have hmap : (Except.ok after : Except ServiceError _).map (Option.map Members.position) =
          .ok (after.map Members.position) := rfl
      rw [hmap, ok_bind, ok_bind, refuse_of_not _ htaken]
      unfold Listing.page
      cases l.rows s with
      | error e => rfl
      | ok rows => rfl

/-- Where it does not, the route of a listing that is there fails. -/
theorem answer_internal {s : σ} {rows : List l.Row} {m : Members} (limit : PageLimit) (hlen : cursor.length ≤ cursorMaxChars)
    (hrows : l.rows s = .ok rows) (hm : decodeMembers datetimes l.fields (some cursor) = .ok (some m))
    (h : ¬ comparing.compares m) :
    l.answer datetimes comparing s limit (some cursor) = .error (.internal "internal error") := by
  unfold Listing.answer
  rw [refuse_of_not _ (by simpa using hlen), ok_bind, hm, ok_bind, hrows, ok_bind,
    refuse_of _ (by simpa using h), error_bind]

/-- A request is refused as one that cannot be processed, or because what it lists is not there. -/
theorem request_error {s : σ} {limit : PageLimit} {c : Option String} {e : ServiceError}
    (h : l.request datetimes s limit c = .error e) : e.code = .VALIDATION ∨ e.code = .NOT_FOUND := by
  unfold Listing.request at h
  by_cases hlong : (c.any fun c => cursorMaxChars < c.length) = true
  · rw [refuse_of _ hlong, error_bind] at h
    cases h
    exact .inl rfl
  · rw [refuse_of_not _ hlong, ok_bind] at h
    cases hdecode : decodeCursor datetimes l.fields c with
    | error e' =>
      rw [hdecode, error_bind] at h
      cases h
      refine .inl ?_
      unfold decodeCursor at hdecode
      split at hdecode
      · cases hdecode
      · split at hdecode
        · cases hdecode
        · split at hdecode <;> cases hdecode
          rfl
    | ok after =>
      rw [hdecode, ok_bind] at h
      cases hrows : l.rows s with
      | error e' =>
        rw [Listing.page_error hrows, error_bind] at h
        cases h
        exact .inr (l.absent hrows)
      | ok rows =>
        obtain ⟨page, hpage, -⟩ := Listing.page_ok limit after hrows
        rw [hpage] at h
        cases h

/-- Where every member named is compared, the route fails of no cursor. -/
theorem answer_error {s : σ} {limit : PageLimit} {e : ServiceError}
    (h : cursor.length ≤ cursorMaxChars → ∀ m, decodeMembers datetimes l.fields (some cursor) = .ok (some m) → comparing.compares m)
    (he : l.answer datetimes comparing s limit (some cursor) = .error e) : e.code = .VALIDATION ∨ e.code = .NOT_FOUND := by
  by_cases hlen : cursor.length ≤ cursorMaxChars
  · rw [answer_eq_request s limit (h hlen)] at he
    exact request_error he
  · unfold Listing.answer at he
    rw [refuse_of _ (by simpa using hlen), error_bind] at he
    cases he
    exact .inl rfl

end

/-- A cursor that is sent is refused, or names members the database compares, and the listing never fails of it, exactly when
the id it spells has neither a NUL nor a lone surrogate and the offset of the time it spells is one the database takes. -/
theorem forged_cursor_iff (datetimes : Datetimes) (comparing : Comparing) (collation : Collation) (tenantId : String)
    (endpoint : Endpoint) (cursor : String) :
    ((cursor.length ≤ cursorMaxChars →
        decodeMembers datetimes (endpoint.listing collation tenantId).fields (some cursor) = .error notOurs ∨
          (cursor = "" ∧ decodeMembers datetimes (endpoint.listing collation tenantId).fields (some cursor) = .ok none) ∨
          ∃ m, decodeMembers datetimes (endpoint.listing collation tenantId).fields (some cursor) = .ok (some m) ∧
            comparing.compares m) ∧
      ∀ s limit e, (endpoint.listing collation tenantId).answer datetimes comparing s limit (some cursor) = .error e →
        e.code = .VALIDATION ∨ e.code = .NOT_FOUND) ↔
      (cursor.length ≤ cursorMaxChars → ∀ text id, Spells (endpoint.listing collation tenantId).fields cursor text id →
        Aware datetimes text → (∀ n ∈ id, n ≠ 0 ∧ Scalar n) ∧ comparing.takesOffset (comparing.utcoffset text) = true) := by
  generalize endpoint.listing collation tenantId = l
  rw [← compares_iff]
  constructor
  · rintro ⟨h, -⟩ hlen m hm
    rcases h hlen with hrefused | ⟨-, hempty⟩ | ⟨m', hm', hcompares⟩
    · rw [hm] at hrefused
      cases hrefused
    · rw [hm] at hempty
      cases hempty
    · rw [hm] at hm'
      cases hm'
      exact hcompares
  · intro h
    refine ⟨fun hlen => ?_, fun s limit e he => answer_error h he⟩
    rcases decodeMembers_cases datetimes l.fields cursor with hrefused | hempty | ⟨-, m, hm⟩
    · exact .inl hrefused
    · exact .inr (.inl hempty)
    · exact .inr (.inr ⟨m, hm, h hlen m hm⟩)

end

/-- PostgreSQL's rule: whole seconds, and less than sixteen hours. -/
def utcComparing : Comparing := ⟨fun _ => 0, fun micros => micros % 1000000 = 0 ∧ -57600000000 < micros ∧ micros < 57600000000⟩

/-- The cursor of the id of one NUL fails a listing of no runs. -/
theorem nul_cursor_fails : (RunStore.list plainCollation "t" everyRun).answer secondDatetimes utcComparing
    ⟨⟨Database.empty, Table.empty, Table.empty⟩, Table.empty⟩ ⟨1, by decide⟩
    (some "eyJjcmVhdGVkX2F0IjoiMTk3MC0wMS0wMVQwMDowMDowMSswMDowMCIsInJ1bl9pZCI6Ilx1MDAwMCJ9") =
      .error (.internal "internal error") := by
  have hcursor : "eyJjcmVhdGVkX2F0IjoiMTk3MC0wMS0wMVQwMDowMDowMSswMDowMCIsInJ1bl9pZCI6Ilx1MDAwMCJ9" =
      encodeCursor secondDatetimes (RunStore.list plainCollation "t" everyRun).fields ⟨1, [0]⟩ := by
    decide +kernel
  have hread : decodeMembers secondDatetimes (RunStore.list plainCollation "t" everyRun).fields
      (some (encodeCursor secondDatetimes (RunStore.list plainCollation "t" everyRun).fields ⟨1, [0]⟩)) =
        .ok (some ⟨points (secondDatetimes.isoformat 1), 1, [0]⟩) := by
    refine (decodeMembers_some (encodeCursor_ne _)).2 ⟨spells_encodeCursor ?_, secondDatetimes.fromisoformat_isoformat 1⟩
    intro n hn
    rw [List.mem_singleton.1 hn]
    exact .inl (by decide)
  have hlen : (encodeCursor secondDatetimes (RunStore.list plainCollation "t" everyRun).fields ⟨1, [0]⟩).length ≤ cursorMaxChars := by
    rw [← hcursor]
    decide +kernel
  rw [hcursor]
  refine answer_internal _ hlen rfl hread fun h => ?_
  exact (h.1 0 List.mem_cons_self).1 rfl

end AgentRuns
