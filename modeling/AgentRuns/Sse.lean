import AgentRuns.Lines
import AgentRuns.Streams

/-!
# The stream's text

The frames of a followed log as `_sse` writes them, and `Transport.events` of the SDK, which reads the body
line by line.  `data` is one line of JSON to the server: pydantic escapes the control characters, and leaves
every other character as it is.  To the SDK a line ends where `str.splitlines` ends one, and that is also at
U+0085, U+2028 and U+2029.

    Transport.events (body w (frames ++ [Frame.ended status]))  =  what was framed
      ↔  no text of an event holds one of the three                         (events_framed_iff)
-/

namespace AgentRuns

open Lines

/-! ## JSON text -/

/-- What `model_dump_json` is given by trellis-contracts and pydantic: the JSON of an event, and how a number
is written, in printable ASCII. -/
structure Writer where
  eventJson : RunEvent → Json
  number : Rat → String → String
  plain : ∀ value text, ∀ c ∈ (number value text).toList, ' ' ≤ c ∧ c ≤ '~'

/-- A line boundary that JSON need not escape. -/
def separator (c : Char) : Bool := ['\x85', '\u2028', '\u2029'].contains c

/-- One character inside a JSON string. -/
def escaped (c : Char) : List Char :=
  if c = '"' then ['\\', '"']
  else if c = '\\' then ['\\', '\\']
  else if c = '\x08' then ['\\', 'b']
  else if c = '\t' then ['\\', 't']
  else if c = '\n' then ['\\', 'n']
  else if c = '\x0c' then ['\\', 'f']
  else if c = '\r' then ['\\', 'r']
  else if c.toNat < 0x20 then ['\\', 'u', '0', '0', Nat.digitChar (c.toNat / 16), Nat.digitChar (c.toNat % 16)]
  else [c]

def quoted (s : String) : List Char := '"' :: s.toList.flatMap escaped ++ ['"']

namespace Writer

mutual

/-- The value as `model_dump_json` writes it. -/
def dump (w : Writer) : Json → List Char
  | .null => "null".toList
  | .bool b => if b then "true".toList else "false".toList
  | .num value text => (w.number value text).toList
  | .str s => quoted s
  | .arr items => '[' :: w.dumpItems items ++ [']']
  | .obj members => '{' :: w.dumpMembers members ++ ['}']

def dumpItems (w : Writer) : List Json → List Char
  | [] => []
  | [x] => w.dump x
  | x :: xs => w.dump x ++ ',' :: w.dumpItems xs

def dumpMembers (w : Writer) : List (String × Json) → List Char
  | [] => []
  | [(k, x)] => quoted k ++ ':' :: w.dump x
  | (k, x) :: ms => quoted k ++ ':' :: w.dump x ++ ',' :: w.dumpMembers ms

end

/-- `RunEventEntry.model_dump_json`. -/
def entryJson (w : Writer) (entry : RunEventEntry) : String :=
  "\x7b\"position\":" ++ toString entry.position ++ ",\"event\":" ++ String.ofList (w.dump (w.eventJson entry.event)) ++ "\x7d"

end Writer

namespace Json

mutual

/-- Does a text of the value, or a name in it, hold a separator? -/
def separated : Json → Bool
  | null | bool _ | num _ _ => false
  | str s => s.toList.any separator
  | arr items => itemsSeparated items
  | obj members => membersSeparated members

def itemsSeparated : List Json → Bool
  | [] => false
  | x :: xs => separated x || itemsSeparated xs

def membersSeparated : List (String × Json) → Bool
  | [] => false
  | (k, x) :: ms => k.toList.any separator || separated x || membersSeparated ms

end

end Json

/-! ## What is a boundary once it is written -/

theorem boundary_digits :
    ∀ n < 0x20, boundary (Nat.digitChar (n / 16)) = false ∧ boundary (Nat.digitChar (n % 16)) = false := by
  decide +kernel

/-- Behind the control characters the two notions agree. -/
theorem boundary_eq_separator {c : Char} (h : 0x20 ≤ c.toNat) : boundary c = separator c := by
  have hne : ∀ d : Char, d.toNat < 0x20 → (c == d) = false := by
    intro d hd
    rw [beq_eq_false_iff_ne]
    rintro rfl
    omega
  simp only [boundary, separator, List.contains_cons]
  rw [hne '\n' (by decide), hne '\r' (by decide), hne '\x0b' (by decide), hne '\x0c' (by decide),
    hne '\x1c' (by decide), hne '\x1d' (by decide), hne '\x1e' (by decide)]
  simp only [Bool.false_or]

theorem separator_control {c : Char} (h : c.toNat < 0x20) : separator c = false := by
  rw [Bool.eq_false_iff]
  intro hs
  simp only [separator, List.contains_cons, List.contains_nil, Bool.or_false, Bool.or_eq_true, beq_iff_eq] at hs
  rcases hs with rfl | rfl | rfl <;> exact absurd h (by decide)

theorem boundary_plain {c : Char} (h : ' ' ≤ c ∧ c ≤ '~') : boundary c = false := by
  have hlo : 0x20 ≤ c.toNat := h.1
  have hhi : c.toNat ≤ 0x7e := h.2
  rw [boundary_eq_separator hlo, Bool.eq_false_iff]
  intro hs
  simp only [separator, List.contains_cons, List.contains_nil, Bool.or_false, Bool.or_eq_true, beq_iff_eq] at hs
  rcases hs with rfl | rfl | rfl <;> exact absurd hhi (by decide)

/-- Only a separator is still a boundary once it is written. -/
theorem any_boundary_escaped (c : Char) : (escaped c).any boundary = separator c := by
  unfold escaped
  split_ifs with h₁ h₂ h₃ h₄ h₅ h₆ h₇ hctl
  all_goals try (subst c; decide)
  · obtain ⟨hd, hm⟩ := boundary_digits c.toNat hctl
    rw [separator_control hctl]
    simp only [List.any_cons, List.any_nil, hd, hm]
    decide
  · rw [List.any_cons, List.any_nil, Bool.or_false]
    exact boundary_eq_separator (Nat.le_of_not_lt hctl)

theorem any_boundary_quoted (s : String) : (quoted s).any boundary = s.toList.any separator := by
  have hquote : boundary '"' = false := by decide
  unfold quoted
  simp only [List.any_cons, List.cons_append, List.any_append, List.any_nil, hquote, Bool.false_or, Bool.or_false]
  rw [List.any_flatMap]
  simp only [any_boundary_escaped]

namespace Writer

theorem any_boundary_number (w : Writer) (value : Rat) (text : String) :
    (w.number value text).toList.any boundary = false := by
  rw [List.any_eq_false]
  intro c hc
  rw [boundary_plain (w.plain value text c hc)]
  decide

mutual

/-- A value is written on one line unless a text in it holds a separator. -/
theorem any_boundary_dump (w : Writer) : ∀ j : Json, (w.dump j).any boundary = j.separated
  | .null => by rw [dump, Json.separated]; decide
  | .bool b => by cases b <;> (rw [dump, Json.separated]; decide)
  | .num value text => by rw [dump, Json.separated]; exact w.any_boundary_number value text
  | .str s => by rw [dump, Json.separated]; exact any_boundary_quoted s
  | .arr items => by
    have hopen : boundary '[' = false := by decide
    have hclose : boundary ']' = false := by decide
    simp [dump, Json.separated, w.any_boundary_items items, hopen, hclose]
  | .obj members => by
    have hopen : boundary '{' = false := by decide
    have hclose : boundary '}' = false := by decide
    simp [dump, Json.separated, w.any_boundary_members members, hopen, hclose]

theorem any_boundary_items (w : Writer) : ∀ xs : List Json, (w.dumpItems xs).any boundary = Json.itemsSeparated xs
  | [] => rfl
  | [x] => by simp [dumpItems, Json.itemsSeparated, w.any_boundary_dump x]
  | x :: y :: xs => by
    have hcomma : boundary ',' = false := by decide
    rw [dumpItems, Json.itemsSeparated, List.any_append, List.any_cons, w.any_boundary_dump x,
      w.any_boundary_items (y :: xs), hcomma, Bool.false_or]
    simp

theorem any_boundary_members (w : Writer) :
    ∀ ms : List (String × Json), (w.dumpMembers ms).any boundary = Json.membersSeparated ms
  | [] => rfl
  | [(k, x)] => by
    have hcolon : boundary ':' = false := by decide
    simp [dumpMembers, Json.membersSeparated, any_boundary_quoted, w.any_boundary_dump x, hcolon]
  | (k, x) :: m :: ms => by
    have hcolon : boundary ':' = false := by decide
    have hcomma : boundary ',' = false := by decide
    rw [dumpMembers, Json.membersSeparated, List.any_append, List.any_append, List.any_cons, List.any_cons,
      any_boundary_quoted, w.any_boundary_dump x, w.any_boundary_members (m :: ms), hcolon, hcomma]
    · simp
    · simp

end

end Writer

/-! ## The server's frames -/

/-- `_sse`: one server-sent event. -/
def sse (event data : String) (position : Option Nat) : String :=
  let head := match position with
    | none => ""
    | some position => "id: " ++ toString position ++ "\n"
  head ++ "event: " ++ event ++ "\ndata: " ++ data ++ "\n\n"

/-- `json.dumps({"status": …})`. -/
def endJson (status : RunStatus) : String := "\x7b\"status\": \"" ++ status.value ++ "\"\x7d"

namespace Frame

/-- What `_follow` yields for the frame. -/
def text (w : Writer) : Frame → String
  | event entry => sse entry.event.type.value (w.entryJson entry) (some entry.position)
  | ended status => sse "end" (endJson status) none
  | keepalive => ": keepalive\n\n"

/-- The event the frame carries. -/
def framed (w : Writer) : Frame → Option (String × String)
  | event entry => some (entry.event.type.value, w.entryJson entry)
  | ended status => some ("end", endJson status)
  | keepalive => none

end Frame

/-- The stream's body. -/
def body (w : Writer) (frames : List Frame) : String := String.join (frames.map (Frame.text w))

/-- The events framed in it. -/
def framed (w : Writer) (frames : List Frame) : List (String × String) := frames.filterMap (Frame.framed w)

/-! ## The SDK's reader -/

namespace Transport

/-- The event being read. -/
structure Message where
  name : List Char
  data : List Char

def Message.empty : Message := ⟨"message".toList, []⟩

/-- The events `Transport.events` yields, line by line. -/
def yielded : Message → List (List Char) → List (String × String)
  | _, [] => []
  | message, line :: lines =>
    if "event: ".toList.isPrefixOf line then yielded { message with name := line.drop "event: ".length } lines
    else if "data: ".toList.isPrefixOf line then yielded { message with data := line.drop "data: ".length } lines
    else if line = [] ∧ message.data ≠ [] then
      (String.ofList message.name, String.ofList message.data) :: yielded .empty lines
    else yielded message lines

/-- `Transport.events` over a whole body. -/
def events (body : String) : List (String × String) := yielded .empty (splitlines body.toList)

section
variable (message : Message) (lines : List (List Char))

theorem yielded_event (name : List Char) :
    yielded message (("event: ".toList ++ name) :: lines) = yielded { message with name := name } lines := rfl

theorem yielded_data (data : List Char) :
    yielded message (("data: ".toList ++ data) :: lines) = yielded { message with data := data } lines := rfl

theorem yielded_id (position : List Char) :
    yielded message (("id: ".toList ++ position) :: lines) = yielded message lines := rfl

theorem yielded_comment : yielded message (": keepalive".toList :: lines) = yielded message lines := rfl

theorem yielded_blank (h : message.data ≠ []) :
    yielded message ([] :: lines) = (String.ofList message.name, String.ofList message.data) :: yielded .empty lines := by
  rw [yielded, if_neg, if_neg, if_pos ⟨rfl, h⟩] <;> decide

theorem yielded_blank_empty : yielded .empty ([] :: lines) = yielded .empty lines := rfl

end

/-- What is yielded was read between two line ends. -/
theorem mem_yielded {lines : List (List Char)} : ∀ {message : Message} {name data : String},
    (name, data) ∈ yielded message lines → (∀ c ∈ message.data, boundary c = false) →
    (∀ l ∈ lines, ∀ c ∈ l, boundary c = false) → ∀ c ∈ data.toList, boundary c = false := by
  induction lines with
  | nil => intro message name data h; cases h
  | cons line lines ih =>
    intro message name data h hm hl
    have hrest : ∀ l ∈ lines, ∀ c ∈ l, boundary c = false := fun l h => hl l (List.mem_cons_of_mem _ h)
    have hline : ∀ n, ∀ c ∈ line.drop n, boundary c = false :=
      fun n c hc => hl line List.mem_cons_self c (List.mem_of_mem_drop hc)
    unfold yielded at h
    split_ifs at h
    · exact ih h hm hrest
    · exact ih h (hline _) hrest
    · rcases List.mem_cons.1 h with he | h
      · cases he
        rw [String.toList_ofList]
        exact hm
      · exact ih h (by rintro _ ⟨⟩) hrest
    · exact ih h hm hrest

end Transport

/-! ## The two together -/

namespace Frame

/-- The lines the frame is written as. -/
def lines (w : Writer) : Frame → List (List Char)
  | event entry =>
    ["id: ".toList ++ (toString entry.position).toList, "event: ".toList ++ entry.event.type.value.toList,
      "data: ".toList ++ (w.entryJson entry).toList, []]
  | ended status => ["event: ".toList ++ "end".toList, "data: ".toList ++ (endJson status).toList, []]
  | keepalive => [": keepalive".toList, []]

theorem toList_text (w : Writer) (frame : Frame) : (frame.text w).toList = terminated (frame.lines w) := by
  cases frame with
  | event entry => simp [text, sse, lines, terminated]
  | ended status => simp [text, sse, lines, terminated]
  | keepalive => simp [text, lines, terminated]

theorem any_boundary_position (position : Nat) : (toString position).toList.any boundary = false := by
  rw [List.any_eq_false]
  intro c hc
  have hdigits : (toString position).toList = Nat.toDigits 10 position := Nat.toList_repr
  rw [hdigits] at hc
  have hdigit := Char.isDigit_iff_toNat.1 (Nat.isDigit_of_mem_toDigits (by decide) (by decide) hc)
  have hlo : 0x20 ≤ c.toNat := Nat.le_trans (by decide) hdigit.1
  have hhi : c.toNat ≤ 0x7e := Nat.le_trans hdigit.2 (by decide)
  rw [boundary_plain ⟨hlo, hhi⟩]
  decide

theorem any_boundary_entryJson (w : Writer) (entry : RunEventEntry) :
    (w.entryJson entry).toList.any boundary = (w.eventJson entry.event).separated := by
  have hhead : "\x7b\"position\":".toList.any boundary = false := by decide
  have hname : ",\"event\":".toList.any boundary = false := by decide
  have htail : "\x7d".toList.any boundary = false := by decide
  unfold Writer.entryJson
  simp only [String.toList_append, String.toList_ofList, List.any_append, any_boundary_position, w.any_boundary_dump,
    hhead, hname, htail, Bool.false_or, Bool.or_false]

theorem any_boundary_endJson (status : RunStatus) : (endJson status).toList.any boundary = false := by
  cases status <;> decide

theorem any_boundary_type (type : RunEventType) : type.value.toList.any boundary = false := by
  cases type <;> decide

/-- A frame whose JSON is one line is written on the lines it is meant to be written on. -/
theorem any_boundary_lines (w : Writer) (frame : Frame)
    (h : ∀ entry, frame = .event entry → (w.eventJson entry.event).separated = false) :
    ∀ l ∈ frame.lines w, l.any boundary = false := by
  have hid : "id: ".toList.any boundary = false := by decide
  have hevent : "event: ".toList.any boundary = false := by decide
  have hdata : "data: ".toList.any boundary = false := by decide
  cases frame with
  | event entry =>
    have hjson := (any_boundary_entryJson w entry).trans (h entry rfl)
    simp only [lines, List.forall_mem_cons, List.any_append, hid, hevent, hdata, any_boundary_position,
      any_boundary_type, hjson, List.any_nil]
    simp
  | ended status =>
    have hend : "end".toList.any boundary = false := by decide
    simp only [lines, List.forall_mem_cons, List.any_append, hevent, hdata, hend, any_boundary_endJson, List.any_nil]
    simp
  | keepalive =>
    have hcomment : ": keepalive".toList.any boundary = false := by decide
    simp only [lines, List.forall_mem_cons, hcomment, List.any_nil]
    simp

open Transport in
/-- The reader takes a frame's lines for the event it carries. -/
theorem yielded_lines (w : Writer) (frame : Frame) (rest : List (List Char)) :
    yielded .empty (frame.lines w ++ rest) = (frame.framed w).toList ++ yielded .empty rest := by
  cases frame with
  | event entry =>
    have hdata : (w.entryJson entry).toList ≠ [] := by
      unfold Writer.entryJson
      rw [String.toList_append]
      exact List.append_ne_nil_of_right_ne_nil _ (by decide)
    simp only [lines, List.cons_append, List.nil_append]
    rw [yielded_id, yielded_event, yielded_data, yielded_blank _ _ hdata]
    simp [framed]
  | ended status =>
    have hdata : (endJson status).toList ≠ [] := by
      unfold endJson
      rw [String.toList_append]
      exact List.append_ne_nil_of_right_ne_nil _ (by decide)
    simp only [lines, List.cons_append, List.nil_append]
    rw [yielded_event, yielded_data, yielded_blank _ _ hdata]
    simp [framed]
  | keepalive =>
    simp only [lines, List.cons_append, List.nil_append]
    rw [yielded_comment, yielded_blank_empty]
    rfl

end Frame

theorem toList_body (w : Writer) (frames : List Frame) :
    (body w frames).toList = terminated (frames.flatMap (Frame.lines w)) := by
  induction frames with
  | nil => rfl
  | cons frame frames ih =>
    rw [List.flatMap_cons, terminated_append, ← ih, ← Frame.toList_text, ← String.toList_append, body, body,
      List.map_cons, String.join_cons]

open Transport in
theorem yielded_frames (w : Writer) (frames : List Frame) :
    yielded .empty (frames.flatMap (Frame.lines w)) = framed w frames := by
  induction frames with
  | nil => rfl
  | cons frame frames ih =>
    rw [List.flatMap_cons, Frame.yielded_lines, ih, framed, framed, List.filterMap_cons]
    cases frame.framed w <;> rfl

/-- **What the SDK reads of a stream.**  Of events and comments in any order behind one another, and the end,
`Transport.events` yields exactly what was framed if and only if no text of an event holds U+0085, U+2028 or
U+2029. -/
theorem events_framed_iff (w : Writer) (frames : List Frame) (status : RunStatus) :
    Transport.events (body w (frames ++ [Frame.ended status])) = framed w (frames ++ [Frame.ended status]) ↔
      ∀ entry, .event entry ∈ frames → (w.eventJson entry.event).separated = false := by
  constructor
  · intro h entry hentry
    -- what is read holds no boundary, so what was framed holds none
    have hread : (entry.event.type.value, w.entryJson entry) ∈
        Transport.events (body w (frames ++ [Frame.ended status])) := by
      rw [h, framed, List.mem_filterMap]
      exact ⟨.event entry, List.mem_append_left _ hentry, rfl⟩
    have hdata := Transport.mem_yielded hread (by rintro _ ⟨⟩) fun l hl c => boundary_of_mem_splitlines hl
    rw [← Frame.any_boundary_entryJson, List.any_eq_false]
    intro c hc
    rw [hdata c hc]
    decide
  · intro h
    have hlines : ∀ l ∈ (frames ++ [Frame.ended status]).flatMap (Frame.lines w), ∀ c ∈ l, boundary c = false := by
      intro l hl c hc
      obtain ⟨frame, hframe, hl⟩ := List.mem_flatMap.1 hl
      have hany := Frame.any_boundary_lines w frame ?_ l hl
      · simpa using List.any_eq_false.1 hany c hc
      · rintro entry rfl
        rcases List.mem_append.1 hframe with hframe | hframe
        · exact h entry hframe
        · cases List.mem_singleton.1 hframe
    unfold Transport.events
    rw [toList_body, splitlines_terminated hlines, yielded_frames]

/-- An event written field by field, its numbers as Python writes them. -/
def smallWriter : Writer where
  eventJson event := .obj [("type", .str event.type.value), ("tenant_id", .str event.tenantId),
    ("run_id", .str event.runId), ("attempt", .num event.attempt (toString event.attempt)),
    ("sequence", .num event.sequence (toString event.sequence)), ("body", event.body)]
  number _ text := if text.toList.all fun c => ' ' ≤ c ∧ c ≤ '~' then text else "0"
  plain _ text c hc := by
    split at hc
    · next h => simpa using List.all_eq_true.1 h c hc
    · obtain rfl : c = '0' := by simpa using hc
      decide

/-- A text of two paragraphs. -/
def paragraphs : RunEvent := ⟨.TEXT_MESSAGE_CONTENT, "t", "r", 1, 0, .str "one\u2029two"⟩

/-- The database keeps the event, and the SDK reads a `data` that is cut off inside it. -/
theorem events_paragraphs_cut :
    RunEventRow.fits ⟨"r", 1, "t", 1, 0, paragraphs⟩ = true ∧
      Transport.events (body smallWriter ([Frame.event ⟨1, paragraphs⟩] ++ [Frame.ended .SUCCESS])) ≠
        framed smallWriter ([Frame.event ⟨1, paragraphs⟩] ++ [Frame.ended .SUCCESS]) := by
  refine ⟨by decide +kernel, ?_⟩
  decide +kernel

end AgentRuns
