import AgentRuns.Operations
import AgentRuns.Spelled
import AgentRuns.Traversal

/-!
# Forms that can be answered

A pause is accepted when `schema_problem` finds its `expects` a JSON Schema; `answer_problem` then validates each
answer against it.  The check looks at the schema alone and resolves no reference; validating walks the schema and
the value together (`Validator`, what is asked of jsonschema), resolves each `$ref` it comes to, and raises where one
is dangling or the interpreter's stack is used up.

    answerProblem returns  ↔  it validates nothing, or no way through schema and value is `Trapped`
                                                                                  (answer_returns_iff)

A `$ref` that comes back to itself on the same value traps every answer (`circle_trapped`); where what is come to
goes down a rank of less than the stack and nothing dangles, none is trapped (`ranked_not_trapped`).
-/

namespace AgentRuns

open Traversal Fallible

/-! ## What validating does -/

/-- The `$ref` of a schema. -/
def refOf : Json → Option String
  | .obj members =>
    match members.find? (·.1 = "$ref") with
    | some (_, .str ref) => some ref
    | _ => none
  | _ => none

/-- jsonschema, place by place.  A place is a subschema, in the document it is read in, with the value or a part of it:
`start` is the schema's own with the whole value, `resolve` leads to what a `$ref` refers to there, and `applies` to
the subschemas of the other keywords; `fails` is what one of these raises by itself, and `depth` is what is left of
the interpreter's stack. -/
structure Validator (Place : Type) where
  start : Json → Json → Place
  schema : Place → Json
  resolve : Place → String → Option Place
  applies : Place → List Place
  fails : Place → Option String
  depth : Nat

namespace Validator
variable {Place : Type} (js : Validator Place)

/-- What the place's `$ref` refers to. -/
def referred (p : Place) : Option Place := (refOf (js.schema p)).bind (js.resolve p)

/-- Its `$ref` refers to nothing. -/
def dangling (p : Place) : Bool := (refOf (js.schema p)).isSome && (js.referred p).isNone

/-- Where validating goes on from a place. -/
def visits (p : Place) : List Place := (js.referred p).toList ++ js.applies p

/-- What it raises at one. -/
def stuck (p : Place) : Option String := if js.dangling p then some "Unresolvable" else js.fails p

/-- `iter_errors` of the value comes to its end. -/
def validate (root value : Json) : Except String Unit :=
  walk js.visits js.stuck "RecursionError" js.depth (js.start root value)

/-- `best_match` of the errors returns when they come to their end. -/
structure Validates (lib : Libraries) : Prop where
  returns : ∀ root value, (∃ best, lib.bestMatch root value = .ok best) ↔ js.validate root value = .ok ()

/-- Validating the value comes to a dangling `$ref`, to a keyword that raises, or as deep as the stack. -/
def Trapped (root value : Json) : Prop :=
  ∃ k p, Steps js.visits k (js.start root value) p ∧ (js.dangling p = true ∨ js.fails p ≠ none ∨ js.depth ≤ k)

variable {js} {lib : Libraries} {root value : Json}

theorem stuck_none {p : Place} : js.stuck p = none ↔ js.dangling p = false ∧ js.fails p = none := by
  unfold stuck
  cases js.dangling p <;> simp

theorem validate_ok : js.validate root value = .ok () ↔ ¬ js.Trapped root value := by
  unfold validate Trapped
  rw [walk_ok]
  constructor
  · rintro h ⟨k, p, hsteps, htrap⟩
    obtain ⟨hlt, hstuck⟩ := h k p hsteps
    obtain ⟨hd, hf⟩ := stuck_none.1 hstuck
    rcases htrap with hdangling | hfails | hdeep
    · rw [hd] at hdangling
      cases hdangling
    · exact hfails hf
    · omega
  · intro h k p hsteps
    have hfree : ¬ (js.dangling p = true ∨ js.fails p ≠ none ∨ js.depth ≤ k) := fun htrap => h ⟨k, p, hsteps, htrap⟩
    simp only [not_or, not_not, Bool.not_eq_true, Nat.not_le] at hfree
    exact ⟨hfree.2.2, stuck_none.2 ⟨hfree.1, hfree.2.1⟩⟩

/-- A reference that leads back to where it is, on the same value, traps. -/
theorem circle_trapped {k : Nat} (h : Steps js.visits (k + 1) (js.start root value) (js.start root value)) :
    js.Trapped root value := by
  obtain ⟨m, hle, hm⟩ := h.again js.depth
  exact ⟨m, _, hm, .inr (.inr hle)⟩

/-- Where the places that are come to go down a rank of less than the stack, and none of them raises, nothing traps. -/
theorem ranked_not_trapped {within : Place → Prop} {rank : Place → Nat} (hstart : within (js.start root value))
    (hdown : ∀ p, within p → ∀ q ∈ js.visits p, within q ∧ rank q < rank p)
    (hfree : ∀ p, within p → js.dangling p = false ∧ js.fails p = none) (hdepth : rank (js.start root value) < js.depth) :
    ¬ js.Trapped root value := by
  rintro ⟨k, p, hsteps, htrap⟩
  obtain ⟨hp, hlong⟩ := hsteps.ranked hdown hstart
  rcases htrap with hdangling | hfails | hdeep
  · rw [(hfree p hp).1] at hdangling
    cases hdangling
  · exact hfails (hfree p hp).2
  · omega

end Validator

/-- The value a resolution offers in answer to the question: an answer's, or the corrected one of an edit. -/
def offered (interrupt : Interrupt) (resolution : InterruptResolution) : Option Json :=
  if resolution.decision = .ANSWER then some resolution.answer
  else if resolution.decision = .EDIT ∧ interrupt.toolCall.isNone then some resolution.payload
  else none

/-! ## Answering -/

section
variable {lib : Libraries} {interrupt : Interrupt} {resolution : InterruptResolution} {root value : Json}

/-- Checking a value raises only where validating it does. -/
theorem fitProblem_returns (haccepted : schemaProblem lib interrupt.expects = none) (choosing : Bool) :
    (∃ problem, fitProblem lib interrupt value choosing = .ok problem) ↔
      ∀ root, interrupt.expects = some root → ∃ best, lib.bestMatch root value = .ok best := by
  unfold fitProblem
  cases hx : interrupt.expects with
  | none => simp
  | some root =>
    rw [hx] at haccepted
    simp only [haccepted, Option.some.injEq, forall_eq']
    rcases lib.bestMatch root value with raised | _ | ⟨path, message⟩ <;> simp

theorem answerProblem_offering (hresolves : lib.resolves resolution interrupt = true)
    (h : offered interrupt resolution = some value) :
    ∃ choosing, answerProblem lib interrupt resolution = fitProblem lib interrupt value choosing := by
  unfold offered at h
  unfold answerProblem
  rw [hresolves, Bool.not_true, if_neg (by decide)]
  by_cases ha : resolution.decision = .ANSWER
  · rw [if_pos ha, Option.some.injEq] at h
    rw [if_pos ha, h]
    exact ⟨_, rfl⟩
  · rw [if_neg ha] at h
    by_cases he : resolution.decision = .EDIT ∧ interrupt.toolCall.isNone
    · rw [if_pos he, Option.some.injEq] at h
      rw [if_neg ha, if_pos he, h]
      exact ⟨_, rfl⟩
    · rw [if_neg he] at h
      cases h

theorem answerProblem_offering_none (h : offered interrupt resolution = none) :
    ∃ problem, answerProblem lib interrupt resolution = .ok problem := by
  unfold offered at h
  unfold answerProblem
  by_cases ha : resolution.decision = .ANSWER
  · rw [if_pos ha] at h
    cases h
  · rw [if_neg ha] at h
    by_cases he : resolution.decision = .EDIT ∧ interrupt.toolCall.isNone
    · rw [if_pos he] at h
      cases h
    · rw [if_neg ha, if_neg he]
      split_ifs <;> exact ⟨_, rfl⟩

/-- **Forms.**  Of an accepted question, an answer is judged without raising exactly where it offers no value to a
schema, or one whose validation is not trapped. -/
theorem answer_returns_iff {Place : Type} {js : Validator Place} (hjs : js.Validates lib)
    (haccepted : schemaProblem lib interrupt.expects = none) :
    (∃ problem, answerProblem lib interrupt resolution = .ok problem) ↔
      ∀ root value, interrupt.expects = some root → lib.resolves resolution interrupt = true →
        offered interrupt resolution = some value → ¬ js.Trapped root value := by
  by_cases hresolves : lib.resolves resolution interrupt = true
  · cases ho : offered interrupt resolution with
    | none => exact iff_of_true (answerProblem_offering_none ho) fun _ _ _ _ hv => by cases hv
    | some value =>
      obtain ⟨choosing, he⟩ := answerProblem_offering hresolves ho
      rw [he, fitProblem_returns haccepted choosing]
      constructor
      · rintro h root _ hx - ⟨⟩
        exact Validator.validate_ok.1 ((hjs.returns root value).1 (h root hx))
      · intro h root hx
        exact (hjs.returns root value).2 (Validator.validate_ok.2 (h root value hx hresolves rfl))
  · refine iff_of_true ?_ fun _ _ _ hr => absurd hr hresolves
    rw [Bool.not_eq_true] at hresolves
    unfold answerProblem
    rw [hresolves]
    exact ⟨_, rfl⟩

end

/-! ## Schemas that are a reference -/

/-- A JSON pointer: the member it comes to, name by name. -/
def pointer : List String → Json → Option Json
  | [], json => some json
  | name :: names, .obj members => (members.find? (·.1 = name)).bind fun member => pointer names member.2
  | _ :: _, _ => none

/-- The names of a `$ref` into its own document. -/
def refNames (ref : String) : Option (List String) :=
  match ref.toList with
  | ['#'] => some []
  | '#' :: '/' :: names => some ((names.splitOn '/').map String.ofList)
  | _ => none

/-- jsonschema on documents of `$ref`s and definitions, which else ask nothing of a value. -/
def refValidator : Validator (Json × Json × Json) where
  start root value := (root, root, value)
  schema p := p.2.1
  resolve p ref := (refNames ref).bind fun names => (pointer names p.1).map fun schema => (p.1, schema, p.2.2)
  applies _ := []
  fails _ := none
  depth := 1000

def refLibraries : Libraries :=
  { spelledLibraries with bestMatch := fun root value => (refValidator.validate root value).map fun _ => none }

theorem refValidates : refValidator.Validates refLibraries where
  returns root value := by
    show (∃ best, (refValidator.validate root value).map _ = .ok best) ↔ _
    cases refValidator.validate root value <;> simp [Except.map]

/-- `{"$ref": "#"}`. -/
def selfRef : Json := .obj [("$ref", .str "#")]

/-- It traps every value. -/
theorem selfRef_trapped (value : Json) : refValidator.Trapped selfRef value :=
  Validator.circle_trapped (k := 0) (.step List.mem_cons_self (.refl _))

/-- A question whose answer must fit `expects`. -/
def asking (expects : Json) : Interrupt := { smallInterrupt with expects := some expects }

/-- `{"$ref": "#/$defs/any", "$defs": {"any": {}}}`. -/
def anyRef : Json := .obj [("$ref", .str "#/$defs/any"), ("$defs", .obj [("any", .obj [])])]

theorem answer_returns_anything : ∃ problem, answerProblem refLibraries (asking anyRef) smallResolution = .ok problem := by
  refine (answer_returns_iff refValidates rfl).2 ?_
  rintro _ value ⟨⟩ - -
  exact Validator.validate_ok.1 rfl

/-- The store that validates so. -/
def refStore : RunStore := ⟨refLibraries, none, 1, none⟩

/-- The run of a caller's process. -/
def refBegun : Database := apply refStore Database.empty 0 (.start smallStart false true)

/-- Its pause on a question that expects what `#/nowhere` says is accepted, and every answer to it is a server
error. -/
theorem dangling_question_stuck : ∃ db run,
    refStore.pause refBegun "t" "r" ⟨asking (.obj [("$ref", .str "#/nowhere")]), none⟩ none 1 = .ok (db, run, true) ∧
      ∀ answer, ∃ e, refStore.resume db "t" "r" { smallResolution with answer := answer } smallKey 2 = .error e ∧
        e.code = .INTERNAL :=
  ⟨_, _, rfl, fun _ => ⟨_, rfl, rfl⟩⟩

end AgentRuns
