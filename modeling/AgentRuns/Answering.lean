import AgentRuns.Requests

/-!
# Who may answer a run, and what answers it

`answering.py`, `KeyInfo.may_act_for` and `trellis.runs.answers`.  A resume checks both under
the run's lock and before anything is written: `requireMayAnswer` against the assignee the run
waits on now, `answerProblem` against the interrupt it waits on.
-/

namespace AgentRuns

open Fallible

/-- The registry's answer for a key: who it is, and whom it may act for. -/
structure KeyInfo where
  principal : String
  role : String
  mayActAs : List String

def KeyInfo.mayActFor (key : KeyInfo) (principal : String) : Bool :=
  principal == key.principal || key.mayActAs.contains "*" || key.mayActAs.contains principal

/-! ## Who -/

def administeringRoles : List String := ["admin", "platform"]
def individualKinds : List String := ["user", "agent", "key"]

/-- `name` as `kind:id`: a bare id is a user's. -/
def asPrincipal (name : String) : String := if ':' ∈ name.toList then name else "user:" ++ name

/-- `assigned.partition(":")[0]`. -/
def kindOf (principal : String) : String := String.ofList (principal.toList.takeWhile (· ≠ ':'))

def requireMayAnswer (key : KeyInfo) (assignee reviewer : Option String) : Except ServiceError Unit :=
  if administeringRoles.contains key.role || key.mayActAs.contains "*" then .ok ()
  else
    let allowed := if key.mayActAs = [] then key.principal else ", ".intercalate key.mayActAs
    let answering := match reviewer with
      | some r => if r = "" then key.principal else asPrincipal r
      | none => key.principal
    if !key.mayActFor answering then
      .error (.forbidden s!"this key may not act for {answering}; it may act only for {allowed}")
    else
      match assignee with
      | none => .ok ()
      | some assignee =>
        let assigned := asPrincipal assignee
        if !individualKinds.contains (kindOf assigned) then
          .error (.forbidden (s!"the run is assigned to {assigned}, a group: a key restricted to listed people " ++
            "cannot answer it; answer with the application's key or an admin key"))
        else if assigned ≠ answering then
          .error (.forbidden (s!"the run is assigned to {assigned}, not {answering}; this key may act only for " ++
            allowed))
        else .ok ()

def requireMayCancel (key : KeyInfo) (assignee : Option String) : Except ServiceError Unit :=
  let asAssignee := match assignee with
    | some a => if a ≠ "" ∧ key.mayActFor (asPrincipal a) then some a else none
    | none => none
  requireMayAnswer key assignee asAssignee

/-- Every key answers, as itself, a run assigned to nobody. -/
theorem requireMayAnswer_nobody (key : KeyInfo) : requireMayAnswer key none none = .ok () := by
  unfold requireMayAnswer
  split
  · rfl
  · simp [KeyInfo.mayActFor]

/-- Every key cancels a run assigned to nobody. -/
theorem requireMayCancel_nobody (key : KeyInfo) : requireMayCancel key none = .ok () :=
  requireMayAnswer_nobody key

/-! ## What -/

/-- Why `expects` is not a JSON Schema. -/
def schemaProblem (lib : Libraries) (expects : Option Json) : Option String :=
  match expects with
  | none => none
  | some expects => (lib.checkSchema expects).map fun message => s!"expects is not a valid JSON Schema: {message}"

/-- `len(set(values)) != len(values)`. -/
def repeats : List Json → Bool
  | [] => false
  | v :: vs => vs.any (Json.pyEq v) || repeats vs

def choiceProblem (lib : Libraries) (interrupt : Interrupt) (value : Json) : Option String :=
  let values := interrupt.optionValues.map Json.str
  let shown := lib.pyRepr (.arr values)
  if !interrupt.multiple then
    if values.any (Json.pyEq value) then none
    else some s!"the answer {lib.pyRepr value} is not one of the options {shown}"
  else
    match value with
    | .arr picked =>
      let strangers := picked.filter fun p => !values.any (Json.pyEq p)
      if strangers ≠ [] then
        some s!"the answer picks {lib.pyRepr (.arr strangers)}, which are not among the options {shown}"
      else if repeats picked then some "the answer picks an option more than once"
      else none
    | _ => some s!"the answer {lib.pyRepr value} is not a list of the options {shown}"

def fitProblem (lib : Libraries) (interrupt : Interrupt) (value : Json) (choosing : Bool) :
    Except ServiceError (Option String) :=
  match interrupt.expects with
  | some expects =>
    match schemaProblem lib (some expects) with
    | some problem => .ok (some problem)
    | none =>
      match lib.bestMatch expects value with
      | .error raised => .error (.internal raised)
      | .ok none => .ok none
      | .ok (some (path, message)) =>
        let place := String.join (path.map fun part => s!"[{part}]")
        .ok (some s!"the answer{place} does not fit what was asked: {message}")
  | none => .ok (if choosing && !interrupt.optionValues.isEmpty then choiceProblem lib interrupt value else none)

/-- Why `resolution` cannot answer `interrupt`, `none` when it can. -/
def answerProblem (lib : Libraries) (interrupt : Interrupt) (resolution : InterruptResolution) :
    Except ServiceError (Option String) :=
  if !lib.resolves resolution interrupt then
    .ok (some s!"it answers {resolution.interruptId}, not {interrupt.interruptId}")
  else if resolution.decision = .ANSWER then fitProblem lib interrupt resolution.answer true
  else if resolution.decision = .EDIT ∧ interrupt.toolCall.isNone then
    fitProblem lib interrupt resolution.payload false
  else if resolution.remember = .run ∧ interrupt.toolCall.isNone then
    .ok (some "only an approval of a tool call is remembered for the run")
  else .ok none

end AgentRuns
