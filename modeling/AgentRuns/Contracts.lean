import AgentRuns.Json

/-!
# The contracts' records

The types of trellis-contracts a run store reads and writes, with the fields its functions use,
and the functions of other packages it calls (`Libraries`).

`RunStatus.canBecome` is the contracts' one rule of the state machine, as
`tests/test_state_machine.py` and `docs/ARCHITECTURE.md` spell it out:

    QUEUED  → RUNNING CANCELLED TIMEOUT
    RUNNING → PAUSED QUEUED and every ending
    PAUSED  → RUNNING QUEUED CANCELLED TIMEOUT
-/

namespace AgentRuns

/-- Seconds since the epoch. -/
abbrev Instant := Rat

/-- A datetime as a request carries it: the instant, and the UTC offset it was written with. -/
structure AwareDatetime where
  at_ : Instant
  offset : Int
deriving DecidableEq

inductive RunStatus where
  | QUEUED | RUNNING | PAUSED | SUCCESS | PARTIAL | ERROR | TIMEOUT | CANCELLED | REJECTED
deriving DecidableEq

namespace RunStatus

/-- The wire's spelling. -/
def value : RunStatus → String
  | QUEUED => "QUEUED"
  | RUNNING => "RUNNING"
  | PAUSED => "PAUSED"
  | SUCCESS => "SUCCESS"
  | PARTIAL => "PARTIAL"
  | ERROR => "ERROR"
  | TIMEOUT => "TIMEOUT"
  | CANCELLED => "CANCELLED"
  | REJECTED => "REJECTED"

/-- An ending. -/
def final : RunStatus → Bool
  | QUEUED | RUNNING | PAUSED => false
  | _ => true

def canBecome : RunStatus → RunStatus → Bool
  | QUEUED, t => t = RUNNING ∨ t = CANCELLED ∨ t = TIMEOUT
  | RUNNING, t => t = PAUSED ∨ t = QUEUED ∨ t.final
  | PAUSED, t => t = RUNNING ∨ t = QUEUED ∨ t = CANCELLED ∨ t = TIMEOUT
  | _, _ => false

/-- An ended run moves nowhere. -/
theorem not_final_of_canBecome {s t : RunStatus} (h : s.canBecome t = true) : s.final = false := by
  cases s <;> first | rfl | simp [canBecome] at h

/-- An ending is none of the statuses a run goes on from. -/
theorem ne_of_final {s : RunStatus} (h : s.final = true) : s ≠ QUEUED ∧ s ≠ RUNNING ∧ s ≠ PAUSED := by
  cases s <;> simp [final] at h ⊢

theorem canBecome_paused {s : RunStatus} (h : s.canBecome PAUSED = true) : s = RUNNING := by
  cases s <;> simp [canBecome] at h ⊢

/-- Only a running run fails, or succeeds. -/
theorem running_of_canBecome {s t : RunStatus} (h : s.canBecome t = true) (hf : t.final = true)
    (hc : t ≠ CANCELLED) (ht : t ≠ TIMEOUT) : s = RUNNING := by
  cases s <;> cases t <;> simp [canBecome, final] at *

end RunStatus

inductive ErrorCategory where
  | VALIDATION | AUTHORIZATION | MODEL | TOOL | MEMORY | TIMEOUT | CANCELLED | RATE_LIMIT | DEPENDENCY
  | POLICY | UNKNOWN
deriving DecidableEq

structure AgentError where
  code : String
  category : ErrorCategory
  message : String
  retryable : Bool
  source : Option String
deriving DecidableEq

/-- What a paused run waits on. -/
structure Interrupt where
  interruptId : String
  tenantId : String
  runId : String
  /-- who must answer, as `kind:id` -/
  assignee : Option String
  escalateTo : Option String
  deadline : Option Instant
  /-- JSON Schema of an acceptable answer -/
  expects : Option Json
  /-- the options' values (`option_values`) -/
  optionValues : List String
  multiple : Bool
  toolCall : Option Json
  /-- the question, and the rest of what it carries -/
  body : Json

inductive InterruptDecision where
  | ANSWER | APPROVE | REJECT | EDIT | CANCEL
deriving DecidableEq

inductive Remember where
  | once | run
deriving DecidableEq

/-- A person's answer to an interrupt. -/
structure InterruptResolution where
  interruptId : String
  runId : String
  decision : InterruptDecision
  answer : Json
  payload : Json
  reviewer : Option String
  comment : Option String
  remember : Remember
  resolvedAt : AwareDatetime

/-- Python's `==` on two resolutions' JSON (`_json`). -/
def InterruptResolution.sameJson (a b : InterruptResolution) : Bool :=
  a.interruptId == b.interruptId && a.runId == b.runId && a.decision == b.decision &&
    Json.pyEq a.answer b.answer && Json.pyEq a.payload b.payload && a.reviewer == b.reviewer &&
    a.comment == b.comment && a.remember == b.remember && a.resolvedAt == b.resolvedAt

@[simp] theorem InterruptResolution.sameJson_self (r : InterruptResolution) : r.sameJson r = true := by
  simp [sameJson]

structure RunStart where
  runId : String
  tenantId : String
  agentId : String
  parentRunId : Option String
  threadId : Option String
  userId : Option String
  workspaceId : Option String
  onBehalfOf : Option String
  input : Json
  deadline : Option AwareDatetime
  timeoutSeconds : Option Rat
  idempotencyKey : Option String
  agentVersion : Option String
  priority : Int
  concurrencyKey : Option String
  /-- a JSON object, `{}` when none -/
  metadata : List (String × Json)

inductive RunEventType where
  | RUN_STARTED | RUN_FINISHED | RUN_ERROR | STEP_STARTED | STEP_FINISHED | TEXT_MESSAGE_START
  | TEXT_MESSAGE_CONTENT | TEXT_MESSAGE_END | TOOL_CALL_START | TOOL_CALL_ARGS | TOOL_CALL_END
  | TOOL_CALL_RESULT | STATE_SNAPSHOT | STATE_DELTA | MESSAGES_SNAPSHOT | CONTEXT_LOADED | INTERRUPT
  | RAW | CUSTOM
deriving DecidableEq

def RunEventType.value : RunEventType → String
  | RUN_STARTED => "RUN_STARTED"
  | RUN_FINISHED => "RUN_FINISHED"
  | RUN_ERROR => "RUN_ERROR"
  | STEP_STARTED => "STEP_STARTED"
  | STEP_FINISHED => "STEP_FINISHED"
  | TEXT_MESSAGE_START => "TEXT_MESSAGE_START"
  | TEXT_MESSAGE_CONTENT => "TEXT_MESSAGE_CONTENT"
  | TEXT_MESSAGE_END => "TEXT_MESSAGE_END"
  | TOOL_CALL_START => "TOOL_CALL_START"
  | TOOL_CALL_ARGS => "TOOL_CALL_ARGS"
  | TOOL_CALL_END => "TOOL_CALL_END"
  | TOOL_CALL_RESULT => "TOOL_CALL_RESULT"
  | STATE_SNAPSHOT => "STATE_SNAPSHOT"
  | STATE_DELTA => "STATE_DELTA"
  | MESSAGES_SNAPSHOT => "MESSAGES_SNAPSHOT"
  | CONTEXT_LOADED => "CONTEXT_LOADED"
  | INTERRUPT => "INTERRUPT"
  | RAW => "RAW"
  | CUSTOM => "CUSTOM"

/-- One event of a run: what it says it is, and the rest of what it carries. -/
structure RunEvent where
  type : RunEventType
  tenantId : String
  runId : String
  attempt : Nat
  sequence : Nat
  body : Json

/-- The run as every answer shows it. -/
structure RunRecord where
  runId : String
  tenantId : String
  agentId : String
  status : RunStatus
  parentRunId : Option String
  threadId : Option String
  userId : Option String
  workspaceId : Option String
  onBehalfOf : Option String
  input : Json
  output : Json
  error : Option AgentError
  awaiting : Option Interrupt
  lastResolution : Option InterruptResolution
  checkpoint : Option Json
  attempt : Nat
  deadline : Option Instant
  timeoutSeconds : Option Rat
  idempotencyKey : Option String
  agentVersion : Option String
  priority : Int
  concurrencyKey : Option String
  createdAt : Instant
  updatedAt : Instant
  metadata : List (String × Json)
  workedSeconds : Rat

/-! ## Other packages -/

/-- One part of a `stable_id`. -/
inductive Part where
  | text (s : String)
  | number (n : Nat)
  | none
deriving DecidableEq

def Part.ofOption : Option String → Part
  | .none => .none
  | some s => .text s

/-- What the store calls of trellis-contracts, jsonschema, Python's formatting and PostgreSQL. -/
structure Libraries where
  /-- `stable_id(*parts, prefix=…)` -/
  stableId : String → List Part → String
  /-- `InterruptResolution.resolves` -/
  resolves : InterruptResolution → Interrupt → Bool
  /-- `validator_for(schema).check_schema(schema)`: the `SchemaError`'s message -/
  checkSchema : Json → Option String
  /-- `best_match(validator_for(schema)(schema).iter_errors(value))`: the error's path (each part's
  `repr`) and message; an exception when a `$ref` does not resolve -/
  bestMatch : Json → Json → Except String (Option (List String × String))
  /-- `repr` -/
  pyRepr : Json → String
  /-- `str` of a datetime -/
  strDatetime : Instant → String
  /-- `f"{x:.0f}"` -/
  fixed0 : Rat → String
  /-- `f"{x:g}"` -/
  general : Rat → String
  /-- PostgreSQL's `hashtextextended(name, 0)` -/
  hashText : String → Int

end AgentRuns
