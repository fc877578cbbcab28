import AgentRuns.JsonWriting
import AgentRuns.Resending

/-!
# Errors on the wire

`api/errors.py` writes whatever a route raises as a problem document, and `errors.py` and `_transport.py` of the SDK read
it back as an exception.  Over the text of the body:

    refusal (answer fault) has the code, the class, the status, the words, the details and
      whether to try again that were raised                                              (refusal_answer)
    the client sends the call again, and is told when, exactly if what was raised
      is a retryable 429 or 503                                                          (again_answer_iff)
-/

namespace AgentRuns

open JsonText

/-! ## What is raised -/

/-- `ErrorCode`, all of it. -/
inductive ProblemCode where
  | VALIDATION | AUTHENTICATION | AUTHORIZATION | NOT_FOUND | CONFLICT | LEASE_LOST | PAYLOAD_TOO_LARGE | RATE_LIMIT
  | DEPENDENCY_UNAVAILABLE | INTERNAL
deriving DecidableEq

namespace ProblemCode

def value : ProblemCode → String
  | VALIDATION => "VALIDATION"
  | AUTHENTICATION => "AUTHENTICATION"
  | AUTHORIZATION => "AUTHORIZATION"
  | NOT_FOUND => "NOT_FOUND"
  | CONFLICT => "CONFLICT"
  | LEASE_LOST => "LEASE_LOST"
  | PAYLOAD_TOO_LARGE => "PAYLOAD_TOO_LARGE"
  | RATE_LIMIT => "RATE_LIMIT"
  | DEPENDENCY_UNAVAILABLE => "DEPENDENCY_UNAVAILABLE"
  | INTERNAL => "INTERNAL"

/-- `PROBLEM_TITLES` -/
def title : ProblemCode → String
  | VALIDATION => "Invalid request"
  | AUTHENTICATION => "Authentication required"
  | AUTHORIZATION => "Not permitted"
  | NOT_FOUND => "Not found"
  | CONFLICT => "Conflict"
  | LEASE_LOST => "Lease lost"
  | PAYLOAD_TOO_LARGE => "Payload too large"
  | RATE_LIMIT => "Too many requests"
  | DEPENDENCY_UNAVAILABLE => "A dependency is unavailable"
  | INTERNAL => "Internal error"

/-- `problem_type` -/
def problemType (code : ProblemCode) : String :=
  "urn:trellis:problem:" ++ String.ofList (code.value.toList.map fun c => if c = '_' then '-' else c.toLower)

end ProblemCode

/-- The classes of `domain/errors.py`. -/
inductive ErrorClass where
  | ServiceError | BadRequest | Unauthorized | Forbidden | NotFound | Conflict | LeaseLost | TooLarge | Unprocessable
  | RateLimited | Unavailable
deriving DecidableEq

namespace ErrorClass

def statusCode : ErrorClass → Nat
  | ServiceError => 500
  | BadRequest => 400
  | Unauthorized => 401
  | Forbidden => 403
  | NotFound => 404
  | Conflict => 409
  | LeaseLost => 409
  | TooLarge => 413
  | Unprocessable => 422
  | RateLimited => 429
  | Unavailable => 503

def code : ErrorClass → ProblemCode
  | ServiceError => .INTERNAL
  | BadRequest => .VALIDATION
  | Unauthorized => .AUTHENTICATION
  | Forbidden => .AUTHORIZATION
  | NotFound => .NOT_FOUND
  | Conflict => .CONFLICT
  | LeaseLost => .LEASE_LOST
  | TooLarge => .PAYLOAD_TOO_LARGE
  | Unprocessable => .VALIDATION
  | RateLimited => .RATE_LIMIT
  | Unavailable => .DEPENDENCY_UNAVAILABLE

def retryable : ErrorClass → Bool
  | RateLimited | Unavailable => true
  | _ => false

end ErrorClass

/-- `RETRY_AFTER_SECONDS` -/
def retryAfterSeconds : Nat := 5

/-- A `ServiceError`; `retryAfter` is an attribute of a `RateLimited` or `Unavailable` alone. -/
structure Failure where
  cls : ErrorClass
  detail : String
  details : List (List Nat × Value)
  headers : List (String × String)
  retryable : Bool
  retryAfter : Option Nat

/-- One of pydantic's errors, as `field_errors` has it. -/
structure FieldError where
  loc : List String
  msg : String
  type : String

/-- What an exception handler gets. -/
inductive Fault where
  | service (failure : Failure)
  | validation (errors : List FieldError)
  | http (status : Nat) (detail : String) (headers : List (String × String))
  /-- `DBAPIError` or `PoolTimeout`: is it `is_unavailable`? -/
  | database (unavailable : Bool)
  | unhandled

/-! ## The document -/

def textValue (s : String) : Value := .str (points s)

structure Problem where
  code : ProblemCode
  status : Nat
  detail : String
  «instance» : String
  retryable : Bool
  requestId : Option String
  details : List (List Nat × Value)

/-- `model_dump(mode="json")` -/
def Problem.members (p : Problem) : List (List Nat × Value) :=
  [(points "type", textValue p.code.problemType), (points "title", textValue p.code.title),
    (points "status", .num (toString p.status).toList), (points "detail", textValue p.detail), (points "instance", textValue p.instance),
    (points "code", textValue p.code.value), (points "retryable", .bool p.retryable),
    (points "request_id", (p.requestId.map textValue).getD .null), (points "details", .obj p.details)]

def Problem.dump (p : Problem) : Value := .obj p.members

/-- A response, its body decoded. -/
structure ErrorAnswer where
  status : Nat
  headers : List (String × String)
  text : List Char

/-- `_problem`, of its arguments but the request. -/
structure ProblemParts where
  code : ProblemCode
  detail : String
  status : Nat
  retryable : Bool
  details : List (List Nat × Value)
  headers : List (String × String)
  retryAfter : Nat

/-- `dict.setdefault` -/
def setDefault (name value : String) (headers : List (String × String)) : List (String × String) :=
  if headers.any (·.1 = name) then headers else headers ++ [(name, value)]

/-- `_problem` -/
def ProblemParts.answer (parts : ProblemParts) (path : String) (requestId : Option String) : ErrorAnswer :=
  let sent := if parts.retryable ∧ parts.status ∈ [429, 503] then setDefault "Retry-After" (toString parts.retryAfter) parts.headers
    else parts.headers
  let sent := match requestId with
    | some id => setDefault "X-Request-ID" id sent
    | none => sent
  ⟨parts.status, sent, plain.dumps
    (Problem.dump ⟨parts.code, parts.status, parts.detail, path, parts.retryable, requestId, parts.details⟩)⟩

/-- `_STATUS_CODES.get(…)` -/
def codeOfStatus (status : Nat) : ProblemCode :=
  match status with
  | 401 => .AUTHENTICATION
  | 403 => .AUTHORIZATION
  | 404 => .NOT_FOUND
  | 409 => .CONFLICT
  | 413 => .PAYLOAD_TOO_LARGE
  | 429 => .RATE_LIMIT
  | 503 => .DEPENDENCY_UNAVAILABLE
  | status => if status ≥ 500 then .INTERNAL else .VALIDATION

def Failure.parts (f : Failure) : ProblemParts :=
  ⟨f.cls.code, f.detail, f.cls.statusCode, f.retryable, f.details, f.headers, f.retryAfter.getD retryAfterSeconds⟩

/-- `field_errors`, of one error -/
def FieldError.dump (e : FieldError) : Value :=
  .obj [(points "loc", .arr (e.loc.map textValue)), (points "msg", textValue e.msg), (points "type", textValue e.type)]

/-- `Unavailable("the database is unavailable")` -/
def databaseUnavailable : Failure :=
  ⟨.Unavailable, "the database is unavailable", [], [], true, some retryAfterSeconds⟩

/-- The handlers of `install_error_handlers`. -/
def Fault.parts : Fault → ProblemParts
  | .service failure => failure.parts
  | .validation errors =>
    ⟨.VALIDATION, "the request is invalid", 422, false, [(points "errors", .arr (errors.map FieldError.dump))], [],
      retryAfterSeconds⟩
  | .http status detail headers =>
    ⟨codeOfStatus status, detail, status, [429, 503].contains status, [], headers, retryAfterSeconds⟩
  | .database true => databaseUnavailable.parts
  | .database false => ⟨.INTERNAL, "internal error", 500, false, [], [], retryAfterSeconds⟩
  | .unhandled => ⟨.INTERNAL, "internal error", 500, false, [], [], retryAfterSeconds⟩

/-- What is answered to a request of `path`, which its middleware has named. -/
def Fault.answer (raised : Fault) (path : String) (requestId : Option String) : ErrorAnswer := raised.parts.answer path requestId

/-! ## The client -/

/-- The classes of the SDK's `errors.py`. -/
inductive RunsErrorClass where
  | RunsError | AuthenticationError | AuthorizationError | NotFoundError | ConflictError | LeaseLostError | ValidationError
  | PayloadTooLargeError | RateLimitedError | DependencyUnavailableError
deriving DecidableEq

structure RunsError where
  cls : RunsErrorClass
  code : List Nat
  status : Nat
  retryable : Bool
  requestId : Option (List Nat)
  details : List (List Nat × Value)
  /-- what its message ends with -/
  words : Value
  /-- the header that `retry_after` is read off -/
  retryAfter : Option String

/-- `BY_CODE` -/
def byCode (code : List Nat) : Option RunsErrorClass :=
  if code = points "AUTHENTICATION" then some .AuthenticationError
  else if code = points "AUTHORIZATION" then some .AuthorizationError
  else if code = points "NOT_FOUND" then some .NotFoundError
  else if code = points "CONFLICT" then some .ConflictError
  else if code = points "LEASE_LOST" then some .LeaseLostError
  else if code = points "VALIDATION" then some .ValidationError
  else if code = points "PAYLOAD_TOO_LARGE" then some .PayloadTooLargeError
  else if code = points "RATE_LIMIT" then some .RateLimitedError
  else if code = points "DEPENDENCY_UNAVAILABLE" then some .DependencyUnavailableError
  else none

/-- `BY_STATUS.get(status, (RunsError, "INTERNAL"))` -/
def byStatus (status : Nat) : RunsErrorClass × String :=
  match status with
  | 400 => (.ValidationError, "VALIDATION")
  | 401 => (.AuthenticationError, "AUTHENTICATION")
  | 403 => (.AuthorizationError, "AUTHORIZATION")
  | 404 => (.NotFoundError, "NOT_FOUND")
  | 405 => (.ValidationError, "VALIDATION")
  | 409 => (.ConflictError, "CONFLICT")
  | 413 => (.PayloadTooLargeError, "PAYLOAD_TOO_LARGE")
  | 422 => (.ValidationError, "VALIDATION")
  | 429 => (.RateLimitedError, "RATE_LIMIT")
  | 502 => (.DependencyUnavailableError, "DEPENDENCY_UNAVAILABLE")
  | 503 => (.DependencyUnavailableError, "DEPENDENCY_UNAVAILABLE")
  | 504 => (.DependencyUnavailableError, "DEPENDENCY_UNAVAILABLE")
  | _ => (.RunsError, "INTERNAL")

/-- `dict.get`: of two members with one name the later counts. -/
def member? (name : String) (members : List (List Nat × Value)) : Option Value :=
  (members.reverse.find? (·.1 = points name)).map Prod.snd

/-- Python's `bool`. -/
def truthy : Value → Bool
  | .null => false
  | .bool b => b
  | .num text => (text.takeWhile fun c => c ≠ 'e' ∧ c ≠ 'E').any fun c => c ≠ '-' ∧ c ≠ '0' ∧ c ≠ '.'
  | .str text => text ≠ []
  | .arr items => !items.isEmpty
  | .obj members => !members.isEmpty

/-- `error_from_problem` -/
def errorFromProblem (status : Nat) (body : Option Value) (text : List Char) (requestId : Option String)
    (retryAfter : Option String) : RunsError :=
  let problem := match body with
    | some (.obj members) => members
    | _ => []
  let (statusCls, statusCode) := byStatus status
  let code := match member? "code" problem with
    | some (.str (n :: ns)) => some (n :: ns)
    | _ => none
  { cls := match code with
      | some code => (byCode code).getD statusCls
      | none => statusCls
    code := code.getD (points statusCode)
    status := status
    retryable := match member? "retryable" problem with
      | some (.bool b) => b
      | _ => retryStatuses.contains status
    requestId := match member? "request_id" problem with
      | some (.str id) => some id
      | _ => requestId.map points
    details := match member? "details" problem with
      | some (.obj details) => details
      | _ => []
    words := ((member? "detail" problem).filter truthy).getD
      (((member? "title" problem).filter truthy).getD (.str ((text.take 300).map Char.toNat)))
    retryAfter := retryAfter }

/-- `headers.get`, whatever the case of the name. -/
def ErrorAnswer.header (response : ErrorAnswer) (name : String) : Option String :=
  match response.headers.filter (·.1.toLower = name.toLower) with
  | [] => none
  | found => some (", ".intercalate (found.map Prod.snd))

/-- `refusal` -/
def refusal (response : ErrorAnswer) : RunsError :=
  errorFromProblem response.status (loads response.text) response.text (response.header "X-Request-ID")
    (response.header "retry-after")

/-- `_again` -/
def sendsAgain (response : ErrorAnswer) : Bool := retryStatuses.contains response.status && (refusal response).retryable

/-! ## What the client reads -/

/-- The class a category is read as, if it has one of its own. -/
def ProblemCode.cls : ProblemCode → Option RunsErrorClass
  | VALIDATION => some .ValidationError
  | AUTHENTICATION => some .AuthenticationError
  | AUTHORIZATION => some .AuthorizationError
  | NOT_FOUND => some .NotFoundError
  | CONFLICT => some .ConflictError
  | LEASE_LOST => some .LeaseLostError
  | PAYLOAD_TOO_LARGE => some .PayloadTooLargeError
  | RATE_LIMIT => some .RateLimitedError
  | DEPENDENCY_UNAVAILABLE => some .DependencyUnavailableError
  | INTERNAL => none

theorem byCode_value (code : ProblemCode) : byCode (points code.value) = code.cls := by
  cases code <;> decide +kernel

theorem value_cons (code : ProblemCode) : ∃ n ns, points code.value = n :: ns := by
  cases code <;> exact ⟨_, _, rfl⟩

theorem title_truthy (code : ProblemCode) : truthy (textValue code.title) = true := by
  cases code <;> decide +kernel

theorem truthy_text (s : String) : truthy (textValue s) = decide (s ≠ "") := by
  show decide (points s ≠ []) = decide (s ≠ "")
  refine decide_eq_decide.2 (not_congr ⟨fun h => ?_, fun h => ?_⟩)
  · exact String.toList_eq_nil_iff.1 (List.map_eq_nil_iff.1 h)
  · rw [h]
    rfl

theorem proper_items_map {α : Type} {f : α → Value} (h : ∀ a, (f a).Proper) : ∀ l : List α, ProperItems (l.map f)
  | [] => by
    rw [List.map_nil, ProperItems]
    trivial
  | a :: l => by
    rw [List.map_cons, ProperItems]
    exact ⟨h a, proper_items_map h l⟩

theorem textValue_proper (s : String) : (textValue s).Proper := by
  unfold textValue
  rw [Value.Proper]
  exact scalar_points s

/-- A document is JSON that is read back, whatever its details are. -/
theorem Problem.dump_proper (p : Problem) (h : ProperMembers p.details) : p.dump.Proper := by
  unfold Problem.dump Problem.members
  have hid : ((p.requestId.map textValue).getD .null).Proper := by
    cases p.requestId with
    | none =>
      show Value.null.Proper
      rw [Value.Proper]
      trivial
    | some id => exact textValue_proper id
  have hstatus : (Value.num (toString p.status).toList).Proper := by
    rw [Value.Proper]
    exact lexeme_nat p.status
  have hdetails : (Value.obj p.details).Proper := by
    rw [Value.Proper]
    exact h
  have hbool : (Value.bool p.retryable).Proper := by
    rw [Value.Proper]
    trivial
  rw [Value.Proper]
  simp only [ProperMembers]
  exact ⟨scalar_points _, textValue_proper _, scalar_points _, textValue_proper _, scalar_points _, hstatus, scalar_points _,
    textValue_proper _, scalar_points _, textValue_proper _, scalar_points _, textValue_proper _, scalar_points _, hbool,
    scalar_points _, hid, scalar_points _, hdetails, trivial⟩

theorem loads_answer (parts : ProblemParts) (path : String) (requestId : Option String) (h : ProperMembers parts.details) :
    loads (parts.answer path requestId).text =
      some (Problem.dump ⟨parts.code, parts.status, parts.detail, path, parts.retryable, requestId, parts.details⟩) :=
  plain.loads_dumps (Problem.dump_proper _ h)

section
variable (p : Problem)

theorem member_code : member? "code" p.members = some (textValue p.code.value) := by rfl
theorem member_retryable : member? "retryable" p.members = some (.bool p.retryable) := by rfl
theorem member_request_id : member? "request_id" p.members = some ((p.requestId.map textValue).getD .null) := by rfl
theorem member_details : member? "details" p.members = some (.obj p.details) := by rfl
theorem member_detail : member? "detail" p.members = some (textValue p.detail) := by rfl
theorem member_title : member? "title" p.members = some (textValue p.code.title) := by rfl

/-- What is read off a document. -/
theorem errorFromProblem_dump (text : List Char) (header retryAfter : Option String) :
    errorFromProblem p.status (some p.dump) text header retryAfter =
      { cls := p.code.cls.getD (byStatus p.status).1
        code := points p.code.value
        status := p.status
        retryable := p.retryable
        requestId := (p.requestId.or header).map points
        details := p.details
        words := textValue (if p.detail = "" then p.code.title else p.detail)
        retryAfter := retryAfter } := by
  obtain ⟨n, ns, hcode⟩ := value_cons p.code
  have hcls := byCode_value p.code
  have hwords : ((some (textValue p.detail)).filter truthy).getD (((some (textValue p.code.title)).filter truthy).getD
      (.str ((text.take 300).map Char.toNat))) = textValue (if p.detail = "" then p.code.title else p.detail) := by
    by_cases hd : p.detail = ""
    · rw [Option.filter_some_neg (by rw [truthy_text, hd]; decide), Option.getD_none,
        Option.filter_some_pos (title_truthy p.code), if_pos hd]
      rfl
    · rw [Option.filter_some_pos (by rw [truthy_text, decide_eq_true hd]), if_neg hd]
      rfl
  unfold errorFromProblem Problem.dump
  dsimp only
  rw [member_code, member_retryable, member_request_id, member_details, member_detail, member_title, hwords]
  unfold textValue
  rw [hcode] at hcls ⊢
  dsimp only
  rw [hcls]
  cases p.requestId <;> rfl

end

/-! ## Round trip -/

/-- **Round trip.**  Whatever is raised, the client raises the same: its category and class, its status, whether the call may
be tried again, its words and details, and the id to quote. -/
theorem refusal_answer (fault : Fault) (path : String) (requestId : Option String) (h : ProperMembers fault.parts.details) :
    refusal (fault.answer path requestId) =
      { cls := fault.parts.code.cls.getD (byStatus fault.parts.status).1
        code := points fault.parts.code.value
        status := fault.parts.status
        retryable := fault.parts.retryable
        requestId := (requestId.or ((fault.answer path requestId).header "X-Request-ID")).map points
        details := fault.parts.details
        words := textValue (if fault.parts.detail = "" then fault.parts.code.title else fault.parts.detail)
        retryAfter := (fault.answer path requestId).header "retry-after" } := by
  unfold refusal Fault.answer
  rw [loads_answer fault.parts path requestId h]
  exact errorFromProblem_dump _ _ _ _

theorem digits_one {d : Char} (h : d.isDigit = true) : Digits [d] := by
  refine ⟨List.cons_ne_nil d [], fun c hc => ?_⟩
  rw [List.mem_singleton.1 hc]
  exact h

/-- A repeated start that differs, as its conflict tells. -/
def sampleConflict : Fault := .service
  ⟨.Conflict, "run \"r\" is another one", [(points "differing", .arr [textValue "input\n", .obj [(points "tick", .num "-1.5e3".toList)]])],
    [], false, none⟩

theorem sampleConflict_proper : ProperMembers sampleConflict.parts.details := by
  have hnumber : Lexeme "-1.5e3".toList :=
    @Lexeme.parts ['-'] ['1'] ['.', '5'] ['e', '3'] (.inr rfl) (.inr ⟨digits_one rfl, by simp⟩)
      (.inr ⟨['5'], rfl, digits_one rfl⟩) (.inr ⟨'e', [], ['3'], rfl, .inl rfl, .inl rfl, digits_one rfl⟩)
  show ProperMembers [(points "differing", .arr [textValue "input\n", .obj [(points "tick", .num "-1.5e3".toList)]])]
  simp only [ProperMembers, ProperItems, Value.Proper]
  exact ⟨scalar_points _, ⟨textValue_proper _, ⟨⟨scalar_points _, hnumber, trivial⟩, trivial⟩⟩, trivial⟩

theorem refusal_answer_conflict : (refusal (sampleConflict.answer "/v1/runs" (some "req_1"))).cls = .ConflictError ∧
    (refusal (sampleConflict.answer "/v1/runs" (some "req_1"))).requestId = some (points "req_1") ∧
    (refusal (sampleConflict.answer "/v1/runs" (some "req_1"))).details = sampleConflict.parts.details := by
  have h := refusal_answer sampleConflict "/v1/runs" (some "req_1") sampleConflict_proper
  exact ⟨congrArg RunsError.cls h, congrArg RunsError.requestId h, congrArg RunsError.details h⟩

/-! ## Again -/

theorem retryable_status (fault : Fault) (hagain : retryStatuses.contains fault.parts.status = true)
    (hretry : fault.parts.retryable = true) : fault.parts.status ∈ [429, 503] := by
  cases fault with
  | service f =>
    have hall : ∀ cls : ErrorClass, retryStatuses.contains cls.statusCode = true → cls.statusCode ∈ [429, 503] := by
      intro cls
      cases cls <;> decide
    exact hall f.cls hagain
  | validation errors => cases hretry
  | http status detail headers => exact List.contains_iff_mem.1 hretry
  | database unavailable =>
    cases unavailable with
    | true => decide
    | false => cases hretry
  | unhandled => cases hretry

theorem filter_setDefault {name value : String} {p : String × String → Bool} (h : ∀ v, p (name, v) = false)
    (headers : List (String × String)) : (setDefault name value headers).filter p = headers.filter p := by
  unfold setDefault
  split
  · rfl
  · rw [List.filter_append, List.filter_cons_of_neg (by rw [h]; decide), List.filter_nil, List.append_nil]

/-- The headers `p` picks of those sent, where it picks `Retry-After` alone of the two that are added. -/
theorem filter_sent {p : String × String → Bool} (hid : ∀ v, p ("X-Request-ID", v) = false) (hretry : ∀ v, p ("Retry-After", v) = true)
    (parts : ProblemParts) (hown : ∀ header ∈ parts.headers, p header = false) (path : String) (requestId : Option String) :
    (parts.answer path requestId).headers.filter p =
      if parts.retryable ∧ parts.status ∈ [429, 503] then [("Retry-After", toString parts.retryAfter)] else [] := by
  have hnone : parts.headers.filter p = [] := List.filter_eq_nil_iff.2 fun header hmem => by simp [hown header hmem]
  have hset : setDefault "Retry-After" (toString parts.retryAfter) parts.headers =
      parts.headers ++ [("Retry-After", toString parts.retryAfter)] := by
    refine if_neg fun hany => ?_
    obtain ⟨⟨name, value⟩, hmem, heq⟩ := List.any_eq_true.1 hany
    obtain rfl : name = "Retry-After" := of_decide_eq_true heq
    have h := hown _ hmem
    rw [hretry] at h
    cases h
  have hsent : (parts.answer path requestId).headers.filter p =
      (if parts.retryable ∧ parts.status ∈ [429, 503] then setDefault "Retry-After" (toString parts.retryAfter) parts.headers
        else parts.headers).filter p := by
    unfold ProblemParts.answer
    cases requestId with
    | none => rfl
    | some id => exact filter_setDefault hid _
  rw [hsent]
  split
  · rw [hset, List.filter_append, hnone, List.filter_cons_of_pos (hretry _)]
    rfl
  · exact hnone

/-- The client sends the call again exactly if what was raised is a retryable 429 or 503, and exactly then it is told how long
to wait. -/
theorem again_answer_iff (fault : Fault) (path : String) (requestId : Option String) (h : ProperMembers fault.parts.details)
    (hown : ∀ header ∈ fault.parts.headers, header.1.toLower ≠ "retry-after") :
    (sendsAgain (fault.answer path requestId) = true ↔ fault.parts.retryable = true ∧ fault.parts.status ∈ [429, 503]) ∧
      (fault.answer path requestId).header "retry-after" =
        if sendsAgain (fault.answer path requestId) then some (toString fault.parts.retryAfter) else none := by
  have hagain : sendsAgain (fault.answer path requestId) = true ↔
      fault.parts.retryable = true ∧ fault.parts.status ∈ [429, 503] := by
    unfold sendsAgain
    rw [refusal_answer fault path requestId h, Bool.and_eq_true]
    show retryStatuses.contains fault.parts.status = true ∧ fault.parts.retryable = true ↔ _
    refine ⟨fun ⟨hs, hr⟩ => ⟨hr, retryable_status fault hs hr⟩, fun ⟨hr, hs⟩ => ⟨?_, hr⟩⟩
    rw [List.contains_iff_mem]
    rcases List.mem_cons.1 hs with hs | hs
    · rw [hs]
      decide
    · rw [List.mem_singleton.1 hs]
      decide
  refine ⟨hagain, ?_⟩
  have hlower : "retry-after".toLower = "retry-after" := by decide +kernel
  have hother : "X-Request-ID".toLower ≠ "retry-after" := by decide +kernel
  have hsame : "Retry-After".toLower = "retry-after" := by decide +kernel
  have hfilter := filter_sent (p := fun header => decide (header.1.toLower = "retry-after")) (fun _ => decide_eq_false hother)
    (fun _ => decide_eq_true hsame) fault.parts (fun header hmem => decide_eq_false (hown header hmem)) path requestId
  unfold ErrorAnswer.header
  rw [hlower, show (fault.answer path requestId).headers = (fault.parts.answer path requestId).headers from rfl, hfilter]
  by_cases hr : fault.parts.retryable = true ∧ fault.parts.status ∈ [429, 503]
  · rw [if_pos hr, if_pos (hagain.2 hr)]
    rfl
  · rw [if_neg hr, if_neg fun hs => hr (hagain.1 hs)]

theorem again_answer_unavailable :
    (sendsAgain (Fault.answer (.database true) "/v1/runs" none) = true ↔ true = true ∧ 503 ∈ [429, 503]) ∧
      (Fault.answer (.database true) "/v1/runs" none).header "retry-after" =
        if sendsAgain (Fault.answer (.database true) "/v1/runs" none) then some (toString 5) else none :=
  again_answer_iff (.database true) "/v1/runs" none trivial (fun _ h => absurd h List.not_mem_nil)

end AgentRuns
