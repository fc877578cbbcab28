import AgentRuns.Dialogue
import AgentRuns.Problems
import AgentRuns.Signatures

/-!
# What stands before the routes

`RequestContextMiddleware` and `BodyLimitMiddleware` of `api/middleware.py`, before any application: a program that asks for the
messages of the client and tells it others, as ASGI has them.

    the routes get the client's messages as they are, up to the limit, and then a 413 in the read       (body_bounded)
    a request is counted once, under the status its client is sent, and the response has its id         (counted_once)
-/

namespace AgentRuns

namespace Middleware

open Dialogue JsonText

/-! ## ASGI -/

inductive Received where
  | request (body : List UInt8) (more : Bool)
  | disconnect

/-- `http.response.start`, with the rate-limit headers the request's state has then; `http.response.body`. -/
inductive Sent where
  | start (status : Nat) (headers limits : List (String × String))
  | body (bytes : List UInt8)

inductive Raised where
  /-- `HTTPException` -/
  | http (status : Nat) (detail : String)
  /-- `CancelledError` -/
  | cancelled
  | valueError
  | other

/-- The names of headers are in lower case. -/
structure Scope where
  http : Bool
  path : String
  headers : List (String × String)
  requestId : Option String

def Scope.header (scope : Scope) (name : String) : Option String := (scope.headers.find? (·.1 = name)).map Prod.snd

abbrev App := Scope → Program Received Sent Empty Raised

/-! ## The body limit -/

/-- `ARTIFACT_UPLOAD.match`; `$` is before a last line feed as well. -/
def artifactUpload (path : String) : Bool :=
  match "/v1/runs/".toList.isPrefixOf? path.toList with
  | none => false
  | some rest =>
    let run := rest.takeWhile (· ≠ '/')
    let after := rest.dropWhile (· ≠ '/')
    run ≠ [] && (after = "/artifacts".toList || after = "/artifacts\n".toList)

/-- `str.isdigit`, of a header, which is Latin-1. -/
def isDigits (text : List Char) : Bool := text ≠ [] && text.all fun c => c.isDigit || c = '²' || c = '³' || c = '¹'

/-- `int(text)` -/
def declaredLength (text : List Char) : Except Raised Nat :=
  if text.all Char.isDigit ∧ text.length ≤ maxStrDigits then .ok (PyText.number (text.map Char.toNat)) else .error .valueError

/-- Does `Content-Length` say that the body is larger? -/
def declaresMore (maxBodyBytes : Nat) (scope : Scope) : Except Raised Bool :=
  match scope.header "content-length" with
  | none => .ok false
  | some declared => if isDigits declared.toList then (declaredLength declared.toList).map (maxBodyBytes < ·) else .ok false

def tooLargeDetail (maxBodyBytes : Nat) : String := s!"the body is larger than {maxBodyBytes} bytes"

/-- `await response(scope, receive, send)` -/
def responding (status : Nat) (headers : List (String × String)) (bytes : List UInt8) : Program Received Sent Empty Raised :=
  .tell (.start status headers []) fun
    | .error raised => .raises raised
    | .ok () => .tell (.body bytes) fun
      | .error raised => .raises raised
      | .ok () => .done

/-- `problem_response`, of a document -/
def problemResponse (p : Problem) : Program Received Sent Empty Raised :=
  let bytes := (String.ofList (plain.dumps p.dump)).toUTF8.toList
  responding p.status [("content-length", toString bytes.length), ("content-type", "application/problem+json")] bytes

def tooLargeProblem (maxBodyBytes : Nat) (scope : Scope) : Problem :=
  ⟨.PAYLOAD_TOO_LARGE, 413, tooLargeDetail maxBodyBytes, scope.path, false, scope.requestId, []⟩

/-- `counted`, after `seen` bytes -/
def BodyLimit.counted (maxBodyBytes : Nat) (seen : Nat) : Except Raised Received → Nat × Except Raised Received
  | .ok (.request body more) =>
    (seen + body.length, if maxBodyBytes < seen + body.length then .error (.http 413 (tooLargeDetail maxBodyBytes))
      else .ok (.request body more))
  | .ok .disconnect => (seen, .ok .disconnect)
  | .error raised => (seen, .error raised)

/-- `BodyLimitMiddleware` -/
def bodyLimit (maxBodyBytes : Nat) (app : App) : App := fun scope =>
  if !scope.http || artifactUpload scope.path then app scope
  else
    match declaresMore maxBodyBytes scope with
    | .error raised => .raises raised
    | .ok true => problemResponse (tooLargeProblem maxBodyBytes scope)
    | .ok false => (app scope).heard (BodyLimit.counted maxBodyBytes) 0

/-! ## The request's context -/

/-- `_ID.match` -/
def isRequestId (value : String) : Bool :=
  match value.toList with
  | [] => false
  | c :: rest =>
    let rest := if rest.getLast? = some '\n' then rest.dropLast else rest
    c.isAlphanum && rest.length ≤ 199 && rest.all fun c => c.isAlphanum || c = '.' || c = '_' || c = ':' || c = '-'

/-- `request_id`; `fresh` is what `new_id("req_")` makes. -/
def requestId (fresh : String) (scope : Scope) : String := ((scope.header "x-request-id").filter isRequestId).getD fresh

/-- `send_with_context` and what is counted, by status; it has recorded or not. -/
def recorder (rid : String) : Speaker Sent Sent Nat Raised Bool where
  notes _ message :=
    match message with
    | .start status _ _ => [status]
    | .body _ => []
  words message :=
    match message with
    | .start status headers limits =>
      .start status (limits.foldl (fun headers header => setDefault header.1.toLower header.2 headers)
        (setDefault "x-request-id" rid headers)) []
    | .body bytes => .body bytes
  next recorded message :=
    match message with
    | .start _ _ _ => true
    | .body _ => recorded
  last recorded raised :=
    if recorded then []
    else
      match raised with
      | .cancelled => [499]
      | _ => [500]

/-- For what is no request. -/
def unrecorded : Speaker Sent Sent Nat Raised Unit := ⟨fun _ _ => [], id, fun _ _ => (), fun _ _ => []⟩

/-- `RequestContextMiddleware` -/
def requestContext (fresh : String) (app : App) (scope : Scope) : Program Received Sent Nat Raised :=
  if !scope.http then (app scope).spoken unrecorded ()
  else (app { scope with requestId := some (requestId fresh scope) }).spoken (recorder (requestId fresh scope)) false

/-! ## What the routes get -/

/-- The bytes of a message. -/
def receivedBytes : Except Raised Received → Nat
  | .ok (.request body _) => body.length
  | .ok .disconnect => 0
  | .error _ => 0

/-- The bytes of the first `n` messages. -/
def bytesOf (asked : Nat → Except Raised Received) : Nat → Nat
  | 0 => 0
  | n + 1 => bytesOf asked n + receivedBytes (asked n)

/-- Is it a piece of the body? -/
def isBody : Except Raised Received → Bool
  | .ok (.request _ _) => true
  | .ok .disconnect => false
  | .error _ => false

/-- The client, each piece of whose body that is past the limit is a 413. -/
def cut (maxBodyBytes : Nat) (client : Peer Received Raised) : Peer Received Raised where
  asked n :=
    if isBody (client.asked n) ∧ maxBodyBytes < bytesOf client.asked (n + 1) then .error (.http 413 (tooLargeDetail maxBodyBytes))
    else client.asked n
  told := client.told

/-- The statuses of the responses that are started. -/
def Sent.status? : Sent → Option Nat
  | .start status _ _ => some status
  | .body _ => none

section
variable {maxBodyBytes : Nat} {app : App} {scope : Scope} {client : Peer Received Raised}

theorem bytesOf_succ (asked : Nat → Except Raised Received) (n : Nat) :
    bytesOf asked (n + 1) = receivedBytes (asked 0) + bytesOf (fun n => asked (n + 1)) n := by
  induction n with
  | zero => simp [bytesOf]
  | succ n ih =>
    show bytesOf asked (n + 1) + receivedBytes (asked (n + 1)) = _ + (_ + receivedBytes (asked (n + 1)))
    omega

/-- One message. -/
theorem counted_one (seen : Nat) (message : Except Raised Received) :
    BodyLimit.counted maxBodyBytes seen message = (seen + receivedBytes message,
      if isBody message ∧ maxBodyBytes < seen + receivedBytes message then .error (.http 413 (tooLargeDetail maxBodyBytes))
      else message) := by
  match message with
  | .ok (.request body more) => simp [BodyLimit.counted, receivedBytes, isBody]
  | .ok .disconnect => simp [BodyLimit.counted, receivedBytes, isBody]
  | .error raised => simp [BodyLimit.counted, receivedBytes, isBody]

/-- Every message. -/
theorem counted_nth (n : Nat) : ∀ (seen : Nat) (asked : Nat → Except Raised Received),
    Peer.hearing (BodyLimit.counted maxBodyBytes) seen asked n =
      if isBody (asked n) ∧ maxBodyBytes < seen + bytesOf asked (n + 1) then .error (.http 413 (tooLargeDetail maxBodyBytes))
      else asked n := by
  induction n with
  | zero =>
    intro seen asked
    show (BodyLimit.counted maxBodyBytes seen (asked 0)).2 = _
    rw [counted_one]
    simp [bytesOf]
  | succ n ih =>
    intro seen asked
    show Peer.hearing _ (BodyLimit.counted maxBodyBytes seen (asked 0)).1 _ n = _
    rw [counted_one, ih, bytesOf_succ asked (n + 1), Nat.add_assoc]

theorem counted_cut : client.heard (BodyLimit.counted maxBodyBytes) 0 = cut maxBodyBytes client := by
  unfold Peer.heard cut
  congr 1
  funext n
  rw [counted_nth, Nat.zero_add]

/-- The routes get no more than the limit, and no more than the client sent. -/
theorem bytesOf_cut (n : Nat) :
    bytesOf (cut maxBodyBytes client).asked n ≤ maxBodyBytes ∧
      bytesOf (cut maxBodyBytes client).asked n ≤ bytesOf client.asked n := by
  induction n with
  | zero => exact ⟨Nat.zero_le _, le_rfl⟩
  | succ n ih =>
    have hone : receivedBytes ((cut maxBodyBytes client).asked n) = 0 ∨
        (receivedBytes ((cut maxBodyBytes client).asked n) = receivedBytes (client.asked n) ∧
          bytesOf client.asked (n + 1) ≤ maxBodyBytes) := by
      by_cases hcut : isBody (client.asked n) ∧ maxBodyBytes < bytesOf client.asked (n + 1)
      · left
        show receivedBytes (if _ then _ else _) = 0
        rw [if_pos hcut]
        rfl
      · have hsame : (cut maxBodyBytes client).asked n = client.asked n := if_neg hcut
        rw [hsame]
        cases hbody : isBody (client.asked n) with
        | false =>
          left
          match hm : client.asked n with
          | .ok (.request body more) =>
            rw [hm] at hbody
            cases hbody
          | .ok .disconnect => rfl
          | .error raised => rfl
        | true => exact .inr ⟨rfl, Nat.le_of_not_lt fun hlt => hcut ⟨hbody, hlt⟩⟩
    show bytesOf _ n + _ ≤ _ ∧ bytesOf _ n + _ ≤ bytesOf _ n + _
    simp only [bytesOf] at hone
    omega

theorem bytesOf_mono (asked : Nat → Except Raised Received) {m n : Nat} (h : m ≤ n) : bytesOf asked m ≤ bytesOf asked n := by
  induction h with
  | refl => exact le_rfl
  | step _ ih => exact ih.trans (Nat.le_add_right _ _)

/-- A document is a response of its own: nothing is read. -/
theorem response_run (p : Problem) (client : Peer Received Raised) :
    ((problemResponse p).run client).asked = 0 ∧ ((problemResponse p).run client).told.filterMap Sent.status? = [p.status] := by
  unfold problemResponse responding
  simp only [Program.run, Ran.told]
  cases client.told 0 with
  | error raised => exact ⟨rfl, rfl⟩
  | ok sent =>
    show (Program.run (.tell _ _) _).asked = 0 ∧ _
    simp only [Program.run]
    cases client.toldOnce.told 0 with
    | error raised => exact ⟨rfl, rfl⟩
    | ok sent => exact ⟨rfl, rfl⟩

/-- **The body limit.**  Whatever the routes and the client do: a request that declares a larger body is answered 413 and nothing of it
is read; any other runs as it would before the client cut at the limit, of whom the routes get the limit at most, and what is within
it as it is sent.  Uploads, which have a bound of their own, are left alone. -/
theorem body_bounded (maxBodyBytes : Nat) (app : App) (scope : Scope) (client : Peer Received Raised) (hhttp : scope.http = true) :
    (artifactUpload scope.path = true → (bodyLimit maxBodyBytes app scope).run client = (app scope).run client) ∧
    (artifactUpload scope.path = false →
      (declaresMore maxBodyBytes scope = .ok true →
        ((bodyLimit maxBodyBytes app scope).run client).asked = 0 ∧
          ((bodyLimit maxBodyBytes app scope).run client).told.filterMap Sent.status? = [413]) ∧
      (declaresMore maxBodyBytes scope = .ok false →
        (bodyLimit maxBodyBytes app scope).run client = (app scope).run (cut maxBodyBytes client))) ∧
    (∀ n, bytesOf (cut maxBodyBytes client).asked n ≤ maxBodyBytes) ∧
    (∀ n, bytesOf client.asked n ≤ maxBodyBytes → ∀ k < n, (cut maxBodyBytes client).asked k = client.asked k) := by
  have limited (hpath : artifactUpload scope.path = false) : (!scope.http || artifactUpload scope.path) = false := by
    rw [hhttp, hpath]
    rfl
  refine ⟨fun hpath => ?_, fun hpath => ⟨fun hmore => ?_, fun hless => ?_⟩, fun n => (bytesOf_cut n).1, fun n hn k hk => ?_⟩
  · unfold bodyLimit
    rw [hpath, Bool.or_true, if_pos rfl]
  · have hanswer : (bodyLimit maxBodyBytes app scope).run client =
        (problemResponse (tooLargeProblem maxBodyBytes scope)).run client := by
      unfold bodyLimit
      rw [limited hpath, hmore]
      rfl
    rw [hanswer]
    exact response_run _ client
  · unfold bodyLimit
    rw [limited hpath, hless, if_neg Bool.false_ne_true, Program.run_heard, counted_cut]
  · exact if_neg fun hcut => absurd ((bytesOf_mono client.asked hk).trans hn) (Nat.not_le_of_lt hcut.2)

/-! ## What is counted, and what has an id -/

/-- What a request is counted as that raised before it was answered. -/
def Raised.status : Raised → Nat
  | .cancelled => 499
  | _ => 500

theorem notesOf_recorded (rid : String) (raised : Option Raised) (told : List Sent) :
    (recorder rid).notesOf raised true told = told.filterMap Sent.status? := by
  induction told with
  | nil => cases raised <;> rfl
  | cons message told ih =>
    cases message with
    | start status headers limits => exact congrArg (status :: ·) ih
    | body bytes => exact ih

theorem notesOf_unrecorded (rid : String) (raised : Option Raised) (told : List Sent) :
    (recorder rid).notesOf raised false told =
      if told.filterMap Sent.status? = [] then raised.toList.map Raised.status else told.filterMap Sent.status? := by
  induction told with
  | nil =>
    cases raised with
    | none => rfl
    | some raised => cases raised <;> rfl
  | cons message told ih =>
    cases message with
    | start status headers limits => exact congrArg (status :: ·) (notesOf_recorded rid raised told)
    | body bytes => exact ih

theorem mem_setDefault {headers : List (String × String)} {header : String × String} (name value : String) (h : header ∈ headers) :
    header ∈ setDefault name value headers := by
  unfold setDefault
  split
  · exact h
  · exact List.mem_append_left _ h

theorem setDefault_there (name value : String) (headers : List (String × String)) :
    ∃ given, (name, given) ∈ setDefault name value headers := by
  unfold setDefault
  split
  · next hany =>
    obtain ⟨⟨name', given⟩, hmem, hname⟩ := List.any_eq_true.1 hany
    obtain rfl : name' = name := of_decide_eq_true hname
    exact ⟨given, hmem⟩
  · exact ⟨value, List.mem_append_right _ List.mem_cons_self⟩

theorem named (rid : String) {message : Sent} {status : Nat} {headers limits : List (String × String)}
    (h : (recorder rid).words message = .start status headers limits) : ∃ given, ("x-request-id", given) ∈ headers := by
  cases message with
  | body bytes => cases h
  | start status' headers' limits' =>
    obtain ⟨given, hgiven⟩ := setDefault_there "x-request-id" rid headers'
    have hkept : ∀ (more headers : List (String × String)), ("x-request-id", given) ∈ headers →
        ("x-request-id", given) ∈ more.foldl (fun headers header => setDefault header.1.toLower header.2 headers) headers := by
      intro more
      induction more with
      | nil => exact fun _ h => h
      | cons header more ih => exact fun _ h => ih _ (mem_setDefault _ _ h)
    cases h
    exact ⟨given, hkept limits' _ hgiven⟩

end

/-- Routes that read two pieces and answer how many bytes they have, or the 413. -/
def countingRoutes : App := fun _ => .ask fun first => .ask fun second =>
  if isBody first ∧ isBody second then responding 200 [] (toString (receivedBytes first + receivedBytes second)).toUTF8.toList
  else responding 413 [] []

/-- Three bytes, and three more, of unknown length together. -/
def chunkedClient : Peer Received Raised := ⟨fun _ => .ok (.request [1, 2, 3] true), fun _ => .ok ()⟩

def chunkedScope : Scope := ⟨true, "/v1/runs", [("x-request-id", "abc")], none⟩

theorem body_bounded_chunked :
    (bodyLimit 6 countingRoutes chunkedScope).run chunkedClient = (countingRoutes chunkedScope).run (cut 6 chunkedClient) ∧
      (bodyLimit 5 countingRoutes chunkedScope).run chunkedClient = (countingRoutes chunkedScope).run (cut 5 chunkedClient) ∧
      ((countingRoutes chunkedScope).run (cut 6 chunkedClient)).told.filterMap Sent.status? = [200] ∧
      ((countingRoutes chunkedScope).run (cut 5 chunkedClient)).told.filterMap Sent.status? = [413] :=
  ⟨((body_bounded 6 countingRoutes chunkedScope chunkedClient rfl).2.1 (by decide +kernel)).2 rfl,
    ((body_bounded 5 countingRoutes chunkedScope chunkedClient rfl).2.1 (by decide +kernel)).2 rfl,
    by decide +kernel, by decide +kernel⟩

end Middleware

end AgentRuns
