import AgentRuns.Sending

/-!
# The webhook sender

`webhooks.py`, `egress.py` and `check_url`, with what each may raise: a URL is judged by `urlparse` when its
subscription is made and by `httpx.URL` when it is delivered to, and between the two stands a resolver.  `send` catches
`OSError` and `NotPublic` of the resolver and `httpx.HTTPError` of the transport; anything else leaves it, and
the batch (`send_ok_iff`).
-/

namespace AgentRuns

open Fallible Service

/-! ## What is raised -/

/-- An exception, by what catches it. -/
inductive Raised where
  /-- `OSError` -/
  | os (text : String)
  /-- `NotPublic` -/
  | notPublic (host address : String)
  /-- `httpx.ConnectError`, `httpx.ConnectTimeout` -/
  | connect (text : String)
  /-- any other `httpx.HTTPError` -/
  | http (text : String)
  /-- `sqlalchemy.exc.DBAPIError` -/
  | dbapi (text : String)
  /-- what nothing here names: `httpx.InvalidURL`, `ValueError`, `StaleDataError` -/
  | other (type text : String)
deriving DecidableEq

namespace Raised

/-- `httpx.HTTPError` -/
def isHttp : Raised → Bool
  | connect _ | http _ => true
  | _ => false

def isConnect : Raised → Bool
  | connect _ => true
  | _ => false

/-- What `send` catches of the resolver. -/
def isUnresolved : Raised → Bool
  | os _ | notPublic .. => true
  | _ => false

def text : Raised → String
  | os text | connect text | http text | dbapi text | other _ text => text
  | notPublic host address => s!"{host} resolves to {address}, which is not a public address"

end Raised

/-! ## URLs and addresses -/

/-- What `urlparse` reads of a URL. -/
structure ParsedUrl where
  scheme : String
  hostname : Option String

/-- An `httpx.URL`. -/
structure HttpxUrl where
  scheme : String
  host : String
  port : Option Nat
  target : String

def HttpxUrl.netloc (url : HttpxUrl) : String :=
  (if url.host.contains ':' then "[" ++ url.host ++ "]" else url.host) ++ (url.port.map fun p => s!":{p}").getD ""

/-- The two parsers, with the `ValueError` of the one and the `InvalidURL` of the other. -/
structure Web where
  urlparse : String → Except String ParsedUrl
  httpxUrl : String → Except String HttpxUrl

structure IpAddress where
  text : String
  isGlobal : Bool
  isMulticast : Bool

/-- An address a name resolves to. -/
structure Resolved where
  address : IpAddress
  ipv4Mapped : Option IpAddress

/-- An IPv4 address mapped into IPv6 is judged as itself. -/
def Resolved.judged (resolved : Resolved) : IpAddress := resolved.ipv4Mapped.getD resolved.address

/-- A public target. -/
def IpAddress.isPublic (address : IpAddress) : Bool := address.isGlobal && !address.isMulticast

/-- Where one attempt connects, and what its request carries to name the host there. -/
structure Target where
  url : HttpxUrl
  headers : List (String × String)
  sniHostname : Option String

/-- What an attempt meets: the resolver's answer for a host, and the transport's for a target. -/
structure Wire where
  getaddrinfo : String → Except Raised (List Resolved)
  post : Target → Except Raised Nat

/-! ## Creating -/

def schemes (allowHttp : Bool) : List String := if allowHttp then ["http", "https"] else ["https"]

/-- `WebhookCreate.check_url`. -/
def checkUrl (web : Web) (url : String) (allowHttp : Bool) : Except Raised (Except ServiceError Unit) :=
  match web.urlparse url with
  | .error text => .error (.other "ValueError" text)
  | .ok parsed => .ok (refuse (!(schemes allowHttp).contains parsed.scheme || (parsed.hostname.getD "").isEmpty)
      (.unprocessable ("url must be an absolute " ++ " or ".intercalate (schemes allowHttp) ++ " URL")))

/-- A deployment took the URL when the subscription was made. -/
def AcceptedUrl (web : Web) (url : String) : Prop := ∃ allowHttp, checkUrl web url allowHttp = .ok (.ok ())

/-! ## Sending -/

/-- `public_addresses`, of what the resolver answered: the first that is not public is refused. -/
def publicAddresses (host : String) : List Resolved → List String → Except Raised (List String)
  | [], addresses => .ok addresses
  | resolved :: rest, addresses =>
    let address := resolved.judged
    if address.isPublic then
      publicAddresses host rest (if addresses.contains address.text then addresses else addresses ++ [address.text])
    else .error (.notPublic host address.text)

def pinned (named : HttpxUrl) (address : String) : Target where
  url := { named with host := address }
  headers := [("Host", named.netloc)]
  sniHostname := some named.host

/-- A `WebhookSender`'s settings. -/
structure WebhookSender where
  allowHttp : Bool
  allowPrivate : Bool

namespace WebhookSender

/-- `httpx.URL`. -/
def httpxUrl (web : Web) (url : String) : Except Raised HttpxUrl :=
  match web.httpxUrl url with
  | .error text => .error (.other "InvalidURL" text)
  | .ok named => .ok named

/-- `_targets`. -/
def targets (sender : WebhookSender) (web : Web) (wire : Wire) (url : String) (parsed : ParsedUrl) :
    Except Raised (List Target) :=
  if sender.allowPrivate then do
    let named ← httpxUrl web url
    .ok [⟨named, [], none⟩]
  else do
    let host := parsed.hostname.getD ""
    let answer ← wire.getaddrinfo host
    let addresses ← publicAddresses host answer []
    each (fun address => do
      let named ← httpxUrl web url
      .ok (pinned named address)) addresses

/-- `_post`: each target in turn until one takes the connection. -/
def post (wire : Wire) : List Target → Except Raised Nat
  | [] => .error (.other "ValueError" "not enough values to unpack (expected at least 1, got 0)")
  | [last] => wire.post last
  | target :: rest =>
    match wire.post target with
    | .error e => if e.isConnect then post wire rest else .error e
    | .ok status => .ok status

/-- `send`: how it went, `Sent.attempt` being what is made of that. -/
def send (sender : WebhookSender) (web : Web) (wire : Wire) (url : String) : Except Raised Sent :=
  match web.urlparse url with
  | .error text => .error (.other "ValueError" text)
  | .ok parsed =>
    if !(schemes sender.allowHttp).contains parsed.scheme then .ok .refusedScheme
    else
      match sender.targets web wire url parsed with
      | .error (.os text) => .ok (.unresolved text)
      | .error (.notPublic host address) => .ok (.refusedAddress (Raised.notPublic host address).text)
      | .error e => .error e
      | .ok targets =>
        match post wire targets with
        | .error e => if e.isHttp then .ok (.unreachable e.text) else .error e
        | .ok status => .ok (.answered status)

/-- `send_all`: one that raises raises for all of them. -/
def sendAll (sender : WebhookSender) (web : Web) (wires : String → Wire) (deliveries : List Delivery) :
    Except Raised (List Sent) :=
  each (fun d => sender.send web (wires d.deliveryId) d.url) deliveries

/-! ## When a send raises -/

/-- The transport, asked for each target until one takes the connection, raises nothing but `httpx.HTTPError`. -/
def Carried (wire : Wire) (targets : List Target) : Prop :=
  targets ≠ [] ∧ ∀ front target back e, targets = front ++ target :: back →
    (∀ t ∈ front, ∃ e, wire.post t = .error e ∧ e.isConnect = true) → wire.post target = .error e → e.isHttp = true

theorem Raised.isHttp_of_isConnect {e : Raised} (h : e.isConnect = true) : e.isHttp = true := by
  cases e with
  | connect => rfl
  | os | notPublic | http | dbapi | other => cases h

/-- The transport of the targets after one that refused the connection. -/
theorem Carried.tail {wire : Wire} {target next : Target} {rest : List Target} {e : Raised} (h : Carried wire (target :: next :: rest))
    (he : wire.post target = .error e) (hc : e.isConnect = true) : Carried wire (next :: rest) := by
  refine ⟨by simp, fun front t back e' hsplit hfront => ?_⟩
  refine h.2 (target :: front) t back e' (by rw [hsplit]; rfl) fun t' ht' => ?_
  rcases List.mem_cons.1 ht' with rfl | ht'
  · exact ⟨e, he, hc⟩
  · exact hfront t' ht'

theorem carried_cons {wire : Wire} {target next : Target} {rest : List Target} {e : Raised}
    (he : wire.post target = .error e) (hc : e.isConnect = true) (h : Carried wire (next :: rest)) :
    Carried wire (target :: next :: rest) := by
  refine ⟨by simp, fun front t back e' hsplit hfront ht => ?_⟩
  cases front with
  | nil =>
    obtain ⟨rfl, -⟩ := List.cons.inj hsplit
    rw [he] at ht
    cases ht
    exact Raised.isHttp_of_isConnect hc
  | cons x front =>
    obtain ⟨rfl, htail⟩ := List.cons.inj hsplit
    exact h.2 front t back e' htail (fun t' ht' => hfront t' (List.mem_cons_of_mem _ ht')) ht

/-- A target that takes the connection, or raises something else, is the last one asked. -/
theorem carried_head {wire : Wire} {target : Target} {rest : List Target}
    (h : ∀ e, wire.post target = .error e → e.isConnect = false) :
    Carried wire (target :: rest) ↔ ∀ e, wire.post target = .error e → e.isHttp = true := by
  constructor
  · intro hc e he
    exact hc.2 [] target rest e rfl (fun t ht => by cases ht) he
  · intro hh
    refine ⟨by simp, fun front t back e hsplit hfront ht => ?_⟩
    cases front with
    | nil =>
      obtain ⟨rfl, -⟩ := List.cons.inj hsplit
      exact hh e ht
    | cons x front =>
      obtain ⟨rfl, -⟩ := List.cons.inj hsplit
      obtain ⟨e', he', hc⟩ := hfront target List.mem_cons_self
      rw [h e' he'] at hc
      cases hc

theorem post_http_iff (wire : Wire) (targets : List Target) :
    (∀ e, post wire targets = .error e → e.isHttp = true) ↔ Carried wire targets := by
  induction targets with
  | nil =>
    constructor
    · intro h
      have := h _ rfl
      cases this
    · intro h
      exact absurd rfl h.1
  | cons target rest ih =>
    cases rest with
    | nil =>
      show (∀ e, wire.post target = .error e → _) ↔ _
      constructor
      · intro h
        refine ⟨by simp, fun front t back e hsplit _ ht => ?_⟩
        cases front with
        | nil =>
          obtain ⟨rfl, -⟩ := List.cons.inj hsplit
          exact h e ht
        | cons x front => simp at hsplit
      · intro h e he
        exact h.2 [] target [] e rfl (fun t ht => by cases ht) he
    | cons next rest =>
      unfold post
      cases hpost : wire.post target with
      | ok status =>
        rw [carried_head (fun e he => by rw [hpost] at he; cases he), hpost]
      | error e =>
        cases hc : e.isConnect with
        | true =>
          simp only [hc, if_true]
          rw [ih]
          exact ⟨carried_cons hpost hc, fun h => h.tail hpost hc⟩
        | false =>
          rw [carried_head (fun e' he => by rw [hpost] at he; cases he; exact hc), hpost]
          simp [hc]

/-- `public_addresses` returns the addresses it was given when all are public, and refuses one that is not. -/
theorem publicAddresses_cases (host : String) (answer : List Resolved) : ∀ addresses : List String,
    ((∀ r ∈ answer, r.judged.isPublic = true) ∧ ∃ more, publicAddresses host answer addresses = .ok (addresses ++ more) ∧
        (addresses = [] → answer ≠ [] → more ≠ [])) ∨
      ((¬ ∀ r ∈ answer, r.judged.isPublic = true) ∧
        ∃ address, publicAddresses host answer addresses = .error (.notPublic host address)) := by
  induction answer with
  | nil =>
    intro addresses
    exact Or.inl ⟨fun r hr => (by cases hr), [], by rw [List.append_nil]; rfl, fun _ h => absurd rfl h⟩
  | cons resolved rest ih =>
    intro addresses
    unfold publicAddresses
    dsimp only
    by_cases hpublic : resolved.judged.isPublic = true
    · rw [if_pos hpublic]
      by_cases hmem : addresses.contains resolved.judged.text = true
      · rw [if_pos hmem]
        rcases ih addresses with ⟨hall, more, hok, -⟩ | ⟨hall, address, herr⟩
        · refine Or.inl ⟨?_, more, hok, fun he _ => ?_⟩
          · simpa [hpublic] using hall
          · rw [he] at hmem
            cases hmem
        · exact Or.inr ⟨by simpa [hpublic] using hall, address, herr⟩
      · rw [if_neg hmem]
        rcases ih (addresses ++ [resolved.judged.text]) with ⟨hall, more, hok, -⟩ | ⟨hall, address, herr⟩
        · refine Or.inl ⟨by simpa [hpublic] using hall, resolved.judged.text :: more, ?_, fun _ _ => by simp⟩
          rw [hok, List.append_assoc]
          rfl
        · exact Or.inr ⟨by simpa [hpublic] using hall, address, herr⟩
    · rw [if_neg hpublic]
      exact Or.inr ⟨fun hall => hpublic (hall resolved List.mem_cons_self), _, rfl⟩

/-- The URL is parsed again: private targets are allowed, or the host resolves, to public addresses only. -/
def Aimed (sender : WebhookSender) (wire : Wire) (parsed : ParsedUrl) : Prop :=
  sender.allowPrivate = true ∨ ∃ answer, wire.getaddrinfo (parsed.hostname.getD "") = .ok answer ∧ answer ≠ [] ∧
    ∀ r ∈ answer, r.judged.isPublic = true

/-- What a send rests on, to a URL of a scheme the deployment delivers to. -/
structure Sendable (sender : WebhookSender) (web : Web) (wire : Wire) (url : String) (parsed : ParsedUrl) : Prop where
  /-- the resolver raises nothing but `OSError` -/
  resolves : sender.allowPrivate = false → ∀ e, wire.getaddrinfo (parsed.hostname.getD "") = .error e → e.isUnresolved = true
  /-- `httpx.URL` takes the URL -/
  parses : sender.Aimed wire parsed → ∃ named, web.httpxUrl url = .ok named
  /-- there is a target, and the transport raises nothing but `httpx.HTTPError` -/
  carries : ∀ targets, sender.targets web wire url parsed = .ok targets → Carried wire targets

section
variable {sender : WebhookSender} {web : Web} {wire : Wire} {url : String} {parsed : ParsedUrl}

theorem httpxUrl_ok {named : HttpxUrl} (h : web.httpxUrl url = .ok named) : httpxUrl web url = .ok named := by
  unfold httpxUrl
  rw [h]

theorem httpxUrl_error {text : String} (h : web.httpxUrl url = .error text) :
    httpxUrl web url = .error (.other "InvalidURL" text) := by
  unfold httpxUrl
  rw [h]

/-- Where private targets are allowed, only `httpx.URL` may raise. -/
theorem targets_private (hp : sender.allowPrivate = true) :
    (∀ e, sender.targets web wire url parsed = .error e → e.isUnresolved = true) ↔
      (sender.Aimed wire parsed → ∃ named, web.httpxUrl url = .ok named) := by
  have haimed : sender.Aimed wire parsed := Or.inl hp
  unfold targets
  rw [if_pos hp]
  cases h : web.httpxUrl url with
  | ok named =>
    rw [httpxUrl_ok h]
    exact ⟨fun _ _ => ⟨named, rfl⟩, fun _ e he => (by cases he)⟩
  | error text =>
    rw [httpxUrl_error h]
    constructor
    · intro hall
      have := hall _ rfl
      cases this
    · intro hok
      obtain ⟨named, hnamed⟩ := hok haimed
      cases hnamed

/-- Else the resolver too. -/
theorem targets_public (hp : sender.allowPrivate = false) :
    (∀ e, sender.targets web wire url parsed = .error e → e.isUnresolved = true) ↔
      (∀ e, wire.getaddrinfo (parsed.hostname.getD "") = .error e → e.isUnresolved = true) ∧
        (sender.Aimed wire parsed → ∃ named, web.httpxUrl url = .ok named) := by
  unfold targets Aimed
  rw [if_neg (by rw [hp]; simp), hp]
  dsimp only
  cases hinfo : wire.getaddrinfo (parsed.hostname.getD "") with
  | error e =>
    rw [error_bind]
    simp
  | ok answer =>
    rw [ok_bind]
    rcases publicAddresses_cases (parsed.hostname.getD "") answer [] with ⟨hall, more, hok, hne⟩ | ⟨hall, address, herr⟩
    · rw [hok, ok_bind, List.nil_append]
      cases h : web.httpxUrl url with
      | ok named =>
        obtain ⟨targets, htargets⟩ := @each_total _ _ _ (fun address => do
            let named ← httpxUrl web url
            .ok (pinned named address)) more fun address _ => ⟨pinned named address, by rw [httpxUrl_ok h]; rfl⟩
        rw [htargets]
        exact ⟨fun _ => ⟨fun e he => (by cases he), fun _ => ⟨named, rfl⟩⟩, fun _ e he => (by cases he)⟩
      | error text =>
        rw [httpxUrl_error h]
        cases answer with
        | nil =>
          -- no address: nothing is parsed
          obtain rfl : more = [] := (Except.ok.inj hok).symm
          refine ⟨fun _ => ⟨fun e he => (by cases he), ?_⟩, fun _ e he => (by cases he)⟩
          rintro (hfalse | ⟨answer, heq, hne, -⟩)
          · cases hfalse
          · cases heq
            exact absurd rfl hne
        | cons r rest =>
          -- the first address is pinned
          cases more with
          | nil => exact absurd rfl (hne rfl (by simp))
          | cons address more =>
            constructor
            · intro herr
              have := herr _ rfl
              cases this
            · rintro ⟨-, hparse⟩
              obtain ⟨named, hnamed⟩ := hparse (Or.inr ⟨r :: rest, rfl, by simp, hall⟩)
              cases hnamed
    · rw [herr, error_bind]
      constructor
      · intro _
        refine ⟨fun e he => (by cases he), ?_⟩
        rintro (hfalse | ⟨answer', heq, -, hpublic⟩)
        · cases hfalse
        · cases heq
          exact absurd hpublic hall
      · rintro - e he
        cases he
        rfl

/-- **A send raises exactly where the URL, the resolver or the transport does what `send` does not catch.** -/
theorem send_ok_iff (hurl : web.urlparse url = .ok parsed) :
    (∃ sent, sender.send web wire url = .ok sent) ↔
      ((schemes sender.allowHttp).contains parsed.scheme = true → sender.Sendable web wire url parsed) := by
  have hdone : (∃ sent, sender.send web wire url = .ok sent) ↔
      ((schemes sender.allowHttp).contains parsed.scheme = true →
        (∀ e, sender.targets web wire url parsed = .error e → e.isUnresolved = true) ∧
          ∀ targets, sender.targets web wire url parsed = .ok targets →
            ∀ e, post wire targets = .error e → e.isHttp = true) := by
    unfold send
    rw [hurl]
    dsimp only
    cases hscheme : (schemes sender.allowHttp).contains parsed.scheme with
    | false => simp
    | true =>
      simp only [Bool.not_true, Bool.false_eq_true, if_false, forall_const]
      cases htargets : sender.targets web wire url parsed with
      | error e =>
        cases e <;> simp [Raised.isUnresolved]
      | ok targets =>
        dsimp only
        cases hpost : post wire targets with
        | ok status => simp [hpost]
        | error e => cases hh : e.isHttp <;> simp [hpost, hh]
  rw [hdone]
  refine forall_congr' fun _ => ?_
  have hcarries : (∀ targets, sender.targets web wire url parsed = .ok targets →
      ∀ e, post wire targets = .error e → e.isHttp = true) ↔
        ∀ targets, sender.targets web wire url parsed = .ok targets → Carried wire targets :=
    forall_congr' fun targets => imp_congr_right fun _ => post_http_iff wire targets
  rw [hcarries]
  cases hp : sender.allowPrivate with
  | true =>
    rw [targets_private hp]
    exact ⟨fun h => ⟨fun hf => (by rw [hp] at hf; cases hf), h.1, h.2⟩, fun h => ⟨h.parses, h.carries⟩⟩
  | false =>
    rw [targets_public hp]
    exact ⟨fun h => ⟨fun _ => h.1.1, h.1.2, h.2⟩, fun h => ⟨⟨h.resolves hp, h.parses⟩, h.carries⟩⟩

end

end WebhookSender

end AgentRuns
