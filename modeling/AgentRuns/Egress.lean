import AgentRuns.Sender

/-!
# Where an attempt connects

One attempt of `WebhookSender.send`, with what it does on the network in the order it does it.  The resolver and the
receivers may answer differently each time they are asked: they see all that was done before.

    attempt ⟨allowHttp, false⟩ web network url     resolves once, then connects to addresses of that answer only, all of
                                                   them public; the first response is the last thing it meets
                                                                                                (connects_checked)
-/

namespace AgentRuns

open Fallible

/-! ## The network -/

/-- What reaches the network: a name is resolved, or a host connected to and sent the request. -/
inductive NetworkAct where
  | resolve (host : String)
  | connect (url : HttpxUrl)

/-- A response: its status, and the URL of its `Location`. -/
structure HttpResponse where
  status : Nat
  location : Option HttpxUrl

/-- The resolver, and what there is at a URL, after what was done before. -/
structure Network where
  getaddrinfo : List NetworkAct → String → Except Raised (List Resolved)
  answer : List NetworkAct → HttpxUrl → Except Raised HttpResponse

/-- A result, and all that was done on the way. -/
abbrev Did (α : Type) := Except Raised α × List NetworkAct

/-- `has_redirect_location` -/
def HttpResponse.redirect (response : HttpResponse) : Option HttpxUrl :=
  if [301, 302, 303, 307, 308].contains response.status then response.location else none

namespace Network

variable (network : Network)

/-- `AsyncClient.send`: the request goes to the URL's host, and on to where it is redirected, when redirects are
followed, at most so many times. -/
def client (followRedirects : Bool) (maxRedirects : Nat) (url : HttpxUrl) (done : List NetworkAct) : Did HttpResponse :=
  match network.answer done url with
  | .error e => (.error e, done ++ [.connect url])
  | .ok response =>
    match followRedirects, response.redirect with
    | true, some next =>
      match maxRedirects with
      | 0 => (.error (.http "Exceeded maximum allowed redirects."), done ++ [.connect url])
      | more + 1 => client followRedirects more next (done ++ [.connect url])
    | _, _ => (.ok response, done ++ [.connect url])

/-- `_send_to` -/
def sendTo (target : Target) (done : List NetworkAct) : Did HttpResponse := network.client false 20 target.url done

/-- `_post` -/
def post : List Target → List NetworkAct → Did HttpResponse
  | [], done => (.error (.other "ValueError" "not enough values to unpack (expected at least 1, got 0)"), done)
  | [last], done => network.sendTo last done
  | target :: rest, done =>
    match network.sendTo target done with
    | (.error e, done) => if e.isConnect then post rest done else (.error e, done)
    | (.ok response, done) => (.ok response, done)

/-- What an attempt meets of it, at its start. -/
def wire : Wire where
  getaddrinfo := network.getaddrinfo []
  post target := (network.answer [] target.url).map (·.status)

end Network

/-- `send` -/
def WebhookSender.attempt (sender : WebhookSender) (web : Web) (network : Network) (url : String) : Did Sent :=
  match web.urlparse url with
  | .error text => (.error (.other "ValueError" text), [])
  | .ok parsed =>
    if !(schemes sender.allowHttp).contains parsed.scheme then (.ok .refusedScheme, [])
    else
      let done := if sender.allowPrivate then [] else [.resolve (parsed.hostname.getD "")]
      match sender.targets web network.wire url parsed with
      | .error (.os text) => (.ok (.unresolved text), done)
      | .error (.notPublic host address) => (.ok (.refusedAddress (Raised.notPublic host address).text), done)
      | .error e => (.error e, done)
      | .ok targets =>
        match network.post targets done with
        | (.error e, done) => (if e.isHttp then .ok (.unreachable e.text) else .error e, done)
        | (.ok response, done) => (.ok (.answered response.status), done)

namespace Network

variable {network : Network}

/-! ## One request -/

/-- It is sent once, to where it is sent: what it is answered is what comes back, a redirect too. -/
theorem sendTo_eq (target : Target) (done : List NetworkAct) :
    network.sendTo target done = (network.answer done target.url, done ++ [.connect target.url]) := by
  show network.client false 20 target.url done = _
  unfold client
  split
  · next e h => rw [h]
  · next response h => rw [h]

/-- What the requests of an attempt came to: to each target in turn until one answers, or raises anything but that it
cannot be connected to. -/
theorem post_spec (targets : List Target) : ∀ done : List NetworkAct,
    ∃ front back : List Target, targets = front ++ back ∧
      (network.post targets done).2 = done ++ front.map (fun t => NetworkAct.connect t.url) ∧
      ∀ u target w response, front = u ++ target :: w →
        network.answer (done ++ u.map fun t => NetworkAct.connect t.url) target.url = .ok response →
          w = [] ∧ (network.post targets done).1 = .ok response := by
  induction targets with
  | nil =>
    intro done
    exact ⟨[], [], rfl, (List.append_nil done).symm, fun u target w response h => by simp at h⟩
  | cons target rest ih =>
    intro done
    have hlast : (network.post (target :: rest) done) = network.sendTo target done →
        ∃ front back : List Target, target :: rest = front ++ back ∧
          (network.post (target :: rest) done).2 = done ++ front.map (fun t => NetworkAct.connect t.url) ∧
          ∀ u target' w response, front = u ++ target' :: w →
            network.answer (done ++ u.map fun t => NetworkAct.connect t.url) target'.url = .ok response →
              w = [] ∧ (network.post (target :: rest) done).1 = .ok response := by
      intro h
      refine ⟨[target], rest, rfl, ?_, fun u target' w response hsplit hanswer => ?_⟩
      · rw [h, sendTo_eq]
        rfl
      · cases u with
        | nil =>
          obtain ⟨rfl, rfl⟩ := List.cons.inj hsplit
          rw [List.map_nil, List.append_nil] at hanswer
          rw [h, sendTo_eq]
          exact ⟨rfl, hanswer⟩
        | cons x u => simp at hsplit
    cases rest with
    | nil => exact hlast rfl
    | cons next rest =>
      have hpost : network.post (target :: next :: rest) done =
          match network.sendTo target done with
          | (.error e, done) => if e.isConnect then network.post (next :: rest) done else (.error e, done)
          | (.ok response, done) => (.ok response, done) := rfl
      rw [sendTo_eq] at hpost
      cases hanswer : network.answer done target.url with
      | ok response =>
        rw [hanswer] at hpost
        exact hlast (by rw [hpost, sendTo_eq, hanswer])
      | error e =>
        rw [hanswer] at hpost
        dsimp only at hpost
        by_cases hc : e.isConnect = true
        · rw [if_pos hc] at hpost
          obtain ⟨front, back, hsplit, hdone, hfirst⟩ := ih (done ++ [.connect target.url])
          refine ⟨target :: front, back, by rw [hsplit]; rfl, ?_, fun u target' w response hu hresponse => ?_⟩
          · rw [hpost, hdone, List.map_cons, List.append_assoc]
            rfl
          · cases u with
            | nil =>
              obtain ⟨rfl, -⟩ := List.cons.inj hu
              rw [List.map_nil, List.append_nil, hanswer] at hresponse
              cases hresponse
            | cons x u =>
              obtain ⟨rfl, hrest⟩ := List.cons.inj hu
              rw [hpost]
              refine hfirst u target' w response hrest ?_
              rw [List.append_assoc]
              exact hresponse
        · rw [if_neg hc] at hpost
          exact hlast (by rw [hpost, sendTo_eq, hanswer])

end Network

/-! ## The check -/

/-- The addresses are those of the answer, and all of them public. -/
theorem publicAddresses_ok {host : String} {answer : List Resolved} : ∀ {addresses checked : List String},
    publicAddresses host answer addresses = .ok checked → (∀ r ∈ answer, r.judged.isPublic = true) ∧
      ∀ a ∈ checked, a ∈ addresses ∨ ∃ r ∈ answer, r.judged.text = a := by
  induction answer with
  | nil =>
    intro addresses checked h
    cases h
    exact ⟨fun r hr => (by cases hr), fun a ha => .inl ha⟩
  | cons resolved rest ih =>
    intro addresses checked h
    unfold publicAddresses at h
    dsimp only at h
    split at h
    · next hpublic =>
      obtain ⟨hall, hmem⟩ := ih h
      refine ⟨fun r hr => ?_, fun a ha => ?_⟩
      · rcases List.mem_cons.1 hr with rfl | hr
        · exact hpublic
        · exact hall r hr
      · rcases hmem a ha with ha | ⟨r, hr, hra⟩
        · split at ha
          · exact .inl ha
          · rcases List.mem_append.1 ha with ha | ha
            · exact .inl ha
            · exact .inr ⟨resolved, List.mem_cons_self, (List.mem_singleton.1 ha).symm⟩
        · exact .inr ⟨r, List.mem_cons_of_mem _ hr, hra⟩
    · cases h

namespace WebhookSender

variable {allowHttp : Bool} {web : Web} {wire : Wire} {url : String} {parsed : ParsedUrl} {targets : List Target}

/-- Each target is an address of the one answer there was. -/
theorem targets_checked (h : (WebhookSender.mk allowHttp false).targets web wire url parsed = .ok targets) :
    ∃ answer, wire.getaddrinfo (parsed.hostname.getD "") = .ok answer ∧ (∀ r ∈ answer, r.judged.isPublic = true) ∧
      ∀ t ∈ targets, ∃ r ∈ answer, r.judged.text = t.url.host := by
  unfold WebhookSender.targets at h
  rw [if_neg Bool.false_ne_true] at h
  obtain ⟨answer, hanswer, h⟩ := bind_ok.1 h
  obtain ⟨addresses, haddresses, h⟩ := bind_ok.1 h
  obtain ⟨hall, hmem⟩ := publicAddresses_ok haddresses
  refine ⟨answer, hanswer, hall, fun t ht => ?_⟩
  obtain ⟨address, haddress, ht⟩ := exists_of_mem_right (each_ok.1 h) ht
  obtain ⟨named, -, ht⟩ := bind_ok.1 ht
  cases ht
  rcases hmem address haddress with hnil | hr
  · cases hnil
  · exact hr

/-! ## One attempt -/

/-- What an attempt does on the network, where private targets are not allowed. -/
structure Connects (network : Network) (result : Except Raised Sent) (done : List NetworkAct) : Prop where
  /-- it resolves at most one name, and connects to addresses of the answer, when all of that are public -/
  resolved : done = [] ∨ ∃ host urls, done = .resolve host :: urls.map NetworkAct.connect ∧ (urls ≠ [] →
    ∃ answer, network.getaddrinfo [] host = .ok answer ∧ (∀ r ∈ answer, r.judged.isPublic = true) ∧
      ∀ url ∈ urls, ∃ r ∈ answer, r.judged.text = url.host)
  /-- else it sends nothing -/
  refused : ∀ host answer, NetworkAct.resolve host ∈ done → network.getaddrinfo [] host = .ok answer →
    (answer = [] ∨ ¬ ∀ r ∈ answer, r.judged.isPublic = true) → ∀ url, NetworkAct.connect url ∉ done
  /-- the first response, be it a redirect, is its answer -/
  answered : ∀ front url back response, done = front ++ .connect url :: back → network.answer front url = .ok response →
    back = [] ∧ result = .ok (.answered response.status)

theorem Connects.none (network : Network) (result : Except Raised Sent) : Connects network result [] :=
  ⟨.inl rfl, fun host answer h => (by cases h), fun front url back response h => (by simp at h)⟩

theorem Connects.unsent (network : Network) (result : Except Raised Sent) (host : String) :
    Connects network result [.resolve host] := by
  refine ⟨.inr ⟨host, [], rfl, fun h => absurd rfl h⟩, fun host' answer _ _ _ url hmem => ?_, fun front url back response h _ => ?_⟩
  · cases List.mem_singleton.1 hmem
  · cases front with
    | nil => cases h
    | cons x front =>
      have hlen := congrArg List.length h
      simp at hlen

/-- The requests of an attempt whose targets were checked. -/
theorem connects_post {network : Network} {host : String}
    (hchecked : ∃ answer, network.getaddrinfo [] host = .ok answer ∧ (∀ r ∈ answer, r.judged.isPublic = true) ∧
      ∀ t ∈ targets, ∃ r ∈ answer, r.judged.text = t.url.host) {result : Except Raised Sent}
    (hresult : ∀ response, (network.post targets [.resolve host]).1 = .ok response → result = .ok (.answered response.status)) :
    Connects network result (network.post targets [.resolve host]).2 := by
  obtain ⟨answer, hanswer, hall, htargets⟩ := hchecked
  obtain ⟨front, back, hsplit, hdone, hfirst⟩ := network.post_spec targets [.resolve host]
  rw [hdone]
  have hfront : ∀ t ∈ front, t ∈ targets := fun t ht => by rw [hsplit]; exact List.mem_append_left _ ht
  refine ⟨.inr ⟨host, front.map (·.url), by rw [List.map_map]; rfl, fun _ => ⟨answer, hanswer, hall, ?_⟩⟩, ?_, ?_⟩
  · intro url hurl
    obtain ⟨t, ht, rfl⟩ := List.mem_map.1 hurl
    exact htargets t (hfront t ht)
  · intro host' answer' hresolve hanswer' hbad url hconnect
    have hhost : host' = host := by simpa using hresolve
    subst hhost
    rw [hanswer] at hanswer'
    cases hanswer'
    obtain ⟨t, ht, -⟩ : ∃ t ∈ front, NetworkAct.connect t.url = .connect url := by simpa using hconnect
    obtain ⟨r, hr, -⟩ := htargets t (hfront t ht)
    rcases hbad with rfl | hbad
    · cases hr
    · exact hbad hall
  · intro before url after response hat hresponse
    cases before with
    | nil => cases hat
    | cons x before =>
      obtain ⟨rfl, htail⟩ := List.cons.inj hat
      obtain ⟨u, rest, rfl, hu, hrest⟩ := List.map_eq_append_iff.1 htail
      obtain ⟨t, w, rfl, ht, hw⟩ := List.map_eq_cons_iff.1 hrest
      cases ht
      subst hu hw
      obtain ⟨rfl, hok⟩ := hfirst u t w response rfl hresponse
      exact ⟨rfl, hresult response hok⟩

/-- **Every attempt, whatever its URL and however the resolver and the receivers behave.** -/
theorem connects_checked (allowHttp : Bool) (web : Web) (network : Network) (url : String) :
    Connects network ((WebhookSender.mk allowHttp false).attempt web network url).1
      ((WebhookSender.mk allowHttp false).attempt web network url).2 := by
  unfold attempt
  split
  · exact .none network _
  · next parsed _ =>
    split
    · exact .none network _
    · dsimp only
      rw [if_neg Bool.false_ne_true]
      split
      · exact .unsent network _ _
      · exact .unsent network _ _
      · exact .unsent network _ _
      · next targets htargets =>
        have hchecked := targets_checked htargets
        have hdone := fun result => @connects_post _ network (parsed.hostname.getD "") hchecked result
        cases hpost : network.post targets [.resolve (parsed.hostname.getD "")] with
        | mk result done =>
          rw [hpost] at hdone
          cases result with
          | error e => exact hdone _ fun response h => by cases h
          | ok response => exact hdone _ fun response' h => by cases h; rfl

/-! ## What it comes to -/

theorem map_post {network : Network} (hsame : ∀ done url, network.answer done url = network.answer [] url)
    (targets : List Target) : ∀ done : List NetworkAct,
    (network.post targets done).1.map (·.status) = WebhookSender.post network.wire targets := by
  induction targets with
  | nil => intro done; rfl
  | cons target rest ih =>
    intro done
    cases rest with
    | nil =>
      show (network.sendTo target done).1.map _ = network.wire.post target
      rw [Network.sendTo_eq, hsame]
      rfl
    | cons next rest =>
      have hwire : network.wire.post target = (network.answer [] target.url).map (·.status) := rfl
      unfold WebhookSender.post Network.post
      rw [Network.sendTo_eq, hsame, hwire]
      cases hanswer : network.answer [] target.url with
      | ok response => rfl
      | error e =>
        dsimp only [Except.map]
        by_cases hc : e.isConnect = true
        · rw [if_pos hc, if_pos hc]
          exact ih _
        · rw [if_neg hc, if_neg hc]

/-- On a network that answers a URL one way, an attempt ends as `send` does. -/
theorem attempt_send {network : Network} (hsame : ∀ done url, network.answer done url = network.answer [] url)
    (sender : WebhookSender) (web : Web) (url : String) :
    (sender.attempt web network url).1 = sender.send web network.wire url := by
  unfold attempt send
  cases web.urlparse url with
  | error text => rfl
  | ok parsed =>
    dsimp only
    by_cases hscheme : (!(schemes sender.allowHttp).contains parsed.scheme) = true
    · rw [if_pos hscheme, if_pos hscheme]
    · rw [if_neg hscheme, if_neg hscheme]
      cases sender.targets web network.wire url parsed with
      | error e => cases e <;> rfl
      | ok targets =>
        let done : List NetworkAct := if sender.allowPrivate then [] else [.resolve (parsed.hostname.getD "")]
        have hmap := map_post hsame targets done
        show (match network.post targets done with
          | (.error e, done) => (if e.isHttp then .ok (.unreachable e.text) else .error e, done)
          | (.ok response, done) => (.ok (.answered response.status), done) : Did Sent).1 = _
        dsimp only
        rw [← hmap]
        cases network.post targets done with
        | mk result done =>
          cases result with
          | error e => rfl
          | ok response => rfl

end WebhookSender

end AgentRuns
