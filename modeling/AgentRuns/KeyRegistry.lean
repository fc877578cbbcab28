import AgentRuns.Answering
import AgentRuns.OrderedDict
import AgentRuns.PyText
import AgentRuns.Sha256
import AgentRuns.Timeline
import Mathlib.Data.Set.Function

/-!
# Whose a key is

`KeyRegistry.resolve` of `keys.py`: the registry is asked, and its answers are kept for a while in an ordered
dictionary under the SHA-256 of the key.  Calls run side by side, the registry answering each whenever it does; a call
is in two parts, before and after its introspection, and nothing comes between the steps of a part.

    call apiKey      up to the introspection, or to the end when the cache has the answer
    reply i reply    the registry's reply to call `i`, and the rest of the call

An answer is out of date from `ttl` after the call it was asked for in began, however long the registry took
(`cached_answers_fresh`).
-/

namespace AgentRuns

open Relational Timed PyText Sha256

/-! ## The registry's answers -/

def keyCacheSeconds : Rat := 60
def keyNegativeCacheSeconds : Rat := 10
def maxCachedKeys : Nat := 10000

/-- `KeyInfo`, with what nothing here decides by: its id, and the tenant it speaks for. -/
structure RegisteredKey extends KeyInfo where
  keyId : String
  tenantId : Option String

/-- What `resolve` raises. -/
inductive KeyError where
  | unauthorized (detail : String)
  | forbidden (detail : String)
  | unavailable (detail : String)
  /-- what nothing here raises or catches -/
  | other (text : String)
deriving DecidableEq

/-- What `_introspect` returns: who it is, or the refusal to raise. -/
inductive KeyAnswer where
  | known (key : RegisteredKey)
  | refused (error : KeyError)

/-- What came of a request to the registry. -/
inductive RegistryReply where
  | response (status : Nat) (content : List UInt8)
  | httpError
  | raised (text : String)

/-- A call of `resolve`. -/
inductive Asking where
  | waiting (apiKey digest : List Nat) (start : Rat)
  | returned (result : Except KeyError RegisteredKey)

namespace KeyAnswer

def ttl : KeyAnswer → Rat
  | known _ => keyCacheSeconds
  | refused _ => keyNegativeCacheSeconds

def result : KeyAnswer → Except KeyError RegisteredKey
  | known key => .ok key
  | refused error => .error error

end KeyAnswer

structure CachedAnswer where
  expires : Rat
  answer : KeyAnswer

structure KeyRegistry where
  cache : OrderedDict (List Nat) CachedAnswer
  asking : List Asking

inductive KeyAct where
  | call (apiKey : List Nat)
  | reply (i : Nat) (reply : RegistryReply)

/-- `sha256(api_key.encode()).hexdigest()` -/
def digestOf (apiKey : List Nat) : Option (List Nat) := (encode apiKey).map fun bytes => hex (sha256 bytes)

namespace KeyRegistry

-- `KeyInfo.model_validate_json`
variable (validate : List UInt8 → Option RegisteredKey)

def introspect : RegistryReply → Except KeyError KeyAnswer
  | .httpError => .error (.unavailable "the key registry (memory service) is unreachable")
  | .raised text => .error (.other text)
  | .response status content =>
    if status = 401 then .ok (.refused (.unauthorized "unknown api key"))
    else if status = 403 then .ok (.refused (.forbidden "the key registry refuses this api key"))
    else if ¬ (200 ≤ status ∧ status ≤ 299) then
      .error (.unavailable s!"the key registry (memory service) answered {status}")
    else
      match validate content with
      | none => .error (.unavailable "the key registry (memory service) answered malformed")
      | some key => .ok (.known key)

/-- A registry nobody asked yet. -/
def empty : KeyRegistry := ⟨Table.empty, []⟩

/-- The answer the cache has, if it is still good. -/
def cached (s : KeyRegistry) (now : Rat) (digest : List Nat) : Option KeyAnswer :=
  match s.cache.get? digest with
  | none => none
  | some entry => if now < entry.expires then some entry.answer else none

def call (s : KeyRegistry) (now : Rat) (apiKey : List Nat) : KeyRegistry :=
  match digestOf apiKey with
  | none => { s with asking := s.asking ++ [.returned (.error (.other "UnicodeEncodeError"))] }
  | some digest =>
    match s.cached now digest with
    | some answer => ⟨s.cache.moveToEnd digest, s.asking ++ [.returned answer.result]⟩
    | none => { s with asking := s.asking ++ [.waiting apiKey digest now] }

def reply (s : KeyRegistry) (i : Nat) (reply : RegistryReply) : KeyRegistry :=
  match s.asking[i]? with
  | some (.waiting _ digest start) =>
    match introspect validate reply with
    | .error error => { s with asking := s.asking.set i (.returned (.error error)) }
    | .ok answer =>
      ⟨((s.cache.set digest ⟨start + answer.ttl, answer⟩).moveToEnd digest).evict maxCachedKeys,
        s.asking.set i (.returned answer.result)⟩
  | _ => s

def step (s : KeyRegistry) (now : Rat) : KeyAct → KeyRegistry
  | .call apiKey => s.call now apiKey
  | .reply i reply => s.reply validate i reply

/-! ## What the cache may hold -/

/-- One request to the registry, and what came of it: the key asked about, and when its call began. -/
structure Introspection where
  apiKey : List Nat
  start : Rat
  reply : RegistryReply

/-- The requests a step ends. -/
def introspections (s : KeyRegistry) (_ : Rat) : KeyAct → List Introspection
  | .call _ => []
  | .reply i reply =>
    match s.asking[i]? with
    | some (.waiting apiKey _ start) => [⟨apiKey, start, reply⟩]
    | _ => []

/-- The keys asked about. -/
def keysOf (l : List (Rat × KeyAct)) : Set (List Nat) := {apiKey | ∃ now, (now, KeyAct.call apiKey) ∈ l}

/-- No two of these keys have one digest. -/
def DistinctDigests (keys : Set (List Nat)) : Prop :=
  ∀ a ∈ keys, ∀ b ∈ keys, ∀ x y, encode a = some x → encode b = some y → sha256 x = sha256 y → x = y

theorem digestOf_inj {keys : Set (List Nat)} {a b digest : List Nat} (hfree : DistinctDigests keys) (ha : a ∈ keys)
    (hb : b ∈ keys) (hda : digestOf a = some digest) (hdb : digestOf b = some digest) : a = b := by
  obtain ⟨x, hx, hdx⟩ := Option.map_eq_some_iff.1 hda
  obtain ⟨y, hy, hdy⟩ := Option.map_eq_some_iff.1 hdb
  have hxy := hfree a ha b hb x y hx hy (hex_inj (hdx.trans hdy.symm))
  subst hxy
  exact encode_injective hx hy

/-- What the registry said of a key: who it is, or that it does not know it, or refuses it. -/
def Says : RegistryReply → KeyAnswer → Prop
  | .response status content, .known key => 200 ≤ status ∧ status ≤ 299 ∧ validate content = some key
  | .response status _, .refused error =>
    (status = 401 ∧ error = .unauthorized "unknown api key") ∨
      (status = 403 ∧ error = .forbidden "the key registry refuses this api key")
  | .httpError, _ => False
  | .raised _, _ => False

/-- A registry that cannot be asked, or makes no sense, gives no answer. -/
theorem introspect_ok {reply : RegistryReply} {answer : KeyAnswer} (h : introspect validate reply = .ok answer) :
    Says validate reply answer := by
  cases reply with
  | httpError => cases h
  | raised text => cases h
  | response status content =>
    unfold introspect at h
    dsimp only at h
    split at h
    · next h401 => cases h; exact .inl ⟨h401, rfl⟩
    · split at h
      · next h403 => cases h; exact .inr ⟨h403, rfl⟩
      · split at h
        · cases h
        · next hok =>
          split at h
          · cases h
          · next key hkey =>
            cases h
            have hrange := not_not.1 hok
            exact ⟨hrange.1, hrange.2, hkey⟩

/-- Of the requests of `asked`, one gave the entry; it is about a key with that digest. -/
def Recorded (asked : List Introspection) (item : List Nat × CachedAnswer) : Prop :=
  ∃ x ∈ asked, digestOf x.apiKey = some item.1 ∧ introspect validate x.reply = .ok item.2.answer ∧
    item.2.expires = x.start + item.2.answer.ttl

/-- What is so after the calls and replies of `l`, which ended the requests of `asked`. -/
structure Inv (l : List (Rat × KeyAct)) (asked : List Introspection) (s : KeyRegistry) : Prop where
  recorded : ∀ item ∈ s.cache.rows, Recorded validate asked item
  waiting : ∀ apiKey digest start, Asking.waiting apiKey digest start ∈ s.asking →
    digestOf apiKey = some digest ∧ (start, KeyAct.call apiKey) ∈ l
  asked : ∀ x ∈ asked, (x.start, KeyAct.call x.apiKey) ∈ l
  bounded : s.cache.rows.length ≤ maxCachedKeys

section
variable {validate : List UInt8 → Option RegisteredKey} {l : List (Rat × KeyAct)} {asked : List Introspection}
  {s : KeyRegistry} {now : Rat}

theorem Recorded.mono {item : List Nat × CachedAnswer} (h : Recorded validate asked item) (x : Introspection) :
    Recorded validate (asked ++ [x]) item := by
  obtain ⟨y, hy, h⟩ := h
  exact ⟨y, List.mem_append_left _ hy, h⟩

theorem Inv.call (hi : Inv validate l asked s) (apiKey : List Nat) :
    Inv validate (l ++ [(now, .call apiKey)]) asked (s.call now apiKey) := by
  have hasked : ∀ x ∈ asked, (x.start, KeyAct.call x.apiKey) ∈ l ++ [(now, .call apiKey)] :=
    fun x hx => List.mem_append_left _ (hi.asked x hx)
  have hwaiting : ∀ entry, (∀ key digest start, entry = Asking.waiting key digest start →
      digestOf key = some digest ∧ key = apiKey ∧ start = now) → ∀ key digest start,
      Asking.waiting key digest start ∈ s.asking ++ [entry] →
        digestOf key = some digest ∧ (start, KeyAct.call key) ∈ l ++ [(now, .call apiKey)] := by
    intro entry hentry key digest start hmem
    rcases List.mem_append.1 hmem with hmem | hmem
    · obtain ⟨hdigest, hl⟩ := hi.waiting key digest start hmem
      exact ⟨hdigest, List.mem_append_left _ hl⟩
    · obtain ⟨hdigest, rfl, rfl⟩ := hentry key digest start (List.mem_singleton.1 hmem).symm
      exact ⟨hdigest, List.mem_append_right _ List.mem_cons_self⟩
  unfold KeyRegistry.call
  split
  · exact ⟨hi.recorded, hwaiting _ (fun _ _ _ h => by cases h), hasked, hi.bounded⟩
  · next digest hdigest =>
    split
    · exact ⟨fun item h => hi.recorded item (OrderedDict.mem_moveToEnd h), hwaiting _ (fun _ _ _ h => by cases h), hasked,
        OrderedDict.length_moveToEnd.trans hi.bounded⟩
    · refine ⟨hi.recorded, hwaiting _ (fun key digest' start h => ?_), hasked, hi.bounded⟩
      cases h
      exact ⟨hdigest, rfl, rfl⟩

/-- What an introspection leaves of who waits. -/
theorem Inv.settled (hi : Inv validate l asked s) {act : KeyAct} {i : Nat} {result : Except KeyError RegisteredKey} :
    ∀ apiKey digest start, Asking.waiting apiKey digest start ∈ s.asking.set i (.returned result) →
      digestOf apiKey = some digest ∧ (start, KeyAct.call apiKey) ∈ l ++ [(now, act)] := by
  intro apiKey digest start hmem
  rcases List.mem_or_eq_of_mem_set hmem with hmem | h
  · obtain ⟨hdigest, hl⟩ := hi.waiting apiKey digest start hmem
    exact ⟨hdigest, List.mem_append_left _ hl⟩
  · cases h

/-- A reply is of no call that waits, or it ends one: it raises and leaves the cache, or its answer is kept. -/
theorem reply_cases (validate : List UInt8 → Option RegisteredKey) (s : KeyRegistry) (now : Rat) (i : Nat)
    (reply : RegistryReply) :
    (s.reply validate i reply = s ∧ s.introspections now (.reply i reply) = []) ∨
      ∃ apiKey digest start, Asking.waiting apiKey digest start ∈ s.asking ∧
        s.introspections now (.reply i reply) = [⟨apiKey, start, reply⟩] ∧
        ((∃ error, introspect validate reply = .error error ∧
            s.reply validate i reply = { s with asking := s.asking.set i (.returned (.error error)) }) ∨
          ∃ answer, introspect validate reply = .ok answer ∧
            s.reply validate i reply =
              ⟨((s.cache.set digest ⟨start + answer.ttl, answer⟩).moveToEnd digest).evict maxCachedKeys,
                s.asking.set i (.returned answer.result)⟩) := by
  unfold KeyRegistry.reply introspections
  dsimp only
  split
  · next apiKey digest start hget =>
    refine .inr ⟨apiKey, digest, start, List.mem_of_getElem? hget, rfl, ?_⟩
    split
    · next error herror => exact .inl ⟨error, herror, rfl⟩
    · next answer hanswer => exact .inr ⟨answer, hanswer, rfl⟩
  · exact .inl ⟨rfl, rfl⟩

theorem Inv.reply (hi : Inv validate l asked s) (i : Nat) (reply : RegistryReply) :
    Inv validate (l ++ [(now, .reply i reply)]) (asked ++ s.introspections now (.reply i reply))
      (s.reply validate i reply) := by
  rcases reply_cases validate s now i reply with ⟨hs, hnone⟩ | ⟨apiKey, digest, start, hmem, hone, hends⟩
  · rw [hs, hnone, List.append_nil]
    exact ⟨hi.recorded, fun key digest start h => (hi.waiting key digest start h).imp_right (List.mem_append_left _),
      fun x hx => List.mem_append_left _ (hi.asked x hx), hi.bounded⟩
  · obtain ⟨hdigest, hl⟩ := hi.waiting apiKey digest start hmem
    have hasked : ∀ x ∈ asked ++ [⟨apiKey, start, reply⟩],
        (x.start, KeyAct.call x.apiKey) ∈ l ++ [(now, .reply i reply)] := by
      intro x hx
      rcases List.mem_append.1 hx with hx | hx
      · exact List.mem_append_left _ (hi.asked x hx)
      · rw [List.mem_singleton.1 hx]
        exact List.mem_append_left _ hl
    rw [hone]
    rcases hends with ⟨error, -, hs⟩ | ⟨answer, hanswer, hs⟩
    · rw [hs]
      exact ⟨fun item h => (hi.recorded item h).mono _, hi.settled, hasked, hi.bounded⟩
    · rw [hs]
      refine ⟨fun item h => ?_, hi.settled, hasked, OrderedDict.length_evict maxCachedKeys _⟩
      rcases OrderedDict.mem_set (OrderedDict.mem_moveToEnd (OrderedDict.mem_evict h)) with rfl | h
      · exact ⟨_, List.mem_append_right _ List.mem_cons_self, hdigest, hanswer, rfl⟩
      · exact (hi.recorded item h).mono _

/-- Whatever was called and replied, whenever. -/
theorem inv_after (validate : List UInt8 → Option RegisteredKey) (l : List (Rat × KeyAct)) :
    Inv validate l (Run.trace (step validate) introspections empty l) (Run.after (step validate) empty l) := by
  induction l using List.reverseRecOn with
  | nil =>
    exact ⟨fun _ h => (List.not_mem_nil h).elim, fun _ _ _ h => (List.not_mem_nil h).elim,
      fun _ h => (List.not_mem_nil h).elim, Nat.zero_le _⟩
  | append_singleton l x ih =>
    obtain ⟨now, act⟩ := x
    rw [Run.after_concat, Run.trace_concat]
    cases act with
    | call apiKey =>
      have hnone : introspections (Run.after (step validate) empty l) now (.call apiKey) = [] := rfl
      rw [hnone, List.append_nil]
      exact ih.call apiKey
    | reply i reply => exact ih.reply i reply

/-- What the cache has for a key, of those asked about, and when. -/
theorem Inv.cached (hi : Inv validate l asked s) {apiKey digest : List Nat} {answer : KeyAnswer}
    (hfree : DistinctDigests (keysOf (l ++ [(now, .call apiKey)]))) (hdigest : digestOf apiKey = some digest)
    (h : s.cached now digest = some answer) :
    ∃ x ∈ asked, x.apiKey = apiKey ∧ (x.start, KeyAct.call apiKey) ∈ l ∧ introspect validate x.reply = .ok answer ∧
      now < x.start + answer.ttl := by
  unfold KeyRegistry.cached at h
  split at h
  · cases h
  · next entry hentry =>
    split at h
    · next hgood =>
      cases h
      obtain ⟨x, hx, hxd, hxa, hexpires⟩ := hi.recorded _ (OrderedDict.mem_of_get? hentry)
      have hxl := hi.asked x hx
      have hkey : x.apiKey = apiKey :=
        digestOf_inj hfree ⟨x.start, List.mem_append_left _ hxl⟩ ⟨now, List.mem_append_right _ List.mem_cons_self⟩
          hxd hdigest
      rw [hkey] at hxl
      exact ⟨x, hx, hkey, hxl, hxa, by rw [← hexpires]; exact hgood⟩
    · cases h

theorem call_cases {apiKey digest : List Nat} {result : Except KeyError RegisteredKey}
    (hdigest : digestOf apiKey = some digest)
    (h : (s.call now apiKey).asking = s.asking ++ [.returned result]) :
    ∃ answer, s.cached now digest = some answer ∧ result = answer.result := by
  unfold KeyRegistry.call at h
  rw [hdigest] at h
  dsimp only at h
  split at h
  · next answer hanswer =>
    have hlast := List.append_cancel_left h
    cases hlast
    exact ⟨answer, hanswer, rfl⟩
  · have hlast := List.append_cancel_left h
    cases hlast

end

/-- The registry after some calls and replies. -/
def after (l : List (Rat × KeyAct)) : KeyRegistry := Run.after (step validate) empty l

/-- And the requests they ended. -/
def ended (l : List (Rat × KeyAct)) : List Introspection := Run.trace (step validate) introspections empty l

/-- What a call finds after the calls and replies of `l`, and what of them the cache may hold. -/
structure NeverStale (l : List (Rat × KeyAct)) (now : Rat) (apiKey : List Nat) : Prop where
  /-- a call that is answered at once is told what the registry said of that key, which is good still -/
  served : ∀ result, (encode apiKey).isSome = true →
    ((after validate l).step validate now (.call apiKey)).asking = (after validate l).asking ++ [.returned result] →
      ∃ x ∈ ended validate l, x.apiKey = apiKey ∧ (x.start, KeyAct.call apiKey) ∈ l ∧
        ∃ answer, Says validate x.reply answer ∧ result = answer.result ∧ now < x.start + answer.ttl
  /-- what is no answer is forgotten -/
  unremembered : ∀ i reply, (∀ answer, ¬ Says validate reply answer) →
    ((after validate l).step validate now (.reply i reply)).cache = (after validate l).cache
  bounded : (after validate l).cache.rows.length ≤ maxCachedKeys

/-- Whatever was called and replied before, in any order and at any times. -/
theorem cached_answers_fresh (l : List (Rat × KeyAct)) (now : Rat) (apiKey : List Nat)
    (hfree : DistinctDigests (keysOf (l ++ [(now, .call apiKey)]))) : NeverStale validate l now apiKey := by
  have hi := inv_after validate l
  refine ⟨fun result hbytes h => ?_, fun i reply hsaid => ?_, hi.bounded⟩
  · obtain ⟨bytes, hbytes⟩ := Option.isSome_iff_exists.1 hbytes
    have hdigest : digestOf apiKey = some (hex (sha256 bytes)) := by rw [digestOf, hbytes]; rfl
    obtain ⟨answer, hcached, hresult⟩ := call_cases hdigest h
    obtain ⟨x, hx, hkey, hxl, hanswer, hnow⟩ := hi.cached hfree hdigest hcached
    exact ⟨x, hx, hkey, hxl, answer, introspect_ok validate hanswer, hresult, hnow⟩
  · rcases reply_cases validate (after validate l) now i reply with ⟨hs, -⟩ | ⟨_, _, _, -, -, ⟨_, -, hs⟩ | ⟨answer, hanswer, -⟩⟩
    · show ((after validate l).reply validate i reply).cache = _
      rw [hs]
    · show ((after validate l).reply validate i reply).cache = _
      rw [hs]
    · exact absurd (introspect_ok validate hanswer) (hsaid answer)

/-- A key the registry takes fifty seconds over is known for the ten that are left. -/
def slowly : List (Rat × KeyAct) := [(0, .call [107]), (50, .reply 0 (.response 200 []))]

def someKey : RegisteredKey := ⟨⟨"service:app", "service", []⟩, "key_1", some "t"⟩

theorem cached_answers_fresh_slow : NeverStale (fun _ => some someKey) slowly 59 [107] ∧
    (cached (after (fun _ => some someKey) slowly) 59 (hex (sha256 [107]))).isSome = true ∧
    (cached (after (fun _ => some someKey) slowly) 60 (hex (sha256 [107]))).isSome = false := by
  refine ⟨cached_answers_fresh _ slowly 59 [107] ?_, by decide +kernel, by decide +kernel⟩
  intro a ha b hb x y hx hy _
  have hone : ∀ key ∈ keysOf (slowly ++ [(59, .call [107])]), key = [107] := by
    rintro key ⟨now, hmem⟩
    have hcalls : now = 0 ∧ key = [107] ∨ now = 59 ∧ key = [107] := by simpa [slowly] using hmem
    rcases hcalls with ⟨-, hkey⟩ | ⟨-, hkey⟩
    · exact hkey
    · exact hkey
  rw [hone a ha] at hx
  rw [hone b hb, hx] at hy
  exact Option.some.inj hy

end KeyRegistry

end AgentRuns
