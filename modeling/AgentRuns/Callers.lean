import AgentRuns.Backlog
import AgentRuns.Bursts
import AgentRuns.KeyRegistry

/-!
# Who is let in

The two dependencies every route has one of, `caller` and `claimer` of `api/deps.py`, over the key registry's cache of each
replica and the budgets of the tenants, which all replicas share.  A request asks for its key (`arrives`), is answered at once
or when the registry replies (`replied`), and then, at its own pace, is told its tenant and takes from its budget (`goesOn`).

    who is let in has a key that the registry said it knows, and acts in that key's tenant        (let_in_rightful)
    a budget lets in what it holds, whichever replicas and keys draw on it                        (let_in_rightful)
-/

namespace AgentRuns

open Timed Backlog KeyRegistry

/-! ## One request -/

/-- `max_length` of the `X-Trellis-Tenant` header -/
def maxTenantHeader : Nat := 128

/-- Who calls, and in which tenant: a claim of a platform key may name none. -/
structure Claimer where
  credential : RegisteredKey
  tenantId : Option String

/-- What a dependency raises. -/
inductive Denial where
  | key (error : KeyError)
  | badRequest (detail : String)
  | rateLimited (decision : RateDecision)
  | overflow (error : OverflowError)

/-- `_acting`, once the key is resolved. -/
def acting (credential : RegisteredKey) (tenant : Option String) : Except KeyError Claimer :=
  match credential.tenantId with
  | none => .ok ⟨credential, tenant.filter (· ≠ "")⟩
  | some own =>
    if tenant.any (· ≠ own) then .error (.forbidden "X-Trellis-Tenant is not the tenant of this api key")
    else .ok ⟨credential, some own⟩

/-- The budget that is drawn on. -/
def bucketOf (claims : Bool) (acting : Claimer) : Except Denial String :=
  if claims then .ok ((acting.tenantId.filter (· ≠ "")).getD ("key:" ++ acting.credential.keyId))
  else
    match acting.tenantId with
    | none => .error (.badRequest "a platform key names the tenant in X-Trellis-Tenant")
    | some tenantId => .ok tenantId

/-- A request that asked for its key, and what came of it. -/
structure Incoming where
  apiKey : List Nat
  tenant : Option String
  claims : Bool
  arrived : Rat
  outcome : Option (Except Denial Claimer)

/-- Whose budget it draws on, given who its key is. -/
def Incoming.draws (request : Incoming) (result : Except KeyError RegisteredKey) : Except Denial (Claimer × String) :=
  match result with
  | .error error => .error (.key error)
  | .ok credential =>
    match acting credential request.tenant with
    | .error error => .error (.key error)
    | .ok claimer => (bucketOf request.claims claimer).map fun bucket => (claimer, bucket)

/-! ## The service -/

structure Replica where
  keys : KeyRegistry
  requests : List Incoming

/-- The replicas, and the budgets they share. -/
structure Callers where
  replicas : Nat → Replica
  buckets : String → Option Int

inductive CallerAct where
  | arrives (p : Nat) (apiKey : Option (List Nat)) (tenant : Option String) (claims : Bool)
  /-- the registry's reply to the `i`-th request of a replica -/
  | replied (p i : Nat) (reply : RegistryReply)
  /-- the rest of the dependency, at a time of the database's clock -/
  | goesOn (p i : Nat) (clock : Int)

theorem acting_ok {credential : RegisteredKey} {tenant : Option String} {claimer : Claimer}
    (h : acting credential tenant = .ok claimer) : claimer.credential = credential ∧
      (∀ own, credential.tenantId = some own → claimer.tenantId = some own ∧ ∀ named, tenant = some named → named = own) ∧
      (credential.tenantId = none → claimer.tenantId = tenant.filter (· ≠ "")) := by
  unfold acting at h
  split at h
  · next hnone =>
    cases h
    refine ⟨rfl, fun own hown => ?_, fun _ => rfl⟩
    rw [hnone] at hown
    cases hown
  · next own hown =>
    split at h
    · cases h
    · next hagrees =>
      cases h
      refine ⟨rfl, fun own' hown' => ?_, fun hnone => ?_⟩
      · rw [hown] at hown'
        cases hown'
        refine ⟨rfl, fun named hnamed => ?_⟩
        by_contra hne
        exact hagrees (by rw [hnamed]; exact decide_eq_true hne)
      · rw [hown] at hnone
        cases hnone

/-- Only a claim may name no tenant. -/
theorem bucketOf_caller {claimer : Claimer} {bucket : String} (h : bucketOf false claimer = .ok bucket) :
    claimer.tenantId.isSome = true := by
  unfold bucketOf at h
  cases htenant : claimer.tenantId with
  | none =>
    rw [htenant] at h
    cases h
  | some tenantId => rfl

namespace Callers

def empty : Callers := ⟨fun _ => ⟨KeyRegistry.empty, []⟩, fun _ => none⟩

def put (s : Callers) (p : Nat) (replica : Replica) : Callers := { s with replicas := Function.update s.replicas p replica }

variable (validate : List UInt8 → Option RegisteredKey) (limiter : Option TenantRateLimiter)

def arrives (s : Callers) (now : Rat) (p : Nat) (apiKey : Option (List Nat)) (tenant : Option String) (claims : Bool) : Callers :=
  match apiKey.filter (· ≠ []) with
  | none => s
  | some key =>
    if tenant.any (maxTenantHeader < ·.length) then s
    else s.put p ⟨(s.replicas p).keys.call now key, (s.replicas p).requests ++ [⟨key, tenant, claims, now, none⟩]⟩

def replied (s : Callers) (p i : Nat) (reply : RegistryReply) : Callers :=
  s.put p { s.replicas p with keys := (s.replicas p).keys.reply validate i reply }

/-- The request, and what `resolve` returned, while nothing came of it yet. -/
def ready (s : Callers) (p i : Nat) : Option (Incoming × Except KeyError RegisteredKey) :=
  match (s.replicas p).requests[i]?, (s.replicas p).keys.asking[i]? with
  | some request, some (.returned result) => if request.outcome.isSome then none else some (request, result)
  | _, _ => none

/-- `_within_budget` -/
def withinBudget (tat : Option Int) (claimer : Claimer) (clock : Int) : Except Denial Claimer × Option Int :=
  match limiter with
  | none => (.ok claimer, tat)
  | some limiter =>
    let taken := limiter.take tat clock
    (match taken.1 with
      | .error error => .error (.overflow error)
      | .ok decision => if decision.allowed then .ok claimer else .error (.rateLimited decision), taken.2)

/-- What came of the `i`-th request. -/
def told (s : Callers) (p i : Nat) (request : Incoming) (outcome : Except Denial Claimer) : Callers :=
  s.put p { s.replicas p with requests := (s.replicas p).requests.set i { request with outcome := some outcome } }

def goesOn (s : Callers) (p i : Nat) (clock : Int) : Callers :=
  match s.ready p i with
  | none => s
  | some (request, result) =>
    match request.draws result with
    | .error denial => s.told p i request (.error denial)
    | .ok (claimer, bucket) =>
      let taken := withinBudget limiter (s.buckets bucket) claimer clock
      { s.told p i request taken.1 with buckets := Function.update s.buckets bucket taken.2 }

def step (s : Callers) (now : Rat) : CallerAct → Callers
  | .arrives p apiKey tenant claims => s.arrives now p apiKey tenant claims
  | .replied p i reply => s.replied validate p i reply
  | .goesOn p i clock => s.goesOn limiter p i clock

/-- The calls and replies of a replica's registry. -/
def keyAct (p : Nat) : Rat × CallerAct → Option (Rat × KeyAct)
  | (now, .arrives q apiKey tenant _) =>
    if q = p ∧ ¬tenant.any (maxTenantHeader < ·.length) then (apiKey.filter (· ≠ [])).map fun key => (now, .call key) else none
  | (now, .replied q i reply) => if q = p then some (now, .reply i reply) else none
  | (_, .goesOn ..) => none

def keyActs (p : Nat) (l : List (Rat × CallerAct)) : List (Rat × KeyAct) := l.filterMap (keyAct p)

def after (l : List (Rat × CallerAct)) : Callers := Run.after (step validate limiter) empty l

/-! ## The budgets -/

/-- Does the action let a request in that draws on the bucket, between `t` and `u`? -/
def letsIn (bucket : String) (t u : Int) (s : Callers) (_ : Rat) : CallerAct → ℕ
  | .goesOn p i clock =>
    match s.ready p i with
    | none => 0
    | some (request, result) =>
      match request.draws result with
      | .error _ => 0
      | .ok (claimer, drawn) =>
        if drawn = bucket ∧ t ≤ clock ∧ clock ≤ u ∧ (withinBudget limiter (s.buckets bucket) claimer clock).1.isOk = true then 1
        else 0
  | _ => 0

/-- The times of the takes from the bucket. -/
def takesOn (bucket : String) (s : Callers) (_ : Rat) : CallerAct → List Int
  | .goesOn p i clock =>
    match s.ready p i with
    | none => []
    | some (request, result) =>
      match request.draws result with
      | .error _ => []
      | .ok (_, drawn) => if drawn = bucket then [clock] else []
  | _ => []

section
variable {validate : List UInt8 → Option RegisteredKey} {limiter : Option TenantRateLimiter} {l : TenantRateLimiter}
  {st : RateSteps} {s : Callers} {now : Rat} {act : CallerAct}

theorem withinBudget_some (l : TenantRateLimiter) (tat : Option Int) (claimer : Claimer) (clock : Int) :
    (withinBudget (some l) tat claimer clock).2 = (l.take tat clock).2 ∧
      ((withinBudget (some l) tat claimer clock).1.isOk = true → TenantRateLimiter.outcome (l.take tat clock).1 = some true) := by
  refine ⟨rfl, fun h => ?_⟩
  unfold withinBudget at h
  dsimp only at h
  cases hd : (l.take tat clock).1 with
  | error e =>
    rw [hd] at h
    cases h
  | ok d =>
    rw [hd] at h
    cases hallowed : d.allowed with
    | true => simp [TenantRateLimiter.outcome, Except.toOption, hallowed]
    | false =>
      simp only [hallowed] at h
      cases h

theorem withinBudget_claimer {tat : Option Int} {claimer claimer' : Claimer} {clock : Int}
    (h : (withinBudget limiter tat claimer clock).1 = .ok claimer') : claimer' = claimer := by
  unfold withinBudget at h
  cases limiter with
  | none =>
    cases h
    rfl
  | some l =>
    dsimp only at h
    split at h
    · cases h
    · split at h
      · cases h
        rfl
      · cases h

/-- A step draws on the bucket once, as the algorithm has it, or leaves it. -/
theorem step_bucket (validate : List UInt8 → Option RegisteredKey) (hsteps : l.steps = .ok st) (bucket : String) (t u : Int)
    (s : Callers) (now : Rat) (act : CallerAct) :
    (s.takesOn bucket now act = [] ∧ s.letsIn (some l) bucket t u now act = 0 ∧
      (s.step validate (some l) now act).buckets bucket = s.buckets bucket) ∨
    ∃ clock, s.takesOn bucket now act = [clock] ∧
      (s.step validate (some l) now act).buckets bucket = Gcra.next st.step st.slack (s.buckets bucket) clock ∧
      s.letsIn (some l) bucket t u now act ≤
        if t ≤ clock ∧ clock ≤ u ∧ Gcra.admits st.slack (s.buckets bucket) clock = true then 1 else 0 := by
  cases act with
  | arrives p apiKey tenant claims =>
    refine .inl ⟨rfl, rfl, ?_⟩
    unfold step arrives
    dsimp only
    split
    · rfl
    · split <;> rfl
  | replied p i reply => exact .inl ⟨rfl, rfl, rfl⟩
  | goesOn p i clock =>
    unfold step takesOn letsIn goesOn
    dsimp only
    cases hready : s.ready p i with
    | none => exact .inl ⟨rfl, rfl, rfl⟩
    | some x =>
      obtain ⟨request, result⟩ := x
      dsimp only
      cases hdraws : request.draws result with
      | error denial => exact .inl ⟨rfl, rfl, rfl⟩
      | ok y =>
        obtain ⟨claimer, drawn⟩ := y
        dsimp only
        obtain ⟨hrow, hallowed⟩ := withinBudget_some l (s.buckets drawn) claimer clock
        by_cases hdrawn : drawn = bucket
        · subst hdrawn
          refine .inr ⟨clock, if_pos rfl, ?_, ?_⟩
          · rw [Function.update_self, hrow, TenantRateLimiter.take_row hsteps]
          · split
            · next hin =>
              rw [if_pos ⟨hin.2.1, hin.2.2.1, (TenantRateLimiter.outcome_take hsteps (hallowed hin.2.2.2)).symm⟩]
            · exact Nat.zero_le _
        · refine .inl ⟨if_neg hdrawn, if_neg fun h => hdrawn h.1, ?_⟩
          rw [Function.update_of_ne (Ne.symm hdrawn)]

/-- What a bucket lets in, it lets in as the algorithm has it, of the takes one after another. -/
theorem letsIn_le (validate : List UInt8 → Option RegisteredKey) (hsteps : l.steps = .ok st) (bucket : String) (t u : Int)
    (acts : List (Rat × CallerAct)) : ∀ s : Callers,
    amount (step validate (some l)) (letsIn (some l) bucket t u) s acts ≤
      Gcra.admittedIn st.step st.slack t u (Run.trace (step validate (some l)) (takesOn bucket) s acts) (s.buckets bucket) := by
  induction acts with
  | nil => exact fun s => Nat.zero_le _
  | cons x acts ih =>
    obtain ⟨now, act⟩ := x
    intro s
    have hrest := ih (s.step validate (some l) now act)
    rcases step_bucket validate hsteps bucket t u s now act with ⟨hnone, hzero, hsame⟩ | ⟨clock, hone, hnext, hle⟩
    · simp only [amount, Run.trace, hnone, hzero, List.nil_append, Nat.zero_add]
      rw [hsame] at hrest
      exact hrest
    · simp only [amount, Run.trace, hone, List.cons_append, List.nil_append, Gcra.admittedIn]
      rw [hnext] at hrest
      exact Nat.add_le_add hle hrest

/-! ## The keys -/

/-- What the registry said of the request's key: it knows it, and was asked less than a minute before the request came. -/
def Vouched (validate : List UInt8 → Option RegisteredKey) (acts : List (Rat × KeyAct)) (request : Incoming)
    (credential : RegisteredKey) : Prop :=
  ∃ x ∈ KeyRegistry.ended validate acts, x.apiKey = request.apiKey ∧ Says validate x.reply (.known credential) ∧
    request.arrived < x.start + keyCacheSeconds

/-- A request, beside its call of the registry. -/
structure Fits (validate : List UInt8 → Option RegisteredKey) (acts : List (Rat × KeyAct)) (request : Incoming) (asking : Asking) :
    Prop where
  waiting : ∀ apiKey digest start, asking = .waiting apiKey digest start → apiKey = request.apiKey ∧ start = request.arrived
  known : ∀ credential, asking = .returned (.ok credential) → Vouched validate acts request credential
  done : ∀ claimer, request.outcome = some (.ok claimer) → ∃ result bucket, asking = .returned result ∧
    request.draws result = .ok (claimer, bucket)

/-- What is so of a replica after the calls and replies of its registry. -/
structure Kept (validate : List UInt8 → Option RegisteredKey) (acts : List (Rat × KeyAct)) (replica : Replica) : Prop where
  keys : replica.keys = KeyRegistry.after validate acts
  same : replica.requests.length = replica.keys.asking.length
  fits : ∀ (i : Nat) request asking, replica.requests[i]? = some request → replica.keys.asking[i]? = some asking →
    Fits validate acts request asking

variable {acts : List (Rat × KeyAct)} {replica : Replica} {request : Incoming} {asking : Asking} {credential : RegisteredKey}
  {claimer : Claimer}

theorem ended_concat (a : KeyAct) : KeyRegistry.ended validate (acts ++ [(now, a)]) =
    KeyRegistry.ended validate acts ++ (KeyRegistry.after validate acts).introspections now a :=
  Run.trace_concat _ acts now a _

theorem after_concat (a : KeyAct) : KeyRegistry.after validate (acts ++ [(now, a)]) =
    (KeyRegistry.after validate acts).step validate now a :=
  Run.after_concat acts now a _

theorem Fits.mono (h : Fits validate acts request asking) (a : KeyAct) : Fits validate (acts ++ [(now, a)]) request asking := by
  refine ⟨h.waiting, fun credential hknown => ?_, h.done⟩
  obtain ⟨x, hx, hrest⟩ := h.known credential hknown
  rw [Vouched, ended_concat]
  exact ⟨x, List.mem_append_left _ hx, hrest⟩

/-- A call is answered at once, as the registry said of that key, or waits. -/
theorem call_asking (validate : List UInt8 → Option RegisteredKey) {key : List Nat}
    (hfree : DistinctDigests (keysOf (acts ++ [(now, .call key)]))) : ∃ entry,
    ((KeyRegistry.after validate acts).call now key).asking = (KeyRegistry.after validate acts).asking ++ [entry] ∧
      ∀ tenant claims, Fits validate (acts ++ [(now, .call key)]) ⟨key, tenant, claims, now, none⟩ entry := by
  have hserved := (cached_answers_fresh validate acts now key hfree).served
  unfold KeyRegistry.step at hserved
  dsimp only at hserved
  unfold KeyRegistry.call at hserved ⊢
  split
  · exact ⟨_, rfl, fun _ _ => ⟨nofun, nofun, nofun⟩⟩
  · next digest hdigest =>
    rw [hdigest] at hserved
    dsimp only at hserved
    split
    · next answer hanswer =>
      rw [hanswer] at hserved
      refine ⟨_, rfl, fun tenant claims => ⟨nofun, fun credential hknown => ?_, nofun⟩⟩
      have hencoded : (PyText.encode key).isSome = true := by
        unfold digestOf at hdigest
        cases hbytes : PyText.encode key with
        | none =>
          rw [hbytes] at hdigest
          cases hdigest
        | some bytes => rfl
      obtain ⟨x, hx, hkey, -, answer', hsays, hresult, hfresh⟩ := hserved answer.result hencoded rfl
      have hok : answer'.result = .ok credential := hresult.symm.trans (Asking.returned.inj hknown)
      cases answer' with
      | refused error => cases hok
      | known credential' =>
        cases hok
        rw [Vouched, ended_concat]
        exact ⟨x, List.mem_append_left _ hx, hkey, hsays, hfresh⟩
    · exact ⟨_, rfl, fun tenant claims => ⟨fun apiKey digest start h => by cases h; exact ⟨rfl, rfl⟩, nofun, nofun⟩⟩

/-- A request comes. -/
theorem Kept.call (h : Kept validate acts replica) {key : List Nat}
    (hfree : DistinctDigests (keysOf (acts ++ [(now, .call key)]))) (tenant : Option String) (claims : Bool) :
    Kept validate (acts ++ [(now, .call key)])
      ⟨replica.keys.call now key, replica.requests ++ [⟨key, tenant, claims, now, none⟩]⟩ := by
  obtain ⟨entry, hasking, hentry⟩ := call_asking validate hfree
  rw [← h.keys] at hasking
  refine ⟨by rw [after_concat, h.keys]; rfl, ?_, fun i request asking hr ha => ?_⟩
  · show (replica.requests ++ _).length = (replica.keys.call now key).asking.length
    rw [hasking, List.length_append, List.length_append, h.same]
    rfl
  · have ha : (replica.keys.call now key).asking[i]? = some asking := ha
    have hr : (replica.requests ++ [⟨key, tenant, claims, now, none⟩])[i]? = some request := hr
    rw [hasking] at ha
    by_cases hi : i < replica.requests.length
    · rw [List.getElem?_append_left hi] at hr
      rw [List.getElem?_append_left (h.same ▸ hi)] at ha
      exact (h.fits i request asking hr ha).mono _
    · have hlast : i = replica.requests.length := by
        have hlt := (List.getElem?_eq_some_iff.1 hr).1
        rw [List.length_append, List.length_singleton] at hlt
        omega
      rw [hlast, List.getElem?_concat_length] at hr
      rw [hlast, h.same, List.getElem?_concat_length] at ha
      cases hr
      cases ha
      exact hentry tenant claims

/-- A reply is of no call that waits, or it ends one. -/
theorem reply_asking (validate : List UInt8 → Option RegisteredKey) (keys : KeyRegistry) (i : Nat) (reply : RegistryReply) :
    (keys.reply validate i reply).asking = keys.asking ∨ ∃ apiKey digest start result,
      keys.asking[i]? = some (.waiting apiKey digest start) ∧
      (keys.reply validate i reply).asking = keys.asking.set i (.returned result) ∧
      ∀ credential, result = .ok credential → introspect validate reply = .ok (.known credential) := by
  unfold KeyRegistry.reply
  split
  · next apiKey digest start hwaits =>
    split
    · next error herror => exact .inr ⟨apiKey, digest, start, .error error, hwaits, rfl, nofun⟩
    · next answer hanswer =>
      refine .inr ⟨apiKey, digest, start, answer.result, hwaits, rfl, fun credential hok => ?_⟩
      cases answer with
      | refused error => cases hok
      | known credential' =>
        cases hok
        exact hanswer
  · exact .inl rfl

/-- The registry replies. -/
theorem Kept.reply (h : Kept validate acts replica) (i : Nat) (reply : RegistryReply) :
    Kept validate (acts ++ [(now, .reply i reply)]) { replica with keys := replica.keys.reply validate i reply } := by
  rcases reply_asking validate replica.keys i reply with hsame | ⟨apiKey, digest, start, result, hwaits, hset, hknown⟩
  · refine ⟨by rw [after_concat, h.keys]; rfl, h.same.trans (congrArg _ hsame.symm), fun j request asking hr ha => ?_⟩
    have ha : (replica.keys.reply validate i reply).asking[j]? = some asking := ha
    rw [hsame] at ha
    exact (h.fits j request asking hr ha).mono _
  · refine ⟨by rw [after_concat, h.keys]; rfl, ?_, fun j request asking hr ha => ?_⟩
    · show replica.requests.length = (replica.keys.reply validate i reply).asking.length
      rw [hset, List.length_set, h.same]
    · have hafter : (replica.keys.reply validate i reply).asking[j]? = some asking := ha
      rw [hset, List.getElem?_set] at hafter
      split at hafter
      · next hij =>
        subst hij
        obtain ⟨hkey, hstart⟩ := (h.fits i request _ hr hwaits).waiting apiKey digest start rfl
        have hpending := (h.fits i request _ hr hwaits).done
        split at hafter
        · cases hafter
          refine ⟨nofun, fun credential hok => ?_, fun claimer hdone => ?_⟩
          · have hsays := introspect_ok validate (hknown credential (Asking.returned.inj hok))
            rw [Vouched, ended_concat]
            refine ⟨⟨apiKey, start, reply⟩, List.mem_append_right _ ?_, hkey, hsays, ?_⟩
            · show _ ∈ introspections _ now (.reply i reply)
              unfold introspections
              dsimp only
              rw [← h.keys, hwaits]
              exact List.mem_cons_self
            · rw [hstart]
              norm_num [keyCacheSeconds]
          · obtain ⟨_, _, hreturned, -⟩ := hpending claimer hdone
            cases hreturned
        · cases hafter
      · exact (h.fits j request asking hr hafter).mono _

/-- A request goes on. -/
theorem Kept.told (h : Kept validate acts replica) {i : Nat} {result : Except KeyError RegisteredKey}
    {outcome : Except Denial Claimer} (hrequest : replica.requests[i]? = some request)
    (hasking : replica.keys.asking[i]? = some (.returned result))
    (houtcome : ∀ claimer, outcome = .ok claimer → ∃ bucket, request.draws result = .ok (claimer, bucket)) :
    Kept validate acts { replica with requests := replica.requests.set i { request with outcome := some outcome } } := by
  refine ⟨h.keys, by rw [← h.same]; exact List.length_set, fun j told asking hr ha => ?_⟩
  have hset : (replica.requests.set i { request with outcome := some outcome })[j]? = some told := hr
  rw [List.getElem?_set] at hset
  split at hset
  · next hij =>
    subst hij
    split at hset
    · cases hset
      have hfits := h.fits i request asking hrequest ha
      refine ⟨hfits.waiting, hfits.known, fun claimer hdone => ?_⟩
      obtain ⟨bucket, hdraws⟩ := houtcome claimer (Option.some.inj hdone)
      have ha : replica.keys.asking[i]? = some asking := ha
      rw [hasking] at ha
      cases ha
      exact ⟨result, bucket, rfl, hdraws⟩
    · cases hset
  · exact h.fits j told asking hset ha

/-! ## Every run -/

theorem keyActs_concat (p : Nat) (acts : List (Rat × CallerAct)) (x : Rat × CallerAct) :
    keyActs p (acts ++ [x]) = keyActs p acts ++ (keyAct p x).toList := by
  unfold keyActs
  rw [List.filterMap_append]
  cases h : keyAct p x with
  | none => rw [List.filterMap_cons_none h]; rfl
  | some y => rw [List.filterMap_cons_some h]; rfl

theorem keysOf_mono {a b : List (Rat × KeyAct)} (h : ∀ x ∈ a, x ∈ b) : keysOf a ⊆ keysOf b := by
  rintro key ⟨now, hmem⟩
  exact ⟨now, h _ hmem⟩

theorem put_self (s : Callers) (p : Nat) (replica : Replica) : (s.put p replica).replicas p = replica := Function.update_self _ _ _

theorem put_other (s : Callers) {p q : Nat} (hq : q ≠ p) (replica : Replica) : (s.put q replica).replicas p = s.replicas p :=
  Function.update_of_ne hq.symm _ _

theorem ready_some {p i : Nat} {result : Except KeyError RegisteredKey} (h : s.ready p i = some (request, result)) :
    (s.replicas p).requests[i]? = some request ∧ (s.replicas p).keys.asking[i]? = some (.returned result) := by
  unfold ready at h
  split at h
  · next request' result' hrequest hasking =>
    split at h
    · cases h
    · cases h
      exact ⟨hrequest, hasking⟩
  · cases h

/-- **One step**, of any replica. -/
theorem Kept.step {p : Nat} (h : Kept validate acts (s.replicas p))
    (hfree : DistinctDigests (keysOf (acts ++ (keyAct p (now, act)).toList))) :
    Kept validate (acts ++ (keyAct p (now, act)).toList) ((s.step validate limiter now act).replicas p) := by
  cases act with
  | arrives q apiKey tenant claims =>
    unfold Callers.step arrives
    dsimp only
    cases hkey : apiKey.filter (· ≠ []) with
    | none =>
      have hnone : keyAct p (now, .arrives q apiKey tenant claims) = none := by
        unfold keyAct
        dsimp only
        rw [hkey, Option.map_none, ite_self]
      rw [hnone, Option.toList_none, List.append_nil]
      exact h
    | some key =>
      dsimp only
      by_cases hlong : tenant.any (maxTenantHeader < ·.length) = true
      · have hnone : keyAct p (now, .arrives q apiKey tenant claims) = none := by simp [keyAct, hlong]
        rw [hnone, if_pos hlong, Option.toList_none, List.append_nil]
        exact h
      · rw [if_neg hlong]
        by_cases hq : q = p
        · subst hq
          have hsome : keyAct q (now, .arrives q apiKey tenant claims) = some (now, .call key) := by
            unfold keyAct
            dsimp only
            rw [if_pos ⟨rfl, hlong⟩, hkey, Option.map_some]
          rw [hsome, Option.toList_some] at hfree ⊢
          rw [put_self]
          exact h.call hfree tenant claims
        · have hnone : keyAct p (now, .arrives q apiKey tenant claims) = none := by simp [keyAct, hq]
          rw [hnone, put_other s hq, Option.toList_none, List.append_nil]
          exact h
  | replied q i reply =>
    show Kept validate _ ((s.put q _).replicas p)
    by_cases hq : q = p
    · subst hq
      have hsome : keyAct q (now, .replied q i reply) = some (now, .reply i reply) := if_pos rfl
      rw [hsome, Option.toList_some, put_self]
      exact h.reply i reply
    · have hnone : keyAct p (now, .replied q i reply) = none := if_neg hq
      rw [hnone, put_other s hq, Option.toList_none, List.append_nil]
      exact h
  | goesOn q i clock =>
    have hnone : keyAct p (now, .goesOn q i clock) = none := rfl
    rw [hnone, Option.toList_none, List.append_nil]
    unfold Callers.step goesOn
    dsimp only
    cases hready : s.ready q i with
    | none => exact h
    | some x =>
      obtain ⟨request, result⟩ := x
      obtain ⟨hrequest, hasking⟩ := ready_some hready
      dsimp only
      by_cases hq : q = p
      · subst hq
        cases hdraws : request.draws result with
        | error denial =>
          show Kept validate acts ((s.put q _).replicas q)
          rw [put_self]
          exact h.told hrequest hasking fun claimer hok => by cases hok
        | ok y =>
          obtain ⟨claimer, bucket⟩ := y
          show Kept validate acts ((s.put q _).replicas q)
          rw [put_self]
          refine h.told hrequest hasking fun claimer' hok => ⟨bucket, ?_⟩
          rw [hdraws, withinBudget_claimer hok]
      · split
        · show Kept validate acts ((s.put q _).replicas p)
          rw [put_other s hq]
          exact h
        · show Kept validate acts ((s.put q _).replicas p)
          rw [put_other s hq]
          exact h

/-- Each replica, whatever the others do. -/
theorem kept_after (validate : List UInt8 → Option RegisteredKey) (limiter : Option TenantRateLimiter) (p : Nat)
    (acts : List (Rat × CallerAct)) : DistinctDigests (keysOf (keyActs p acts)) →
      Kept validate (keyActs p acts) ((Callers.after validate limiter acts).replicas p) := by
  induction acts using List.reverseRecOn with
  | nil => exact fun _ => ⟨rfl, rfl, fun i request asking hr _ => by cases hr⟩
  | append_singleton acts x ih =>
    obtain ⟨now, act⟩ := x
    intro hfree
    have hbefore : DistinctDigests (keysOf (keyActs p acts)) := by
      refine fun a ha b hb => hfree a (keysOf_mono ?_ ha) b (keysOf_mono ?_ hb) <;>
      · intro y hy
        rw [keyActs_concat]
        exact List.mem_append_left _ hy
    have hkept := ih hbefore
    rw [keyActs_concat] at hfree ⊢
    rw [Callers.after, Run.after_concat]
    exact hkept.step hfree

end

/-- A request that was let in. -/
structure Rightful (validate : List UInt8 → Option RegisteredKey) (acts : List (Rat × KeyAct)) (request : Incoming)
    (claimer : Claimer) : Prop where
  vouched : Vouched validate acts request claimer.credential
  /-- a key of a tenant acts in that one, and a header can only agree -/
  own : ∀ tenantId, claimer.credential.tenantId = some tenantId →
    claimer.tenantId = some tenantId ∧ ∀ named, request.tenant = some named → named = tenantId
  /-- a platform key acts in the tenant it names -/
  named : claimer.credential.tenantId = none → claimer.tenantId = request.tenant.filter (· ≠ "")
  some : request.claims = false → claimer.tenantId.isSome = true

/-- **Who is let in.**  Whatever requests come to whichever replicas, in whatever order the registry replies and they go on: who is
let in has a key the registry said it knows, asked less than a minute before, and acts in that key's tenant, or in the one that a
platform key names; and the requests that a budget lets in between `t` and `u` are no more than it holds and refills, whichever
replicas, keys and routes draw on it. -/
theorem let_in_rightful (validate : List UInt8 → Option RegisteredKey) (limiter : Option TenantRateLimiter)
    (acts : List (Rat × CallerAct)) (hfree : ∀ p, DistinctDigests (keysOf (keyActs p acts))) :
    (∀ (p i : Nat) request claimer, ((Callers.after validate limiter acts).replicas p).requests[i]? = some request →
      request.outcome = some (.ok claimer) → Rightful validate (keyActs p acts) request claimer) ∧
    ∀ l st, limiter = some l → l.steps = .ok st → ∀ bucket t u,
      let n := amount (step validate limiter) (letsIn limiter bucket t u) empty acts
      0 < n → ((n : Int) - 1) * st.step ≤ u - t + st.slack := by
  constructor
  · intro p i request claimer hrequest houtcome
    have hkept := kept_after validate limiter p acts (hfree p)
    have hlt : i < ((Callers.after validate limiter acts).replicas p).keys.asking.length := by
      rw [← hkept.same]
      exact (List.getElem?_eq_some_iff.1 hrequest).1
    have hfits := hkept.fits i request _ hrequest (List.getElem?_eq_getElem hlt)
    obtain ⟨result, bucket, hreturned, hdraws⟩ := hfits.done claimer houtcome
    unfold Incoming.draws at hdraws
    cases result with
    | error error => cases hdraws
    | ok credential =>
      dsimp only at hdraws
      have hvouched := hfits.known credential hreturned
      cases hacting : acting credential request.tenant with
      | error error =>
        rw [hacting] at hdraws
        cases hdraws
      | ok claimer' =>
        rw [hacting] at hdraws
        dsimp only at hdraws
        cases hbucket : bucketOf request.claims claimer' with
        | error denial =>
          rw [hbucket] at hdraws
          cases hdraws
        | ok bucket' =>
          rw [hbucket] at hdraws
          cases hdraws
          obtain ⟨hcredential, hown, hnamed⟩ := acting_ok hacting
          exact ⟨hcredential ▸ hvouched, hcredential ▸ hown, hcredential ▸ hnamed,
            fun hcaller => bucketOf_caller (hcaller ▸ hbucket)⟩
  · rintro l st rfl hsteps bucket t u n hn
    have hle := letsIn_le validate hsteps bucket t u acts empty
    have hwindow := Gcra.admittedIn_le (TenantRateLimiter.steps_ok hsteps).step_nonneg (Nat.lt_of_lt_of_le hn hle)
    refine le_trans (Int.mul_le_mul_of_nonneg_right ?_ (TenantRateLimiter.steps_ok hsteps).step_nonneg) hwindow
    exact Int.sub_le_sub_right (Int.ofNat_le.2 hle) 1

/-- Two replicas, one key, and a budget that the third request finds spent. -/
def sharedBudget : List (Rat × CallerAct) :=
  [(0, .arrives 0 (some [107]) none false), (0, .arrives 1 (some [107]) (some "t") false), (1, .replied 0 0 (.response 200 [])),
    (1, .replied 1 0 (.response 200 [])), (1, .goesOn 0 0 5), (1, .goesOn 1 0 5), (2, .arrives 1 (some [107]) none true),
    (2, .goesOn 1 1 5)]

theorem sharedBudget_distinct (p : Nat) : DistinctDigests (keysOf (keyActs p sharedBudget)) := by
  have hone : ∀ key ∈ keysOf (keyActs p sharedBudget), key = [107] := by
    rintro key ⟨now, hmem⟩
    obtain ⟨x, hx, hcall⟩ := List.mem_filterMap.1 hmem
    simp only [sharedBudget, List.mem_cons, List.not_mem_nil, or_false] at hx
    rcases hx with rfl | rfl | rfl | rfl | rfl | rfl | rfl | rfl <;> simp [keyAct] at hcall <;>
    exact hcall.2.1.1.symm
  intro a ha b hb x y hx hy _
  rw [hone a ha] at hx
  rw [hone b hb, hx] at hy
  exact Option.some.inj hy

/-- What comes of it. -/
def sharedCallers : Callers := Callers.after (fun _ => some someKey) (some TenantRateLimiter.sevenAMinute) sharedBudget

theorem let_in_rightful_shared :
    (∃ request claimer, (sharedCallers.replicas 1).requests[0]? = some request ∧
      Rightful (fun _ => some someKey) (keyActs 1 sharedBudget) request claimer) ∧
    ∀ st, TenantRateLimiter.sevenAMinute.steps = .ok st → ((2 : Int) - 1) * st.step ≤ 5 - 5 + st.slack := by
  obtain ⟨hrightful, hbudget⟩ := let_in_rightful (fun _ => some someKey) (some TenantRateLimiter.sevenAMinute) sharedBudget
    sharedBudget_distinct
  have hshared : sharedCallers = Callers.after (fun _ => some someKey) (some TenantRateLimiter.sevenAMinute) sharedBudget := rfl
  rw [← hshared] at hrightful
  have hin : ((sharedCallers.replicas 1).requests[0]?).any
      (fun request => request.outcome.any fun outcome => outcome.isOk) = true := by decide +kernel
  have htwo : amount (step (fun _ => some someKey) (some TenantRateLimiter.sevenAMinute))
      (letsIn (some TenantRateLimiter.sevenAMinute) "t" 5 5) empty sharedBudget = 2 := by decide +kernel
  constructor
  · obtain ⟨request, hrequest, houtcome⟩ := (Option.any_eq_true _ _).1 hin
    obtain ⟨outcome, houtcome, hok⟩ := (Option.any_eq_true _ _).1 houtcome
    cases outcome with
    | error denial => cases hok
    | ok claimer => exact ⟨request, claimer, hrequest, hrightful 1 0 request claimer hrequest houtcome⟩
  · intro st hsteps
    have hwindow := hbudget _ st rfl hsteps "t" 5 5
    rw [htwo] at hwindow
    exact hwindow (by decide)

end Callers

end AgentRuns
