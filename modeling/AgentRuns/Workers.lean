import AgentRuns.Operations
import AgentRuns.Spelled

/-!
# The SDK's worker

A worker claims runs, gives each to its handler and keeps its lease.  agent-runs tells writers
apart by worker id only, so when a run the worker lost comes back to it, only the worker's own
books (`_held`, the cancelled handlers) keep the earlier attempt from writing over the later one.

One worker beside everything else that goes on in the store (`Worker.step`): the handlers end
and write as they like, what the worker sends is served any time later, again where it is sent
again, or never, and heartbeats answer anything.

`Separate` is what the comment in `_execute` promises ("The earlier one stops (writing nothing)
before this one"): once the handler of a later attempt has started, nothing sent for an earlier
one changes the store.  `Clear` is when that is so.
-/

namespace AgentRuns

open Relational Fallible Timed

/-! ## The worker -/

/-- How a handler ended, what it raised as `AgentError.of` has it. -/
inductive HandlerEnd where
  | returned
  | cancelled
  | leaseLost
  | raised (error : AgentError)

/-- How far an `_execute` is; `waiting i`: for the handler of execution `i` to stop. -/
inductive Stage where
  | claimed
  | waiting (earlier : Nat)
  | working
  | ending
  | finished
deriving DecidableEq

/-- A claimed run in the worker: its `_execute`, its `Job`, its handler and its heartbeat. -/
structure Execution where
  run : RunRecord
  lease : Lease
  stage : Stage
  ended : Option HandlerEnd
  timed : Bool
  expired : Bool
  beating : Bool

/-- Its handler is at work. -/
def Execution.atWork (e : Execution) : Bool := e.stage = .working ∧ e.ended.isNone

/-- It has the run's entry in `_held`. -/
def Execution.busy (e : Execution) : Bool := e.stage = .working ∨ e.stage = .ending

/-- Its handler has started. -/
def Execution.started (e : Execution) : Bool := e.busy ∨ e.stage = .finished

/-- A request sent for an execution that may still reach the store. -/
structure Underway where
  execution : Nat
  op : Op

/-- How the worker was set up, and the store it works for. -/
structure Worker where
  store : RunStore
  workerId : String
  agentIds : List String
  leaseSeconds : LeaseSeconds
  tenant : Option String

/-- The store's rows; the worker's executions, oldest first, its `_held`, its requests and what
its wind-down is to release. -/
structure Working where
  db : Database
  executions : List Execution
  held : String → Option Nat
  underway : List Underway
  released : Option (List Nat)

/-- A worker that has claimed nothing. -/
def Working.fresh (db : Database) : Working := ⟨db, [], fun _ => none, [], none⟩

/-- What a heartbeat comes back with. -/
inductive Beat where
  | lost
  | failed (lapsed : Bool)
  | renewed (lease : Lease)

/-- What goes on: the rest of the world (`others`), a claim, an `_execute` (begins, proceeds
past an earlier handler, wakes when its own has ended, has ended its run), a handler (writes,
takes a lease in, ends), a heartbeat, the end of the working time, a request (at the store, or
done with: answered, given up, lost), the wind-down. -/
inductive WorkerAct where
  | others (op : Op)
  | claims (held : Held)
  | begins (i : Nat)
  | proceeds (i : Nat)
  | writes (i : Nat) (op : Op)
  | saves (i : Nat) (lease : Lease)
  | ends (i : Nat) (how : HandlerEnd)
  | beats (i : Nat)
  | answered (i : Nat) (beat : Beat)
  | expires (i : Nat)
  | wakes (i : Nat) (draw : Draw)
  | ended (i : Nat)
  | served (k : Nat)
  | gone (k : Nat)
  | windsDown
  | releases

namespace Working

/-- What `f` makes of execution `i`, where it is there and `p`. -/
def on (s : Working) (i : Nat) (p : Execution → Bool) (f : Execution → Working) : Working :=
  match s.executions[i]? with
  | none => s
  | some e => if p e then f e else s

def set (s : Working) (i : Nat) (e : Execution) : Working := { s with executions := s.executions.set i e }

def send (s : Working) (i : Nat) (op : Op) : Working := { s with underway := s.underway ++ [⟨i, op⟩] }

/-- The `Job` is made, the handler and the heartbeat start, the run is held. -/
def start (s : Working) (i : Nat) (e : Execution) : Working :=
  { s.set i { e with stage := .working, timed := e.lease.remainingSeconds.isSome, beating := true } with
    held := fun run => if run = e.run.runId then some i else s.held run }

/-- `_execute`'s `finally`: its own entry only goes, the heartbeat stops. -/
def close (s : Working) (i : Nat) (e : Execution) : Working :=
  { s.set i { e with stage := .finished, beating := false } with
    held := fun run => if s.held run = some i then none else s.held run }

/-- A heartbeat's answer.  The handler it cancels may end then, or work on. -/
def hear (s : Working) (i : Nat) (e : Execution) : Beat → Working
  | .lost => s.set i { e with beating := false }
  | .failed lapsed => s.set i { e with beating := e.beating && !lapsed }
  | .renewed lease => s.set i { e with lease := lease, beating := e.beating && !lease.cancelRequested }

/-- `list(self._held.values())`. -/
def holding (s : Working) : List Nat :=
  (List.range s.executions.length).filter fun i => s.executions[i]?.any fun e => s.held e.run.runId = some i

/-- Handler `i` has stopped, and its own `_execute`, which waits on it longer, has seen that. -/
def stopped (s : Working) (i : Nat) : Bool :=
  s.executions[i]?.any fun e => e.ended.isSome ∧ e.stage ≠ .working

end Working

/-- `OUT_OF_TIME` -/
def outOfTime : AgentError where
  code := "run_timeout"
  category := .TIMEOUT
  message := "the run used up its working time: the worker stopped it"
  retryable := false
  source := some "agent-runs"

/-- The endings `_execute` makes for its handler. -/
def outOfTimeEnding : RunFinish := ⟨.TIMEOUT, .null, some outOfTime, rfl, fun _ => .inr (.inl rfl)⟩

def cancelledEnding : RunFinish := ⟨.CANCELLED, .null, none, rfl, fun h => by cases h⟩

def errorEnding (error : AgentError) : RunFinish := ⟨.ERROR, .null, some error, rfl, fun _ => .inl rfl⟩

namespace Worker

variable (w : Worker)

def heartbeat (run : RunRecord) : Op := .heartbeat run.tenantId run.runId ⟨w.workerId, w.leaseSeconds, none⟩

def finish (run : RunRecord) (ending : RunFinish) (draw : Draw) : Op :=
  .finish run.tenantId run.runId ending (some w.workerId) draw

def release (run : RunRecord) : Op := .release run.tenantId run.runId ⟨w.workerId, none⟩

/-- `_end` sends the ending. -/
def endWith (s : Working) (i : Nat) (e : Execution) (ending : RunFinish) (draw : Draw) : Working :=
  (s.set i { e with stage := .ending }).send i (w.finish e.run ending draw)

/-- `_execute` goes on with how its handler ended. -/
def wake (s : Working) (i : Nat) (e : Execution) (draw : Draw) : Working :=
  match e.ended with
  | none => s
  | some .returned => s.close i e
  | some .leaseLost => s.close i e
  | some .cancelled =>
    if e.expired then w.endWith s i e outOfTimeEnding draw
    else if e.lease.cancelRequested then w.endWith s i e cancelledEnding draw
    else s.close i e
  | some (.raised error) =>
    if e.expired then w.endWith s i e outOfTimeEnding draw else w.endWith s i e (errorEnding error) draw

/-- `_claim`, and an `_execute` for what it gave. -/
def claim (s : Working) (held : Held) (now : Instant) : Working :=
  match w.store.claim s.db held w.tenant ⟨w.workerId, w.agentIds, w.leaseSeconds⟩ now with
  | .error _ => s
  | .ok (db, none) => { s with db := db }
  | .ok (db, some claimed) =>
    { s with
      db := db
      executions := s.executions ++ [⟨claimed.run, claimed.lease, .claimed, none, false, false, false⟩] }

/-- One step.  What the worker cannot do changes nothing. -/
def step (s : Working) (now : Instant) : WorkerAct → Working
  | .others op => { s with db := apply w.store s.db now op }
  | .claims held => if s.released.isSome then s else w.claim s held now
  | .begins i =>
    s.on i (fun e => e.stage = .claimed) fun e =>
      match s.held e.run.runId with
      | none => s.start i e
      | some stale => s.set i { e with stage := .waiting stale }
  | .proceeds i =>
    s.on i
      (fun e =>
        match e.stage with
        | .waiting stale => s.stopped stale
        | _ => false)
      fun e => s.start i e
  | .writes i op => s.on i (fun e => e.atWork && op.runId = some e.run.runId) fun _ => s.send i op
  | .saves i lease => s.on i Execution.atWork fun e => s.set i { e with lease := lease }
  | .ends i how => s.on i Execution.atWork fun e => s.set i { e with ended := some how }
  | .beats i => s.on i Execution.beating fun e => s.send i (w.heartbeat e.run)
  | .answered i beat => s.on i Execution.beating fun e => s.hear i e beat
  -- a handler that has just ended is overtaken by the timeout's cancellation
  | .expires i =>
    s.on i (fun e => e.stage = .working && e.timed) fun e =>
      s.set i { e with expired := true, ended := e.ended.map fun _ => .cancelled }
  | .wakes i draw => s.on i (fun e => e.stage = .working && e.ended.isSome) fun e => w.wake s i e draw
  | .ended i => s.on i (fun e => e.stage = .ending) fun e => s.close i e
  | .served k =>
    match s.underway[k]? with
    | none => s
    | some x => { s with db := apply w.store s.db now x.op }
  | .gone k => { s with underway := s.underway.eraseIdx k }
  | .windsDown => if s.released.isSome then s else { s with released := some s.holding }
  | .releases =>
    match s.released with
    | none => s
    | some listed =>
      if s.executions.all fun e => e.stage = .finished then
        { s with
          released := some []
          underway := s.underway ++ listed.filterMap fun i => s.executions[i]?.map fun e => ⟨i, w.release e.run⟩ }
      else s

end Worker

/-! ## What is promised, and when it is kept -/

namespace Working

/-- The handler of a later attempt of execution `i`'s run has started. -/
def Superseded (s : Working) (i : Nat) : Prop :=
  ∃ j e f, i < j ∧ s.executions[i]? = some e ∧ s.executions[j]? = some f ∧ e.run.runId = f.run.runId ∧ f.started = true

/-- The run of execution `i`. -/
def runOf (s : Working) (i : Nat) : Option String := s.executions[i]?.map fun e => e.run.runId

/-- The execution whose handler an act starts. -/
def starting (s : Working) : WorkerAct → Option (Nat × Execution)
  | .begins i => s.executions[i]?.bind fun e => if e.stage = .claimed ∧ s.held e.run.runId = none then some (i, e) else none
  | .proceeds i =>
    s.executions[i]?.bind fun e =>
      match e.stage with
      | .waiting stale => if s.stopped stale then some (i, e) else none
      | _ => none
  | _ => none

/-- Nothing but a stopped handler is left of the earlier attempts of execution `i`'s run: none is
being ended or yet to start, no request for one is underway, none waits for the wind-down to
release it, and none that waited for the same handler has started. -/
def Undisturbed (s : Working) (i : Nat) (e : Execution) : Prop :=
  (∀ f ∈ s.executions.take i, f.run.runId = e.run.runId → f.stage = .working ∨ f.stage = .finished) ∧
  (∀ x ∈ s.underway, x.execution < i → s.runOf x.execution ≠ some e.run.runId) ∧
  (∀ k ∈ s.released.getD [], k < i → s.runOf k ≠ some e.run.runId) ∧
  (s.held e.run.runId).all (fun k => e.stage = .waiting k) = true

instance (s : Working) (i : Nat) (e : Execution) : Decidable (s.Undisturbed i e) :=
  inferInstanceAs (Decidable (_ ∧ _ ∧ _ ∧ _))

end Working

namespace Worker

/-- A request served for a superseded attempt changes nothing. -/
def Separate (w : Worker) (s : Working) (now : Instant) : WorkerAct → Prop
  | .served k =>
    ∀ x, s.underway[k]? = some x → s.Superseded x.execution → apply w.store s.db now x.op = s.db
  | _ => True

/-- A handler that starts starts undisturbed. -/
def Clear (s : Working) (_ : Instant) (act : WorkerAct) : Prop :=
  (s.starting act).all (fun a => s.Undisturbed a.1 a.2) = true

instance (s : Working) (now : Instant) (act : WorkerAct) : Decidable (Clear s now act) :=
  inferInstanceAs (Decidable (_ = true))

end Worker

/-! ## The worker's books -/

namespace Working

/-- An attempt that has started leaves no earlier one of its run unfinished; `_held` has the one
that is busy; a heartbeat beats for a busy one; nothing is underway, or listed for release, for
a superseded one. -/
structure Kept (s : Working) : Prop where
  order : ∀ {i j : Nat} {e f : Execution}, i < j → s.executions[i]? = some e → s.executions[j]? = some f → e.run.runId = f.run.runId →
    f.started = true → e.stage = .finished
  held : ∀ run i, s.held run = some i ↔ ∃ e, s.executions[i]? = some e ∧ e.run.runId = run ∧ e.busy = true
  beating : ∀ {i : Nat} {e : Execution}, s.executions[i]? = some e → e.beating = true → e.busy = true
  sent : ∀ x ∈ s.underway, ¬ s.Superseded x.execution
  listed : ∀ l, s.released = some l → ∀ i ∈ l, ¬ s.Superseded i

theorem kept_fresh (db : Database) : (fresh db).Kept where
  order := by intro i j e f _ he; simp [fresh] at he
  held := by simp [fresh]
  beating := by intro i e he; simp [fresh] at he
  sent := by simp [fresh]
  listed := by simp [fresh]

variable {s : Working} {i : Nat} {e e' : Execution}

theorem set_executions (he : s.executions[i]? = some e) (k : Nat) :
    (s.set i e').executions[k]? = if k = i then some e' else s.executions[k]? := by
  obtain ⟨hlt, -⟩ := List.getElem?_eq_some_iff.1 he
  show (s.executions.set i e')[k]? = _
  rw [List.getElem?_set]
  by_cases h : i = k
  · rw [if_pos h, if_pos hlt, if_pos h.symm]
  · rw [if_neg h, if_neg (Ne.symm h)]

theorem busy_started (h : e.busy = true) : e.started = true := by simp [Execution.started, h]

theorem busy_not_finished (h : e.busy = true) : e.stage ≠ .finished := by
  intro hs
  simp [Execution.busy, hs] at h

/-- What is busy is the last of its run to have started. -/
theorem Kept.latest (hk : s.Kept) (he : s.executions[i]? = some e) (hb : e.busy = true) : ¬ s.Superseded i := by
  rintro ⟨j, d, f, hij, hd, hf, hrun, hs⟩
  have heq : d = e := by rw [hd] at he; exact Option.some.inj he
  subst heq
  exact busy_not_finished hb (hk.order hij hd hf hrun hs)

/-- Execution `i` goes on to `e'`, of the same run, which has not started unless it had. -/
theorem superseded_set (he : s.executions[i]? = some e) (hrun : e'.run = e.run)
    (hs : e'.started = true → e.started = true) {k : Nat} (h : (s.set i e').Superseded k) : s.Superseded k := by
  have back : ∀ {k : Nat} {f' : Execution}, (s.set i e').executions[k]? = some f' →
      ∃ f, s.executions[k]? = some f ∧ f'.run = f.run ∧ (f'.started = true → f.started = true) := by
    intro k f' hf'
    rw [set_executions he] at hf'
    by_cases h : k = i
    · rw [if_pos h] at hf'
      obtain rfl := Option.some.inj hf'
      exact ⟨e, by rw [h]; exact he, hrun, hs⟩
    · rw [if_neg h] at hf'
      exact ⟨f', hf', rfl, id⟩
  obtain ⟨j, d', f', hkj, hd', hf', hdf, hf's⟩ := h
  obtain ⟨d, hd, hdr, -⟩ := back hd'
  obtain ⟨f, hf, hfr, hfs⟩ := back hf'
  exact ⟨j, d, f, hkj, hd, hf, by rw [← hdr, ← hfr]; exact hdf, hfs hf's⟩

/-- An execution goes on that does not start and does not leave `_held`. -/
theorem Kept.touch (hk : s.Kept) (he : s.executions[i]? = some e) (hrun : e'.run = e.run) (hbusy : e'.busy = e.busy)
    (hfin : e'.stage = .finished ↔ e.stage = .finished) (hbeat : e'.beating = true → e.beating = true) :
    (s.set i e').Kept := by
  have hs : e'.started = e.started := by simp [Execution.started, hbusy, hfin]
  have hsup : ∀ k, (s.set i e').Superseded k → s.Superseded k :=
    fun k h => superseded_set he hrun (by rw [hs]; exact id) h
  constructor
  · intro a b d f hab hd hf hdf hfs
    rw [set_executions he] at hd hf
    by_cases ha : a = i <;> by_cases hb : b = i
    · omega
    · rw [if_pos ha] at hd
      rw [if_neg hb] at hf
      obtain rfl := Option.some.inj hd
      exact hfin.2 (hk.order hab (by rw [ha]; exact he) hf (by rw [← hrun]; exact hdf) hfs)
    · rw [if_neg ha] at hd
      rw [if_pos hb] at hf
      obtain rfl := Option.some.inj hf
      exact hk.order hab hd (by rw [hb]; exact he) (by rw [← hrun]; exact hdf) (by rw [← hs]; exact hfs)
    · rw [if_neg ha] at hd
      rw [if_neg hb] at hf
      exact hk.order hab hd hf hdf hfs
  · intro run k
    show s.held run = some k ↔ _
    rw [hk.held, set_executions he]
    by_cases h : k = i
    · subst h
      rw [if_pos rfl, he]
      simp [hrun, hbusy]
    · rw [if_neg h]
  · intro k f hf hb
    rw [set_executions he] at hf
    by_cases h : k = i
    · rw [if_pos h] at hf
      obtain rfl := Option.some.inj hf
      rw [hbusy]
      exact hk.beating he (hbeat hb)
    · rw [if_neg h] at hf
      exact hk.beating hf hb
  · exact fun x hx h => hk.sent x hx (hsup _ h)
  · exact fun l hl k hkl h => hk.listed l hl k hkl (hsup _ h)

/-- A busy execution is done: its entry goes, and its run has none. -/
theorem Kept.close (hk : s.Kept) (he : s.executions[i]? = some e) (hb : e.busy = true) : (s.close i e).Kept := by
  let e' := { e with stage := .finished, beating := false }
  have hexec : ∀ k, (s.close i e).executions[k]? = if k = i then some e' else s.executions[k]? := set_executions he
  have hrun : e'.run = e.run := rfl
  have hsup : ∀ k, (s.close i e).Superseded k → s.Superseded k :=
    fun k h => superseded_set he hrun (fun _ => busy_started hb) h
  constructor
  · intro a c d f hac hd hf hdf hfs
    rw [hexec] at hd hf
    by_cases ha : a = i
    · rw [if_pos ha] at hd
      obtain rfl := Option.some.inj hd
      rfl
    · rw [if_neg ha] at hd
      by_cases hc : c = i
      · rw [if_pos hc] at hf
        obtain rfl := Option.some.inj hf
        exact hk.order hac hd (show s.executions[c]? = some e by rw [hc]; exact he) hdf (busy_started hb)
      · rw [if_neg hc] at hf
        exact hk.order hac hd hf hdf hfs
  · intro run k
    show (if s.held run = some i then none else s.held run) = some k ↔ _
    rw [hexec]
    by_cases h : k = i
    · subst h
      by_cases hrun : s.held run = some k <;> simp [hrun, e', Execution.busy]
    · rw [if_neg h, ← hk.held]
      by_cases hrun : s.held run = some i
      · simp [hrun, Ne.symm h]
      · rw [if_neg hrun]
  · intro k f hf hbt
    rw [hexec] at hf
    by_cases h : k = i
    · rw [if_pos h] at hf
      obtain rfl := Option.some.inj hf
      cases hbt
    · rw [if_neg h] at hf
      exact hk.beating hf hbt
  · exact fun x hx h => hk.sent x hx (hsup _ h)
  · exact fun l hl k hkl h => hk.listed l hl k hkl (hsup _ h)

/-- A start supersedes what came before it, and nothing else. -/
theorem superseded_start (he : s.executions[i]? = some e) {k : Nat} (h : (s.start i e).Superseded k) :
    s.Superseded k ∨ k < i ∧ s.runOf k = some e.run.runId := by
  have hexec : ∀ k, (s.start i e).executions[k]? =
      if k = i then some { e with stage := .working, timed := e.lease.remainingSeconds.isSome, beating := true }
      else s.executions[k]? := set_executions he
  obtain ⟨j, d, f, hkj, hd, hf, hdf, hs⟩ := h
  rw [hexec] at hd hf
  have hd' : ∃ d', s.executions[k]? = some d' ∧ d'.run = d.run := by
    by_cases hk : k = i
    · rw [if_pos hk] at hd
      obtain rfl := Option.some.inj hd
      exact ⟨e, by rw [hk]; exact he, rfl⟩
    · rw [if_neg hk] at hd
      exact ⟨d, hd, rfl⟩
  obtain ⟨d', hd', hdr⟩ := hd'
  by_cases hj : j = i
  · rw [if_pos hj] at hf
    obtain rfl := Option.some.inj hf
    right
    refine ⟨by omega, ?_⟩
    rw [runOf, hd', Option.map_some, hdr, hdf]
  · rw [if_neg hj] at hf
    exact .inl ⟨j, d', f, hkj, hd', hf, by rw [hdr]; exact hdf, hs⟩

/-- A handler starts that has not, no other of its run being busy. -/
theorem Kept.start (hk : s.Kept) (he : s.executions[i]? = some e) (hnew : e.started = false) (hu : s.Undisturbed i e)
    (halone : ∀ (k : Nat) (d : Execution), s.executions[k]? = some d → d.run.runId = e.run.runId → d.busy = false) : (s.start i e).Kept := by
  let e' := { e with stage := .working, timed := e.lease.remainingSeconds.isSome, beating := true }
  have hexec : ∀ k, (s.start i e).executions[k]? = if k = i then some e' else s.executions[k]? := set_executions he
  have hfin : e.stage ≠ .finished := by
    intro h
    simp [Execution.started, h] at hnew
  obtain ⟨hbefore, hunder, hlist, -⟩ := hu
  constructor
  · intro a c d f hac hd hf hdf hfs
    rw [hexec] at hd hf
    by_cases ha : a = i
    · rw [if_pos ha] at hd
      obtain rfl := Option.some.inj hd
      rw [if_neg (by omega)] at hf
      exact absurd (hk.order hac (show s.executions[a]? = some e by rw [ha]; exact he) hf hdf hfs) hfin
    · rw [if_neg ha] at hd
      by_cases hc : c = i
      · rw [if_pos hc] at hf
        obtain rfl := Option.some.inj hf
        have hmem : d ∈ s.executions.take i :=
          List.mem_iff_getElem?.2 ⟨a, by rw [List.getElem?_take, if_pos (by omega)]; exact hd⟩
        rcases hbefore d hmem hdf with h | h
        · have := halone a d hd hdf
          simp [Execution.busy, h] at this
        · exact h
      · rw [if_neg hc] at hf
        exact hk.order hac hd hf hdf hfs
  · intro run k
    show (if run = e.run.runId then some i else s.held run) = some k ↔ _
    rw [hexec]
    by_cases hrun : run = e.run.runId
    · rw [if_pos hrun]
      by_cases h : k = i
      · simp [h, hrun, e', Execution.busy]
      · rw [if_neg h]
        constructor
        · intro hki
          exact absurd (Option.some.inj hki).symm h
        · rintro ⟨d, hd, hdr, hb⟩
          rw [halone k d hd (by rw [hdr]; exact hrun)] at hb
          cases hb
    · rw [if_neg hrun]
      by_cases h : k = i
      · rw [if_pos h, hk.held, h, he]
        simp [e', Ne.symm hrun]
      · rw [if_neg h]
        exact hk.held run k
  · intro k f hf hbt
    rw [hexec] at hf
    by_cases h : k = i
    · rw [if_pos h] at hf
      obtain rfl := Option.some.inj hf
      simp [e', Execution.busy]
    · rw [if_neg h] at hf
      exact hk.beating hf hbt
  · intro x hx h
    rcases superseded_start he h with h | ⟨hlt, hrun⟩
    · exact hk.sent x hx h
    · exact hunder x hx hlt hrun
  · intro l hl k hkl h
    have hl' : s.released = some l := hl
    rcases superseded_start he h with h | ⟨hlt, hrun⟩
    · exact hk.listed l hl k hkl h
    · exact hlist k (by rw [hl']; exact hkl) hlt hrun

/-- The execution a new one waits for was busy; nothing else of the run is, undisturbed. -/
theorem Kept.alone (hk : s.Kept) (he : s.executions[i]? = some e) (hnew : e.started = false) (hu : s.Undisturbed i e)
    (hstopped : ∀ k, e.stage = .waiting k → s.stopped k = true) {k : Nat} {d : Execution}
    (hd : s.executions[k]? = some d) (hrun : d.run.runId = e.run.runId) : d.busy = false := by
  by_contra hb
  rw [Bool.not_eq_false] at hb
  obtain ⟨hbefore, -, -, hheld⟩ := hu
  have hentry : s.held e.run.runId = some k := (hk.held _ k).2 ⟨d, hd, hrun, hb⟩
  rw [hentry] at hheld
  have hwait : e.stage = .waiting k := by simpa using hheld
  have hstop := hstopped k hwait
  rw [stopped, hd] at hstop
  simp only [Option.any_some, decide_eq_true_eq] at hstop
  rcases lt_trichotomy k i with h | h | h
  · have hmem : d ∈ s.executions.take i :=
      List.mem_iff_getElem?.2 ⟨k, by rw [List.getElem?_take, if_pos h]; exact hd⟩
    rcases hbefore d hmem hrun with hs | hs
    · exact hstop.2 hs
    · exact busy_not_finished hb hs
  · subst h
    rw [hd] at he
    obtain rfl := Option.some.inj he
    rw [busy_started hb] at hnew
    cases hnew
  · have hs := hk.order h he hd hrun.symm (busy_started hb)
    rw [hwait] at hs
    cases hs

/-- What is sent for a busy execution is sent for the last of its run. -/
theorem Kept.send (hk : s.Kept) (hi : ¬ s.Superseded i) (op : Op) : (s.send i op).Kept where
  order := hk.order
  held := hk.held
  beating := hk.beating
  sent := by
    intro x hx
    rcases List.mem_append.1 hx with h | h
    · exact hk.sent x h
    · obtain rfl := List.mem_singleton.1 h
      exact hi
  listed := hk.listed

theorem Kept.lists (hk : s.Kept) (released : Option (List Nat))
    (h : ∀ l, released = some l → ∀ i ∈ l, ¬ s.Superseded i) : Kept { s with released := released } :=
  ⟨hk.order, hk.held, hk.beating, hk.sent, h⟩

theorem Kept.rows (hk : s.Kept) (db : Database) : Kept { s with db := db } :=
  ⟨hk.order, hk.held, hk.beating, hk.sent, hk.listed⟩

/-- A run is claimed: its execution comes last and has not started. -/
theorem Kept.join (hk : s.Kept) (hnew : e.started = false) (hbeat : e.beating = false) (db : Database) :
    Kept { s with db := db, executions := s.executions ++ [e] } := by
  have hbusy : e.busy ≠ true := fun h => by rw [busy_started h] at hnew; cases hnew
  have back : ∀ {k : Nat} {f : Execution}, (s.executions ++ [e])[k]? = some f →
      s.executions[k]? = some f ∨ k = s.executions.length ∧ f = e := by
    intro k f hf
    rw [List.getElem?_append] at hf
    by_cases h : k < s.executions.length
    · rw [if_pos h] at hf
      exact .inl hf
    · rw [if_neg h, List.getElem?_singleton] at hf
      by_cases h' : k - s.executions.length = 0
      · rw [if_pos h'] at hf
        exact .inr ⟨by omega, (Option.some.inj hf).symm⟩
      · rw [if_neg h'] at hf
        cases hf
  have below : ∀ {a c : Nat} {d f : Execution}, a < c → (s.executions ++ [e])[a]? = some d →
      (s.executions ++ [e])[c]? = some f → f.started = true → s.executions[a]? = some d ∧ s.executions[c]? = some f := by
    intro a c d f hac hd hf hs
    rcases back hf with hf | ⟨-, rfl⟩
    · rcases back hd with hd | ⟨ha, -⟩
      · exact ⟨hd, hf⟩
      · obtain ⟨hlt, -⟩ := List.getElem?_eq_some_iff.1 hf
        omega
    · rw [hnew] at hs
      cases hs
  have hsup : ∀ k, Superseded { s with db := db, executions := s.executions ++ [e] } k → s.Superseded k := by
    rintro k ⟨j, d, f, hkj, hd, hf, hdf, hs⟩
    obtain ⟨hd, hf⟩ := below hkj hd hf hs
    exact ⟨j, d, f, hkj, hd, hf, hdf, hs⟩
  constructor
  · intro a c d f hac hd hf hdf hs
    obtain ⟨hd, hf⟩ := below hac hd hf hs
    exact hk.order hac hd hf hdf hs
  · intro run k
    show s.held run = some k ↔ _
    rw [hk.held]
    constructor
    · rintro ⟨d, hd, h⟩
      obtain ⟨hlt, -⟩ := List.getElem?_eq_some_iff.1 hd
      exact ⟨d, by rw [← hd]; exact List.getElem?_append_left hlt, h⟩
    · rintro ⟨d, hd, hdr, hb⟩
      rcases back hd with hd | ⟨-, rfl⟩
      · exact ⟨d, hd, hdr, hb⟩
      · exact absurd hb hbusy
  · intro k f hf hb
    rcases back hf with hf | ⟨-, rfl⟩
    · exact hk.beating hf hb
    · rw [hbeat] at hb
      cases hb
  · exact fun x hx h => hk.sent x hx (hsup _ h)
  · exact fun l hl k hkl h => hk.listed l hl k hkl (hsup _ h)

/-- What is held is busy, and so the last of its run. -/
theorem Kept.holding (hk : s.Kept) (hi : i ∈ s.holding) : ¬ s.Superseded i := by
  obtain ⟨-, hheld⟩ := List.mem_filter.1 hi
  obtain ⟨e, he, hr⟩ := (Option.any_eq_true _ _).1 hheld
  rw [decide_eq_true_eq, hk.held] at hr
  obtain ⟨d, hd, -, hb⟩ := hr
  exact hk.latest hd hb

theorem Kept.on (hk : s.Kept) {p : Execution → Bool} {f : Execution → Working}
    (h : ∀ e, s.executions[i]? = some e → p e = true → (f e).Kept) : (s.on i p f).Kept := by
  unfold Working.on
  cases he : s.executions[i]? with
  | none => exact hk
  | some e =>
    show (if p e then f e else s).Kept
    by_cases hp : p e = true
    · rw [if_pos hp]
      exact h e he hp
    · rw [if_neg hp]
      exact hk

end Working

namespace Worker

open Working

variable {w : Worker} {s : Working} {i : Nat} {e : Execution}

theorem kept_claim (hk : s.Kept) (held : Held) (now : Instant) : (w.claim s held now).Kept := by
  unfold claim
  split
  · exact hk
  · exact hk.rows _
  · exact hk.join rfl rfl _

/-- An ending is sent while its execution is busy. -/
theorem kept_endWith (hk : s.Kept) (he : s.executions[i]? = some e) (hw : e.stage = .working) (ending : RunFinish)
    (draw : Draw) : (w.endWith s i e ending draw).Kept := by
  have hb : e.busy = true := by simp [Execution.busy, hw]
  have hset : (s.set i { e with stage := .ending }).Kept := hk.touch he rfl (by rw [hb]; rfl) (by simp [hw]) id
  refine hset.send ?_ _
  refine hset.latest (e := { e with stage := .ending }) ?_ rfl
  rw [set_executions he, if_pos rfl]

theorem kept_wake (hk : s.Kept) (he : s.executions[i]? = some e) (hw : e.stage = .working) (draw : Draw) :
    (w.wake s i e draw).Kept := by
  have hclose : (s.close i e).Kept := hk.close he (by simp [Execution.busy, hw])
  have hend : ∀ ending, (w.endWith s i e ending draw).Kept := fun ending => kept_endWith hk he hw ending draw
  unfold wake
  split
  · exact hk
  · exact hclose
  · exact hclose
  · split
    · exact hend _
    · split
      · exact hend _
      · exact hclose
  · split
    · exact hend _
    · exact hend _

theorem kept_hear (hk : s.Kept) (he : s.executions[i]? = some e) (beat : Beat) : (s.hear i e beat).Kept := by
  cases beat with
  | lost => exact hk.touch he rfl rfl Iff.rfl (fun h => by cases h)
  | failed lapsed => exact hk.touch he rfl rfl Iff.rfl fun h => (Bool.and_eq_true_iff.1 h).1
  | renewed lease => exact hk.touch he rfl rfl Iff.rfl fun h => (Bool.and_eq_true_iff.1 h).1

theorem kept_begins (hk : s.Kept) (he : s.executions[i]? = some e) (hclaimed : e.stage = .claimed) {now : Instant}
    (hc : Clear s now (.begins i)) : (w.step s now (.begins i)).Kept := by
  have hnew : e.started = false := by simp [Execution.started, Execution.busy, hclaimed]
  refine hk.on fun e₁ he₁ _ => ?_
  obtain rfl : e = e₁ := Option.some.inj (he.symm.trans he₁)
  cases hheld : s.held e.run.runId with
  | some stale => exact hk.touch he rfl (by simp [Execution.busy, hclaimed]) (by simp [hclaimed]) id
  | none =>
    have hu : s.Undisturbed i e := by
      simpa only [Clear, starting, he, hclaimed, hheld, Option.bind_some, and_self, if_true, Option.all_some,
        decide_eq_true_eq] using hc
    refine hk.start he hnew hu fun k d hd hrun => hk.alone he hnew hu ?_ hd hrun
    intro k hwait
    rw [hclaimed] at hwait
    cases hwait

theorem kept_proceeds (hk : s.Kept) (he : s.executions[i]? = some e) {stale : Nat} (hwait : e.stage = .waiting stale)
    (hstop : s.stopped stale = true) {now : Instant} (hc : Clear s now (.proceeds i)) : (s.start i e).Kept := by
  have hnew : e.started = false := by simp [Execution.started, Execution.busy, hwait]
  have hu : s.Undisturbed i e := by
    simpa only [Clear, starting, he, hwait, hstop, Option.bind_some, if_true, Option.all_some,
      decide_eq_true_eq] using hc
  refine hk.start he hnew hu fun k d hd hrun => hk.alone he hnew hu ?_ hd hrun
  intro k hk'
  rw [hwait] at hk'
  obtain rfl := Stage.waiting.inj hk'
  exact hstop

/-- Releases are for what the wind-down listed. -/
theorem kept_releases (hk : s.Kept) (now : Instant) : (w.step s now .releases).Kept := by
  show Kept (match s.released with | none => s | some listed => _)
  cases hl : s.released with
  | none => exact hk
  | some listed =>
    show Kept (if _ then _ else _)
    split
    · refine ⟨hk.order, hk.held, hk.beating, ?_, ?_⟩
      · intro x hx
        rcases List.mem_append.1 hx with h | h
        · exact hk.sent x h
        · obtain ⟨k, hk', hx⟩ := List.mem_filterMap.1 h
          obtain ⟨e, -, rfl⟩ := Option.map_eq_some_iff.1 hx
          exact hk.listed listed hl k hk'
      · intro l hl'
        obtain rfl := Option.some.inj hl'
        intro k hk'
        cases hk'
    · exact hk

/-- **One step.**  The books stay in order where a handler that starts starts undisturbed. -/
theorem kept_step (hk : s.Kept) (now : Instant) (act : WorkerAct) (hc : Clear s now act) : (w.step s now act).Kept := by
  cases act with
  | others op => exact hk.rows _
  | claims held =>
    show Kept (if _ then _ else _)
    split
    · exact hk
    · exact kept_claim hk held now
  | begins i =>
    cases he : s.executions[i]? with
    | none => simpa only [step, Working.on, he] using hk
    | some e =>
      by_cases hclaimed : e.stage = .claimed
      · exact kept_begins hk he hclaimed hc
      · simpa only [step, Working.on, he, hclaimed, decide_false, Bool.false_eq_true, if_false] using hk
  | proceeds i =>
    refine hk.on fun e he hp => ?_
    cases hwait : e.stage with
    | waiting stale =>
      rw [hwait] at hp
      exact kept_proceeds hk he hwait hp hc
    | claimed => rw [hwait] at hp; cases hp
    | working => rw [hwait] at hp; cases hp
    | ending => rw [hwait] at hp; cases hp
    | finished => rw [hwait] at hp; cases hp
  | writes i op =>
    refine hk.on fun e he hp => hk.send (hk.latest he ?_) op
    simp only [Execution.atWork, Bool.and_eq_true, decide_eq_true_eq] at hp
    simp [Execution.busy, hp.1.1]
  | saves i lease => exact hk.on fun e he _ => hk.touch he rfl rfl Iff.rfl id
  | ends i how => exact hk.on fun e he _ => hk.touch he rfl rfl Iff.rfl id
  | beats i => exact hk.on fun e he hp => hk.send (hk.latest he (hk.beating he hp)) _
  | answered i beat => exact hk.on fun e he _ => kept_hear hk he beat
  | expires i => exact hk.on fun e he _ => hk.touch he rfl rfl Iff.rfl id
  | wakes i draw =>
    refine hk.on fun e he hp => kept_wake hk he ?_ draw
    rw [Bool.and_eq_true, decide_eq_true_eq] at hp
    exact hp.1
  | ended i =>
    refine hk.on fun e he hp => hk.close he ?_
    simp [Execution.busy, of_decide_eq_true hp]
  | served k =>
    show Kept (match s.underway[k]? with | none => s | some x => _)
    split
    · exact hk
    · exact hk.rows _
  | gone k => exact ⟨hk.order, hk.held, hk.beating, fun x hx => hk.sent x (List.mem_of_mem_eraseIdx hx), hk.listed⟩
  | windsDown =>
    show Kept (if _ then _ else _)
    split
    · exact hk
    · refine hk.lists _ fun l hl k hkl => ?_
      obtain rfl := Option.some.inj hl
      exact hk.holding hkl
  | releases => exact kept_releases hk now

/-- **Runs.**  A worker whose handlers all start undisturbed never writes for an attempt it lost:
not its handler, not an ending made for it, not its heartbeat, not its release. -/
theorem separate_of_clear (w : Worker) (db : Database) (acts : List (Instant × WorkerAct))
    (hc : Run.Each w.step Clear (.fresh db) acts) : Run.Each w.step w.Separate (.fresh db) acts := by
  refine Run.Each.under (P := Kept) ?_ ?_ (kept_fresh db) hc
  · exact fun s now act hk hc => kept_step hk now act hc
  · intro s now act hk _
    cases act with
    | served k => exact fun x hx hsup => absurd hsup (hk.sent x (List.mem_of_getElem? hx))
    | _ => trivial

end Worker

/-! ## A run taken back by the worker that lost it -/

open Worker

def smallWorker : Worker := ⟨smallStore, "w", ["a"], smallLease, some "t"⟩

/-- The heartbeats of a run do not arrive, its lease lapses, and the worker claims it again. -/
def takenBack : List (Instant × WorkerAct) :=
  [(0, .others (.start smallStart true false)), (1, .claims ⟨[], []⟩), (1, .begins 0),
    (100, .others (.requeueLapsed [] 10 fun _ => smallDraw)), (1000, .claims ⟨[], []⟩), (1000, .begins 1)]

/-- The earlier handler lets itself be cancelled; the later one ends the run. -/
def quietly : List (Instant × WorkerAct) :=
  takenBack ++ [(1000, .ends 0 .cancelled), (1000, .wakes 0 smallDraw), (1000, .proceeds 1),
    (1001, .writes 1 (.finish "t" "r" smallFinish (some "w") smallDraw)), (1002, .served 0)]

theorem quietly_separate : Run.Each smallWorker.step smallWorker.Separate (.fresh .empty) quietly :=
  separate_of_clear smallWorker .empty quietly (by decide +kernel)

/-- What a handler raises as it is cancelled: its cleanup failed. -/
def cleanupFailed : AgentError := ⟨"internal", .UNKNOWN, "cleanup failed", true, none⟩

/-- The earlier handler raises as it is cancelled; the later one starts. -/
def loudly : List (Instant × WorkerAct) :=
  takenBack ++ [(1000, .ends 0 (.raised cleanupFailed)), (1000, .wakes 0 smallDraw), (1000, .proceeds 1)]

/-- The ending the worker sent for the earlier attempt takes the run from the later one. -/
theorem loudly_overwrites :
    ¬ Run.Each smallWorker.step smallWorker.Separate (.fresh .empty) (loudly ++ [(1001, .served 0)]) := by
  intro h
  let s := Run.after smallWorker.step (.fresh .empty) loudly
  obtain ⟨x, hx⟩ := Option.isSome_iff_exists.1 (show (s.underway[0]?).isSome = true by decide +kernel)
  obtain ⟨f, hf⟩ := Option.isSome_iff_exists.1 (show (s.executions[1]?).isSome = true by decide +kernel)
  have hfirst : s.runOf 0 = some "r" := by decide +kernel
  obtain ⟨e, he, hrun⟩ := Option.map_eq_some_iff.1 hfirst
  have hzero : x.execution = 0 := by
    have h0 : (s.underway[0]?).map (·.execution) = some 0 := by decide +kernel
    rw [hx] at h0
    exact Option.some.inj h0
  have hlater : (s.executions[1]?).all (fun f => f.run.runId = "r" ∧ f.started = true) = true := by decide +kernel
  rw [hf, Option.all_some, decide_eq_true_eq] at hlater
  have hsup : s.Superseded x.execution := by
    rw [hzero]
    exact ⟨1, e, f, by decide, he, hf, by rw [hrun, hlater.1], hlater.2⟩
  have hsame : (smallWorker.step s 1001 (.served 0)).db = s.db := by
    simp only [step, hx]
    exact h.last x hx hsup
  have hattempts : (smallWorker.step s 1001 (.served 0)).db.runs.rows.map (·.attempt) ≠ s.db.runs.rows.map (·.attempt) := by
    decide +kernel
  exact hattempts (by rw [hsame])

end AgentRuns
