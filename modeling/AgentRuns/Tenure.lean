import AgentRuns.ClaimChoice
import AgentRuns.ClaimSafety
import AgentRuns.FairShare
import AgentRuns.Lasting
import AgentRuns.Workers

/-!
# How long a lost run is worked on

A worker's heartbeat loop (`Worker._heartbeat`) beside everything else that goes on in the store,
on one clock.  The loop sleeps a third of the lease and calls; where the call fails and the last
lease came longer ago than it is long, it stops the handler.

The handler cannot know at once that its run is lost, but it works on for a bounded time: after the
store has put the run back on the queue for its lapsed lease, for a third of the lease, two calls
and how late the loop may wake (`overlap_bounded`).
-/

namespace AgentRuns

open Relational Fallible Timed

namespace Tenure

/-- Where the loop is, and since when; `stopped` when it has cancelled the handler. -/
inductive Loop where
  | sleeping (since : Instant)
  | calling (since : Instant)
  | stopped
deriving DecidableEq

/-- The store; the job's `_Renewed.at`; when the store last granted the lease (ghost). -/
structure Holding where
  db : Database
  renewedAt : Instant
  loop : Loop
  granted : Instant

/-- As the handler starts: the claim was served at `granted`, and answered at `now`. -/
def Holding.begun (db : Database) (granted now : Instant) : Holding := ⟨db, now, .sleeping now, granted⟩

/-- What a call of the loop comes back with. -/
inductive Heard where
  | lost
  | failed
  | renewed (lease : Lease)

/-- The handler does something; anything else in the store; a heartbeat of the loop or a checkpoint of the handler reaches the
store; the handler takes a lease in; the loop calls, and hears. -/
inductive HoldingAct where
  | works
  | others (op : Op)
  | served (checkpoint : Option Json)
  | saves
  | calls
  | hears (heard : Heard)

/-- How long a call takes at most, and how late the loop may wake. -/
structure Patience where
  call : Rat
  late : Rat

/-- One execution of a worker. -/
structure Execution where
  worker : Worker
  tenantId : String
  runId : String
  patience : Patience

namespace Execution

variable (x : Execution)

/-- `lease_seconds` -/
def lease : Rat := x.worker.leaseSeconds.val

/-- The store says that the worker holds the run. -/
def holds (db : Database) : Bool := (db.run? x.runId).any (·.leaseOwner = some x.worker.workerId)

def heartbeat (checkpoint : Option Json) : Op :=
  .heartbeat x.tenantId x.runId ⟨x.worker.workerId, x.worker.leaseSeconds, checkpoint⟩

def claims : ClaimRequest := ⟨x.worker.workerId, x.worker.agentIds, x.worker.leaseSeconds⟩

def step (s : Holding) (now : Instant) : HoldingAct → Holding
  | .works => s
  | .others op => { s with db := apply x.worker.store s.db now op }
  | .served checkpoint =>
    match perform x.worker.store (x.heartbeat checkpoint) now s.db with
    | .ok (db, _) => { s with db := db, granted := now }
    | .error _ => s
  | .saves => { s with renewedAt := now }
  | .calls =>
    match s.loop with
    | .sleeping _ => { s with loop := .calling now }
    | _ => s
  | .hears heard =>
    match s.loop with
    | .calling _ =>
      match heard with
      | .lost => { s with loop := .stopped }
      | .failed => { s with loop := if x.lease ≤ now - s.renewedAt then .stopped else .sleeping now }
      | .renewed lease => { s with renewedAt := now, loop := if lease.cancelRequested then .stopped else .sleeping now }
    | _ => s

/-- The loop wakes in time, and no call takes longer than it may. -/
def inTime (s : Holding) (now : Instant) : Bool :=
  match s.loop with
  | .sleeping since => now ≤ since + x.lease / 3 + x.patience.late
  | .calling since => now ≤ since + x.patience.call
  | .stopped => true

/-- A heartbeat in the worker's name. -/
def beatsFor : Op → Bool
  | .heartbeat _ runId request => runId = x.runId && request.workerId = x.worker.workerId
  | _ => false

/-- A lease that is taken in was granted within a call; nobody else heartbeats in the worker's name,
and it is not given the run anew (it stops the handler itself then). -/
def fair (s : Holding) (now : Instant) : HoldingAct → Bool
  | .others op => !x.beatsFor op && (x.holds s.db || !x.holds (apply x.worker.store s.db now op))
  | .saves => now ≤ s.granted + x.patience.call
  | .hears (.renewed _) => now ≤ s.granted + x.patience.call
  | _ => true

def Timely (s : Holding) (now : Instant) (act : HoldingAct) : Prop := x.inTime s now = true ∧ x.fair s now act = true

instance (s : Holding) (now : Instant) (act : HoldingAct) : Decidable (x.Timely s now act) := inferInstanceAs (Decidable (_ ∧ _))

/-- What is left when the lease ends. -/
def slack : Rat := x.lease / 3 + x.patience.late + 2 * x.patience.call

end Execution

/-! ## The lease in the store -/

section
variable {x : Execution} {store : RunStore} {db db' : Database} {row row' : RunRow} {t now : Instant} {op : Op} {s : Holding}
  {act : HoldingAct}

/-- What keeps the holder, but its heartbeat, keeps the end of the lease, and the cancel that was asked for. -/
theorem change_kept (h : Change store now op row row') (hi : RowInv row) (hbeat : ∀ tenantId runId request,
    op = .heartbeat tenantId runId request → row.leaseOwner ≠ some request.workerId) (howner : row.leaseOwner.isSome)
    (hsame : row'.leaseOwner = row.leaseOwner) :
    row'.leaseExpiresAt = row.leaseExpiresAt ∧ (row'.cancelRequestedAt = none → row.cancelRequestedAt = none) := by
  have hrunning := hi.leased howner
  cases h with
  | claimed queued =>
    rw [hrunning] at queued
    cases queued
  | beat running holder => exact absurd holder (hbeat _ _ _ rfl)
  | cancelAsked => exact ⟨rfl, nofun⟩
  | escalated paused =>
    rw [hrunning] at paused
    cases paused
  | resumeRunning => exact ⟨rfl, id⟩
  | @finished row tenantId runId ending workerId draw fenced last can =>
    have hne : ending.status ≠ .RUNNING := (RunStatus.ne_of_final ending.isAnEnding).2.1
    rw [← hsame] at howner
    simp [RunRow.moved, hne] at howner
  | _ =>
    rw [← hsame] at howner
    cases howner

/-- A heartbeat that is granted is the holder's. -/
theorem heartbeat_ok {tenantId runId : String} {request : HeartbeatRequest} {lease : Lease}
    (h : store.heartbeat db tenantId runId request now = .ok (db', lease)) :
    ∃ row, db.run? runId = some row ∧ row.leaseOwner = some request.workerId ∧
      db'.run? runId = some ((row.saved request.checkpoint now).leased request.workerId request.leaseSeconds now) := by
  unfold RunStore.heartbeat at h
  obtain ⟨_, hb, h⟩ := bind_ok.1 h
  cases boundedCheckpoint_ok hb
  obtain ⟨row, hrow, h⟩ := bind_ok.1 h
  obtain ⟨⟨hr, -⟩, hw⟩ := Database.locked_ok.1 hrow
  obtain ⟨_, hs, h⟩ := bind_ok.1 h
  obtain ⟨_, hf, h⟩ := bind_ok.1 h
  obtain ⟨hfit, rfl⟩ := Database.flush_ok.1 hf
  cases h
  refine ⟨row, hr, by simpa using hw, ?_⟩
  have hkey : row.runId = runId := Table.key_of_find? hr
  have hsaved : ((row.saved request.checkpoint now).leased request.workerId request.leaseSeconds now).runId = row.runId := by
    unfold RunRow.saved
    split <;> rfl
  rw [Table.putAll_singleton, ← hkey]
  show ({ db with runs := db.runs.put ((row.saved request.checkpoint now).leased request.workerId request.leaseSeconds now) } :
    Database).run? row.runId = _
  rw [run?_put hsaved, if_pos rfl, hkey, hr]
  rfl

/-- A claim that answers with a run has leased it. -/
theorem claim_ok {held : Held} {own : Option String} {request : ClaimRequest} {claimed : Claimed}
    (h : perform store (.claim held own request) now db = .ok (db', .claimed (some claimed))) :
    ∃ row, db.run? row.runId = some row ∧ row.status = .QUEUED ∧
      db' = { db with runs := db.runs.put ((row.moved .RUNNING now).leased request.workerId request.leaseSeconds now) } ∧
      claimed.run = record ((row.moved .RUNNING now).leased request.workerId request.leaseSeconds now) now := by
  obtain ⟨taken, hclaim, he⟩ := answering_ok.1 h
  unfold RunStore.claim at hclaim
  split at hclaim
  · cases hclaim
    cases he
  · next row hrow =>
    obtain ⟨hm, hqueued, -⟩ := RunStore.claimLoop_spec hrow
    obtain ⟨⟨_, claimed'⟩, htake, hclaim⟩ := bind_ok.1 hclaim
    obtain ⟨-, rfl, hrecord⟩ := RunStore.take_ok htake
    cases hclaim
    cases he
    exact ⟨row, run?_of_mem hm, hqueued, rfl, hrecord⟩

theorem holds_iff : x.holds db = true ↔ ∃ row, db.run? x.runId = some row ∧ row.leaseOwner = some x.worker.workerId := by
  unfold Execution.holds
  rw [Option.any_eq_true]
  exact exists_congr fun row => and_congr_right fun _ => decide_eq_true_iff

/-! ## One step -/

theorem lease_pos (x : Execution) : 0 < x.lease := by
  have hle : minLeaseSeconds ≤ x.worker.leaseSeconds.val := x.worker.leaseSeconds.2.1
  have hpos : 0 < x.worker.leaseSeconds.val := lt_of_lt_of_le (by decide) hle
  exact Nat.cast_pos.2 hpos

theorem calls_cases (x : Execution) (s : Holding) (now : Instant) : x.step s now .calls = s ∨
    ∃ since, s.loop = .sleeping since ∧ x.step s now .calls = { s with loop := .calling now } := by
  unfold Execution.step
  cases hloop : s.loop with
  | sleeping since => exact .inr ⟨since, rfl, rfl⟩
  | calling since => exact .inl rfl
  | stopped => exact .inl rfl

/-- A call the store refuses changes nothing; one it serves is granted now. -/
theorem served_cases (x : Execution) (s : Holding) (now : Instant) (checkpoint : Option Json) :
    x.step s now (.served checkpoint) = s ∨ ∃ db answer,
      perform x.worker.store (x.heartbeat checkpoint) now s.db = .ok (db, answer) ∧
        x.step s now (.served checkpoint) = { s with db := db, granted := now } := by
  unfold Execution.step
  cases hperform : perform x.worker.store (x.heartbeat checkpoint) now s.db with
  | error problem =>
    left
    simp only [hperform]
  | ok answered =>
    obtain ⟨db, answer⟩ := answered
    refine .inr ⟨db, answer, rfl, ?_⟩
    simp only [hperform]

/-- After a call the loop has stopped, or sleeps anew while the lease it goes by is not over. -/
theorem hears_cases (x : Execution) (s : Holding) (now : Instant) (heard : Heard) : x.step s now (.hears heard) = s ∨
    ∃ renewedAt loop, x.step s now (.hears heard) = { s with renewedAt := renewedAt, loop := loop } ∧
      (loop = .stopped ∨ loop = .sleeping now ∧ now < renewedAt + x.lease) ∧
      (renewedAt = s.renewedAt ∨ renewedAt = now ∧ ∃ lease, heard = .renewed lease) := by
  unfold Execution.step
  cases s.loop with
  | sleeping since => exact .inl rfl
  | stopped => exact .inl rfl
  | calling since =>
    refine .inr ?_
    cases heard with
    | lost => exact ⟨_, _, rfl, .inl rfl, .inl rfl⟩
    | failed =>
      refine ⟨_, _, rfl, ?_, .inl rfl⟩
      by_cases hlapsed : x.lease ≤ now - s.renewedAt
      · exact .inl (if_pos hlapsed)
      · exact .inr ⟨if_neg hlapsed, by linarith⟩
    | renewed lease =>
      refine ⟨_, _, rfl, ?_, .inr ⟨rfl, lease, rfl⟩⟩
      by_cases hcancel : lease.cancelRequested = true
      · exact .inl (if_pos hcancel)
      · exact .inr ⟨if_neg hcancel, by linarith [lease_pos x]⟩

/-- What the steps keep.  The loop began to sleep before the lease's length was over since the last one that was taken in, and began
its call before it was so and it woke. -/
structure Keeps (x : Execution) (t : Instant) (s : Holding) : Prop where
  reached : ∃ since ≤ t, ReachedAt x.worker.store since s.db
  there : ∃ row, s.db.run? x.runId = some row
  granted : s.granted ≤ t
  renewed : s.renewedAt ≤ t ∧ s.renewedAt ≤ s.granted + x.patience.call
  sleeping : ∀ since, s.loop = .sleeping since → since < s.renewedAt + x.lease
  calling : ∀ since, s.loop = .calling since → since < s.renewedAt + x.lease + (x.lease / 3 + x.patience.late)
  expires : ∀ row, s.db.run? x.runId = some row → row.leaseOwner = some x.worker.workerId → row.cancelRequestedAt = none →
    row.leaseExpiresAt = some (s.granted + x.lease)

theorem Keeps.later (h : Keeps x t s) (hle : t ≤ now) : Keeps x now s := by
  obtain ⟨since, hsince, hreached⟩ := h.reached
  exact { h with
    reached := ⟨since, hsince.trans hle, hreached⟩
    granted := h.granted.trans hle
    renewed := ⟨h.renewed.1.trans hle, h.renewed.2⟩ }

theorem keeps_others (h : Keeps x t s) (hle : t ≤ now) (hfair : x.fair s now (.others op) = true) :
    Keeps x now { s with db := apply x.worker.store s.db now op } := by
  obtain ⟨since, hsince, hreached⟩ := h.reached
  obtain ⟨row₀, hr₀⟩ := h.there
  obtain ⟨row₁, hr₁, -⟩ := run_apply x.worker.store now op hr₀
  simp only [Execution.fair, Bool.and_eq_true, Bool.not_eq_true', Bool.or_eq_true] at hfair
  obtain ⟨hbeat, hanew⟩ := hfair
  refine { h.later hle with
    reached := ⟨now, le_rfl, hreached.tail (hsince.trans hle) op⟩
    there := ⟨row₁, hr₁⟩
    expires := fun row' hr' howner huncancelled => ?_ }
  have hbefore : x.holds s.db = true := by
    refine hanew.resolve_right fun hnot => ?_
    rw [holds_iff.2 ⟨row', hr', howner⟩] at hnot
    cases hnot
  obtain ⟨row, hr, hheld⟩ := holds_iff.1 hbefore
  rcases apply_run hr' with hsame | ⟨first, hfirst, hchange, -, hnamed⟩ | ⟨hnone, -⟩
  · exact h.expires row' hsame howner huncancelled
  · rw [hr] at hfirst
    cases hfirst
    have hinv : RowInv row := Reached.inv ⟨since, hreached⟩ hr
    have hothers : ∀ tenantId runId request, op = .heartbeat tenantId runId request →
        row.leaseOwner ≠ some request.workerId := by
      intro tenantId runId request he hworker
      have hrun : x.runId = runId := hnamed runId (by rw [he]; rfl)
      rw [hheld] at hworker
      rw [he, Execution.beatsFor, ← hrun] at hbeat
      simp [Option.some.inj hworker] at hbeat
    obtain ⟨hexpires, hkept⟩ := change_kept hchange hinv hothers (by rw [hheld]; rfl) (howner.trans hheld.symm)
    rw [hexpires]
    exact h.expires row hr hheld (hkept huncancelled)
  · exact absurd (hnone.symm.trans hr) nofun

theorem keeps_served (h : Keeps x t s) (hle : t ≤ now) (checkpoint : Option Json) :
    Keeps x now (x.step s now (.served checkpoint)) := by
  rcases served_cases x s now checkpoint with hsame | ⟨db', answer, hperform, hnext⟩
  · rw [hsame]
    exact h.later hle
  · obtain ⟨since, hsince, hreached⟩ := h.reached
    obtain ⟨lease, hbeat, -⟩ := answering_ok.1 hperform
    obtain ⟨row, hr, hheld, hr'⟩ := heartbeat_ok hbeat
    have hgranted : s.granted ≤ now := h.granted.trans hle
    have hreached' : ReachedAt x.worker.store now db' := apply_of_ok hperform ▸ hreached.tail (hsince.trans hle) _
    rw [hnext]
    refine ⟨⟨now, le_rfl, hreached'⟩, ⟨_, hr'⟩, le_rfl, ⟨h.renewed.1.trans hle, ?_⟩, h.sleeping, h.calling,
      fun row' hrow' _ huncancelled => ?_⟩
    · have := h.renewed.2
      show s.renewedAt ≤ now + _
      linarith
    · have hrow := hr'.symm.trans hrow'
      cases hrow
      have hnone : (row.saved checkpoint now).cancelRequestedAt = none := huncancelled
      show some ((row.saved checkpoint now).cancelRequestedAt.getD now + _) = _
      rw [hnone]
      rfl

theorem keeps_step (h : Keeps x t s) (hle : t ≤ now) (hok : x.Timely s now act) : Keeps x now (x.step s now act) := by
  have hpos := lease_pos x
  have hrenewed : s.renewedAt ≤ now := h.renewed.1.trans hle
  have hstill : Keeps x now s := h.later hle
  obtain ⟨htime, hfair⟩ := hok
  cases act with
  | works => exact hstill
  | others op => exact keeps_others h hle hfair
  | served checkpoint => exact keeps_served h hle checkpoint
  | saves =>
    have hcall : now ≤ s.granted + x.patience.call := of_decide_eq_true hfair
    refine { hstill with renewed := ⟨le_rfl, hcall⟩, sleeping := fun since hloop => ?_, calling := fun since hloop => ?_ }
    · have := h.sleeping since hloop
      show since < now + _
      linarith
    · have := h.calling since hloop
      show since < now + _ + _
      linarith
  | calls =>
    rcases calls_cases x s now with hsame | ⟨since, hloop, hnext⟩
    · rw [hsame]
      exact hstill
    · have hwoke : now ≤ since + x.lease / 3 + x.patience.late := by simpa [Execution.inTime, hloop] using htime
      have hslept := h.sleeping since hloop
      rw [hnext]
      refine { hstill with sleeping := nofun, calling := fun since' he => ?_ }
      cases he
      show now < s.renewedAt + _ + _
      linarith
  | hears heard =>
    rcases hears_cases x s now heard with hsame | ⟨renewedAt, loop, hnext, hloop, htaken⟩
    · rw [hsame]
      exact hstill
    · have hrenewedAt : renewedAt ≤ now ∧ renewedAt ≤ s.granted + x.patience.call := by
        rcases htaken with rfl | ⟨rfl, lease, rfl⟩
        · exact hstill.renewed
        · exact ⟨le_rfl, of_decide_eq_true hfair⟩
      rw [hnext]
      refine { hstill with renewed := hrenewedAt, sleeping := fun since he => ?_, calling := fun since he => ?_ }
      · rcases hloop with rfl | ⟨rfl, hlt⟩
        · cases he
        · cases he
          exact hlt
      · rcases hloop with rfl | ⟨rfl, -⟩ <;> cases he

/-! ## Every run -/

/-- **While it works.**  What the handler does, it does before the lease and what is left after it are over. -/
theorem Keeps.works (h : Keeps x t s) (hcall : 0 ≤ x.patience.call) (htime : x.inTime s now = true)
    (hgoes : s.loop ≠ .stopped) :
    now < s.granted + x.lease + x.slack := by
  have hrenewed := h.renewed.2
  unfold Execution.slack
  cases hloop : s.loop with
  | sleeping since =>
    have hwakes : now ≤ since + x.lease / 3 + x.patience.late := by simpa [Execution.inTime, hloop] using htime
    have hslept := h.sleeping since hloop
    linarith
  | calling since =>
    have hcalls : now ≤ since + x.patience.call := by simpa [Execution.inTime, hloop] using htime
    have hcalled := h.calling since hloop
    linarith
  | stopped => exact absurd hloop hgoes

/-- A run that is lost stays so, and nothing is granted any more. -/
theorem lost_stays (hlost : x.holds s.db = false) (hfair : x.fair s now act = true) :
    x.holds (x.step s now act).db = false ∧ (x.step s now act).granted = s.granted := by
  cases act with
  | works => exact ⟨hlost, rfl⟩
  | others op =>
    simp only [Execution.fair, hlost, Bool.and_eq_true, Bool.false_or, Bool.not_eq_true'] at hfair
    exact ⟨hfair.2, rfl⟩
  | served checkpoint =>
    rcases served_cases x s now checkpoint with hsame | ⟨db', answer, hperform, -⟩
    · rw [hsame]
      exact ⟨hlost, rfl⟩
    · obtain ⟨lease, hbeat, -⟩ := answering_ok.1 hperform
      obtain ⟨row, hr, hheld, -⟩ := heartbeat_ok hbeat
      rw [holds_iff.2 ⟨row, hr, hheld⟩] at hlost
      cases hlost
  | saves => exact ⟨hlost, rfl⟩
  | calls =>
    rcases calls_cases x s now with hsame | ⟨since, hloop, hnext⟩
    · rw [hsame]
      exact ⟨hlost, rfl⟩
    · rw [hnext]
      exact ⟨hlost, rfl⟩
  | hears heard =>
    rcases hears_cases x s now heard with hsame | ⟨renewedAt, loop, hnext, -⟩
    · rw [hsame]
      exact ⟨hlost, rfl⟩
    · rw [hnext]
      exact ⟨hlost, rfl⟩

theorem lost_for_good {l : List (Instant × HoldingAct)} : ∀ {t : Instant} {s : Holding}, x.holds s.db = false →
    Run.Admitted x.step x.Timely t s l → (Run.after x.step s l).granted = s.granted := by
  induction l with
  | nil => exact fun _ _ => rfl
  | cons first l ih =>
    obtain ⟨now, act⟩ := first
    intro t s hlost ⟨⟨_, hok⟩, hl⟩
    obtain ⟨hstill, hgranted⟩ := lost_stays hlost hok.2
    exact (ih hstill hl).trans hgranted

/-- A sweep puts a run back on the queue when its lease is over, no earlier. -/
theorem lapse_late (h : Keeps x t s) {locked : List String} {limit : Nat} {draws : String → Draw}
    (hheld : x.holds s.db = true)
    (hqueued : ((apply x.worker.store s.db now (.requeueLapsed locked limit draws)).run? x.runId).any
      (·.status = .QUEUED) = true) :
    s.granted + x.lease < now := by
  obtain ⟨since, hsince, hreached⟩ := h.reached
  obtain ⟨row, hr, howner⟩ := holds_iff.1 hheld
  have hinv : RowInv row := Reached.inv ⟨since, hreached⟩ hr
  have hrunning := hinv.leased (by rw [howner]; rfl)
  obtain ⟨row', hr', hstatus⟩ := (Option.any_eq_true _ _).1 hqueued
  have hstatus := of_decide_eq_true hstatus
  rcases apply_run hr' with hsame | ⟨first, hfirst, hchange, -⟩ | ⟨hnone, -⟩
  · rw [hr] at hsame
    cases hsame
    rw [hrunning] at hstatus
    cases hstatus
  · rw [hr] at hfirst
    cases hfirst
    cases hchange with
    | lapsed running caught uncancelled again =>
      rw [h.expires row hr howner uncancelled] at caught
      exact of_decide_eq_true caught
    | _ => cases hstatus
  · exact absurd (hnone.symm.trans hr) nofun

/-- What a claim leaves the worker with: the lease, once it has come. -/
theorem keeps_begun {held : Held} {own : Option String} {claimed : Claimed} {g : Instant}
    (hreach : ∃ since ≤ g, ReachedAt x.worker.store since db)
    (hclaim : perform x.worker.store (.claim held own x.claims) g db = .ok (db', .claimed (some claimed)))
    (hrun : claimed.run.runId = x.runId) (htaken : g ≤ t ∧ t ≤ g + x.patience.call) : Keeps x t (Holding.begun db' g t) := by
  obtain ⟨since, hsince, hreached⟩ := hreach
  have hreached' : ReachedAt x.worker.store g db' := apply_of_ok hclaim ▸ hreached.tail hsince _
  obtain ⟨row, hr, hqueued, hdb, hrecord⟩ := claim_ok hclaim
  have hid : row.runId = x.runId := by
    rw [← hrun, hrecord]
    rfl
  have huncancelled : row.cancelRequestedAt = none :=
    (Reached.inv ⟨since, hreached⟩ hr).uncancelled (by rw [hqueued]; decide)
  have hr' : db'.run? x.runId = some ((row.moved .RUNNING g).leased x.worker.workerId x.worker.leaseSeconds g) := by
    rw [hdb, ← hid]
    refine (run?_put rfl).trans ((if_pos rfl).trans ?_)
    rw [hr]
    rfl
  refine ⟨⟨g, htaken.1, hreached'⟩, ⟨_, hr'⟩, htaken.1, ⟨le_rfl, htaken.2⟩, fun since he => ?_, nofun,
    fun row' hrow' _ _ => ?_⟩
  · cases he
    show t < t + x.lease
    linarith [lease_pos x]
  · have hrow := hr'.symm.trans hrow'
    cases hrow
    show some ((row.moved .RUNNING g).cancelRequestedAt.getD g + _) = some (g + _)
    rw [show (row.moved .RUNNING g).cancelRequestedAt = none from huncancelled]
    rfl

theorem keeps_run {l : List (Instant × HoldingAct)} (h : Keeps x t s) (hl : Run.Admitted x.step x.Timely t s l) :
    Keeps x (Run.ends t l) (Run.after x.step s l) :=
  (Run.replay_ends hl).invariant (Keeps x) (fun _ _ _ _ hkeeps hle hok => keeps_step hkeeps hle hok) h

end

/-- A worker that takes runs for a minute. -/
def smallExecution : Execution where
  worker := ⟨smallStore, "w", ["a"], smallLease, some "t"⟩
  tenantId := "t"
  runId := "r"
  patience := ⟨5, 1⟩

/-- It claimed the run at 2, and its handler started at 3. -/
def justStarted : Holding :=
  .begun (history smallStore [(1, .start smallStart true true), (2, .claim ⟨[], []⟩ (some "t") smallExecution.claims)]) 2 3

/-- None of its heartbeats is served, and a sweep takes the run. -/
def cutOff : List (Instant × HoldingAct) :=
  [(23, .calls), (28, .hears .failed), (48, .calls), (53, .hears .failed), (63, .others (.requeueLapsed [] 1 fun _ => smallDraw))]

end Tenure

end AgentRuns
