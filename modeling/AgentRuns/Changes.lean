import AgentRuns.Operations
import AgentRuns.Timeline

/-!
# What an operation may do

`Change store now op row row'` says once what each operation can make of a run's row, guards
included; `Effect` says what it makes of the database, and what it answers.  `perform_effect` is
the one place that looks into the operations; what holds of every step is read off the cases of
these two (`apply_run`, `run_apply`).

A refused operation has no effect, and one that finds nothing to do (a repeat, an empty queue)
leaves the database as it is.
-/

namespace AgentRuns

open Relational Fallible

/-! ## One row -/

/-- What the operation may make of a run's row. -/
inductive Change (store : RunStore) (now : Instant) : Op → RunRow → RunRow → Prop
  | claimed {row : RunRow} {held tenantId} {request : ClaimRequest} (queued : row.status = .QUEUED) :
      Change store now (.claim held tenantId request) row
        ((row.moved .RUNNING now).leased request.workerId request.leaseSeconds now)
  | beat {row : RunRow} {tenantId runId} {request : HeartbeatRequest} (running : row.status = .RUNNING)
      (holder : row.leaseOwner = some request.workerId) :
      Change store now (.heartbeat tenantId runId request) row
        ((row.saved request.checkpoint now).leased request.workerId request.leaseSeconds now)
  | paused {row : RunRow} {tenantId runId} {pause : RunPause} {workerId}
      (unsettled : ¬(settled row .PAUSED workerId ∧
        row.awaiting.map (·.interruptId) = some pause.interrupt.interruptId))
      (fenced : workerId = none ∨ row.leaseOwner = workerId) (uncancelled : row.cancelRequestedAt = none)
      (running : row.status = .RUNNING) :
      Change store now (.pause tenantId runId pause workerId) row
        { row.moved .PAUSED now with
          checkpoint := pause.checkpoint
          awaiting := some pause.interrupt
          assignee := pause.interrupt.assignee
          awaitingDeadline := pause.interrupt.deadline
          settledBy := workerId }
  | pauseCancelled {row : RunRow} {tenantId runId} {pause : RunPause} {workerId}
      (unsettled : ¬(settled row .PAUSED workerId ∧
        row.awaiting.map (·.interruptId) = some pause.interrupt.interruptId))
      (fenced : workerId = none ∨ row.leaseOwner = workerId) (cancelling : row.cancelRequestedAt.isSome)
      (unended : row.status.final = false) :
      Change store now (.pause tenantId runId pause workerId) row
        { row.moved .CANCELLED now with settledBy := workerId }
  | resumeCancelled {row : RunRow} {tenantId runId} {resolution : InterruptResolution} {answerer}
      {asked : Interrupt} (waiting : row.awaiting = some asked) (same : asked.interruptId = resolution.interruptId)
      (unended : row.status.final = false) (cancels : resolution.decision = .CANCEL) :
      Change store now (.resume tenantId runId resolution answerer) row
        ({ row with lastResolution := some resolution }.moved .CANCELLED now)
  | resumeQueued {row : RunRow} {tenantId runId} {resolution : InterruptResolution} {answerer}
      {asked : Interrupt} (waiting : row.awaiting = some asked) (same : asked.interruptId = resolution.interruptId)
      (can : row.status.canBecome .QUEUED) (durable : row.queuedAt.isSome) :
      Change store now (.resume tenantId runId resolution answerer) row
        ({ row with lastResolution := some resolution }.requeued now none)
  | resumeRunning {row : RunRow} {tenantId runId} {resolution : InterruptResolution} {answerer}
      {asked : Interrupt} (waiting : row.awaiting = some asked) (same : asked.interruptId = resolution.interruptId)
      (can : row.status.canBecome .RUNNING) (inProcess : row.queuedAt = none) :
      Change store now (.resume tenantId runId resolution answerer) row
        { { row with lastResolution := some resolution }.moved .RUNNING now with attempt := row.attempt + 1 }
  | cancelAsked {row : RunRow} {tenantId runId} {cancel : RunCancel} {canceller : KeyInfo}
      (unasked : row.cancelRequestedAt = none) (running : row.status = .RUNNING) (leased : row.leaseOwner.isSome) :
      Change store now (.cancel tenantId runId cancel canceller) row
        { row with
          cancelRequestedAt := some now
          updatedAt := now
          cancelReason := cancel.reason
          cancelledBy := some canceller.principal }
  | cancelled {row : RunRow} {tenantId runId} {cancel : RunCancel} {canceller : KeyInfo}
      (unasked : row.cancelRequestedAt = none) (unheld : ¬(row.status = .RUNNING ∧ row.leaseOwner.isSome))
      (unended : row.status.final = false) :
      Change store now (.cancel tenantId runId cancel canceller) row
        { row.moved .CANCELLED now with
          cancelReason := cancel.reason
          cancelledBy := some canceller.principal }
  | retried {row : RunRow} {tenantId runId} {ending : RunFinish} {workerId draw}
      (fenced : workerId = none ∨ row.leaseOwner = workerId) (again : retried row ending = true) :
      Change store now (.finish tenantId runId ending workerId draw) row
        { { row with errorRetries := row.errorRetries + 1 }.requeued now
            (some (jittered (backoff errorRetryBase (row.errorRetries + 1) errorRetryCap) draw)) with
          settledBy := workerId }
  | finished {row : RunRow} {tenantId runId} {ending : RunFinish} {workerId draw}
      (fenced : workerId = none ∨ row.leaseOwner = workerId) (last : retried row ending = false)
      (can : row.status.canBecome ending.status) :
      Change store now (.finish tenantId runId ending workerId draw) row
        { row.moved ending.status now with
          output := ending.output
          error := counted ending.error row.errorRetries
          settledBy := workerId }
  | released {row : RunRow} {tenantId runId} {request : ReleaseRequest}
      (holder : row.leaseOwner = some request.workerId) (uncancelled : row.cancelRequestedAt = none)
      (can : row.status.canBecome .QUEUED) :
      Change store now (.release tenantId runId request) row
        { row.requeued now none with
          checkpoint := request.checkpoint.or (row.requeued now none).checkpoint
          settledBy := some request.workerId }
  | releaseCancelled {row : RunRow} {tenantId runId} {request : ReleaseRequest}
      (holder : row.leaseOwner = some request.workerId) (cancelling : row.cancelRequestedAt.isSome)
      (unended : row.status.final = false) :
      Change store now (.release tenantId runId request) row
        { row.moved .CANCELLED now with settledBy := some request.workerId }
  | pastDeadline {row : RunRow} {held limit} {error : AgentError} (unended : row.status.final = false) :
      Change store now (.timeOutPastDeadline held limit) row { row.moved .TIMEOUT now with error := some error }
  | overworked {row : RunRow} {held limit} {error : AgentError} (running : row.status = .RUNNING) :
      Change store now (.timeOutOverworked held limit) row { row.moved .TIMEOUT now with error := some error }
  | lapseCancelled {row : RunRow} {held limit draws} (running : row.status = .RUNNING)
      (caught : row.leaseExpiresAt.any (· < now)) (cancelling : row.cancelRequestedAt.isSome) :
      Change store now (.requeueLapsed held limit draws) row (row.moved .CANCELLED now)
  | gaveUp {row : RunRow} {held limit draws} {error : AgentError} (running : row.status = .RUNNING)
      (caught : row.leaseExpiresAt.any (· < now)) (uncancelled : row.cancelRequestedAt = none)
      (last : maxLeaseLapses ≤ row.leaseLapses + 1) :
      Change store now (.requeueLapsed held limit draws) row
        { { row with leaseLapses := row.leaseLapses + 1 }.moved .ERROR now with error := some error }
  | lapsed {row : RunRow} {held limit draws} (running : row.status = .RUNNING)
      (caught : row.leaseExpiresAt.any (· < now)) (uncancelled : row.cancelRequestedAt = none)
      (again : row.leaseLapses + 1 < maxLeaseLapses) :
      Change store now (.requeueLapsed held limit draws) row
        ({ row with leaseLapses := row.leaseLapses + 1 }.requeued now
          (some (jittered (backoff lapseRetryBase (row.leaseLapses + 1) lapseRetryCap) (draws row.runId))))
  | escalated {row : RunRow} {held limit} {asked : Interrupt} (paused : row.status = .PAUSED)
      (waiting : row.awaiting = some asked) (caught : row.awaitingDeadline.any (· < now)) :
      Change store now (.escalateOverdue held limit) row
        { row with
          awaiting := some (RunStore.escalated asked)
          assignee := asked.escalateTo
          awaitingDeadline := none
          updatedAt := now }
  | unanswered {row : RunRow} {held limit} {error : AgentError} (paused : row.status = .PAUSED)
      (caught : row.awaitingDeadline.any (· < now)) :
      Change store now (.escalateOverdue held limit) row { row.moved .TIMEOUT now with error := some error }

section
variable {store : RunStore} {now : Instant} {row row' : RunRow} {tenantId runId : String} {held : List String}
  {limit : Nat}

/-! ## The operations' decisions are changes -/

theorem pauseRow_change {pause : RunPause} {workerId : Option String}
    (h : pauseRow row pause.interrupt pause.checkpoint workerId now = .ok (some row')) :
    Change store now (.pause tenantId runId pause workerId) row row' := by
  unfold pauseRow at h
  split at h
  · cases h
  · next hs =>
    obtain ⟨_, hf, h⟩ := bind_ok.1 h
    obtain ⟨d, hd, h⟩ := bind_ok.1 h
    cases d with
    | some ended =>
      obtain ⟨hc, hb, rfl⟩ := cancelledInstead_some.1 hd
      cases h
      exact .pauseCancelled hs (fence_ok.1 hf) hc (RunStatus.not_final_of_canBecome hb)
    | none =>
      obtain ⟨_, hm, h⟩ := bind_ok.1 h
      obtain ⟨hb, rfl⟩ := move_ok.1 hm
      cases h
      exact .paused hs (fence_ok.1 hf) (cancelledInstead_none.1 hd) (RunStatus.canBecome_paused hb)

theorem resumeRow_change {resolution : InterruptResolution} {answerer : KeyInfo} {asked : Interrupt}
    (waiting : row.awaiting = some asked) (same : asked.interruptId = resolution.interruptId)
    (h : resumeRow row resolution now = .ok row') :
    Change store now (.resume tenantId runId resolution answerer) row row' := by
  unfold resumeRow at h
  split at h
  · next hc =>
    obtain ⟨hb, rfl⟩ := move_ok.1 h
    exact .resumeCancelled waiting same (RunStatus.not_final_of_canBecome hb) hc
  · dsimp only at h
    split at h
    · next hq =>
      obtain ⟨hb, rfl⟩ := requeue_ok.1 h
      exact .resumeQueued waiting same hb hq
    · next hq =>
      obtain ⟨_, hm, h⟩ := bind_ok.1 h
      obtain ⟨hb, rfl⟩ := move_ok.1 hm
      cases h
      exact .resumeRunning waiting same hb (by simpa using hq)

theorem cancelRow_change {cancel : RunCancel} {canceller : KeyInfo}
    (h : cancelRow row cancel canceller now = .ok (some row')) :
    Change store now (.cancel tenantId runId cancel canceller) row row' := by
  unfold cancelRow at h
  obtain ⟨_, -, h⟩ := bind_ok.1 h
  dsimp only at h
  split at h
  · cases h
  · next hs =>
    rw [not_or] at hs
    have hu : row.cancelRequestedAt = none := by simpa using hs.1
    split at h
    · next hl =>
      cases h
      exact .cancelAsked hu hl.1 hl.2
    · next hl =>
      obtain ⟨_, hm, h⟩ := bind_ok.1 h
      obtain ⟨hb, rfl⟩ := move_ok.1 hm
      cases h
      exact .cancelled hu hl (RunStatus.not_final_of_canBecome hb)

theorem finishRow_change {ending : RunFinish} {workerId : Option String} {draw : Draw}
    (h : finishRow row ending workerId draw now = .ok (some row')) :
    Change store now (.finish tenantId runId ending workerId draw) row row' := by
  unfold finishRow at h
  split at h
  · cases h
  · obtain ⟨_, hf, h⟩ := bind_ok.1 h
    split at h
    · next hr =>
      obtain ⟨_, hm, h⟩ := bind_ok.1 h
      obtain ⟨-, rfl⟩ := requeue_ok.1 hm
      cases h
      exact .retried (fence_ok.1 hf) hr
    · next hr =>
      obtain ⟨_, hm, h⟩ := bind_ok.1 h
      obtain ⟨hb, rfl⟩ := move_ok.1 hm
      cases h
      exact .finished (fence_ok.1 hf) (by simpa using hr) hb

theorem releaseRow_change {request : ReleaseRequest}
    (h : releaseRow row request.workerId request.checkpoint now = .ok (some row')) :
    Change store now (.release tenantId runId request) row row' := by
  unfold releaseRow at h
  split at h
  · cases h
  · obtain ⟨_, hf, h⟩ := bind_ok.1 h
    have hw : row.leaseOwner = some request.workerId := by simpa using fence_ok.1 hf
    obtain ⟨d, hd, h⟩ := bind_ok.1 h
    cases d with
    | some ended =>
      obtain ⟨hc, hb, rfl⟩ := cancelledInstead_some.1 hd
      cases h
      exact .releaseCancelled hw hc (RunStatus.not_final_of_canBecome hb)
    | none =>
      obtain ⟨_, hm, h⟩ := bind_ok.1 h
      obtain ⟨hb, rfl⟩ := requeue_ok.1 hm
      cases h
      exact .released hw (cancelledInstead_none.1 hd) hb

theorem pastDeadlineRow_change (h : store.pastDeadlineRow now row = .ok row') :
    Change store now (.timeOutPastDeadline held limit) row row' := by
  unfold RunStore.pastDeadlineRow at h
  obtain ⟨_, hm, h⟩ := bind_ok.1 h
  obtain ⟨hb, rfl⟩ := move_ok.1 hm
  cases h
  exact .pastDeadline (RunStatus.not_final_of_canBecome hb)

theorem overworkedRow_change (caught : store.overworked now row = true)
    (h : store.overworkedRow now row = .ok row') : Change store now (.timeOutOverworked held limit) row row' := by
  unfold RunStore.overworkedRow at h
  obtain ⟨_, hm, h⟩ := bind_ok.1 h
  obtain ⟨-, rfl⟩ := move_ok.1 hm
  split at h
  · cases h
  · cases h
    simp only [RunStore.overworked, Bool.and_eq_true, decide_eq_true_eq] at caught
    exact .overworked caught.1

theorem lapsedRow_change {draws : String → Draw} (caught : Database.lapsed now row = true)
    (h : Database.lapsedRow now (draws row.runId) row = .ok row') :
    Change store now (.requeueLapsed held limit draws) row row' := by
  simp only [Database.lapsed, Bool.and_eq_true, decide_eq_true_eq] at caught
  obtain ⟨hr, hl⟩ := caught
  unfold Database.lapsedRow at h
  obtain ⟨d, hd, h⟩ := bind_ok.1 h
  cases d with
  | some ended =>
    obtain ⟨hc, -, rfl⟩ := cancelledInstead_some.1 hd
    cases h
    exact .lapseCancelled hr hl hc
  | none =>
    have hu := cancelledInstead_none.1 hd
    dsimp only at h
    split at h
    · next hmax =>
      obtain ⟨_, hm, h⟩ := bind_ok.1 h
      obtain ⟨-, rfl⟩ := move_ok.1 hm
      cases h
      exact .gaveUp hr hl hu hmax
    · next hmax =>
      obtain ⟨-, rfl⟩ := requeue_ok.1 h
      exact .lapsed hr hl hu (Nat.lt_of_not_le hmax)

theorem overdueRow_change (caught : RunStore.overdue now row = true) (h : store.overdueRow now row = .ok row') :
    Change store now (.escalateOverdue held limit) row row' := by
  simp only [RunStore.overdue, Bool.and_eq_true, decide_eq_true_eq] at caught
  unfold RunStore.overdueRow at h
  split at h
  · cases h
  · next asked hw =>
    split at h
    · cases h
      exact .escalated caught.1 hw caught.2
    · obtain ⟨_, hm, h⟩ := bind_ok.1 h
      obtain ⟨-, rfl⟩ := move_ok.1 hm
      cases h
      exact .unanswered caught.1 caught.2

end

end AgentRuns
