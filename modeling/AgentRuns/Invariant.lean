import AgentRuns.Effects
import AgentRuns.Spelled
import Mathlib.Data.List.Induction

/-!
# What holds of every row

A dozen nullable columns are kept consistent by hand across the operations.  `RowInv` says how
they hang together; a change keeps it (`Change.keeps`), so every row of every history has it
(`row_consistent`).

`Reached store db`: some history leads from a new deployment's database to `db`.
-/

namespace AgentRuns

open Relational Fallible Timed

/-- A history leads from an empty database to `db`, its last operation at `now`. -/
def ReachedAt (store : RunStore) (now : Instant) (db : Database) : Prop :=
  ∃ t, Run (apply store) anything t Database.empty now db

def Reached (store : RunStore) (db : Database) : Prop := ∃ now, ReachedAt store now db

/-- The database after a list of operations. -/
def history (store : RunStore) (ops : List (Instant × Op)) : Database := Run.after (apply store) Database.empty ops

theorem history_run {store : RunStore} {ops : List (Instant × Op)}
    (h : Run.Admitted (apply store) anything 0 Database.empty ops) :
    ∃ now, Run (apply store) anything 0 Database.empty now (history store ops) :=
  Run.replay h

/-! ## Invariants of rows -/

section
variable {store : RunStore} {t now : Instant} {op : Op} {db : Database} {row row' : RunRow} {r : String}

/-- What every started row has and every change keeps, every row of a history has. -/
theorem Run.rows {ok : Database → Instant → Op → Prop} (P : RunRow → Prop)
    (hstart : ∀ start queue now, (startedRow start queue now).fits = true → P (startedRow start queue now))
    (hchange : ∀ now op row row', P row → Change store now op row row' → row'.fits = true → P row')
    (h : Run (apply store) ok t Database.empty now db) : ∀ r row, db.run? r = some row → P row := by
  refine h.invariant' (fun db => ∀ r row, db.run? r = some row → P row) ?_ (fun r row hr => by cases hr)
  intro db now op ih _ r row' hr
  rcases apply_run hr with hr | ⟨row, hr, hc, hf, -⟩ | ⟨-, start, queue, strict, -, rfl, hf⟩
  · exact ih r row' hr
  · exact hchange now op row row' (ih r row hr) hc hf
  · exact hstart start queue now hf

theorem Reached.rows (P : RunRow → Prop)
    (hstart : ∀ start queue now, (startedRow start queue now).fits = true → P (startedRow start queue now))
    (hchange : ∀ now op row row', P row → Change store now op row row' → row'.fits = true → P row')
    (h : Reached store db) : ∀ r row, db.run? r = some row → P row := by
  obtain ⟨now, t, h⟩ := h
  exact Run.rows P hstart hchange h

/-- PostgreSQL took every row. -/
theorem Reached.fits (h : Reached store db) (hr : db.run? r = some row) : row.fits = true :=
  h.rows (fun row => row.fits = true) (fun _ _ _ hf => hf) (fun _ _ _ _ _ _ hf => hf) r row hr

/-! ## The columns of a row -/

/-- How the columns of a row hang together. -/
structure RowInv (row : RunRow) : Prop where
  running : row.runningSince.isSome ↔ row.status = .RUNNING
  lease : row.leaseOwner.isSome ↔ row.leaseExpiresAt.isSome
  leased : row.leaseOwner.isSome → row.status = .RUNNING
  cancelling : row.cancelRequestedAt.isSome → row.status = .RUNNING ∧ row.leaseOwner.isSome
  waiting : row.awaiting.isSome ↔ row.status = .PAUSED
  asked : ∀ interrupt, row.awaiting = some interrupt →
    row.assignee = interrupt.assignee ∧ row.awaitingDeadline = interrupt.deadline
  unasked : row.awaiting = none → row.assignee = none ∧ row.awaitingDeadline = none
  available : row.availableAt.isSome → row.status = .QUEUED
  queued : row.status = .QUEUED → row.queuedAt.isSome
  durable : row.status = .RUNNING → (row.queuedAt.isSome ↔ row.leaseOwner.isSome)
  checkpoint : row.status.final = true → row.checkpoint = none
  lapses : row.leaseLapses ≤ maxLeaseLapses
  lapsed : row.leaseLapses = maxLeaseLapses → row.status = .ERROR
  retries : row.errorRetries ≤ maxErrorRetries

namespace RowInv

theorem unheld (h : RowInv row) (hs : row.status ≠ .RUNNING) : row.leaseOwner = none := by
  cases ho : row.leaseOwner with
  | none => rfl
  | some w => exact absurd (h.leased (by rw [ho]; rfl)) hs

theorem uncancelled (h : RowInv row) (hs : row.status ≠ .RUNNING) : row.cancelRequestedAt = none := by
  cases hc : row.cancelRequestedAt with
  | none => rfl
  | some c => exact absurd (h.cancelling (by rw [hc]; rfl)).1 hs

theorem idle (h : RowInv row) (hs : row.status ≠ .PAUSED) : row.awaiting = none := by
  cases ha : row.awaiting with
  | none => rfl
  | some i => exact absurd (h.waiting.1 (by rw [ha]; rfl)) hs

theorem paused (h : RowInv row) {asked : Interrupt} (ha : row.awaiting = some asked) : row.status = .PAUSED :=
  h.waiting.1 (by rw [ha]; rfl)

/-- A run that has not ended has lapses left. -/
theorem lapses_lt (h : RowInv row) (hs : row.status.final = false) : row.leaseLapses < maxLeaseLapses := by
  refine lt_of_le_of_ne h.lapses fun he => ?_
  rw [h.lapsed he] at hs
  cases hs

/-! ## Moves keep it -/

theorem started (start : RunStart) (queue : Bool) (now : Instant) : RowInv (startedRow start queue now) := by
  cases queue <;> constructor <;> simp [startedRow, RunStatus.final, maxLeaseLapses, maxErrorRetries]

/-- An ending keeps it: of what was there only the counts matter. -/
theorem ended (row : RunRow) (now : Instant) {s : RunStatus} (hs : s.final = true) (hl : row.leaseLapses ≤ maxLeaseLapses)
    (hm : row.leaseLapses = maxLeaseLapses → s = .ERROR) (hr : row.errorRetries ≤ maxErrorRetries) :
    RowInv (row.moved s now) := by
  have hrun : s ≠ .RUNNING := fun h => by subst h; cases hs
  have hpau : s ≠ .PAUSED := fun h => by subst h; cases hs
  have hque : s ≠ .QUEUED := fun h => by subst h; cases hs
  constructor <;> simp [RunRow.moved, hrun, hpau, hque, hs]
  · exact hl
  · exact hm
  · exact hr

theorem ending (h : RowInv row) (s : RunStatus) (now : Instant) (hs : s.final = true)
    (hu : row.status.final = false) : RowInv (row.moved s now) :=
  ended row now hs h.lapses (fun he => absurd he (Nat.ne_of_lt (h.lapses_lt hu))) h.retries

/-- So does going back on the queue. -/
theorem requeued (row : RunRow) (now : Instant) (wait : Option Rat) (hl : row.leaseLapses < maxLeaseLapses)
    (hr : row.errorRetries ≤ maxErrorRetries) :
    RowInv (row.requeued now wait) := by
  constructor <;> simp [RunRow.requeued, RunRow.moved, RunStatus.final]
  · exact Nat.le_of_lt hl
  · exact fun he => absurd he (Nat.ne_of_lt hl)
  · exact hr

theorem claimed (h : RowInv row) (hq : row.status = .QUEUED) (workerId : String) (seconds : LeaseSeconds) :
    RowInv ((row.moved .RUNNING now).leased workerId seconds now) := by
  have hl : row.leaseLapses < maxLeaseLapses := h.lapses_lt (by rw [hq]; rfl)
  have hd := h.queued hq
  constructor <;> simp [RunRow.moved, RunRow.leased, RunStatus.final, hd]
  · exact h.lapses
  · exact fun he => absurd he (Nat.ne_of_lt hl)
  · exact h.retries

theorem beat (h : RowInv row) {workerId : String} (hr : row.status = .RUNNING)
    (ho : row.leaseOwner = some workerId) (checkpoint : Option Json) (seconds : LeaseSeconds) :
    RowInv ((row.saved checkpoint now).leased workerId seconds now) := by
  have hq : row.queuedAt.isSome = true := (h.durable hr).2 (by rw [ho]; rfl)
  unfold RunRow.saved
  split <;> exact
    { running := h.running
      lease := by simp [RunRow.leased]
      leased := fun _ => hr
      cancelling := fun _ => ⟨hr, rfl⟩
      waiting := h.waiting
      asked := h.asked
      unasked := h.unasked
      available := h.available
      queued := h.queued
      durable := fun _ => by simp [RunRow.leased, hq]
      checkpoint := fun hf => by simp [RunRow.leased, hr, RunStatus.final] at hf
      lapses := h.lapses
      lapsed := h.lapsed
      retries := h.retries }

theorem pausing (h : RowInv row) (hr : row.status = .RUNNING) (interrupt : Interrupt) (checkpoint : Option Json)
    (workerId : Option String) :
    RowInv { row.moved .PAUSED now with
      checkpoint := checkpoint
      awaiting := some interrupt
      assignee := interrupt.assignee
      awaitingDeadline := interrupt.deadline
      settledBy := workerId } := by
  have hl : row.leaseLapses < maxLeaseLapses := h.lapses_lt (by rw [hr]; rfl)
  constructor <;> simp [RunRow.moved, RunStatus.final]
  · exact h.lapses
  · exact fun he => absurd he (Nat.ne_of_lt hl)
  · exact h.retries

/-- A run in its caller's process runs again. -/
theorem running_again (h : RowInv row) (hs : row.status = .PAUSED) (hq : row.queuedAt = none)
    (resolution : InterruptResolution) :
    RowInv { { row with lastResolution := some resolution }.moved .RUNNING now with attempt := row.attempt + 1 } := by
  have hl : row.leaseLapses < maxLeaseLapses := h.lapses_lt (by rw [hs]; rfl)
  have ho : row.leaseOwner = none := h.unheld (by rw [hs]; decide)
  have he : row.leaseExpiresAt = none := by
    have := h.lease
    rw [ho] at this
    simpa using this
  have hc : row.cancelRequestedAt = none := h.uncancelled (by rw [hs]; decide)
  constructor <;> simp [RunRow.moved, RunStatus.final, hq, ho, he, hc]
  · exact h.lapses
  · exact fun he => absurd he (Nat.ne_of_lt hl)
  · exact h.retries

theorem escalated (h : RowInv row) {asked : Interrupt} (hs : row.status = .PAUSED) :
    RowInv { row with
      awaiting := some (RunStore.escalated asked)
      assignee := asked.escalateTo
      awaitingDeadline := none
      updatedAt := now } :=
  { h with
    waiting := by simp [hs]
    asked := fun interrupt hi => by cases hi; exact ⟨rfl, rfl⟩
    unasked := fun hi => by cases hi }

end RowInv

/-- **One step.**  Whatever an operation makes of a run, the columns stay consistent. -/
theorem Change.keeps (h : Change store now op row row') (hi : RowInv row) : RowInv row' := by
  cases h with
  | claimed queued => exact hi.claimed queued _ _
  | beat running holder => exact hi.beat running holder _ _
  | paused _ _ _ running => exact hi.pausing running _ _ _
  | pauseCancelled _ _ _ unended => exact { hi.ending .CANCELLED now rfl unended with }
  | resumeCancelled waiting same unended => exact { hi.ending .CANCELLED now rfl unended with }
  | resumeQueued waiting same can =>
    exact { RowInv.requeued row now none (hi.lapses_lt (RunStatus.not_final_of_canBecome can)) hi.retries with }
  | resumeRunning waiting same can inProcess => exact hi.running_again (hi.paused waiting) inProcess _
  | cancelAsked unasked running leased => exact { hi with cancelling := fun _ => ⟨running, leased⟩ }
  | cancelled _ _ unended => exact { hi.ending .CANCELLED now rfl unended with }
  | @retried row tenantId runId ending workerId draw fenced again =>
    simp only [AgentRuns.retried, Bool.and_eq_true, decide_eq_true_eq] at again
    have hl : row.leaseLapses < maxLeaseLapses := hi.lapses_lt (by rw [again.1.1.1.2]; rfl)
    have hr : row.errorRetries + 1 ≤ maxErrorRetries := again.1.2
    exact { RowInv.requeued { row with errorRetries := row.errorRetries + 1 } now
      (some (jittered (backoff errorRetryBase (row.errorRetries + 1) errorRetryCap) draw)) hl hr with }
  | @finished row tenantId runId ending workerId draw fenced last can =>
    exact { hi.ending ending.status now ending.isAnEnding (RunStatus.not_final_of_canBecome can) with }
  | released holder uncancelled can =>
    exact { RowInv.requeued row now none (hi.lapses_lt (RunStatus.not_final_of_canBecome can)) hi.retries with
      checkpoint := fun hf => by cases hf }
  | releaseCancelled _ _ unended => exact { hi.ending .CANCELLED now rfl unended with }
  | pastDeadline unended => exact { hi.ending .TIMEOUT now rfl unended with }
  | overworked running => exact { hi.ending .TIMEOUT now rfl (by rw [running]; rfl) with }
  | lapseCancelled running => exact hi.ending .CANCELLED now rfl (by rw [running]; rfl)
  | gaveUp running _ _ last =>
    have hl := hi.lapses_lt (by rw [running]; rfl)
    exact { RowInv.ended { row with leaseLapses := row.leaseLapses + 1 } now (s := .ERROR) rfl hl
      (fun _ => rfl) hi.retries with }
  | lapsed running _ _ again =>
    exact RowInv.requeued { row with leaseLapses := row.leaseLapses + 1 } now _ again hi.retries
  | escalated paused waiting => exact hi.escalated paused
  | unanswered paused => exact { hi.ending .TIMEOUT now rfl (by rw [paused]; rfl) with }

theorem Reached.inv (h : Reached store db) (hr : db.run? r = some row) : RowInv row :=
  h.rows RowInv (fun start queue now _ => .started start queue now) (fun _ _ _ _ hi hc _ => hc.keeps hi) r row hr

/-- **Every row is consistent.**  After any operations with any arguments, at times that never
go back. -/
theorem row_consistent {store : RunStore} {t now : Instant} {db : Database}
    (h : Run (apply store) anything t Database.empty now db) {r : String} {row : RunRow}
    (hr : db.run? r = some row) : RowInv row :=
  Reached.inv ⟨now, t, h⟩ hr

/-! ## A history, an operation at a time -/

theorem history_concat (ops : List (Instant × Op)) :
    history store (ops ++ [(now, op)]) = apply store (history store ops) now op :=
  Run.after_concat ops now op _

theorem absent_before {ops : List (Instant × Op)} (hn : (history store (ops ++ [(now, op)])).run? r = none) :
    (history store ops).run? r = none := by
  cases hr : (history store ops).run? r with
  | none => rfl
  | some row =>
    obtain ⟨row', hr', -⟩ := run_apply store now op hr
    rw [history_concat, hr'] at hn
    cases hn

/-- The columns of every row hang together, whatever the clock did. -/
theorem history_inv (ops : List (Instant × Op)) : ∀ r row, (history store ops).run? r = some row → RowInv row := by
  induction ops using List.reverseRecOn with
  | nil => intro r row hr; cases hr
  | append_singleton ops x ih =>
    obtain ⟨now, op⟩ := x
    intro r row' hr'
    rw [history_concat] at hr'
    rcases apply_run hr' with hr | ⟨row, hr, hc, -⟩ | ⟨-, start, queue, strict, -, rfl, -⟩
    · exact ih r row' hr
    · exact hc.keeps (ih r row hr)
    · exact RowInv.started start queue now

end

/-- A run queued, claimed and asked to cancel. -/
def cancelledWork : List (Instant × Op) :=
  [(0, .start smallStart true true), (1, .claim ⟨[], []⟩ (some "t") ⟨"w", ["a"], smallLease⟩),
    (2, .cancel "t" "r" ⟨none⟩ smallKey)]

theorem cancelledWork_admitted : Run.Admitted (apply smallStore) anything 0 Database.empty cancelledWork := by
  norm_num [cancelledWork, Run.Admitted, anything]

theorem row_consistent_cancelledWork : ∃ row : RunRow, row.cancelRequestedAt = some 2 ∧ RowInv row := by
  have hs : ((history smallStore cancelledWork).run? "r").any (·.cancelRequestedAt = some 2) = true := by
    decide +kernel
  obtain ⟨row, hr, hc⟩ := (Option.any_eq_true _ _).1 hs
  obtain ⟨now, h⟩ := history_run cancelledWork_admitted
  exact ⟨row, by simpa using hc, row_consistent h hr⟩

end AgentRuns
