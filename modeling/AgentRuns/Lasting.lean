import AgentRuns.Invariant

/-!
# What lasts

What no operation takes away: an ended run stays as it ended, an acknowledged cancel stays until the
run ends, a recorded answer stays, the log keeps what it holds, and a run keeps its tenant and its
keys.  Each is one step and, from it, a whole run of operations.
-/

namespace AgentRuns

open Relational Fallible Timed

section
variable {store : RunStore} {t t' now : Instant} {op : Op} {db db' : Database} {row row' : RunRow} {r : String}
  {ok : Database → Instant → Op → Prop}

/-! ## Runs -/

/-- Only a run that has not ended changes. -/
theorem Change.unended (h : Change store now op row row') : row.status.final = false := by
  cases h with
  | claimed queued => rw [queued]; rfl
  | beat running | paused _ _ _ running | cancelAsked _ running | overworked running | lapseCancelled running
  | gaveUp running | lapsed running => rw [running]; rfl
  | escalated paused | unanswered paused => rw [paused]; rfl
  | pauseCancelled _ _ _ unended => exact unended
  | resumeCancelled _ _ unended => exact unended
  | cancelled _ _ unended => exact unended
  | releaseCancelled _ _ unended => exact unended
  | pastDeadline unended => exact unended
  | resumeQueued _ _ can => exact RunStatus.not_final_of_canBecome can
  | resumeRunning _ _ can => exact RunStatus.not_final_of_canBecome can
  | finished _ _ can => exact RunStatus.not_final_of_canBecome can
  | released _ _ can => exact RunStatus.not_final_of_canBecome can
  | retried _ again =>
    simp only [AgentRuns.retried, Bool.and_eq_true, decide_eq_true_eq] at again
    rw [again.1.1.1.2]
    rfl

/-- An ended run stays as it ended. -/
theorem ended_apply (hr : db.run? r = some row) (hf : row.status.final = true) :
    (apply store db now op).run? r = some row := by
  obtain ⟨row', hr', rfl | hc⟩ := run_apply store now op hr
  · exact hr'
  · rw [hc.unended] at hf
    cases hf

theorem Run.ended (h : Run (apply store) ok t db t' db') (hr : db.run? r = some row)
    (hf : row.status.final = true) : db'.run? r = some row :=
  h.invariant' (fun db => db.run? r = some row) (fun _ _ _ hr _ => ended_apply hr hf) hr

/-- A run stays, and keeps its tenant and its idempotency key. -/
theorem Run.kept (h : Run (apply store) ok t db t' db') (hr : db.run? r = some row) :
    ∃ row', db'.run? r = some row' ∧ row'.tenantId = row.tenantId ∧ row'.idempotencyKey = row.idempotencyKey := by
  refine h.invariant' (fun db => ∃ row', db.run? r = some row' ∧ row'.tenantId = row.tenantId ∧
    row'.idempotencyKey = row.idempotencyKey) ?_ ⟨row, hr, rfl, rfl⟩
  rintro db now op ⟨row₁, hr₁, ht, hk⟩ -
  obtain ⟨row₂, hr₂, rfl | hc⟩ := run_apply store now op hr₁
  · exact ⟨row₂, hr₂, ht, hk⟩
  · exact ⟨row₂, hr₂, hc.tenantId.trans ht, hc.same.2.2.2.2.trans hk⟩

/-- A run asked to cancel stays asked and running, or ends. -/
theorem Change.cancelling (h : Change store now op row row') (hi : RowInv row) {c : Instant}
    (hc : row.cancelRequestedAt = some c) :
    (row'.cancelRequestedAt = some c ∧ row'.status = .RUNNING) ∨ row'.status.final = true := by
  have hrun : row.status = .RUNNING := (hi.cancelling (by rw [hc]; rfl)).1
  have absurd' : ∀ {p : Prop}, row.cancelRequestedAt = none → p := by
    intro p hn
    rw [hc] at hn
    cases hn
  have waits : ∀ {p : Prop} {asked : Interrupt}, row.awaiting = some asked → p := by
    intro p asked ha
    have := hi.paused ha
    rw [hrun] at this
    cases this
  cases h with
  | claimed queued =>
    rw [hrun] at queued
    cases queued
  | beat running holder =>
    refine Or.inl ⟨?_, ?_⟩ <;> unfold RunRow.saved <;> split
    · exact hc
    · exact hc
    · exact hrun
    · exact hrun
  | paused _ _ uncancelled => exact absurd' uncancelled
  | cancelAsked unasked => exact absurd' unasked
  | cancelled unasked => exact absurd' unasked
  | released _ uncancelled => exact absurd' uncancelled
  | gaveUp _ _ uncancelled => exact absurd' uncancelled
  | lapsed _ _ uncancelled => exact absurd' uncancelled
  | retried _ again =>
    simp only [AgentRuns.retried, Bool.and_eq_true, Option.isNone_iff_eq_none] at again
    exact absurd' again.2
  | resumeCancelled waiting => exact waits waiting
  | resumeQueued waiting => exact waits waiting
  | resumeRunning waiting => exact waits waiting
  | escalated paused waiting => exact waits waiting
  | unanswered paused =>
    rw [hrun] at paused
    cases paused
  | @finished row tenantId runId ending => exact Or.inr ending.isAnEnding
  | pauseCancelled | releaseCancelled | pastDeadline | overworked | lapseCancelled => exact Or.inr rfl

theorem ReachedAt.tail (h : ReachedAt store t db) (hle : t ≤ now) (op : Op) :
    ReachedAt store now (apply store db now op) := by
  obtain ⟨t₀, h⟩ := h
  exact ⟨t₀, .tail now op h hle trivial⟩

/-- An acknowledged cancel is there until the run ends. -/
theorem Run.cancelling (hreach : ReachedAt store t db) (h : Run (apply store) ok t db t' db') {c : Instant}
    (hr : db.run? r = some row) (hc : row.cancelRequestedAt = some c) :
    ∃ row', db'.run? r = some row' ∧
      ((row'.cancelRequestedAt = some c ∧ row'.status = .RUNNING) ∨ row'.status.final = true) := by
  have hrun : row.status = .RUNNING := ((Reached.inv ⟨t, hreach⟩ hr).cancelling (by rw [hc]; rfl)).1
  refine (h.invariant (fun t db => ReachedAt store t db ∧ ∃ row', db.run? r = some row' ∧
    ((row'.cancelRequestedAt = some c ∧ row'.status = .RUNNING) ∨ row'.status.final = true)) ?_
    ⟨hreach, row, hr, Or.inl ⟨hc, hrun⟩⟩).2
  rintro t db now op ⟨hreach, row₁, hr₁, hrow⟩ hle -
  refine ⟨hreach.tail hle op, ?_⟩
  rcases hrow with ⟨hc₁, hrun₁⟩ | hf
  · obtain ⟨row₂, hr₂, rfl | hchange⟩ := run_apply store now op hr₁
    · exact ⟨row₂, hr₂, Or.inl ⟨hc₁, hrun₁⟩⟩
    · exact ⟨row₂, hr₂, hchange.cancelling (Reached.inv ⟨t, hreach⟩ hr₁) hc₁⟩
  · exact ⟨row₁, ended_apply hr₁ hf, Or.inr hf⟩

/-! ## Answers -/

/-- A recorded answer stays recorded. -/
theorem answer_apply {id : String} {kept : ResolutionRow} (hk : db.resolutions.find? id = some kept) :
    (apply store db now op).resolutions.find? id = some kept := by
  have hres : (apply store db now op).resolutions = db.resolutions ∨ ∃ added : ResolutionRow,
      db.resolutions.find? added.resolutionId = none ∧
        (apply store db now op).resolutions = db.resolutions.insert added := by
    rcases apply_effect store now op db with h | ⟨answer, h⟩
    · exact Or.inl (congrArg Database.resolutions h)
    · rcases h.resolutions with h | ⟨_, _, _, _, _, _, _, -, -, -, -, -, -, hnew, he⟩
      · exact Or.inl h
      · exact Or.inr ⟨_, hnew, he⟩
  rcases hres with he | ⟨added, hnew, he⟩
  · rw [he, hk]
  · rw [he, Table.find?_insert_of_ne, hk]
    rintro rfl
    rw [hk] at hnew
    cases hnew

theorem Run.answer {id : String} {kept : ResolutionRow} (h : Run (apply store) ok t db t' db')
    (hk : db.resolutions.find? id = some kept) : db'.resolutions.find? id = some kept :=
  h.invariant' (fun db => db.resolutions.find? id = some kept) (fun _ _ _ hk _ => answer_apply hk) hk

/-! ## The log -/

theorem log_apply (store : RunStore) (now : Instant) (op : Op) (db : Database) : ∃ added, (apply store db now op).events = db.events ++ added := by
  rcases apply_log store now op db with h | ⟨_, _, _, _, -, h⟩
  · exact ⟨[], by rw [h, List.append_nil]⟩
  · exact ⟨_, h⟩

/-- The log only grows at its end. -/
theorem Run.log (h : Run (apply store) ok t db t' db') : ∃ added, db'.events = db.events ++ added := by
  refine h.invariant' (fun db' => ∃ added, db'.events = db.events ++ added) ?_ ⟨[], (List.append_nil _).symm⟩
  rintro db₁ now op ⟨added, he⟩ -
  obtain ⟨more, hm⟩ := log_apply store now op db₁
  exact ⟨added ++ more, by rw [hm, he, List.append_assoc]⟩

end

end AgentRuns
