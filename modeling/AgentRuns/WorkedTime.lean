import AgentRuns.Lasting
import AgentRuns.Spans
import Mathlib.Tactic.Ring

/-!
# Worked time

A row keeps the working time in two columns, `worked_seconds` for the stretches that ended and
`running_since` for the one going on.  Together they say how long the run was RUNNING in its whole
history (`worked_exact`), and so what the reports say never goes down, and moves only with the
stretches.
-/

namespace AgentRuns

open Relational Fallible Timed

/-- The run is RUNNING. -/
def Database.running (r : String) (db : Database) : Bool := (db.run? r).any (·.status = .RUNNING)

/-- The total length of the run's RUNNING intervals up to `now`. -/
def runningTime (store : RunStore) (r : String) (t : Instant) (ops : List (Instant × Op)) (now : Instant) : Rat :=
  Run.spent (Database.running r) (apply store) t Database.empty ops now

section
variable {store : RunStore} {t now later : Instant} {op : Op} {db : Database} {row row' : RunRow} {r : String}
  {ops : List (Instant × Op)}

/-! ## One step -/

/-- A change keeps both columns, or banks the stretch as it moves the status. -/
theorem Change.clock (h : Change store now op row row') (hi : RowInv row) :
    (row'.workedSeconds = row.workedSeconds ∧ row'.runningSince = row.runningSince ∧ row'.status = row.status) ∨
      (row'.workedSeconds = worked row now ∧ row'.runningSince = (if row'.status = .RUNNING then some now else none) ∧
        (row'.status = .RUNNING → row.status ≠ .RUNNING)) := by
  cases h with
  | beat =>
    unfold RunRow.saved
    split <;> exact Or.inl ⟨rfl, rfl, rfl⟩
  | cancelAsked | escalated => exact Or.inl ⟨rfl, rfl, rfl⟩
  | claimed queued => exact Or.inr ⟨rfl, rfl, fun _ => by rw [queued]; simp⟩
  | resumeRunning waiting => exact Or.inr ⟨rfl, rfl, fun _ => by rw [hi.paused waiting]; simp⟩
  | @finished row tenantId runId ending =>
    exact Or.inr ⟨rfl, rfl, fun hr => absurd hr (RunStatus.ne_of_final ending.isAnEnding).2.1⟩
  | _ => exact Or.inr ⟨rfl, rfl, fun hr => by cases hr⟩

/-- A step leaves the time worked up to then as it is. -/
theorem Change.worked_now (h : Change store now op row row') (hi : RowInv row) : worked row' now = worked row now := by
  rcases h.clock hi with ⟨hw, hs, -⟩ | ⟨hw, hs, -⟩
  · unfold worked
    rw [hw, hs]
  · rw [worked, hs, hw]
    split
    · rfl
    · rename_i since he
      split at he
      · obtain rfl := Option.some.inj he
        rw [sub_self, max_self, add_zero]
      · cases he

theorem Change.since_le (h : Change store now op row row') (hi : RowInv row)
    (hs : ∀ since, row.runningSince = some since → since ≤ now) (since : Instant) (he : row'.runningSince = some since) :
    since ≤ now := by
  rcases h.clock hi with ⟨-, hn, -⟩ | ⟨-, hn, -⟩
  · exact hs since (hn ▸ he)
  · rw [hn] at he
    split at he
    · exact le_of_eq (Option.some.inj he).symm
    · cases he

/-- A step that neither begins a stretch nor ends one leaves what will be reported as it is. -/
theorem Change.undisturbed (h : Change store now op row row') (hi : RowInv row)
    (hs : row'.status = .RUNNING ↔ row.status = .RUNNING) (later : Instant) : worked row' later = worked row later := by
  rcases h.clock hi with ⟨hw, hn, -⟩ | ⟨hw, hn, hout⟩
  · unfold worked
    rw [hw, hn]
  · have hidle : row.status ≠ .RUNNING := fun hr => hout (hs.2 hr) hr
    have hnone : row.runningSince = none := by
      cases he : row.runningSince with
      | none => rfl
      | some since => exact absurd (hi.running.1 (by rw [he]; rfl)) hidle
    rw [if_neg fun hr => hidle (hs.1 hr)] at hn
    rw [worked, hn, hw, worked, worked, hnone]

/-- While a run is RUNNING its working time goes on. -/
theorem worked_later (hi : RowInv row) (hs : ∀ since, row.runningSince = some since → since ≤ now) (hle : now ≤ later) :
    worked row later = worked row now + if row.status = .RUNNING then later - now else 0 := by
  unfold worked
  cases he : row.runningSince with
  | none =>
    have hidle : row.status ≠ .RUNNING := fun hr => by
      have := hi.running.2 hr
      rw [he] at this
      cases this
    rw [if_neg hidle]
    exact (add_zero _).symm
  | some since =>
    have hsince := hs since he
    rw [if_pos (hi.running.1 (by rw [he]; rfl))]
    show row.workedSeconds + max 0 (later - since) = row.workedSeconds + max 0 (now - since) + (later - now)
    rw [max_eq_right (sub_nonneg.2 (le_trans hsince hle)), max_eq_right (sub_nonneg.2 hsince)]
    ring

/-! ## The whole history -/

theorem stretch_running (hr : db.run? r = some row) :
    Run.stretch (Database.running r) db t now = if row.status = .RUNNING then now - t else 0 := by
  unfold Run.stretch Database.running
  rw [hr]
  simp

theorem runningTime_concat : runningTime store r t (ops ++ [(now, op)]) later =
    runningTime store r t ops now + Run.stretch (Database.running r) (history store (ops ++ [(now, op)])) now later := by
  rw [history_concat]
  exact Run.spent_concat ops now op

/-- A run that is not there has not worked. -/
theorem runningTime_of_none (ops : List (Instant × Op)) : (history store ops).run? r = none → ∀ now,
    runningTime store r t ops now = 0 := by
  induction ops using List.reverseRecOn with
  | nil => exact fun _ _ => rfl
  | append_singleton ops x ih =>
    obtain ⟨now, op⟩ := x
    intro hn later
    rw [runningTime_concat, ih (absent_before hn), zero_add]
    unfold Run.stretch Database.running
    rw [hn]
    rfl

/-- What the row's two columns say from `now` on, when they say how long the run was RUNNING. -/
structure Clocked (store : RunStore) (r : String) (t : Instant) (ops : List (Instant × Op)) (row : RunRow) : Prop where
  worked : ∀ now, Run.ends t ops ≤ now → worked row now = runningTime store r t ops now
  since : ∀ since, row.runningSince = some since → since ≤ Run.ends t ops

/-- Right at the last operation, and right from then on. -/
theorem Clocked.of_ends (hr : (history store ops).run? r = some row) (hi : RowInv row)
    (hs : ∀ since, row.runningSince = some since → since ≤ Run.ends t ops)
    (hw : AgentRuns.worked row (Run.ends t ops) = runningTime store r t ops (Run.ends t ops)) :
    Clocked store r t ops row := by
  refine ⟨fun now hle => ?_, hs⟩
  calc AgentRuns.worked row now
      = runningTime store r t ops (Run.ends t ops) + if row.status = .RUNNING then now - Run.ends t ops else 0 := by
        rw [worked_later hi hs hle, hw]
    _ = runningTime store r t ops (Run.ends t ops) +
          Run.stretch (Database.running r) (history store ops) (Run.ends t ops) now := by rw [stretch_running hr]
    _ = runningTime store r t ops now := Run.spent_add ops

/-- **Run.** -/
theorem clocked (ops : List (Instant × Op)) : Run.Admitted (apply store) anything t Database.empty ops → ∀ row,
    (history store ops).run? r = some row → Clocked store r t ops row := by
  induction ops using List.reverseRecOn with
  | nil => intro _ row hr; cases hr
  | append_singleton ops x ih =>
    obtain ⟨now, op⟩ := x
    intro ha row' hr'
    obtain ⟨ha, hle, -⟩ := (Run.admitted_concat ops now op).1 ha
    have hi' := history_inv (ops ++ [(now, op)]) r row' hr'
    -- where the operation is taken, nothing has been spent since
    have hspent : runningTime store r t (ops ++ [(now, op)]) now = runningTime store r t ops now := by
      rw [runningTime_concat, Run.stretch_self, add_zero]
    have hends : Run.ends t (ops ++ [(now, op)]) = now := Run.ends_concat ops now op t
    rw [history_concat] at hr'
    refine Clocked.of_ends (by rw [history_concat, hr']) hi' ?_ ?_ <;> rw [hends]
    · rcases apply_run hr' with hr | ⟨row, hr, hc, -⟩ | ⟨-, start, queue, strict, -, rfl, -⟩
      · exact fun since he => le_trans ((ih ha row' hr).since since he) hle
      · exact hc.since_le (history_inv ops r row hr) fun since he => le_trans ((ih ha row hr).since since he) hle
      · intro since he
        cases queue
        · exact le_of_eq (Option.some.inj he).symm
        · cases he
    · rw [hspent]
      rcases apply_run hr' with hr | ⟨row, hr, hc, -⟩ | ⟨hn, start, queue, strict, -, rfl, -⟩
      · exact (ih ha row' hr).worked now hle
      · rw [hc.worked_now (history_inv ops r row hr)]
        exact (ih ha row hr).worked now hle
      · rw [runningTime_of_none ops hn]
        unfold worked startedRow
        cases queue
        · show (0 : Rat) + max 0 (now - now) = 0
          rw [sub_self, max_self, add_zero]
        · rfl

/-- The work limit is compared with it. -/
theorem overworked_iff (ha : Run.Admitted (apply store) anything t Database.empty ops) (hle : Run.ends t ops ≤ now)
    (hr : (history store ops).run? r = some row) : store.overworked now row = true ↔
      row.status = .RUNNING ∧ ∃ allowed, store.limit row = some allowed ∧ allowed < runningTime store r t ops now := by
  have hc := clocked ops ha row hr
  have hi := history_inv ops r row hr
  rw [← hc.worked now hle]
  simp only [RunStore.overworked, Bool.and_eq_true, decide_eq_true_eq, Option.any_eq_true]
  refine and_congr_right fun hrun => exists_congr fun allowed => and_congr_right fun _ => ?_
  obtain ⟨since, hs⟩ := Option.isSome_iff_exists.1 (hi.running.2 hrun)
  have hle := le_trans (hc.since since hs) hle
  rw [worked, hs]
  show (∃ a, some since = some a ∧ allowed < row.workedSeconds + (now - a)) ↔
    allowed < row.workedSeconds + max 0 (now - since)
  rw [max_eq_right (sub_nonneg.2 hle)]
  constructor
  · rintro ⟨_, he, h⟩
    rwa [← Option.some.inj he] at h
  · exact fun h => ⟨since, rfl, h⟩

/-- **Worked time is exact.**  A report says how long the run was RUNNING; a later one says no less; and
a refused request, a heartbeat, and any step that neither begins a stretch nor ends one change no
report. -/
theorem worked_exact (ha : Run.Admitted (apply store) anything t Database.empty ops) (hle : Run.ends t ops ≤ now)
    (hr : (history store ops).run? r = some row) :
    (record row now).workedSeconds = runningTime store r t ops now ∧
      (∀ more later row', Run.Admitted (apply store) anything now (history store ops) more →
        Run.ends now more ≤ later → (history store (ops ++ more)).run? r = some row' →
        (record row now).workedSeconds ≤ (record row' later).workedSeconds) ∧
      ∀ op row', (apply store (history store ops) now op).run? r = some row' →
        (∃ e, perform store op now (history store ops) = .error e) ∨ apply store (history store ops) now op = history store ops ∨
          (∃ tenantId runId request, op = .heartbeat tenantId runId request) ∨
          (row'.status = .RUNNING ↔ row.status = .RUNNING) →
        ∀ later, (record row' later).workedSeconds = (record row later).workedSeconds := by
  have hexact := (clocked ops ha row hr).worked now hle
  refine ⟨hexact, fun more later row' hm hlater hr' => ?_, fun op row' hr' hs later => ?_⟩
  · have hexact' := (clocked (ops ++ more) (ha.append hle hm) row' hr').worked later (Run.ends_append_le hle hlater)
    show worked row now ≤ worked row' later
    rw [hexact, hexact']
    unfold runningTime
    rw [Run.spent_append ops more now]
    exact le_add_of_nonneg_right (Run.spent_nonneg hm hlater)
  · obtain ⟨_, he, hc⟩ := run_apply store now op hr
    obtain rfl := Option.some.inj (hr'.symm.trans he)
    have still : (row'.status = .RUNNING ↔ row.status = .RUNNING) → worked row' later = worked row later := by
      intro hs
      rcases hc with rfl | hc
      · rfl
      · exact hc.undisturbed (history_inv ops r row hr) hs later
    have same : apply store (history store ops) now op = history store ops → worked row' later = worked row later := by
      intro he
      rw [he, hr] at hr'
      rw [Option.some.inj hr']
    rcases hs with ⟨e, he⟩ | he | ⟨tenantId, runId, request, rfl⟩ | hs
    · refine same ?_
      unfold apply
      rw [he]
      rfl
    · exact same he
    · refine still ?_
      rcases hc with rfl | hc
      · exact Iff.rfl
      · cases hc with
        | beat =>
          unfold RunRow.saved
          split <;> exact Iff.rfl
    · exact still hs

end

/-- Claimed at 1, released at 11, claimed again at 100: at 105 the run has worked for 15 s. -/
def releasedWork : List (Instant × Op) :=
  [(0, .start smallStart true true), (1, .claim ⟨[], []⟩ (some "t") ⟨"w", ["a"], smallLease⟩),
    (11, .release "t" "r" ⟨"w", none⟩), (100, .claim ⟨[], []⟩ (some "t") ⟨"w", ["a"], smallLease⟩)]

theorem releasedWork_exact : ∃ row : RunRow, (record row 105).workedSeconds = 15 ∧
    (record row 105).workedSeconds = runningTime smallStore "r" 0 releasedWork 105 := by
  have ha : Run.Admitted (apply smallStore) anything 0 Database.empty releasedWork := by
    norm_num [releasedWork, Run.Admitted, anything]
  have hs : ((history smallStore releasedWork).run? "r").any (fun row => (record row 105).workedSeconds = 15) = true := by
    decide +kernel
  obtain ⟨row, hr, hrow⟩ := (Option.any_eq_true _ _).1 hs
  exact ⟨row, of_decide_eq_true hrow, (worked_exact ha (by norm_num [releasedWork, Run.ends]) hr).1⟩

end AgentRuns
