import AgentRuns.Invariant
import AgentRuns.Retries

/-!
# Who made the state a finish finds

`madeBy store ops r` is the operation that made the present state of run `r`: the last one of the history
that changed its status.  What it leaves in `status` and `settled_by` is all a finish knows of it
(`RunRow.MadeBy`, kept by every step), and a finish tells its repeat by these two.

    answered as a repeat  =>  a finish by the same caller with the same status made the state
    a stranger made it    =>  refused, or the documented ending of a queued run, stored
                                                                            (finish_tells)

Both but where another operation left what the finish looks for, `mistaken`: there it is answered as a repeat
(`mistaken_answered`).
-/

namespace AgentRuns

open Relational Fallible Timed

/-! ## The maker -/

/-- The operation, where it changes the status of run `r`. -/
def restated (store : RunStore) (r : String) (db : Database) (now : Instant) (op : Op) : List Op :=
  if ((apply store db now op).run? r).map (·.status) = (db.run? r).map (·.status) then [] else [op]

/-- What made the present state of run `r`. -/
def madeBy (store : RunStore) (ops : List (Instant × Op)) (r : String) : Option Op :=
  (Run.trace (apply store) (restated store r) Database.empty ops).getLast?

/-- What the operation that made a row's state left in `status` and `settled_by`. -/
def RunRow.MadeBy (row : RunRow) : Op → Prop
  | .start .. => row.settledBy = none ∧ row.status.final = false
  | .claim .. => row.settledBy = none ∧ row.status.final = false
  | .pause _ _ _ workerId => row.settledBy = workerId ∧ (row.status = .PAUSED ∨ row.status = .CANCELLED)
  | .resume .. => row.settledBy = none ∧ (row.status.final = false ∨ row.status = .CANCELLED)
  | .cancel .. => row.settledBy = none ∧ row.status = .CANCELLED
  | .finish _ _ ending workerId _ => row.settledBy = workerId ∧
      (row.status = ending.status ∨
        (row.status = .QUEUED ∧ ending.status = .ERROR ∧ ending.error.any (·.retryable) = true))
  | .release _ _ request =>
      row.settledBy = some request.workerId ∧ (row.status = .QUEUED ∨ row.status = .CANCELLED)
  | .timeOutPastDeadline .. => row.settledBy = none ∧ row.status = .TIMEOUT
  | .timeOutOverworked .. => row.settledBy = none ∧ row.status = .TIMEOUT
  | .requeueLapsed .. => row.settledBy = none ∧ (row.status = .QUEUED ∨ row.status.final = true)
  | .escalateOverdue .. => row.settledBy = none ∧ row.status = .TIMEOUT
  | .heartbeat .. => False
  | .upload .. => False
  | .appendEvents .. => False

section
variable {store : RunStore} {now : Instant} {op : Op} {db db' : Database} {row row' : RunRow} {r tenantId runId : String}
  {run : RunRecord} {changed : Bool} {ending : RunFinish} {workerId : Option String} {draw : Draw}

/-- Only the two columns matter. -/
theorem RunRow.MadeBy.congr (h : row.MadeBy op) (hs : row'.status = row.status) (hb : row'.settledBy = row.settledBy) :
    row'.MadeBy op := by
  unfold RunRow.MadeBy at h ⊢
  rw [hs, hb]
  exact h

theorem RunStatus.ne_of_canBecome {s t : RunStatus} (h : s.canBecome t = true) : t ≠ s := by
  rintro rfl
  cases t <;> simp [RunStatus.canBecome, RunStatus.final] at h

theorem RunStatus.ne_of_unended {s t : RunStatus} (h : s.final = false) (ht : t.final = true) : t ≠ s := by
  rintro rfl
  rw [h] at ht
  cases ht

/-- **One step.**  A change makes a new state, or leaves the two columns as they are. -/
theorem Change.made (h : Change store now op row row') :
    (row'.status ≠ row.status ∧ row'.MadeBy op) ∨ (row'.status = row.status ∧ row'.settledBy = row.settledBy) := by
  cases h with
  | claimed queued =>
    left
    exact ⟨by rw [queued]; simp [RunRow.leased, RunRow.moved], rfl, rfl⟩
  | beat running holder =>
    right
    unfold RunRow.saved
    split <;> exact ⟨rfl, rfl⟩
  | paused _ _ _ running =>
    left
    exact ⟨by rw [running]; simp [RunRow.moved], rfl, .inl rfl⟩
  | pauseCancelled _ _ _ unended =>
    left
    exact ⟨RunStatus.ne_of_unended unended rfl, rfl, .inr rfl⟩
  | resumeCancelled _ _ unended =>
    left
    exact ⟨RunStatus.ne_of_unended unended rfl, rfl, .inr rfl⟩
  | resumeQueued _ _ can =>
    left
    exact ⟨RunStatus.ne_of_canBecome can, rfl, .inl rfl⟩
  | resumeRunning _ _ can =>
    left
    exact ⟨RunStatus.ne_of_canBecome can, rfl, .inl rfl⟩
  | cancelAsked =>
    right
    exact ⟨rfl, rfl⟩
  | cancelled _ _ unended =>
    left
    exact ⟨RunStatus.ne_of_unended unended rfl, rfl, rfl⟩
  | retried _ again =>
    left
    simp only [AgentRuns.retried, Bool.and_eq_true, decide_eq_true_eq] at again
    obtain ⟨⟨⟨⟨⟨he, hretry⟩, hrun⟩, -⟩, -⟩, -⟩ := again
    exact ⟨by rw [hrun]; simp [RunRow.requeued, RunRow.moved], rfl, .inr ⟨rfl, he, hretry⟩⟩
  | finished _ _ can =>
    left
    exact ⟨RunStatus.ne_of_canBecome can, rfl, .inl rfl⟩
  | released _ _ can =>
    left
    exact ⟨RunStatus.ne_of_canBecome can, rfl, .inl rfl⟩
  | releaseCancelled _ _ unended =>
    left
    exact ⟨RunStatus.ne_of_unended unended rfl, rfl, .inr rfl⟩
  | pastDeadline unended =>
    left
    exact ⟨RunStatus.ne_of_unended unended rfl, rfl, rfl⟩
  | overworked running =>
    left
    exact ⟨by rw [running]; simp [RunRow.moved], rfl, rfl⟩
  | lapseCancelled running =>
    left
    exact ⟨by rw [running]; simp [RunRow.moved], rfl, .inr rfl⟩
  | gaveUp running =>
    left
    exact ⟨by rw [running]; simp [RunRow.moved], rfl, .inr rfl⟩
  | lapsed running =>
    left
    exact ⟨by rw [running]; simp [RunRow.requeued, RunRow.moved], rfl, .inl rfl⟩
  | escalated =>
    right
    exact ⟨rfl, rfl⟩
  | unanswered paused =>
    left
    exact ⟨by rw [paused]; simp [RunRow.moved], rfl, rfl⟩

theorem startedRow_madeBy (start : RunStart) (queue strict : Bool) :
    (startedRow start queue now).MadeBy (.start start queue strict) := by
  cases queue <;> exact ⟨rfl, rfl⟩

theorem madeBy_concat (ops : List (Instant × Op)) :
    madeBy store (ops ++ [(now, op)]) r = (restated store r (history store ops) now op).getLast?.or (madeBy store ops r) := by
  unfold madeBy
  rw [Run.trace_concat, List.getLast?_append]
  rfl

/-- **Every history.**  Each run's state has its maker, which named that run if it named one. -/
theorem made_of_history (ops : List (Instant × Op)) : ∀ r row, (history store ops).run? r = some row →
    ∃ maker, madeBy store ops r = some maker ∧ row.MadeBy maker ∧ ∀ named, maker.runId = some named → r = named := by
  induction ops using List.reverseRecOn with
  | nil => intro r row hr; cases hr
  | append_singleton ops x ih =>
    obtain ⟨now, op⟩ := x
    intro r row' hr'
    rw [madeBy_concat]
    rw [history_concat] at hr'
    rcases apply_run hr' with hr | ⟨row, hr, hc, -, hnamed⟩ | ⟨hr, start, queue, strict, rfl, rfl, -⟩
    · have hsame : restated store r (history store ops) now op = [] := if_pos (by rw [hr', hr])
      rw [hsame]
      exact ih r row' hr
    · rcases hc.made with ⟨hne, hmade⟩ | ⟨hs, hb⟩
      · have hnew : restated store r (history store ops) now op = [op] := by
          refine if_neg fun he => hne ?_
          rw [hr', hr, Option.map_some, Option.map_some] at he
          exact Option.some.inj he
        rw [hnew]
        exact ⟨op, rfl, hmade, hnamed⟩
      · have hsame : restated store r (history store ops) now op = [] :=
          if_pos (by rw [hr', hr, Option.map_some, Option.map_some, hs])
        rw [hsame]
        obtain ⟨maker, hm, hmade, hid⟩ := ih r row hr
        exact ⟨maker, hm, hmade.congr hs hb, hid⟩
    · have hnew : restated store r (history store ops) now (.start start queue strict) = [.start start queue strict] := by
        refine if_neg fun he => ?_
        rw [hr', hr] at he
        cases he
      rw [hnew]
      refine ⟨_, rfl, startedRow_madeBy start queue strict, ?_⟩
      rintro _ ⟨⟩

end

/-! ## Strangers, and those mistaken for the caller -/

/-- The state was made by a sweep, by a cancel (a pause, release or answer that ended the run instead among
them), by a release or by another caller's finish. -/
def Stranger (maker : Op) (row : RunRow) (workerId : Option String) : Prop :=
  match maker with
  | .timeOutPastDeadline .. => True
  | .timeOutOverworked .. => True
  | .requeueLapsed .. => True
  | .escalateOverdue .. => True
  | .cancel .. => True
  | .release .. => True
  | .pause .. => row.status = .CANCELLED
  | .resume .. => row.status = .CANCELLED
  | .finish _ _ _ by_ _ => by_ ≠ workerId
  | _ => False

/-- Another operation than a finish left in `status` and `settled_by` what this finish looks for. -/
def mistaken (maker : Op) (row : RunRow) (ending : RunFinish) (workerId : Option String) : Prop :=
  match maker with
  | .timeOutPastDeadline .. => workerId = none ∧ row.status = ending.status
  | .timeOutOverworked .. => workerId = none ∧ row.status = ending.status
  | .requeueLapsed .. => workerId = none ∧ row.status = ending.status
  | .escalateOverdue .. => workerId = none ∧ row.status = ending.status
  | .cancel .. => workerId = none ∧ row.status = ending.status
  | .resume .. => workerId = none ∧ row.status = ending.status
  | .pause _ _ _ by_ => workerId = by_ ∧ row.status = ending.status
  | .release _ _ request => workerId = some request.workerId ∧
      (row.status = ending.status ∨ (row.status = .QUEUED ∧ ending.status = .ERROR))
  | _ => False

/-- A finish by the same caller with the same status made the state, ending the run or, for a retryable error,
putting it back on the queue. -/
def FinishedBy (maker : Op) (row : RunRow) (ending : RunFinish) (workerId : Option String) : Prop :=
  ∃ tenantId ending' draw, maker = .finish tenantId row.runId ending' workerId draw ∧ ending'.status = ending.status ∧
    (row.status = ending.status ∨
      (row.status = .QUEUED ∧ ending.status = .ERROR ∧ ending'.error.any (·.retryable) = true))

section
variable {store : RunStore} {now : Instant} {maker : Op} {db db' : Database} {row row' : RunRow}
  {r tenantId runId : String} {run : RunRecord} {changed : Bool} {ending : RunFinish} {workerId : Option String}
  {draw : Draw}

/-- What a finish takes for its repeat is one, or it is mistaken. -/
theorem repeat_made (hmade : row.MadeBy maker) (hid : ∀ named, maker.runId = some named → row.runId = named)
    (h : settled row ending.status workerId = true ∨
      (ending.status = .ERROR ∧ workerId ≠ none ∧ settled row .QUEUED workerId = true)) :
    FinishedBy maker row ending workerId ∨ mistaken maker row ending workerId := by
  obtain ⟨hq, hr, hp⟩ := RunStatus.ne_of_final ending.isAnEnding
  simp only [settled_iff] at h
  cases maker with
  | finish tenantId runId ending' by_ draw =>
    left
    obtain ⟨hb, hs⟩ := hmade
    have hrun : row.runId = runId := hid runId rfl
    rcases h with ⟨h1, h2⟩ | ⟨he, hne, h1, h2⟩
    · rcases hs with hs | ⟨hs, -, -⟩
      · exact ⟨tenantId, ending', draw, by rw [hrun, ← h2, hb], hs.symm.trans h1, .inl h1⟩
      · exact absurd (h1.symm.trans hs) hq
    · rcases hs with hs | ⟨-, hs, hretry⟩
      · exact absurd (hs.symm.trans h1) (RunStatus.ne_of_final ending'.isAnEnding).1
      · exact ⟨tenantId, ending', draw, by rw [hrun, ← h2, hb], hs.trans he.symm, .inr ⟨h1, he, hretry⟩⟩
  | release tenantId runId request =>
    right
    rcases h with ⟨h1, h2⟩ | ⟨he, hne, h1, h2⟩
    · exact ⟨h2.symm.trans hmade.1, .inl h1⟩
    · exact ⟨h2.symm.trans hmade.1, .inr ⟨h1, he⟩⟩
  | pause tenantId runId pause by_ =>
    right
    rcases h with ⟨h1, h2⟩ | ⟨he, hne, h1, h2⟩
    · exact ⟨h2.symm.trans hmade.1, h1⟩
    · rcases hmade.2 with hs | hs <;> rw [hs] at h1 <;> cases h1
  | start start queue strict =>
    obtain ⟨hb, hf⟩ := hmade
    rcases h with ⟨h1, h2⟩ | ⟨he, hne, h1, h2⟩
    · rw [h1, ending.isAnEnding] at hf
      cases hf
    · exact absurd (h2.symm.trans hb) hne
  | claim held tenantId request =>
    obtain ⟨hb, hf⟩ := hmade
    rcases h with ⟨h1, h2⟩ | ⟨he, hne, h1, h2⟩
    · rw [h1, ending.isAnEnding] at hf
      cases hf
    · exact absurd (h2.symm.trans hb) hne
  | heartbeat | upload | appendEvents => exact hmade.elim
  | resume | cancel | timeOutPastDeadline | timeOutOverworked | requeueLapsed | escalateOverdue =>
    -- nobody settled it: the caller names none
    right
    rcases h with ⟨h1, h2⟩ | ⟨he, hne, h1, h2⟩
    · exact ⟨h2.symm.trans hmade.1, h1⟩
    · exact absurd (h2.symm.trans hmade.1) hne

/-- Where it is mistaken, it takes the stranger's state for its own. -/
theorem mistaken_repeats (hmade : row.MadeBy maker) (h : mistaken maker row ending workerId) :
    settled row ending.status workerId = true ∨
      (ending.status = .ERROR ∧ workerId ≠ none ∧ settled row .QUEUED workerId = true) := by
  simp only [settled_iff]
  cases maker with
  | release tenantId runId request =>
    obtain ⟨rfl, hs | ⟨hs, he⟩⟩ := h
    · exact .inl ⟨hs, hmade.1⟩
    · exact .inr ⟨he, by simp, hs, hmade.1⟩
  | start | claim | heartbeat | upload | appendEvents | finish => exact h.elim
  | pause =>
    obtain ⟨rfl, hs⟩ := h
    exact .inl ⟨hs, hmade.1⟩
  | _ =>
    obtain ⟨rfl, hs⟩ := h
    exact .inl ⟨hs, hmade.1⟩

/-- A stranger leaves the run ended or queued. -/
theorem stranger_left (hmade : row.MadeBy maker) (h : Stranger maker row workerId) :
    row.status.final = true ∨ row.status = .QUEUED := by
  cases maker with
  | pause | resume =>
    left
    rw [show row.status = .CANCELLED from h]
    rfl
  | start | claim | heartbeat | upload | appendEvents => exact h.elim
  | cancel | timeOutPastDeadline | timeOutOverworked | escalateOverdue =>
    left
    rw [hmade.2]
    rfl
  | requeueLapsed => exact hmade.2.symm
  | release =>
    rcases hmade.2 with hs | hs
    · exact .inr hs
    · left
      rw [hs]
      rfl
  | finish tenantId runId ending' by_ draw =>
    rcases hmade.2 with hs | ⟨hs, -⟩
    · left
      rw [hs]
      exact ending'.isAnEnding
    · exact .inr hs

/-- A finish that changes an ended or a queued run is an unnamed caller's `CANCELLED` or `TIMEOUT` of a queued one. -/
theorem Change.finish_left (hi : RowInv row) (hs : row.status.final = true ∨ row.status = .QUEUED)
    (h : Change store now (.finish tenantId runId ending workerId draw) row row') :
    row.status = .QUEUED ∧ workerId = none ∧ (ending.status = .CANCELLED ∨ ending.status = .TIMEOUT) ∧
      row'.status = ending.status ∧ row'.output = ending.output ∧
      row'.error = counted ending.error row.errorRetries := by
  have hrun : row.status ≠ .RUNNING := by
    rcases hs with hs | hs
    · exact (RunStatus.ne_of_final hs).2.1
    · rw [hs]
      decide
  cases h with
  | retried _ again =>
    simp only [AgentRuns.retried, Bool.and_eq_true, decide_eq_true_eq] at again
    exact absurd again.1.1.1.2 hrun
  | finished fenced last can =>
    have hq : row.status = .QUEUED := by
      rcases hs with hs | hs
      · rw [RunStatus.not_final_of_canBecome can] at hs
        cases hs
      · exact hs
    have hw : workerId = none := by
      rcases fenced with hw | hw
      · exact hw
      · rw [← hw]
        exact hi.unheld hrun
    refine ⟨hq, hw, ?_, rfl, rfl, rfl⟩
    rw [hq] at can
    simp only [RunStatus.canBecome, decide_eq_true_eq] at can
    rcases can with h | h | h
    · exact absurd h (RunStatus.ne_of_final ending.isAnEnding).2.1
    · exact .inl h
    · exact .inr h

/-! ## What a finish is told -/

/-- **Repeats and strangers.**  In every history, a finish that finds no state it mistakes for its own is answered as
a repeat only of a finish by the same caller with the same status, and a run whose state a stranger made takes
none but the documented ending of a queued run, whose output and error are stored. -/
theorem finish_tells {ops : List (Instant × Op)}
    (h : (history store ops).finish tenantId runId ending workerId draw now = .ok (db', run, changed)) :
    ∃ row maker, (history store ops).run? runId = some row ∧ madeBy store ops runId = some maker ∧
      (¬ mistaken maker row ending workerId →
        (changed = false → FinishedBy maker row ending workerId) ∧
        (Stranger maker row workerId → changed = true ∧ row.status = .QUEUED ∧ workerId = none ∧
          (ending.status = .CANCELLED ∨ ending.status = .TIMEOUT) ∧ run.status = ending.status ∧
          run.output = ending.output ∧ run.error = counted ending.error row.errorRetries)) := by
  obtain ⟨row, ⟨hr, ht⟩, hcase⟩ := Database.changing_ok.1 h
  obtain ⟨maker, hm, hmade, hid⟩ := made_of_history ops runId row hr
  have hrun : row.runId = runId := Table.key_of_find? hr
  have hi : RowInv row := history_inv ops runId row hr
  refine ⟨row, maker, hr, hm, fun hmis => ?_⟩
  rcases hcase with ⟨hd, -, rfl, rfl⟩ | ⟨row', hd, -, -, rfl, rfl⟩
  · -- answered as a repeat: a stranger's state would have been mistaken for its own
    have hfin : FinishedBy maker row ending workerId := by
      rcases repeat_made hmade (fun named hn => hrun.trans (hid named hn)) (finishRow_repeats.1 hd) with hf | hf
      · exact hf
      · exact absurd hf hmis
    refine ⟨fun _ => hfin, fun hstranger => ?_⟩
    obtain ⟨_, _, _, rfl, -⟩ := hfin
    exact absurd rfl hstranger
  · refine ⟨fun hc => (by cases hc), fun hstranger => ?_⟩
    have hc : Change store now (.finish tenantId runId ending workerId draw) row row' := finishRow_change hd
    obtain ⟨hq, hw, hst, h1, h2, h3⟩ := hc.finish_left hi (stranger_left hmade hstranger)
    exact ⟨rfl, hq, hw, hst, h1, h2, h3⟩

/-- Where a finish mistakes a state for its own, it is answered as a repeat, and what it carries is dropped. -/
theorem mistaken_answered {ops : List (Instant × Op)} {maker : Op} (hr : (history store ops).run? runId = some row)
    (ht : row.tenantId = tenantId) (hm : madeBy store ops runId = some maker)
    (h : mistaken maker row ending workerId) :
    (history store ops).finish tenantId runId ending workerId draw now =
      .ok (history store ops, record row now, false) := by
  obtain ⟨maker', hm', hmade, -⟩ := made_of_history ops runId row hr
  cases hm.symm.trans hm'
  exact Database.changing_ok.2 ⟨row, ⟨hr, ht⟩, .inl ⟨finishRow_repeats.2 (mistaken_repeats hmade h), rfl, rfl, rfl⟩⟩

end

/-- A run queued, claimed by `w` and let go again. -/
def letGo : List (Instant × Op) :=
  [(0, .start smallStart true true), (1, .claim ⟨[], []⟩ (some "t") ⟨"w", ["a"], smallLease⟩),
    (2, .release "t" "r" ⟨"w", none⟩)]

/-- An ending with an output and no error. -/
def endingWith (status : RunStatus) (final : status.final = true) (output : Json) : RunFinish :=
  ⟨status, output, none, final, fun h => by cases h⟩

/-- A finish `CANCELLED` with an output. -/
def smallCancelled : RunFinish := endingWith .CANCELLED (Eq.refl true) (.bool true)

theorem letGo_finish : ∃ db' run, (history smallStore letGo).finish "t" "r" smallCancelled none smallDraw 3 =
    .ok (db', run, true) ∧ run.status = .CANCELLED ∧ run.output = .bool true := ⟨_, _, rfl, rfl, rfl⟩

/-- The run a release put back on the queue is finished `CANCELLED` by a caller that names no worker. -/
theorem queued_finish_taken : ∃ db' run maker, madeBy smallStore letGo "r" = some maker ∧
    (∃ request, maker = .release "t" "r" request) ∧
    (history smallStore letGo).finish "t" "r" smallCancelled none smallDraw 3 = .ok (db', run, true) ∧
    run.status = .CANCELLED ∧ run.output = .bool true := by
  obtain ⟨db', run, h, hs, ho⟩ := letGo_finish
  exact ⟨db', run, _, rfl, ⟨_, rfl⟩, h, hs, ho⟩

/-- The release made the state, and the finish does not mistake it for its own. -/
theorem finish_tells_letGo : ∃ (row : RunRow) (maker : Op) (run : RunRecord) (changed : Bool),
    (history smallStore letGo).run? "r" = some row ∧ madeBy smallStore letGo "r" = some maker ∧
      Stranger maker row none ∧ ¬ mistaken maker row smallCancelled none ∧ changed = true ∧ row.status = .QUEUED ∧
        run.status = smallCancelled.status ∧ run.output = smallCancelled.output := by
  obtain ⟨db', run, h, -⟩ := letGo_finish
  obtain ⟨row, maker, hr, hm, htells⟩ := finish_tells h
  have hmaker : Op.release "t" "r" ⟨"w", none⟩ = maker := Option.some.inj hm
  subst hmaker
  have hmis : ¬ mistaken (.release "t" "r" ⟨"w", none⟩) row smallCancelled none := fun h => by cases h.1
  obtain ⟨hchanged, hq, -, -, hs, ho, -⟩ := (htells hmis).2 trivial
  exact ⟨row, _, run, true, hr, hm, trivial, hmis, hchanged, hq, hs, ho⟩

end AgentRuns
