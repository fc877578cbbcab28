import AgentRuns.Invariant

/-!
# Can a paused run be answered?

An answer is kept under an id made of the run and its interrupt, and the interrupt's id is the
caller's.  A pause checks neither that the id fits the column the answer keeps it in, nor that the
run was never answered under it: a pause retried after its answer makes the run wait on an answered
interrupt, and no answer to it is taken any more (`pausedAgain_unanswerable`).

While every pause of a running run names an id that fits and was never answered (`asksAnew`), each
paused run waits on an unanswered interrupt, and any answer that fits it, from a key that may give
it, moves the run on (`paused_answerable`).
-/

namespace AgentRuns

open Relational Fallible Timed

/-- The columns an answer is kept in take it. -/
def InterruptResolution.keepable (resolution : InterruptResolution) : Bool :=
  resolution.storable && fitsVarchar? 256 resolution.reviewer

/-- The run waits on an interrupt nobody answered, and takes any answer that fits. -/
structure Answerable (store : RunStore) (db : Database) (row : RunRow) (asked : Interrupt) : Prop where
  unanswered : ∀ kept ∈ db.resolutions.rows, kept.runId = row.runId → kept.interruptId ≠ asked.interruptId
  accepts : ∀ resolution answerer now, resolution.runId = row.runId → resolution.interruptId = asked.interruptId →
    requireMayAnswer answerer asked.assignee resolution.reviewer = .ok () →
    answerProblem store.lib asked resolution = .ok none → resolution.keepable = true →
    ∃ db' row', store.resume db row.tenantId row.runId resolution answerer now = .ok (db', record row' now, true) ∧
      db'.run? row.runId = some row' ∧ row'.status ≠ .PAUSED

/-- A pause of a running run names an id that fits its column, and that no answer of the run has. -/
def asksAnew (db : Database) (_ : Instant) (op : Op) : Prop :=
  ∀ tenantId runId pause workerId row, op = .pause tenantId runId pause workerId → db.run? runId = some row →
    row.status = .RUNNING → fitsVarchar 64 pause.interrupt.interruptId = true ∧
      ∀ kept ∈ db.resolutions.rows, kept.runId = runId → kept.interruptId ≠ pause.interrupt.interruptId

section
variable {store : RunStore} {t now : Instant} {op : Op} {db : Database} {row row' : RunRow} {r : String}
  {asked : Interrupt} {resolution : InterruptResolution} {answerer : KeyInfo}

/-! ## What a resume makes of a paused run -/

/-- An answer moves a paused run on. -/
theorem resumeRow_moves (now : Instant) (hs : row.status = .PAUSED) (hf : row.fits = true) (hr : resolution.storable = true) :
    ∃ row', resumeRow row resolution now = .ok row' ∧ row'.fits = true ∧ row'.status ≠ .PAUSED ∧
      row'.runId = row.runId := by
  have hfit := RunRow.fits_answered hf hr
  unfold resumeRow
  split
  · exact ⟨_, move_ok.2 ⟨by simp only [hs]; rfl, rfl⟩, RunRow.fits_moved hfit .CANCELLED now, by simp [RunRow.moved], rfl⟩
  · dsimp only
    split
    · exact ⟨_, requeue_ok.2 ⟨by simp only [hs]; rfl, rfl⟩, RunRow.fits_moved hfit .QUEUED now,
        by simp [RunRow.requeued, RunRow.moved], rfl⟩
    · exact ⟨_, bind_ok.2 ⟨_, move_ok.2 ⟨by simp only [hs]; rfl, rfl⟩, rfl⟩, RunRow.fits_moved hfit .RUNNING now,
        by simp [RunRow.moved], rfl⟩

/-- An answer that fits, from a key that may give it, under an id nothing is kept under, is taken. -/
theorem resume_accepts (hr : db.run? r = some row) (hs : row.status = .PAUSED) (hf : row.fits = true)
    (ha : row.awaiting = some asked) (hid : resolution.runId = r) (hsame : resolution.interruptId = asked.interruptId)
    (hkey : requireMayAnswer answerer asked.assignee resolution.reviewer = .ok ())
    (hans : answerProblem store.lib asked resolution = .ok none) (hkeep : resolution.keepable = true)
    (hlong : fitsVarchar 64 asked.interruptId = true)
    (hnew : db.resolutions.find? (resolutionId store.lib resolution) = none) :
    ∃ db' row', store.resume db row.tenantId r resolution answerer now = .ok (db', record row' now, true) ∧
      db'.run? r = some row' ∧ row'.status ≠ .PAUSED := by
  obtain ⟨hstore, hrev⟩ := Bool.and_eq_true_iff.1 hkeep
  obtain ⟨row', hm, hfit, hmoved, hsid⟩ := resumeRow_moves now hs hf hstore
  have hkept : (store.resolutionRow row asked resolution now).fits = true := by
    simp [ResolutionRow.fits, RunStore.resolutionRow, hsame, hlong, hrev, hstore]
  have hkeyed : row.runId = r := Table.key_of_find? hr
  have hw : row.awaiting.filter (fun i => i.interruptId = resolution.interruptId) = some asked := by
    rw [ha, Option.filter_some, if_pos (by simp [hsame])]
  have hflush : db.flush [row'] = .ok { db with runs := db.runs.putAll [row'] } :=
    Database.flush_ok.2 ⟨by simpa using hfit, rfl⟩
  have hput : (db.runs.put row').find? r = some row' := Table.find?_put_self (hsid.trans hkeyed) hr
  refine ⟨Database.ended { db with
    runs := db.runs.put row'
    resolutions := db.resolutions.insert (store.resolutionRow row asked resolution now) } [row'] now, row', ?_, hput,
    hmoved⟩
  refine bind_ok.2 ⟨(), refuse_of_not _ (by simp [hid]), bind_ok.2 ⟨row, ?_, ?_⟩⟩
  · exact Database.locked_ok.2 ⟨⟨hr, rfl⟩, Or.inl rfl⟩
  · rw [hw]
    refine bind_ok.2 ⟨(), hkey, bind_ok.2 ⟨none, hans, bind_ok.2 ⟨row', hm, ?_⟩⟩⟩
    refine bind_ok.2 ⟨(), refuse_of_not _ ?_, bind_ok.2 ⟨(), refuse_of_not _ ?_, bind_ok.2 ⟨_, hflush, rfl⟩⟩⟩
    · simp [RunStore.resolutionRow, hnew]
    · simp [hkept]

/-- Under an id something is kept under, no answer to the interrupt a run waits on is taken. -/
theorem resume_stuck (hr : db.run? r = some row) (ha : row.awaiting = some asked)
    (hsame : resolution.interruptId = asked.interruptId)
    (hkept : (db.resolutions.find? (resolutionId store.lib resolution)).isSome) {tenantId : String}
    (result : Database × RunRecord × Bool) : store.resume db tenantId r resolution answerer now ≠ .ok result := by
  intro h
  obtain ⟨row₀, ⟨hr₀, -⟩, -, ⟨-, hw, -⟩ | ⟨_, _, -, -, -, -, hn, -⟩⟩ := resume_ok h
  · rw [hr] at hr₀
    cases hr₀
    exact hw (by rw [ha, Option.map_some, hsame])
  · rw [hn] at hkept
    cases hkept

/-! ## What answers are kept under, and what runs wait on -/

/-- A change to a waiting run leaves it waiting on the same interrupt, or is a pause on that one. -/
theorem Change.waiting (h : Change store now op row row') (ha : row'.awaiting = some asked) :
    (∃ before, row.awaiting = some before ∧ before.interruptId = asked.interruptId ∧
        ∀ tenantId runId resolution answerer, op ≠ .resume tenantId runId resolution answerer) ∨
      ∃ tenantId runId pause workerId, op = .pause tenantId runId pause workerId ∧ asked = pause.interrupt ∧
        row.status = .RUNNING := by
  cases h with
  | claimed | pauseCancelled | resumeCancelled | resumeQueued | resumeRunning | cancelled | retried | released
  | releaseCancelled | pastDeadline | overworked | lapseCancelled | gaveUp | lapsed | unanswered =>
    simp [RunRow.requeued, RunRow.moved, RunRow.leased] at ha
  | @finished row tenantId runId ending workerId draw fenced last can =>
    have hf := ending.isAnEnding
    have hp : ending.status ≠ .PAUSED := fun h => by rw [h] at hf; cases hf
    simp [RunRow.moved, hp] at ha
  | beat running holder =>
    refine Or.inl ⟨asked, ?_, rfl, by simp⟩
    unfold RunRow.saved at ha
    split at ha <;> exact ha
  | paused _ _ _ running =>
    cases ha
    exact Or.inr ⟨_, _, _, _, rfl, rfl, running⟩
  | cancelAsked => exact Or.inl ⟨asked, ha, rfl, by simp⟩
  | escalated paused waiting =>
    cases ha
    exact Or.inl ⟨_, waiting, rfl, by simp⟩

/-- Answers are kept under their own ids, and no run waits on an interrupt it was answered on. -/
structure AskedAnew (store : RunStore) (db : Database) : Prop where
  ids : ∀ kept ∈ db.resolutions.rows,
    kept.resolutionId = store.lib.stableId "res_" [.text kept.runId, .text kept.interruptId]
  waiting : ∀ r row asked, db.run? r = some row → row.awaiting = some asked →
    fitsVarchar 64 asked.interruptId = true ∧
      ∀ kept ∈ db.resolutions.rows, kept.runId = r → kept.interruptId ≠ asked.interruptId

theorem AskedAnew.step (hi : AskedAnew store db) (hok : asksAnew db now op) :
    AskedAnew store (apply store db now op) := by
  have hres : (apply store db now op).resolutions = db.resolutions ∨
      ∃ tenantId runId resolution answerer asked row row', op = .resume tenantId runId resolution answerer ∧
        db.run? runId = some row ∧ row.tenantId = tenantId ∧ resolution.runId = runId ∧
        Change store now op row row' ∧ (apply store db now op).run? runId = some row' ∧
        db.resolutions.find? (resolutionId store.lib resolution) = none ∧
        (apply store db now op).resolutions =
          db.resolutions.insert (store.resolutionRow row asked resolution now) := by
    rcases apply_effect store now op db with h | ⟨answer, h⟩
    · exact Or.inl (congrArg Database.resolutions h)
    · exact h.resolutions
  -- what a waiting run's interrupt was before the operation
  have hwait : ∀ r row' asked, (apply store db now op).run? r = some row' → row'.awaiting = some asked →
      (fitsVarchar 64 asked.interruptId = true ∧
        ∀ kept ∈ db.resolutions.rows, kept.runId = r → kept.interruptId ≠ asked.interruptId) := by
    intro r row' asked hr ha
    rcases apply_run hr with hr₀ | ⟨row, hr₀, hc, -, hn⟩ | ⟨-, start, queue, strict, -, rfl, -⟩
    · exact hi.waiting r row' asked hr₀ ha
    · rcases hc.waiting ha with ⟨before, hb, hsame, -⟩ | ⟨tenantId, runId, pause, workerId, rfl, rfl, hs⟩
      · exact hsame ▸ hi.waiting r row before hr₀ hb
      · cases hn runId rfl
        exact hok tenantId r pause workerId row rfl hr₀ hs
    · cases ha
  rcases hres with he | ⟨tenantId, runId, resolution, answerer, asked₀, row₀, row₀', rfl, hr₀, -, hid, hc₀, hr₀', hnew,
    he⟩
  · exact ⟨fun kept hk => hi.ids kept (he ▸ hk), fun r row asked hr ha => by
      rw [he]
      exact hwait r row asked hr ha⟩
  · have hrows : (db.resolutions.insert (store.resolutionRow row₀ asked₀ resolution now)).rows =
        db.resolutions.rows ++ [store.resolutionRow row₀ asked₀ resolution now] := Table.rows_insert hnew
    have hkey : row₀.runId = runId := Table.key_of_find? hr₀
    constructor
    · intro kept hk
      rw [he, hrows, List.mem_append, List.mem_singleton] at hk
      rcases hk with hk | rfl
      · exact hi.ids kept hk
      · simp only [RunStore.resolutionRow, resolutionId]
        rw [hid, hkey]
    · intro r row asked hr ha
      obtain ⟨hlong, hfresh⟩ := hwait r row asked hr ha
      refine ⟨hlong, fun kept hk hkr => ?_⟩
      rw [he, hrows, List.mem_append, List.mem_singleton] at hk
      rcases hk with hk | rfl
      · exact hfresh kept hk hkr
      · -- the run just answered waits no more
        have hsame : r = runId := hkr.symm.trans hkey
        subst hsame
        rw [hr₀'] at hr
        cases hr
        rcases hc₀.waiting ha with ⟨_, -, -, hne⟩ | ⟨_, _, _, _, hne, -⟩
        · exact absurd rfl (hne _ _ _ _)
        · cases hne

theorem AskedAnew.run (h : Run (apply store) asksAnew t Database.empty now db) : AskedAnew store db :=
  h.invariant' (AskedAnew store) (fun _ _ _ hi hok => hi.step hok)
    ⟨(fun kept hk => by cases hk), (fun r row asked hr => by cases hr)⟩

end

/-- **A paused run can be answered.**  In every history whose pauses of running runs name interrupts
never answered before, under ids that fit, every paused run waits on an unanswered interrupt and takes
any answer that fits it. -/
theorem paused_answerable {store : RunStore} (injective : Function.Injective (store.lib.stableId "res_"))
    {t now : Instant} {db : Database} (h : Run (apply store) asksAnew t Database.empty now db) {r : String}
    {row : RunRow} (hr : db.run? r = some row) (hs : row.status = .PAUSED) :
    ∃ asked, row.awaiting = some asked ∧ Answerable store db row asked := by
  have hreach : Reached store db := ⟨now, t, h.forget⟩
  have hinv := hreach.inv hr
  have hkey : row.runId = r := Table.key_of_find? hr
  subst hkey
  obtain ⟨asked, ha⟩ := Option.isSome_iff_exists.1 (hinv.waiting.2 hs)
  obtain ⟨hids, hwait⟩ := AskedAnew.run h
  obtain ⟨hlong, hfresh⟩ := hwait _ row asked hr ha
  refine ⟨asked, ha, hfresh, ?_⟩
  intro resolution answerer now hid hsame hkey hans hkeep
  refine resume_accepts hr hs (hreach.fits hr) ha hid hsame hkey hans hkeep hlong ?_
  cases hf : db.resolutions.find? (resolutionId store.lib resolution) with
  | none => rfl
  | some kept =>
    obtain ⟨hm, hk⟩ := Table.find?_eq_some.1 hf
    have hparts := injective ((hids kept hm).symm.trans hk)
    simp only [List.cons.injEq, Part.text.injEq, and_true] at hparts
    exact absurd (hparts.2.trans hsame) (hfresh kept hm (hparts.1.trans hid))

/-- A run in its caller's process, paused once. -/
def pausedOnce : List (Instant × Op) :=
  [(0, .start smallStart false true), (1, .pause "t" "r" smallPause none)]

theorem paused_answerable_once : ∃ row asked, (history smallStore pausedOnce).run? "r" = some row ∧
    row.awaiting = some asked ∧ Answerable smallStore (history smallStore pausedOnce) row asked := by
  have hnone : (apply smallStore Database.empty 0 (.start smallStart false true)).resolutions.rows.length = 0 := by
    decide +kernel
  have ha : Run.Admitted (apply smallStore) asksAnew 0 Database.empty pausedOnce := by
    refine ⟨⟨le_refl _, ?_⟩, ⟨by norm_num, ?_⟩, trivial⟩
    · intro _ _ _ _ _ he
      cases he
    · intro _ _ _ _ _ he
      cases he
      refine fun _ _ => ⟨by decide, fun kept hk => ?_⟩
      rw [List.length_eq_zero_iff.1 hnone] at hk
      cases hk
  obtain ⟨now, h⟩ := Run.replay ha
  have hs : ((history smallStore pausedOnce).run? "r").any (·.status = .PAUSED) = true := by decide +kernel
  obtain ⟨row, hr, hrow⟩ := (Option.any_eq_true _ _).1 hs
  obtain ⟨asked, haw, hans⟩ := paused_answerable (spelled_injective "res_") h hr (by simpa using hrow)
  exact ⟨row, asked, hr, haw, hans⟩

/-- A run in its caller's process pauses, is answered and runs again, and the pause, whose answer was
lost, is sent again. -/
def pausedAgain : List (Instant × Op) :=
  [(0, .start smallStart false true), (1, .pause "t" "r" smallPause none),
    (2, .resume "t" "r" smallResolution smallKey), (3, .pause "t" "r" smallPause none)]

/-- Then the run waits on an interrupt it was answered on, and takes no answer any more. -/
theorem pausedAgain_unanswerable :
    ∃ now row asked, Run (apply smallStore) anything 0 Database.empty now (history smallStore pausedAgain) ∧
      (history smallStore pausedAgain).run? "r" = some row ∧ row.status = .PAUSED ∧ row.awaiting = some asked ∧
      ¬Answerable smallStore (history smallStore pausedAgain) row asked ∧
      ∀ resolution answerer now result, resolution.runId = "r" → resolution.interruptId = asked.interruptId →
        smallStore.resume (history smallStore pausedAgain) "t" "r" resolution answerer now ≠ .ok result := by
  have hadm : Run.Admitted (apply smallStore) anything 0 Database.empty pausedAgain := by
    norm_num [pausedAgain, Run.Admitted, anything]
  obtain ⟨now, h⟩ := history_run hadm
  have hs : ((history smallStore pausedAgain).run? "r").any (fun row => row.status = .PAUSED &&
      row.awaiting.any (·.interruptId = "i")) = true := by decide +kernel
  have hk : ((history smallStore pausedAgain).resolutions.rows.any fun kept =>
      kept.runId = "r" && kept.interruptId = "i") = true := by decide +kernel
  have hf : ((history smallStore pausedAgain).resolutions.find?
      (spelledId "res_" [.text "r", .text "i"])).isSome = true := by decide +kernel
  obtain ⟨row, hr, hrow⟩ := (Option.any_eq_true _ _).1 hs
  obtain ⟨hpaused, haw⟩ := Bool.and_eq_true_iff.1 hrow
  obtain ⟨asked, ha, hid⟩ := (Option.any_eq_true _ _).1 haw
  have hid : asked.interruptId = "i" := by simpa using hid
  obtain ⟨kept, hm, hkept⟩ := List.any_eq_true.1 hk
  have hkept : kept.runId = "r" ∧ kept.interruptId = "i" := by simpa using hkept
  refine ⟨now, row, asked, h, hr, by simpa using hpaused, ha, ?_, ?_⟩
  · intro hans
    exact hans.unanswered kept hm (hkept.1.trans (Table.key_of_find? hr).symm) (hkept.2.trans hid.symm)
  · intro resolution answerer now result hrun hsame
    refine resume_stuck hr ha hsame ?_ result
    have : resolutionId smallStore.lib resolution = spelledId "res_" [.text "r", .text "i"] := by
      unfold resolutionId
      rw [hrun, hsame, hid]
      rfl
    rw [this]
    exact hf

end AgentRuns
