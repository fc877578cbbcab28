import AgentRuns.Answerable
import AgentRuns.Retries
import AgentRuns.EventLog

/-!
# The duplicate that arrives late

A request that succeeded is delivered once more, after any operations in between.  A start, a resume,
a cancel and an append know it then as well: what makes them repeats lasts (`Run.kept`, `Run.answer`,
`Run.cancelling`, `Run.log`).  A pause, a finish or a release knows only the state it left: when the run
is RUNNING again and the caller passes its fence (a run in its caller's process that was resumed, a run
the same worker claimed again), the duplicate acts on the new attempt (`Op.actsAgain`).

`late_duplicate_iff`: in every history the duplicate leaves the run, its log and its answers as they
are exactly when it does not act again.
-/

namespace AgentRuns

open Relational Fallible Timed

/-! ## When a duplicate acts again -/

/-- The run a start, pause, resume, cancel, finish, release or append is about. -/
def Op.about : Op → Option String
  | .start s _ _ => some s.runId
  | .pause _ runId _ _ => some runId
  | .resume _ runId _ _ => some runId
  | .cancel _ runId _ _ => some runId
  | .finish _ runId _ _ _ => some runId
  | .release _ runId _ => some runId
  | .appendEvents _ runId _ _ => some runId
  | _ => none

/-- The run is RUNNING, and a caller that names `workerId` passes its fence. -/
def RunRow.takes (row : RunRow) (workerId : Option String) : Bool :=
  row.status = .RUNNING && (workerId.isNone || row.leaseOwner = workerId)

/-- The columns a pause writes take it. -/
def RunPause.storable (pause : RunPause) : Bool :=
  pause.interrupt.storable && pause.checkpoint.all Json.storable && fitsVarchar? 256 pause.interrupt.assignee

/-- The columns a finish writes take it. -/
def RunFinish.storable (ending : RunFinish) : Bool :=
  Json.storable ending.output && ending.error.all AgentError.storable

/-- The request acts on the run, which is in a new attempt. -/
def Op.actsAgain (op : Op) (row : RunRow) : Bool :=
  match op with
  | .pause _ _ p workerId => row.takes workerId && (row.cancelRequestedAt.isSome || p.storable)
  | .finish _ _ ending workerId _ => row.takes workerId && (retried row ending || ending.storable)
  | .release _ _ request =>
    row.takes (some request.workerId) && (row.cancelRequestedAt.isSome || request.checkpoint.all Json.storable)
  | _ => false

/-- The answer of a repeat. -/
def Answer.repeats : Answer → Bool
  | .run _ changed => !changed
  | .appended a => a.appended = 0
  | _ => false

/-- Delivered to `db`, the request changes nothing of run `r`: it is refused or answered as a repeat. -/
structure ChangesNothing (store : RunStore) (op : Op) (now : Instant) (db : Database) (r : String) : Prop where
  row : (apply store db now op).run? r = db.run? r
  log : (apply store db now op).log r = db.log r
  answers : (apply store db now op).answered r = db.answered r
  repeats : ∀ db' answer, perform store op now db = .ok (db', answer) → answer.repeats = true

section
variable {store : RunStore} {t t' now later : Instant} {op : Op} {db db' : Database} {answer : Answer}
  {row row' : RunRow} {r tenantId runId : String} {run : RunRecord} {changed : Bool}
  {ok : Database → Instant → Op → Prop}

theorem changesNothing_of
    (h : ∀ db' answer, perform store op now db = .ok (db', answer) → db' = db ∧ answer.repeats = true) :
    ChangesNothing store op now db r := by
  have hsame : apply store db now op = db := by
    unfold apply
    cases hp : perform store op now db with
    | error e => rfl
    | ok result =>
      obtain ⟨db', answer⟩ := result
      exact (h db' answer hp).1
  exact ⟨by rw [hsame], by rw [hsame], by rw [hsame], fun db' answer hp => (h db' answer hp).2⟩

/-- A request that moves one run changes nothing where no change of the run is open to it. -/
theorem changesNothing_of_unmoved (hs : op.movesRun = true) (hid : op.runId = some r)
    (h : ∀ row row', db.run? r = some row → Change store now op row row' → row'.fits = true → False) :
    ChangesNothing store op now db r := by
  refine changesNothing_of fun db' answer hp => ?_
  have unmoved : ∀ {run changed}, answer = .run run changed → db' = db ∧ answer.repeats = true := by
    rintro run changed rfl
    rcases (perform_effect hp).moved hs with ⟨rfl, rfl⟩ | ⟨row, row', hm, hnamed, hc, hf, -⟩
    · exact ⟨rfl, by simp [Answer.repeats]⟩
    · have he : row.runId = r := Option.some.inj (hnamed.symm.trans hid)
      exact (h row row' (he ▸ run?_of_mem hm) hc hf).elim
  cases op with
  | pause | resume | cancel | finish | release =>
    obtain ⟨⟨run, changed⟩, -, rfl⟩ := answering_ok.1 hp
    exact unmoved rfl
  | _ => cases hs

/-! ## What a change writes fits -/

/-- Counting the retries in an error's message adds nothing PostgreSQL refuses. -/
theorem counted_storable (error : Option AgentError) {retries : Nat} (h : retries ≤ maxErrorRetries) :
    (counted error retries).all AgentError.storable = error.all AgentError.storable := by
  have hcount : ∀ n ≤ maxErrorRetries, Json.textStorable (toString n) = true := by decide +kernel
  have hopen : Json.textStorable (toString " (after ") = true := by decide +kernel
  have hof : Json.textStorable (toString " of ") = true := by decide +kernel
  have hclose : Json.textStorable (toString " retries)") = true := by decide +kernel
  unfold counted
  split
  · rfl
  · cases error with
    | none => rfl
    | some e =>
      simp only [Option.map_some, Option.all_some, AgentError.storable, Json.textStorable_append, hcount retries h,
        hcount maxErrorRetries (le_refl _), hopen, hof, hclose, Bool.and_true]
      rfl

/-! ## A change is an action again -/

theorem RunRow.takes_iff {workerId : Option String} :
    row.takes workerId = true ↔ row.status = .RUNNING ∧ (workerId = none ∨ row.leaseOwner = workerId) := by
  simp [RunRow.takes]

theorem Change.pauses {pause : RunPause} {workerId : Option String}
    (h : Change store now (.pause tenantId runId pause workerId) row row') (hi : RowInv row)
    (hu : row.fits = true) (hf : row'.fits = true) :
    (Op.pause tenantId runId pause workerId).actsAgain row = true := by
  simp only [Op.actsAgain, Bool.and_eq_true, Bool.or_eq_true, RunRow.takes_iff]
  cases h with
  | paused _ fenced _ running =>
    refine ⟨⟨running, fenced⟩, Or.inr ?_⟩
    have hm := RunRow.fits_moved hu .PAUSED now
    have hw : { row.moved .PAUSED now with
        checkpoint := pause.checkpoint
        awaiting := some pause.interrupt
        assignee := pause.interrupt.assignee
        awaitingDeadline := pause.interrupt.deadline }.fits = true := by
      exact RunRow.fits_settled hf (fitsVarchar?_none 200)
    rw [RunRow.fits_waiting hm] at hw
    simp only [Option.all_some, Bool.and_eq_true] at hw
    simp [RunPause.storable, hw]
  | pauseCancelled _ fenced cancelling => exact ⟨⟨(hi.cancelling cancelling).1, fenced⟩, Or.inl cancelling⟩

theorem Change.releases {request : ReleaseRequest}
    (h : Change store now (.release tenantId runId request) row row') (hi : RowInv row) (hf : row'.fits = true) :
    (Op.release tenantId runId request).actsAgain row = true := by
  simp only [Op.actsAgain, Bool.and_eq_true, Bool.or_eq_true, RunRow.takes_iff]
  cases h with
  | released holder =>
    have hrun : row.status = .RUNNING := hi.leased (by rw [holder]; rfl)
    refine ⟨⟨hrun, Or.inr holder⟩, Or.inr ?_⟩
    simp only [RunRow.fits, Bool.and_eq_true] at hf
    cases hc : request.checkpoint with
    | none => rfl
    | some c =>
      rw [hc] at hf
      simp_all
  | releaseCancelled holder cancelling =>
    exact ⟨⟨(hi.cancelling cancelling).1, Or.inr holder⟩, Or.inl cancelling⟩

/-- Only a failure is finished again: any other ending stood the first time. -/
theorem Change.finishes {ending : RunFinish} {workerId : Option String} {draw : Draw}
    (h : Change store now (.finish tenantId runId ending workerId draw) row row') (hi : RowInv row)
    (hu : row.fits = true) (hf : row'.fits = true) (he : ending.status = .ERROR) :
    (Op.finish tenantId runId ending workerId draw).actsAgain row = true := by
  simp only [Op.actsAgain, Bool.and_eq_true, Bool.or_eq_true, RunRow.takes_iff]
  cases h with
  | retried fenced again =>
    have hrun : row.status = .RUNNING := by
      simp only [AgentRuns.retried, Bool.and_eq_true, decide_eq_true_eq] at again
      exact again.1.1.1.2
    exact ⟨⟨hrun, fenced⟩, Or.inl again⟩
  | finished fenced last can =>
    have hrun : row.status = .RUNNING :=
      RunStatus.running_of_canBecome can ending.isAnEnding (by rw [he]; decide) (by rw [he]; decide)
    refine ⟨⟨hrun, fenced⟩, Or.inr ?_⟩
    have hw : { row.moved ending.status now with
        output := ending.output
        error := counted ending.error row.errorRetries }.fits = true :=
      RunRow.fits_settled hf (fitsVarchar?_none 200)
    rw [RunRow.fits_ending (RunRow.fits_moved hu ending.status now), counted_storable _ hi.retries] at hw
    exact hw

/-! ## An action again is a change -/

theorem RunRow.fits_taker {workerId : Option String} (hf : row.fits = true) (ht : row.takes workerId = true) :
    fitsVarchar? 200 workerId = true := by
  rcases (RunRow.takes_iff.1 ht).2 with rfl | rfl
  · rfl
  · exact RunRow.fits_holder hf

theorem unsettled_of_running {status : RunStatus} {workerId : Option String} (hs : row.status = .RUNNING)
    (hne : status ≠ .RUNNING) : settled row status workerId = false := by
  rw [Bool.eq_false_iff, Ne, settled_iff, hs]
  exact fun h => hne h.1.symm

theorem pauseRow_acts {pause : RunPause} {workerId : Option String} (now : Instant) (hf : row.fits = true)
    (ha : (Op.pause tenantId runId pause workerId).actsAgain row = true) :
    ∃ row', pauseRow row pause.interrupt pause.checkpoint workerId now = .ok (some row') ∧ row'.fits = true ∧
      row'.status ≠ .RUNNING := by
  simp only [Op.actsAgain, Bool.and_eq_true, Bool.or_eq_true] at ha
  obtain ⟨htakes, hcase⟩ := ha
  obtain ⟨hs, hfence⟩ := RunRow.takes_iff.1 htakes
  have hw := RunRow.fits_taker hf htakes
  unfold pauseRow
  rw [if_neg (by simp [unsettled_of_running hs])]
  by_cases hc : row.cancelRequestedAt = none
  · have hstore : pause.storable = true := by
      rcases hcase with h | h
      · rw [hc] at h
        cases h
      · exact h
    have hmove : move row .PAUSED now = .ok (row.moved .PAUSED now) := move_ok.2 ⟨by rw [hs]; rfl, rfl⟩
    have hwait : { row.moved .PAUSED now with
        checkpoint := pause.checkpoint
        awaiting := some pause.interrupt
        assignee := pause.interrupt.assignee
        awaitingDeadline := pause.interrupt.deadline }.fits = true := by
      rw [RunRow.fits_waiting (RunRow.fits_moved hf .PAUSED now)]
      simp only [RunPause.storable, Bool.and_eq_true] at hstore
      simp [hstore]
    exact ⟨_, bind_ok.2 ⟨(), fence_ok.2 hfence, bind_ok.2 ⟨none, cancelledInstead_none.2 hc,
      bind_ok.2 ⟨_, hmove, rfl⟩⟩⟩, RunRow.fits_settled hwait hw, by simp [RunRow.moved]⟩
  · have hend := cancelledInstead_some.2 ⟨Option.isSome_iff_ne_none.2 hc,
      show row.status.canBecome .CANCELLED = true by rw [hs]; rfl, (rfl : row.moved .CANCELLED now = _)⟩
    exact ⟨_, bind_ok.2 ⟨(), fence_ok.2 hfence, bind_ok.2 ⟨_, hend, rfl⟩⟩,
      RunRow.fits_settled (RunRow.fits_moved hf .CANCELLED now) hw, by simp [RunRow.moved]⟩

theorem releaseRow_acts {request : ReleaseRequest} (now : Instant) (hf : row.fits = true)
    (ha : (Op.release tenantId runId request).actsAgain row = true) :
    ∃ row', releaseRow row request.workerId request.checkpoint now = .ok (some row') ∧ row'.fits = true ∧
      row'.status ≠ .RUNNING := by
  simp only [Op.actsAgain, Bool.and_eq_true, Bool.or_eq_true] at ha
  obtain ⟨htakes, hcase⟩ := ha
  obtain ⟨hs, hfence⟩ := RunRow.takes_iff.1 htakes
  have hw := RunRow.fits_taker hf htakes
  unfold releaseRow
  rw [if_neg (by simp [unsettled_of_running hs])]
  by_cases hc : row.cancelRequestedAt = none
  · have hstore : request.checkpoint.all Json.storable = true := by
      rcases hcase with h | h
      · rw [hc] at h
        cases h
      · exact h
    have hmove : requeue row now none = .ok (row.requeued now none) := requeue_ok.2 ⟨by rw [hs]; rfl, rfl⟩
    have hq : (row.requeued now none).fits = true := RunRow.fits_moved hf .QUEUED now
    have hkept : { row.requeued now none with
        checkpoint := request.checkpoint.or (row.requeued now none).checkpoint }.fits = true := by
      simp only [RunRow.fits, Bool.and_eq_true] at hq ⊢
      cases hck : request.checkpoint with
      | none => simp_all
      | some c => simp_all
    exact ⟨_, bind_ok.2 ⟨(), fence_ok.2 hfence, bind_ok.2 ⟨none, cancelledInstead_none.2 hc,
      bind_ok.2 ⟨_, hmove, rfl⟩⟩⟩, RunRow.fits_settled hkept hw, by simp [RunRow.requeued, RunRow.moved]⟩
  · have hend := cancelledInstead_some.2 ⟨Option.isSome_iff_ne_none.2 hc,
      show row.status.canBecome .CANCELLED = true by rw [hs]; rfl, (rfl : row.moved .CANCELLED now = _)⟩
    exact ⟨_, bind_ok.2 ⟨(), fence_ok.2 hfence, bind_ok.2 ⟨_, hend, rfl⟩⟩,
      RunRow.fits_settled (RunRow.fits_moved hf .CANCELLED now) hw, by simp [RunRow.moved]⟩

theorem finishRow_acts {ending : RunFinish} {workerId : Option String} {draw : Draw} (now : Instant)
    (hi : RowInv row) (hf : row.fits = true)
    (ha : (Op.finish tenantId runId ending workerId draw).actsAgain row = true) :
    ∃ row', finishRow row ending workerId draw now = .ok (some row') ∧ row'.fits = true ∧
      row'.status ≠ .RUNNING := by
  simp only [Op.actsAgain, Bool.and_eq_true, Bool.or_eq_true] at ha
  obtain ⟨htakes, hcase⟩ := ha
  obtain ⟨hs, hfence⟩ := RunRow.takes_iff.1 htakes
  have hw := RunRow.fits_taker hf htakes
  have hend : ending.status ≠ .RUNNING := by
    intro he
    have := ending.isAnEnding
    rw [he] at this
    cases this
  unfold finishRow
  rw [if_neg (by simp [unsettled_of_running hs, hend])]
  by_cases hr : retried row ending = true
  · have hmove : requeue { row with errorRetries := row.errorRetries + 1 } now
        (some (jittered (backoff errorRetryBase (row.errorRetries + 1) errorRetryCap) draw)) =
        .ok ({ row with errorRetries := row.errorRetries + 1 }.requeued now
          (some (jittered (backoff errorRetryBase (row.errorRetries + 1) errorRetryCap) draw))) :=
      requeue_ok.2 ⟨show row.status.canBecome .QUEUED = true by rw [hs]; rfl, rfl⟩
    have hq : ({ row with errorRetries := row.errorRetries + 1 } : RunRow).fits = true := hf
    exact ⟨_, bind_ok.2 ⟨(), fence_ok.2 hfence, (if_pos hr).trans (bind_ok.2 ⟨_, hmove, rfl⟩)⟩,
      RunRow.fits_settled (RunRow.fits_moved hq .QUEUED now) hw, by simp [RunRow.requeued, RunRow.moved]⟩
  · have hstore : ending.storable = true := by
      rcases hcase with h | h
      · exact absurd h hr
      · exact h
    have hmove : move row ending.status now = .ok (row.moved ending.status now) :=
      move_ok.2 ⟨by rw [hs]; simp [RunStatus.canBecome, ending.isAnEnding], rfl⟩
    have hleft : { row.moved ending.status now with
        output := ending.output
        error := counted ending.error row.errorRetries }.fits = true := by
      rw [RunRow.fits_ending (RunRow.fits_moved hf ending.status now), counted_storable _ hi.retries]
      exact hstore
    exact ⟨_, bind_ok.2 ⟨(), fence_ok.2 hfence, (if_neg hr).trans (bind_ok.2 ⟨_, hmove, rfl⟩)⟩,
      RunRow.fits_settled hleft hw, hend⟩

theorem running_of_actsAgain (h : op.actsAgain row = true) : row.status = .RUNNING := by
  have takes : ∀ {workerId b}, (row.takes workerId && b) = true → row.status = .RUNNING := by
    intro workerId b hb
    exact (RunRow.takes_iff.1 (Bool.and_eq_true_iff.1 hb).1).1
  cases op with
  | pause | finish | release => exact takes h
  | _ => cases h

theorem changing_acts (decide : RunRow → Except ServiceError (Option RunRow)) (hr : db.run? runId = some row)
    (ht : row.tenantId = tenantId) (hd : decide row = .ok (some row')) (hf : row'.fits = true)
    (hid : row'.runId = row.runId) :
    ∃ db' run, db.changing tenantId runId now decide = .ok (db', run, true) ∧ db'.run? runId = some row' :=
  ⟨_, _, Database.changing_ok.2 ⟨row, ⟨hr, ht⟩, Or.inr ⟨row', hd, hf, rfl, rfl, rfl⟩⟩,
    Table.find?_put_self (hid.trans (Table.key_of_find? hr)) hr⟩

/-! ## Pauses, finishes and releases -/

/-- A request that acts exactly when it may. -/
theorem changesNothing_iff (hs : op.movesRun = true) (hid : op.runId = some r)
    (hno : ∀ row row', db.run? r = some row → Change store now op row row' → row'.fits = true →
      op.actsAgain row = true)
    (hacts : ∀ row, db.run? r = some row → op.actsAgain row = true → ∃ db' answer row',
      perform store op now db = .ok (db', answer) ∧ db'.run? r = some row' ∧ row'.status ≠ .RUNNING) :
    ChangesNothing store op now db r ↔ ∀ row, db.run? r = some row → op.actsAgain row = false := by
  constructor
  · intro h row hr
    rw [Bool.eq_false_iff]
    intro ha
    obtain ⟨db', answer, row', hp, hr', hne⟩ := hacts row hr ha
    have hsame := h.row
    unfold apply at hsame
    rw [hp, orElse_ok, hr', hr] at hsame
    cases hsame
    exact hne (running_of_actsAgain ha)
  · intro h
    refine changesNothing_of_unmoved hs hid fun row row' hr hc hf => ?_
    have ha := hno row row' hr hc hf
    rw [h row hr] at ha
    cases ha

section
variable (hrows : ∀ row, db.run? runId = some row → RowInv row ∧ row.fits = true ∧ row.tenantId = tenantId)
include hrows

theorem late_pause {pause : RunPause} {workerId : Option String} {db₁ : Database} {first}
    (h : store.pause db₁ tenantId runId pause workerId now = .ok first) :
    ChangesNothing store (.pause tenantId runId pause workerId) later db runId ↔
      ∀ row, db.run? runId = some row → (Op.pause tenantId runId pause workerId).actsAgain row = false := by
  refine changesNothing_iff rfl rfl ?_ ?_
  · intro row row' hr hc hf
    obtain ⟨hi, hu, -⟩ := hrows row hr
    exact hc.pauses hi hu hf
  · intro row hr ha
    obtain ⟨-, hu, ht⟩ := hrows row hr
    obtain ⟨row', hd, hf, hne⟩ := pauseRow_acts later hu ha
    -- what the first one was checked for holds of the same request again
    obtain ⟨_, h₁, h⟩ := bind_ok.1 h
    obtain ⟨_, h₂, h⟩ := bind_ok.1 h
    obtain ⟨c, hc, -⟩ := bind_ok.1 h
    cases boundedCheckpoint_ok hc
    have hchange : Change store later (.pause tenantId runId pause workerId) row row' := pauseRow_change hd
    obtain ⟨db', run, hch, hr'⟩ := changing_acts (fun row => pauseRow row pause.interrupt pause.checkpoint workerId later) hr ht hd hf
      hchange.runId
    refine ⟨db', .run run true, row', answering_ok.2 ⟨(run, true), ?_, rfl⟩, hr', hne⟩
    exact bind_ok.2 ⟨_, h₁, bind_ok.2 ⟨_, h₂, bind_ok.2 ⟨_, hc, hch⟩⟩⟩

theorem late_release {request : ReleaseRequest} {db₁ : Database} {first}
    (h : db₁.release tenantId runId request now = .ok first) :
    ChangesNothing store (.release tenantId runId request) later db runId ↔
      ∀ row, db.run? runId = some row → (Op.release tenantId runId request).actsAgain row = false := by
  refine changesNothing_iff rfl rfl ?_ ?_
  · intro row row' hr hc hf
    exact hc.releases (hrows row hr).1 hf
  · intro row hr ha
    obtain ⟨-, hu, ht⟩ := hrows row hr
    obtain ⟨row', hd, hf, hne⟩ := releaseRow_acts later hu ha
    obtain ⟨c, hc, -⟩ := bind_ok.1 h
    cases boundedCheckpoint_ok hc
    have hchange : Change store later (.release tenantId runId request) row row' := releaseRow_change hd
    obtain ⟨db', run, hch, hr'⟩ := changing_acts (fun row => releaseRow row request.workerId request.checkpoint later) hr ht hd hf
      hchange.runId
    exact ⟨db', .run run true, row', answering_ok.2 ⟨(run, true), bind_ok.2 ⟨_, hc, hch⟩, rfl⟩, hr', hne⟩

/-- A finish that did not fail the run ended it for good. -/
theorem late_finish {ending : RunFinish} {workerId : Option String} (draw : Draw)
    (hstood : ∀ row, db.run? runId = some row → ending.status = .ERROR ∨ row.status.final = true) :
    ChangesNothing store (.finish tenantId runId ending workerId draw) later db runId ↔
      ∀ row, db.run? runId = some row → (Op.finish tenantId runId ending workerId draw).actsAgain row = false := by
  refine changesNothing_iff rfl rfl ?_ ?_
  · intro row row' hr hc hf
    obtain ⟨hi, hu, -⟩ := hrows row hr
    rcases hstood row hr with he | hfinal
    · exact hc.finishes hi hu hf he
    · rw [hc.unended] at hfinal
      cases hfinal
  · intro row hr ha
    obtain ⟨hi, hu, ht⟩ := hrows row hr
    obtain ⟨row', hd, hf, hne⟩ := finishRow_acts later hi hu ha
    have hchange : Change store later (.finish tenantId runId ending workerId draw) row row' := finishRow_change hd
    obtain ⟨db', run, hch, hr'⟩ := changing_acts (fun row => finishRow row ending workerId draw later) hr ht hd hf
      hchange.runId
    exact ⟨db', .run run true, row', answering_ok.2 ⟨(run, true), hch, rfl⟩, hr', hne⟩

end

/-! ## What the others know their repeat by -/

theorem late_cancel {cancel : RunCancel} {canceller : KeyInfo}
    (h : ∀ row, db.run? runId = some row → row.cancelRequestedAt.isSome ∨ row.status.final = true) :
    ChangesNothing store (.cancel tenantId runId cancel canceller) later db runId := by
  refine changesNothing_of_unmoved rfl rfl fun row row' hr hc _ => ?_
  rcases h row hr with hasked | hfinal
  · cases hc with
    | cancelAsked unasked | cancelled unasked =>
      rw [unasked] at hasked
      cases hasked
  · rw [hc.unended] at hfinal
    cases hfinal

/-- A cancel that succeeded was asked for, or ended the run. -/
theorem cancel_asked (store : RunStore) {cancel : RunCancel} {canceller : KeyInfo}
    (h : db.cancel tenantId runId cancel canceller now = .ok (db', run, changed)) :
    ∃ row', db'.run? runId = some row' ∧ (row'.cancelRequestedAt.isSome ∨ row'.status.final = true) := by
  have hchange : ∀ row row', cancelRow row cancel canceller now = .ok (some row') →
      Change store now (.cancel tenantId runId cancel canceller) row row' := fun _ _ => cancelRow_change
  obtain ⟨row, d, hr, hd, hr', -, -⟩ :=
    changing_left (fun row row' h => ⟨(hchange row row' h).runId, (hchange row row' h).tenantId⟩) h
  refine ⟨d.getD row, hr', ?_⟩
  cases d with
  | none =>
    rcases (cancelRow_repeats.1 hd).2 with hasked | ⟨hs, -⟩
    · exact Or.inl hasked
    · exact Or.inr (by rw [Option.getD_none, hs]; rfl)
  | some row' =>
    cases hchange row row' hd with
    | cancelAsked => exact Or.inl rfl
    | cancelled => exact Or.inr rfl

/-- A run that was asked to cancel, or ended, stays so. -/
theorem Run.asked (h₀ : ReachedAt store t db) (h : Run (apply store) ok t db t' db') (hr : db.run? r = some row)
    (hasked : row.cancelRequestedAt.isSome ∨ row.status.final = true) (hr' : db'.run? r = some row') :
    row'.cancelRequestedAt.isSome ∨ row'.status.final = true := by
  rcases hasked with hc | hfinal
  · obtain ⟨c, hc⟩ := Option.isSome_iff_exists.1 hc
    obtain ⟨later, hlater, hstill⟩ := Run.cancelling h₀ h hr hc
    rw [hr'] at hlater
    cases hlater
    rcases hstill with ⟨hc', -⟩ | hfinal
    · exact Or.inl (by rw [hc']; rfl)
    · exact Or.inr hfinal
  · rw [Run.ended h hr hfinal] at hr'
    cases hr'
    exact Or.inr hfinal

/-- A finish that succeeded failed the run, or ended it. -/
theorem finish_stood (store : RunStore) {ending : RunFinish} {workerId : Option String} {draw : Draw}
    (h : db.finish tenantId runId ending workerId draw now = .ok (db', run, changed)) :
    ∃ row', db'.run? runId = some row' ∧ (ending.status = .ERROR ∨ row'.status.final = true) := by
  have hchange : ∀ row row', finishRow row ending workerId draw now = .ok (some row') →
      Change store now (.finish tenantId runId ending workerId draw) row row' := fun _ _ => finishRow_change
  obtain ⟨row, d, hr, hd, hr', -, -⟩ :=
    changing_left (fun row row' h => ⟨(hchange row row' h).runId, (hchange row row' h).tenantId⟩) h
  refine ⟨d.getD row, hr', ?_⟩
  cases d with
  | none =>
    rcases finishRow_repeats.1 hd with hs | ⟨he, -⟩
    · refine Or.inr ?_
      rw [Option.getD_none, (settled_iff.1 hs).1]
      exact ending.isAnEnding
    · exact Or.inl he
  | some row' =>
    cases hchange row row' hd with
    | retried fenced again =>
      simp only [AgentRuns.retried, Bool.and_eq_true, decide_eq_true_eq] at again
      exact Or.inl again.1.1.1.1.1
    | finished => exact Or.inr ending.isAnEnding

theorem late_resume {resolution : InterruptResolution} {answerer : KeyInfo}
    (h : (db.resolutions.find? (resolutionId store.lib resolution)).isSome) :
    ChangesNothing store (.resume tenantId runId resolution answerer) later db r := by
  refine changesNothing_of fun db' answer hp => ?_
  obtain ⟨⟨run, changed⟩, hres, rfl⟩ := answering_ok.1 hp
  obtain ⟨row, -, -, ⟨-, -, rfl, -, rfl⟩ | ⟨asked, row', -, -, -, -, hnew, -⟩⟩ := resume_ok hres
  · exact ⟨rfl, rfl⟩
  · rw [hnew] at h
    cases h

/-- The answer of a resume that succeeded is recorded. -/
theorem resume_recorded {resolution : InterruptResolution} {answerer : KeyInfo}
    (h : store.resume db tenantId runId resolution answerer now = .ok (db', run, changed)) :
    ∃ kept, db'.resolutions.find? (resolutionId store.lib resolution) = some kept := by
  obtain ⟨row, -, -, ⟨ha, -, rfl, -⟩ | ⟨asked, row', -, -, -, -, hnew, rfl, -⟩⟩ := resume_ok h
  · unfold RunStore.answeredBy at ha
    split at ha
    · cases ha
    · next kept hk => exact ⟨kept, hk⟩
  · exact ⟨_, (Table.find?_insert hnew _).trans (if_pos rfl)⟩

theorem late_append {append : EventsAppend} {workerId : Option String} (hi : LogInv (db.log runId))
    (h : ∀ e ∈ append.events, e.identity ∈ (db.log runId).map RunEventRow.identity) :
    ChangesNothing store (.appendEvents tenantId runId append workerId) later db r := by
  refine changesNothing_of fun db' answer hp => ?_
  obtain ⟨appended, happ, rfl⟩ := answering_ok.1 hp
  obtain ⟨added, ha⟩ := appendEvents_log hi happ
  obtain ⟨rfl, rfl⟩ := ha.repeated h
  exact ⟨rfl, rfl⟩

/-- An event that is stored stays stored. -/
theorem Run.stored (h : Run (apply store) ok t db t' db') {identity : Nat × Nat}
    (hm : identity ∈ (db.log r).map RunEventRow.identity) : identity ∈ (db'.log r).map RunEventRow.identity := by
  obtain ⟨more, hmore⟩ := Run.log h
  have hlog : db'.log r = db.log r ++ more.filter (·.runId = r) := by
    unfold Database.log
    rw [hmore, List.filter_append]
  rw [hlog, List.map_append, List.mem_append]
  exact Or.inl hm

theorem late_start {start : RunStart} {queue strict : Bool}
    (h : db.conflicts (startedRow start queue now) = true) :
    ChangesNothing store (.start start queue strict) later db r := by
  have h : db.conflicts (startedRow start queue later) = true := h
  refine changesNothing_of fun db' answer hp => ?_
  obtain ⟨⟨run, created⟩, hstart, rfl⟩ := answering_ok.1 hp
  obtain ⟨_, -, hstart⟩ := bind_ok.1 hstart
  rw [if_pos h] at hstart
  obtain ⟨_, -, hstart⟩ := bind_ok.1 hstart
  cases hstart
  exact ⟨rfl, rfl⟩

/-- A start that succeeded stands in its own way. -/
theorem start_conflicts {start : RunStart} {queue strict : Bool}
    (h : db.start start queue strict now = .ok (db', run, changed)) :
    db'.conflicts (startedRow start queue now) = true := by
  obtain ⟨_, -, h⟩ := bind_ok.1 h
  split at h
  · next hc =>
    obtain ⟨_, -, h⟩ := bind_ok.1 h
    cases h
    exact hc
  · next hc =>
    cases h
    have hfree : db.runs.find? (startedRow start queue now).runId = none := by
      simp only [Database.conflicts, Bool.or_eq_true, not_or] at hc
      simpa [Database.run?] using hc.1
    have hfound : ({ db with runs := db.runs.insert (startedRow start queue now) } : Database).run?
        (startedRow start queue now).runId = some (startedRow start queue now) :=
      (Table.find?_insert hfree _).trans (if_pos rfl)
    unfold Database.conflicts
    rw [hfound]
    rfl

/-- What stands in a start's way stays there. -/
theorem Run.conflicts (h : Run (apply store) ok t db t' db') (hc : db.conflicts row = true) :
    db'.conflicts row = true := by
  unfold Database.conflicts at hc ⊢
  rw [Bool.or_eq_true] at hc ⊢
  rcases hc with hid | hkey
  · obtain ⟨found, hr⟩ := Option.isSome_iff_exists.1 hid
    obtain ⟨row', hr', -⟩ := Run.kept h hr
    exact Or.inl (by rw [hr']; rfl)
  · obtain ⟨hsome, hkeyed⟩ := Bool.and_eq_true_iff.1 hkey
    refine Or.inr (Bool.and_eq_true_iff.2 ⟨hsome, ?_⟩)
    obtain ⟨found, hm, hp⟩ := List.find?_isSome.1 hkeyed
    obtain ⟨row', hr', ht, hk⟩ := Run.kept h (run?_of_mem hm)
    refine List.find?_isSome.2 ⟨row', Table.mem_of_find? hr', ?_⟩
    rw [ht, hk]
    exact hp

end

/-- **The late duplicate.**  In every history in which a request succeeded, the same request delivered
again at any later point changes nothing of its run exactly when the run is not one it acts on again. -/
theorem late_duplicate_iff {store : RunStore} {t before now at_ : Instant} {db₁ db₂ db : Database} {op : Op}
    {answer : Answer} {r : String} (h₁ : Run (apply store) anything t Database.empty before db₁)
    (hle : before ≤ now) (about : op.about = some r) (ok : perform store op now db₁ = .ok (db₂, answer))
    (h₂ : Run (apply store) anything now db₂ at_ db) (later : Instant) (draw : Draw) :
    ChangesNothing store (op.again draw) later db r ↔ ∀ row, db.run? r = some row → op.actsAgain row = false := by
  have happ : apply store db₁ now op = db₂ := by
    unfold apply
    rw [ok]
    rfl
  have hreach₂ : ReachedAt store now db₂ := happ ▸ ReachedAt.tail ⟨t, h₁⟩ hle op
  have hreach : Reached store db := by
    obtain ⟨t₀, h⟩ := hreach₂
    exact ⟨at_, t₀, h.trans h₂⟩
  have hsteps : Run (apply store) anything before db₁ at_ db :=
    (happ ▸ Run.single (a := op) hle trivial : Run (apply store) anything before db₁ now db₂).trans h₂
  -- the run is still its tenant's
  have hrows : ∀ {tenantId row₁}, db₁.run? r = some row₁ ∧ row₁.tenantId = tenantId →
      ∀ row, db.run? r = some row → RowInv row ∧ row.fits = true ∧ row.tenantId = tenantId := by
    rintro tenantId row₁ ⟨hr₁, rfl⟩ row hr
    obtain ⟨row', hr', ht', -⟩ := Run.kept hsteps hr₁
    rw [hr] at hr'
    cases hr'
    exact ⟨hreach.inv hr, hreach.fits hr, ht'⟩
  have never : (∀ row, op.actsAgain row = false) → ∀ row, db.run? r = some row → op.actsAgain row = false :=
    fun h row _ => h row
  cases op with
  | start start queue strict =>
    obtain ⟨⟨run, created⟩, hs, -⟩ := answering_ok.1 ok
    exact iff_of_true (late_start (Run.conflicts h₂ (start_conflicts hs))) (never fun _ => rfl)
  | pause tenantId runId pause workerId =>
    cases about
    obtain ⟨⟨run, changed⟩, hp, -⟩ := answering_ok.1 ok
    obtain ⟨_, -, hch⟩ := bind_ok.1 hp
    obtain ⟨_, -, hch⟩ := bind_ok.1 hch
    obtain ⟨_, -, hch⟩ := bind_ok.1 hch
    obtain ⟨row₁, hr₁, -⟩ := Database.changing_ok.1 hch
    exact late_pause (hrows hr₁) hp
  | release tenantId runId request =>
    cases about
    obtain ⟨⟨run, changed⟩, hp, -⟩ := answering_ok.1 ok
    obtain ⟨_, -, hch⟩ := bind_ok.1 hp
    obtain ⟨row₁, hr₁, -⟩ := Database.changing_ok.1 hch
    exact late_release (hrows hr₁) hp
  | finish tenantId runId ending workerId draw₀ =>
    cases about
    obtain ⟨⟨run, changed⟩, hp, -⟩ := answering_ok.1 ok
    obtain ⟨row₁, hr₁, -⟩ := Database.changing_ok.1 hp
    obtain ⟨row₂, hr₂, hstood⟩ := finish_stood store hp
    refine late_finish (hrows hr₁) draw fun row hr => ?_
    rcases hstood with he | hfinal
    · exact Or.inl he
    · rw [Run.ended h₂ hr₂ hfinal] at hr
      cases hr
      exact Or.inr hfinal
  | cancel tenantId runId cancel canceller =>
    cases about
    obtain ⟨⟨run, changed⟩, hp, -⟩ := answering_ok.1 ok
    obtain ⟨row₂, hr₂, hasked⟩ := cancel_asked store hp
    exact iff_of_true (late_cancel fun row hr => Run.asked hreach₂ h₂ hr₂ hasked hr) (never fun _ => rfl)
  | resume tenantId runId resolution answerer =>
    obtain ⟨⟨run, changed⟩, hp, -⟩ := answering_ok.1 ok
    obtain ⟨kept, hk⟩ := resume_recorded hp
    exact iff_of_true (late_resume (by rw [Run.answer h₂ hk]; rfl)) (never fun _ => rfl)
  | appendEvents tenantId runId append workerId =>
    cases about
    obtain ⟨appended, hp, -⟩ := answering_ok.1 ok
    obtain ⟨added, hadd⟩ := appendEvents_log (LogInv.run h₁) hp
    obtain ⟨_, _, hrun⟩ := hreach
    exact iff_of_true (late_append (LogInv.run hrun) fun e he => Run.stored h₂ (hadd.stored e he)) (never fun _ => rfl)
  | _ => cases about

/-- The resume of a run that was cancelled since, delivered again. -/
theorem late_duplicate_resume : ∃ db₂ run,
    perform smallStore (.resume "t" "r" smallResolution smallKey) 2 (history smallStore pausedOnce) =
        .ok (db₂, .run run true) ∧
      ChangesNothing smallStore (.resume "t" "r" smallResolution smallKey) 4
        (apply smallStore db₂ 3 (.cancel "t" "r" ⟨none⟩ smallKey)) "r" := by
  have hs : (match perform smallStore (.resume "t" "r" smallResolution smallKey) 2 (history smallStore pausedOnce) with
    | .ok (_, .run _ changed) => changed
    | _ => false) = true := by decide +kernel
  have hstart : Run (apply smallStore) anything 0 Database.empty 0 _ :=
    Run.single (a := .start smallStart false true) (le_refl (0 : Instant)) trivial
  have h₁ : Run (apply smallStore) anything 0 Database.empty 1 (history smallStore pausedOnce) :=
    Run.tail 1 (Op.pause "t" "r" smallPause none) hstart (by norm_num) trivial
  split at hs
  · next db₂ run changed hp =>
    subst hs
    have h₂ : Run (apply smallStore) anything 2 db₂ 3 (apply smallStore db₂ 3 (.cancel "t" "r" ⟨none⟩ smallKey)) :=
      Run.single (by norm_num) trivial
    exact ⟨db₂, run, hp, (late_duplicate_iff h₁ (by norm_num) rfl hp h₂ 4 ⟨0, by decide +kernel⟩).2 fun _ _ => rfl⟩
  · cases hs

/-- The pause of a run that was answered since, delivered again: the run, which works on, waits again. -/
theorem late_pause_pauses : ∃ db₂ run,
    perform smallStore (.pause "t" "r" smallPause none) 1 (history smallStore [(0, .start smallStart false true)]) =
        .ok (db₂, .run run true) ∧
      ∃ row row', (apply smallStore db₂ 2 (.resume "t" "r" smallResolution smallKey)).run? "r" = some row ∧
        row.status = .RUNNING ∧
        (apply smallStore (apply smallStore db₂ 2 (.resume "t" "r" smallResolution smallKey)) 3
          (.pause "t" "r" smallPause none)).run? "r" = some row' ∧ row'.status = .PAUSED := by
  have hs : (match perform smallStore (.pause "t" "r" smallPause none) 1
      (history smallStore [(0, .start smallStart false true)]) with
    | .ok (db₂, .run _ changed) => changed &&
      ((apply smallStore db₂ 2 (.resume "t" "r" smallResolution smallKey)).run? "r").any (·.status = .RUNNING) &&
      ((apply smallStore (apply smallStore db₂ 2 (.resume "t" "r" smallResolution smallKey)) 3
        (.pause "t" "r" smallPause none)).run? "r").any (·.status = .PAUSED)
    | _ => false) = true := by decide +kernel
  split at hs
  · next db₂ run changed hp =>
    simp only [Bool.and_eq_true] at hs
    obtain ⟨⟨rfl, hrunning⟩, hpaused⟩ := hs
    obtain ⟨row, hr, hrow⟩ := (Option.any_eq_true _ _).1 hrunning
    obtain ⟨row', hr', hrow'⟩ := (Option.any_eq_true _ _).1 hpaused
    exact ⟨db₂, run, hp, row, row', hr, of_decide_eq_true hrow, hr', of_decide_eq_true hrow'⟩
  · cases hs

end AgentRuns
