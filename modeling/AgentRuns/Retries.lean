import AgentRuns.Lasting

/-!
# The request sent again at once

A caller that lost the answer to its pause, resume, cancel, finish or release sends it again.  The
operation knows its repeat by what it left in the row: a settled status and the worker that settled
it, the interrupt waited on, the answer recorded, the cancel asked for.

Two outcomes are not known again (`unrecognised`): a pause or release that ended the run
`CANCELLED` because its cancel was asked for settles a status its repeat does not look for, and a
finish that put the run back on the queue is looked for only when it names a worker.
`retry_repeats_iff` says these are the only ones.
-/

namespace AgentRuns

open Relational Fallible Timed

/-- The same request, delivered again: only what a retry's wait draws is new. -/
def Op.again (draw : Draw) : Op → Op
  | .finish tenantId runId ending workerId _ => .finish tenantId runId ending workerId draw
  | op => op

/-- The operation will not know its own repeat after doing this to the row. -/
def Op.unrecognised (op : Op) (row : RunRow) : Bool :=
  match op with
  | .pause .. => row.cancelRequestedAt.isSome
  | .release .. => row.cancelRequestedAt.isSome
  | .finish _ _ ending none _ => retried row ending
  | _ => false

section
variable {store : RunStore} {now later : Instant} {db db' : Database} {row row' : RunRow}
  {tenantId runId : String} {run : RunRecord} {changed : Bool}

/-! ## Repeats, row by row -/

theorem pauseRow_repeats {interrupt : Interrupt} {checkpoint : Option Json} {workerId : Option String} :
    pauseRow row interrupt checkpoint workerId now = .ok none ↔
      settled row .PAUSED workerId = true ∧ row.awaiting.map (·.interruptId) = some interrupt.interruptId := by
  unfold pauseRow
  split
  · next h => simp [h]
  · next h =>
    refine iff_of_false (fun hp => ?_) h
    obtain ⟨_, -, hp⟩ := bind_ok.1 hp
    obtain ⟨d, -, hp⟩ := bind_ok.1 hp
    cases d with
    | some ended => cases hp
    | none =>
      obtain ⟨_, -, hp⟩ := bind_ok.1 hp
      cases hp

theorem cancelRow_repeats {cancel : RunCancel} {canceller : KeyInfo} :
    cancelRow row cancel canceller now = .ok none ↔
      requireMayCancel canceller row.assignee = .ok () ∧
        (row.cancelRequestedAt.isSome ∨ (row.status = .CANCELLED ∧
          row.cancelledBy = some canceller.principal ∧ row.cancelReason = cancel.reason)) := by
  unfold cancelRow
  rw [bind_ok]
  constructor
  · rintro ⟨_, hk, h⟩
    refine ⟨hk, ?_⟩
    dsimp only at h
    split at h
    · next hs => exact hs
    · split at h
      · cases h
      · obtain ⟨_, -, h⟩ := bind_ok.1 h
        cases h
  · rintro ⟨hk, hs⟩
    exact ⟨(), hk, if_pos hs⟩

/-- A cancel that is taken is one the key may ask for. -/
theorem cancelRow_allowed {cancel : RunCancel} {canceller : KeyInfo} {d : Option RunRow}
    (h : cancelRow row cancel canceller now = .ok d) : requireMayCancel canceller row.assignee = .ok () := by
  obtain ⟨_, hk, -⟩ := bind_ok.1 h
  exact hk

theorem finishRow_repeats {ending : RunFinish} {workerId : Option String} {draw : Draw} :
    finishRow row ending workerId draw now = .ok none ↔
      settled row ending.status workerId = true ∨
        (ending.status = .ERROR ∧ workerId ≠ none ∧ settled row .QUEUED workerId = true) := by
  unfold finishRow
  split
  · next h => simp [h]
  · next h =>
    refine iff_of_false (fun hp => ?_) h
    obtain ⟨_, -, hp⟩ := bind_ok.1 hp
    split at hp
    · obtain ⟨_, -, hp⟩ := bind_ok.1 hp
      cases hp
    · obtain ⟨_, -, hp⟩ := bind_ok.1 hp
      cases hp

theorem releaseRow_repeats {workerId : String} {checkpoint : Option Json} :
    releaseRow row workerId checkpoint now = .ok none ↔ settled row .QUEUED (some workerId) = true := by
  unfold releaseRow
  split
  · next h => simp [h]
  · next h =>
    refine iff_of_false (fun hp => ?_) h
    obtain ⟨_, -, hp⟩ := bind_ok.1 hp
    obtain ⟨d, -, hp⟩ := bind_ok.1 hp
    cases d with
    | some ended => cases hp
    | none =>
      obtain ⟨_, -, hp⟩ := bind_ok.1 hp
      cases hp

/-! ## Repeats of a whole operation -/

/-- The second answer to one request: nothing changed, and the same record but for the working time
of a stretch going on. -/
def repeatOf (run again : RunRecord) : Prop := again = { run with workedSeconds := again.workedSeconds }

theorem record_repeats (row : RunRow) (now later : Instant) : repeatOf (record row now) (record row later) := rfl

/-- The row a request left, and what it answered. -/
theorem changing_left {decide : RunRow → Except ServiceError (Option RunRow)}
    (hd : ∀ row row', decide row = .ok (some row') → row'.runId = row.runId ∧ row'.tenantId = row.tenantId)
    (h : db.changing tenantId runId now decide = .ok (db', run, changed)) :
    ∃ row d, db.run? runId = some row ∧ decide row = .ok d ∧ db'.run? runId = some (d.getD row) ∧
      (d.getD row).tenantId = tenantId ∧ run = record (d.getD row) now := by
  obtain ⟨row, ⟨hr, ht⟩, ⟨hn, rfl, rfl, -⟩ | ⟨row', hs, -, rfl, rfl, -⟩⟩ := Database.changing_ok.1 h
  · exact ⟨row, none, hr, hn, hr, ht, rfl⟩
  · obtain ⟨hid, hten⟩ := hd row row' hs
    exact ⟨row, some row', hr, hs, Table.find?_put_self (hid.trans (Table.key_of_find? hr)) hr, hten.trans ht, rfl⟩

/-- A second operation repeats the first exactly when it finds nothing to do to the row it left. -/
theorem changing_repeats {decide : RunRow → Except ServiceError (Option RunRow)} (hr : db.run? runId = some row)
    (ht : row.tenantId = tenantId) (hrun : run = record row now) :
    (∃ again, db.changing tenantId runId later decide = .ok (db, again, false) ∧ repeatOf run again) ↔
      decide row = .ok none := by
  subst hrun
  constructor
  · rintro ⟨again, h, -⟩
    obtain ⟨row₀, ⟨hr₀, -⟩, ⟨hn, -⟩ | ⟨row', -, -, -, -, hf⟩⟩ := Database.changing_ok.1 h
    · rw [hr] at hr₀
      cases hr₀
      exact hn
    · cases hf
  · intro hn
    exact ⟨record row later, Database.changing_ok.2 ⟨row, ⟨hr, ht⟩, Or.inl ⟨hn, rfl, rfl, rfl⟩⟩,
      record_repeats row now later⟩

/-! ## Request by request -/

theorem pause_again {pause : RunPause} {workerId : Option String} (hi : ∀ row, db.run? runId = some row → RowInv row)
    (h : store.pause db tenantId runId pause workerId now = .ok (db', run, changed)) :
    (∃ again, store.pause db' tenantId runId pause workerId later = .ok (db', again, false) ∧ repeatOf run again) ↔
      ∀ row, db.run? runId = some row → row.cancelRequestedAt.isSome = false := by
  unfold RunStore.pause at h ⊢
  obtain ⟨_, h₁, h⟩ := bind_ok.1 h
  obtain ⟨_, h₂, h⟩ := bind_ok.1 h
  obtain ⟨c, hc, h⟩ := bind_ok.1 h
  cases boundedCheckpoint_ok hc
  simp only [h₁, h₂, hc, ok_bind]
  have hchange : ∀ row row', pauseRow row pause.interrupt pause.checkpoint workerId now = .ok (some row') →
      Change store now (.pause tenantId runId pause workerId) row row' := fun _ _ => pauseRow_change
  obtain ⟨row, d, hr, hd, hr', ht', rfl⟩ :=
    changing_left (fun row row' h => ⟨(hchange row row' h).runId, (hchange row row' h).tenantId⟩) h
  rw [changing_repeats hr' ht' rfl, pauseRow_repeats, settled_iff]
  have hrow : (∀ row, db.run? runId = some row → row.cancelRequestedAt.isSome = false) ↔
      row.cancelRequestedAt = none := by
    simp [hr]
  rw [hrow]
  cases d with
  | none =>
    obtain ⟨hs, hw⟩ := pauseRow_repeats.1 hd
    rw [settled_iff] at hs
    exact iff_of_true ⟨hs, hw⟩ ((hi row hr).uncancelled (by rw [hs.1]; decide))
  | some row' =>
    cases hchange row row' hd with
    | paused unsettled fenced uncancelled => exact iff_of_true ⟨⟨rfl, rfl⟩, rfl⟩ uncancelled
    | pauseCancelled unsettled fenced cancelling =>
      refine iff_of_false (fun hs => ?_) (fun hn => ?_)
      · cases hs.1.1
      · rw [hn] at cancelling
        cases cancelling

theorem release_again (store : RunStore) {request : ReleaseRequest} (hi : ∀ row, db.run? runId = some row → RowInv row)
    (h : db.release tenantId runId request now = .ok (db', run, changed)) :
    (∃ again, db'.release tenantId runId request later = .ok (db', again, false) ∧ repeatOf run again) ↔
      ∀ row, db.run? runId = some row → row.cancelRequestedAt.isSome = false := by
  unfold Database.release at h ⊢
  obtain ⟨c, hc, h⟩ := bind_ok.1 h
  cases boundedCheckpoint_ok hc
  simp only [hc, ok_bind]
  have hchange : ∀ row row', releaseRow row request.workerId request.checkpoint now = .ok (some row') →
      Change store now (.release tenantId runId request) row row' := fun _ _ => releaseRow_change
  obtain ⟨row, d, hr, hd, hr', ht', rfl⟩ :=
    changing_left (fun row row' h => ⟨(hchange row row' h).runId, (hchange row row' h).tenantId⟩) h
  rw [changing_repeats hr' ht' rfl, releaseRow_repeats, settled_iff]
  have hrow : (∀ row, db.run? runId = some row → row.cancelRequestedAt.isSome = false) ↔
      row.cancelRequestedAt = none := by
    simp [hr]
  rw [hrow]
  cases d with
  | none =>
    have hs := settled_iff.1 (releaseRow_repeats.1 hd)
    exact iff_of_true hs ((hi row hr).uncancelled (by rw [hs.1]; decide))
  | some row' =>
    cases hchange row row' hd with
    | released holder uncancelled => exact iff_of_true ⟨rfl, rfl⟩ uncancelled
    | releaseCancelled holder cancelling =>
      refine iff_of_false (fun hs => ?_) (fun hn => ?_)
      · cases hs.1
      · rw [hn] at cancelling
        cases cancelling

theorem cancel_again (store : RunStore) {cancel : RunCancel} {canceller : KeyInfo}
    (h : db.cancel tenantId runId cancel canceller now = .ok (db', run, changed)) :
    ∃ again, db'.cancel tenantId runId cancel canceller later = .ok (db', again, false) ∧ repeatOf run again := by
  unfold Database.cancel at h ⊢
  have hchange : ∀ row row', cancelRow row cancel canceller now = .ok (some row') →
      Change store now (.cancel tenantId runId cancel canceller) row row' := fun _ _ => cancelRow_change
  obtain ⟨row, d, hr, hd, hr', ht', rfl⟩ :=
    changing_left (fun row row' h => ⟨(hchange row row' h).runId, (hchange row row' h).tenantId⟩) h
  rw [changing_repeats hr' ht' rfl, cancelRow_repeats]
  cases d with
  | none => exact cancelRow_repeats.1 hd
  | some row' =>
    cases hchange row row' hd with
    | cancelAsked =>
      have hallowed : requireMayCancel canceller row.assignee = .ok () := cancelRow_allowed hd
      exact ⟨hallowed, Or.inl rfl⟩
    | cancelled => exact ⟨requireMayCancel_nobody canceller, Or.inr ⟨rfl, rfl, rfl⟩⟩

theorem finish_again (store : RunStore) {ending : RunFinish} {workerId : Option String} {draw draw' : Draw}
    (h : db.finish tenantId runId ending workerId draw now = .ok (db', run, changed)) :
    (∃ again, db'.finish tenantId runId ending workerId draw' later = .ok (db', again, false) ∧ repeatOf run again) ↔
      ∀ row, db.run? runId = some row → ¬(workerId = none ∧ retried row ending = true) := by
  unfold Database.finish at h ⊢
  have hchange : ∀ row row', finishRow row ending workerId draw now = .ok (some row') →
      Change store now (.finish tenantId runId ending workerId draw) row row' := fun _ _ => finishRow_change
  obtain ⟨row, d, hr, hd, hr', ht', rfl⟩ :=
    changing_left (fun row row' h => ⟨(hchange row row' h).runId, (hchange row row' h).tenantId⟩) h
  rw [changing_repeats hr' ht' rfl, finishRow_repeats]
  have hrow : (∀ row, db.run? runId = some row → ¬(workerId = none ∧ retried row ending = true)) ↔
      ¬(workerId = none ∧ retried row ending = true) := by
    simp [hr]
  rw [hrow]
  cases d with
  | none =>
    have hs := finishRow_repeats.1 hd
    refine iff_of_true hs ?_
    rintro ⟨rfl, hretried⟩
    simp only [retried, Bool.and_eq_true, decide_eq_true_eq] at hretried
    obtain ⟨⟨⟨⟨⟨he, -⟩, hrun⟩, -⟩, -⟩, -⟩ := hretried
    rcases hs with hs | ⟨-, hne, -⟩
    · rw [settled_iff, hrun, he] at hs
      cases hs.1
    · exact hne rfl
  | some row' =>
    cases hchange row row' hd with
    | retried fenced again =>
      have he : ending.status = .ERROR := by
        simp only [AgentRuns.retried, Bool.and_eq_true, decide_eq_true_eq] at again
        exact again.1.1.1.1.1
      simp only [again, and_true, settled_iff]
      constructor
      · rintro (⟨hs, -⟩ | ⟨-, hne, -⟩)
        · rw [he] at hs
          cases hs
        · exact hne
      · exact fun hne => Or.inr ⟨he, hne, rfl, rfl⟩
    | finished fenced last can =>
      refine iff_of_true (Or.inl (settled_iff.2 ⟨rfl, rfl⟩)) ?_
      rintro ⟨-, hretried⟩
      rw [last] at hretried
      cases hretried

theorem resume_again {resolution : InterruptResolution} {answerer : KeyInfo}
    (h : store.resume db tenantId runId resolution answerer now = .ok (db', run, changed)) :
    ∃ again, store.resume db' tenantId runId resolution answerer later = .ok (db', again, false) ∧
      repeatOf run again := by
  have hid : resolution.runId = runId := by
    obtain ⟨_, -, hid, -⟩ := resume_ok h
    exact hid
  -- a resume of a run that waits on something else, whose very answer is recorded, is a repeat
  have repeats : ∀ {db : Database} {row : RunRow}, db.run? runId = some row → row.tenantId = tenantId →
      row.awaiting.map (·.interruptId) ≠ some resolution.interruptId → store.answeredBy db tenantId resolution = true →
      store.resume db tenantId runId resolution answerer later = .ok (db, record row later, false) := by
    intro db row hr ht hw ha
    refine bind_ok.2 ⟨(), refuse_of_not _ (by simp [hid]), bind_ok.2 ⟨row, ?_, ?_⟩⟩
    · exact Database.locked_ok.2 ⟨⟨hr, ht⟩, Or.inl rfl⟩
    · have hf : row.awaiting.filter (fun i => i.interruptId = resolution.interruptId) = none := by
        rw [Option.filter_eq_none_iff]
        intro i hi he
        exact hw (by rw [hi, Option.map_some, of_decide_eq_true he])
      rw [hf]
      dsimp only
      rw [if_pos ha]
  obtain ⟨row, ⟨hr, ht⟩, -, ⟨ha, hw, rfl, rfl, -⟩ | ⟨asked, row', ha, hsame, hm, -, hn, rfl, rfl, -⟩⟩ := resume_ok h
  · exact ⟨_, repeats hr ht hw ha, record_repeats row now later⟩
  · have hc : Change store now (.resume tenantId runId resolution answerer) row row' := resumeRow_change ha hsame hm
    refine ⟨_, @repeats _ row' ?_ (hc.tenantId.trans ht) ?_ ?_, record_repeats row' now later⟩
    · exact Table.find?_put_self (hc.runId.trans (Table.key_of_find? hr)) hr
    · have hidle : row'.awaiting = none := by cases hc <;> rfl
      rw [hidle]
      simp
    · unfold RunStore.answeredBy
      have hfind : (db.resolutions.insert (store.resolutionRow row asked resolution now)).find?
          (resolutionId store.lib resolution) = some (store.resolutionRow row asked resolution now) := by
        exact (Table.find?_insert hn _).trans (if_pos rfl)
      rw [Database.ended_resolutions, hfind]
      simp [RunStore.resolutionRow, ht]

end

end AgentRuns
