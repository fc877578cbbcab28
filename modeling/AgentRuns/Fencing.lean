import AgentRuns.Invariant

/-!
# Fencing

A worker's write is taken only while it holds the run's lease.  The check is made under the
run's row lock, so it is a statement about the database the operation finds (`Database.holds`):
a write that names another worker leaves the database as it is, whichever operations ran between
the worker's read and its write.

    holds        :  the run is RUNNING and the worker owns its lease
    uploadsToPaused : an upload to a PAUSED run, which the key's role governs instead
-/

namespace AgentRuns

open Relational Fallible Timed

/-- The worker holds the run's lease. -/
def Database.holds (db : Database) (runId workerId : String) : Prop :=
  ∃ row, db.run? runId = some row ∧ row.status = .RUNNING ∧ row.leaseOwner = some workerId

/-- Some worker holds the run's lease. -/
def Database.leased (db : Database) (runId : String) : Prop :=
  ∃ row, db.run? runId = some row ∧ row.leaseOwner.isSome

/-- An operation that adds to a run: an event append or an upload. -/
def Op.adds : Op → Bool
  | .upload .. => true
  | .appendEvents .. => true
  | _ => false

/-- An artifact upload to a run that is paused. -/
def Op.uploadsToPaused (op : Op) (db : Database) : Prop :=
  ∃ tenantId runId workerId role artifactId blob mime row,
    op = .upload tenantId runId workerId role artifactId blob mime ∧ db.run? runId = some row ∧
      row.status = .PAUSED

section
variable {store : RunStore} {now : Instant} {op : Op} {db db' : Database} {row row' : RunRow} {answer : Answer}

/-- A change by an operation that names a worker finds that worker on the lease. -/
theorem Change.fenced (h : Change store now op row row') {workerId : String} (hw : op.workerId = some workerId) :
    row.leaseOwner = some workerId := by
  have named : ∀ {w : Option String}, w = some workerId → (w = none ∨ row.leaseOwner = w) →
      row.leaseOwner = some workerId := by
    rintro _ rfl (h | h)
    · cases h
    · exact h
  cases h with
  | claimed | resumeCancelled | resumeQueued | resumeRunning | cancelAsked | cancelled | pastDeadline | overworked
  | lapseCancelled | gaveUp | lapsed | escalated | unanswered => cases hw
  | beat running holder => exact holder.trans hw
  | paused unsettled fenced => exact named hw fenced
  | pauseCancelled unsettled fenced => exact named hw fenced
  | retried fenced => exact named hw fenced
  | finished fenced => exact named hw fenced
  | released holder => exact holder.trans hw
  | releaseCancelled holder => exact holder.trans hw

/-- An upload that is taken is one by the run's holder while it runs, or one to a paused run. -/
theorem checkArtifactWriter_ok {tenantId runId : String} {workerId : Option String} {role : String} {u : Unit}
    (h : db.checkArtifactWriter tenantId runId workerId role = .ok u) :
    ∃ row, db.run? runId = some row ∧
      ((row.status = .RUNNING ∧ workerId = row.leaseOwner) ∨ row.status = .PAUSED) := by
  unfold Database.checkArtifactWriter at h
  split at h
  · cases h
  · next row hr =>
    refine ⟨row, (Database.one_eq_some.1 hr).1, ?_⟩
    split at h
    · next hs => exact Or.inl ⟨hs, heldBy_ok.1 h⟩
    · split at h
      · next hs => exact Or.inr hs
      · split at h <;> cases h

/-- What an addition that is taken finds: its writer is the run's holder. -/
theorem adds_ok (h : perform store op now db = .ok (db', answer)) (ha : op.adds = true) :
    ∃ runId row, op.runId = some runId ∧ db.run? runId = some row ∧
      ((row.status = .RUNNING ∧ op.workerId = row.leaseOwner) ∨ (row.status = .PAUSED ∧ op.uploadsToPaused db)) := by
  cases op with
  | upload tenantId runId workerId role artifactId blob mime =>
    obtain ⟨_, hp, -⟩ := answering_ok.1 h
    obtain ⟨_, hc, -⟩ := bind_ok.1 hp
    obtain ⟨row, hr, hs | hs⟩ := checkArtifactWriter_ok hc
    · exact ⟨runId, row, rfl, hr, Or.inl hs⟩
    · exact ⟨runId, row, rfl, hr, Or.inr ⟨hs, _, _, _, _, _, _, _, row, rfl, hr, hs⟩⟩
  | appendEvents tenantId runId append workerId =>
    obtain ⟨_, hp, -⟩ := answering_ok.1 h
    obtain ⟨row, hr, -, hs, hw, -⟩ := Database.appendEvents_ok hp
    exact ⟨runId, row, rfl, hr, Or.inl ⟨hs, hw⟩⟩
  | _ => cases ha

/-- What a write that names a worker does, when it does anything: the worker holds the run. -/
theorem holds_of_effect (hinv : ∀ r row, db.run? r = some row → RowInv row) {runId workerId : String}
    (hn : op.runId = some runId) (hw : op.workerId = some workerId) (hp : ¬op.uploadsToPaused db)
    (h : perform store op now db = .ok (db', answer)) : db' = db ∨ db.holds runId workerId := by
  have held : ∀ {row row'}, row ∈ db.runs.rows → row.runId = runId → Change store now op row row' →
      db.holds runId workerId := by
    intro row row' hm hid hc
    have hr : db.run? runId = some row := hid ▸ run?_of_mem hm
    have ho := hc.fenced hw
    exact ⟨row, hr, (hinv runId row hr).leased (by rw [ho]; rfl), ho⟩
  have added : op.adds = true → db.holds runId workerId := by
    intro ha
    obtain ⟨r, row, hr, hrow, ⟨hs, ho⟩ | ⟨-, hu⟩⟩ := adds_ok h ha
    · rw [hn] at hr
      cases hr
      exact ⟨row, hrow, hs, ho.symm.trans hw⟩
    · exact absurd hu hp
  cases perform_effect h with
  | repeated | idle => exact Or.inl rfl
  | started is => subst is; cases hn
  | leased found named change => exact Or.inr (held found (named _ hn) change)
  | changed found named change => exact Or.inr (held found (by rw [named] at hn; exact Option.some.inj hn) change)
  | answered is => subst is; cases hw
  | swept unnamed =>
    rw [unnamed] at hn
    cases hn
  | uploaded artifacts row created is =>
    obtain ⟨t, r, w, role, id, blob, mime, rfl⟩ := is
    exact Or.inr (added rfl)
  | appended is =>
    subst is
    exact Or.inr (added rfl)

end

/-- **Fencing.**  After any history, a heartbeat, pause, finish, release, event append or
artifact upload that names a worker changes nothing unless that worker holds the run it names;
and while a run is leased, an append or upload that names no worker is refused. -/
theorem write_fenced {store : RunStore} {t before : Instant} {db : Database}
    (h : Run (apply store) anything t Database.empty before db) (now : Instant) (op : Op) (runId : String)
    (named : op.runId = some runId) :
    (∀ workerId, op.workerId = some workerId → ¬op.uploadsToPaused db → ¬db.holds runId workerId →
        apply store db now op = db) ∧
      (op.adds = true → op.workerId = none → db.leased runId →
        apply store db now op = db ∧ ∃ error, perform store op now db = .error error) := by
  have hinv : ∀ r row, db.run? r = some row → RowInv row := fun r row hr => Reached.inv ⟨before, t, h⟩ hr
  constructor
  · intro workerId hw hp hl
    unfold apply
    cases hperf : perform store op now db with
    | error e => rfl
    | ok result =>
      obtain ⟨db', answer⟩ := result
      rcases holds_of_effect hinv named hw hp hperf with hsame | hh
      · exact hsame
      · exact absurd hh hl
  · rintro ha hw ⟨row, hr, hleased⟩
    have refused : ∃ error, perform store op now db = .error error := by
      cases hperf : perform store op now db with
      | error e => exact ⟨e, rfl⟩
      | ok result =>
        obtain ⟨r, row', hn, hr', hcase⟩ := adds_ok hperf ha
        rw [named] at hn
        cases hn
        rw [hr] at hr'
        cases hr'
        rcases hcase with ⟨-, ho⟩ | ⟨hs, -⟩
        · rw [← ho, hw] at hleased
          cases hleased
        · rw [(hinv runId row hr).leased hleased] at hs
          cases hs
    refine ⟨?_, refused⟩
    obtain ⟨e, he⟩ := refused
    unfold apply
    rw [he]
    rfl

/-- On the run worker `"w"` was leased, a release by `"v"` changes nothing and an unnamed append is
refused. -/
theorem write_fenced_cancelledWork :
    apply smallStore (history smallStore cancelledWork) 3 (.release "t" "r" ⟨"v", none⟩) =
        history smallStore cancelledWork ∧
      ∀ append, ∃ error,
        perform smallStore (.appendEvents "t" "r" append none) 3 (history smallStore cancelledWork) = .error error := by
  obtain ⟨before, h⟩ := history_run cancelledWork_admitted
  have hs : ((history smallStore cancelledWork).run? "r").any (·.leaseOwner = some "w") = true := by
    decide +kernel
  obtain ⟨row, hr, ho⟩ := (Option.any_eq_true _ _).1 hs
  have ho : row.leaseOwner = some "w" := by simpa using ho
  constructor
  · refine (write_fenced h 3 (.release "t" "r" ⟨"v", none⟩) "r" rfl).1 "v" rfl ?_ ?_
    · rintro ⟨_, _, _, _, _, _, _, _, he, -⟩
      cases he
    · rintro ⟨row', hr', -, ho'⟩
      rw [hr] at hr'
      cases hr'
      rw [ho] at ho'
      exact absurd ho' (by decide)
  · intro append
    exact ((write_fenced h 3 (.appendEvents "t" "r" append none) "r" rfl).2 rfl rfl
      ⟨row, hr, by rw [ho]; rfl⟩).2

end AgentRuns
