import AgentRuns.Changes

/-!
# What an operation does to the database

`Effect`: the database and the answer an operation that succeeds leaves, case by case
(`perform_effect`).  What every proof over histories uses of it:

    apply_run   :  a run after the operation is one before it, unchanged or changed, or was just started
    run_apply   :  a run before the operation is still there, unchanged or changed
    apply_log   :  the log only grows, by what an append adds
    Effect.resolutions :  resolutions are only added, each by a resume that changed its run
-/

namespace AgentRuns

open Relational Fallible

/-- What an operation that succeeds makes of the database, and what it answers. -/
inductive Effect (store : RunStore) (now : Instant) (op : Op) (db : Database) : Database → Answer → Prop
  | repeated (run : RunRecord) : Effect store now op db db (.run run false)
  | idle : Effect store now op db db (.claimed none)
  | started {start : RunStart} {queue strict : Bool} (is : op = .start start queue strict)
      (new : db.conflicts (startedRow start queue now) = false) (fits : (startedRow start queue now).fits = true) :
      Effect store now op db { db with runs := db.runs.insert (startedRow start queue now) }
        (.run (record (startedRow start queue now) now) true)
  | leased {row row' : RunRow} {answer : Answer} (found : row ∈ db.runs.rows)
      (named : ∀ runId, op.runId = some runId → row.runId = runId) (change : Change store now op row row')
      (fits : row'.fits = true) (running : row'.status = .RUNNING)
      (is : (∃ lease, answer = .lease lease) ∨ ∃ claimed, answer = .claimed (some claimed)) :
      Effect store now op db { db with runs := db.runs.put row' } answer
  | changed {row row' : RunRow} (found : row ∈ db.runs.rows)
      (named : op.runId = some row.runId) (change : Change store now op row row') (fits : row'.fits = true) :
      Effect store now op db ({ db with runs := db.runs.put row' }.ended [row'] now) (.run (record row' now) true)
  | answered {row row' : RunRow} {asked : Interrupt} {tenantId runId : String} {resolution : InterruptResolution}
      {answerer : KeyInfo} (is : op = .resume tenantId runId resolution answerer) (found : row ∈ db.runs.rows)
      (run : row.runId = runId ∧ resolution.runId = runId) (tenant : row.tenantId = tenantId)
      (change : Change store now op row row') (fits : row'.fits = true)
      (new : db.resolutions.find? (resolutionId store.lib resolution) = none) :
      Effect store now op db
        ({ db with
          runs := db.runs.put row'
          resolutions := db.resolutions.insert (store.resolutionRow row asked resolution now) }.ended [row'] now)
        (.run (record row' now) true)
  | swept {rows rows' : List RunRow} (named : op.runId = none) (found : ∀ row ∈ rows, row ∈ db.runs.rows)
      (once : (rows.map RunRow.runId).Nodup) (changes : List.Forall₂ (Change store now op) rows rows')
      (fits : ∀ row' ∈ rows', row'.fits = true) :
      Effect store now op db ({ db with runs := db.runs.putAll rows' }.ended rows' now)
        (.moved (rows'.map fun row => record row now))
  | uploaded (artifacts : Table ArtifactRow.artifactId) (row : ArtifactRow) (created : Bool)
      (is : ∃ t r w role id blob mime, op = .upload t r w role id blob mime) :
      Effect store now op db { db with artifacts := artifacts } (.artifact row created)
  | appended {tenantId runId : String} {append : EventsAppend} {workerId : Option String}
      {answer : EventsAppended} (is : op = .appendEvents tenantId runId append workerId)
      (ok : db.appendEvents tenantId runId append workerId =
        .ok ({ db with events := db.events ++ (db.appending tenantId runId append.events).added }, answer)) :
      Effect store now op db { db with events := db.events ++ (db.appending tenantId runId append.events).added }
        (.appended answer)

section
variable {store : RunStore} {now : Instant} {op : Op} {db db' : Database} {answer : Answer}

/-- A change keeps what a run is. -/
theorem Change.same {row row' : RunRow} (h : Change store now op row row') :
    row'.runId = row.runId ∧ row'.tenantId = row.tenantId ∧ row'.agentId = row.agentId ∧
      row'.concurrencyKey = row.concurrencyKey ∧ row'.idempotencyKey = row.idempotencyKey := by
  cases h with
  | beat running holder => unfold RunRow.saved; split <;> exact ⟨rfl, rfl, rfl, rfl, rfl⟩
  | _ => exact ⟨rfl, rfl, rfl, rfl, rfl⟩

theorem Change.runId {row row' : RunRow} (h : Change store now op row row') : row'.runId = row.runId := h.same.1

theorem Change.tenantId {row row' : RunRow} (h : Change store now op row row') : row'.tenantId = row.tenantId :=
  h.same.2.1

/-- A run once queued stays known as such. -/
theorem Change.queued {row row' : RunRow} (h : Change store now op row row') (hq : row.queuedAt.isSome) :
    row'.queuedAt.isSome := by
  cases h with
  | beat =>
    unfold RunRow.saved
    split <;> exact hq
  | resumeQueued | retried | released | lapsed => rfl
  | _ => exact hq

/-! ## Operation by operation -/

theorem changing_effect {tenantId runId : String} (ho : op.runId = some runId) {decide : RunRow → Except ServiceError (Option RunRow)}
    {run : RunRecord} {changed : Bool}
    (hd : ∀ row row', decide row = .ok (some row') → Change store now op row row')
    (h : db.changing tenantId runId now decide = .ok (db', run, changed)) :
    Effect store now op db db' (.run run changed) := by
  obtain ⟨row, ⟨hr, -⟩, ⟨-, rfl, rfl, rfl⟩ | ⟨row', hc, hfit, rfl, rfl, rfl⟩⟩ := Database.changing_ok.1 h
  · exact .repeated _
  · exact .changed (Table.mem_of_find? hr) (by rw [ho, Table.key_of_find? hr]) (hd row row' hc) hfit

theorem start_effect {start : RunStart} {queue strict : Bool} {run : RunRecord} {created : Bool}
    (h : db.start start queue strict now = .ok (db', run, created)) :
    Effect store now (.start start queue strict) db db' (.run run created) := by
  unfold Database.start at h
  obtain ⟨_, hfit, h⟩ := bind_ok.1 h
  split at h
  · obtain ⟨_, -, h⟩ := bind_ok.1 h
    cases h
    exact .repeated _
  · next hn =>
    cases h
    exact .started rfl (by simpa using hn) (by simpa using refuse_ok.1 hfit)

theorem claim_effect {held : Held} {tenantId : Option String} {request : ClaimRequest} {claimed : Option Claimed}
    (h : store.claim db held tenantId request now = .ok (db', claimed)) :
    Effect store now (.claim held tenantId request) db db' (.claimed claimed) := by
  unfold RunStore.claim at h
  split at h
  · cases h
    exact .idle
  · next row hrow =>
    obtain ⟨hm, hq, -⟩ := RunStore.claimLoop_spec hrow
    obtain ⟨⟨_, claimed⟩, ht, h⟩ := bind_ok.1 h
    obtain ⟨hfit, rfl, -⟩ := RunStore.take_ok ht
    cases h
    exact .leased hm (by rintro _ ⟨⟩) (.claimed hq) hfit rfl (Or.inr ⟨_, rfl⟩)

theorem heartbeat_effect {tenantId runId : String} {request : HeartbeatRequest} {lease : Lease}
    (h : store.heartbeat db tenantId runId request now = .ok (db', lease)) :
    Effect store now (.heartbeat tenantId runId request) db db' (.lease lease) := by
  unfold RunStore.heartbeat at h
  obtain ⟨_, hb, h⟩ := bind_ok.1 h
  cases boundedCheckpoint_ok hb
  obtain ⟨row, hrow, h⟩ := bind_ok.1 h
  obtain ⟨⟨hr, -⟩, hw⟩ := Database.locked_ok.1 hrow
  obtain ⟨_, hs, h⟩ := bind_ok.1 h
  have hs : row.status = .RUNNING := by simpa using refuse_ok.1 hs
  obtain ⟨_, hf, h⟩ := bind_ok.1 h
  obtain ⟨hfit, rfl⟩ := Database.flush_ok.1 hf
  cases h
  refine .leased (Table.mem_of_find? hr) (fun r he => ?_) (.beat hs (by simpa using hw)) (hfit _ List.mem_cons_self)
    ?_ (Or.inl ⟨_, rfl⟩)
  · cases he
    exact Table.key_of_find? hr
  unfold RunRow.saved
  split <;> exact hs

theorem pause_effect {tenantId runId : String} {pause : RunPause} {workerId : Option String} {run : RunRecord}
    {changed : Bool} (h : store.pause db tenantId runId pause workerId now = .ok (db', run, changed)) :
    Effect store now (.pause tenantId runId pause workerId) db db' (.run run changed) := by
  unfold RunStore.pause at h
  obtain ⟨_, -, h⟩ := bind_ok.1 h
  obtain ⟨_, -, h⟩ := bind_ok.1 h
  obtain ⟨_, hb, h⟩ := bind_ok.1 h
  cases boundedCheckpoint_ok hb
  exact changing_effect rfl (fun _ _ => pauseRow_change) h

theorem release_effect {tenantId runId : String} {request : ReleaseRequest} {run : RunRecord} {changed : Bool}
    (h : db.release tenantId runId request now = .ok (db', run, changed)) :
    Effect store now (.release tenantId runId request) db db' (.run run changed) := by
  unfold Database.release at h
  obtain ⟨_, hb, h⟩ := bind_ok.1 h
  cases boundedCheckpoint_ok hb
  exact changing_effect rfl (fun _ _ => releaseRow_change) h

/-- What a resume does: it finds the very answer recorded, or it records it and moves the run. -/
theorem resume_ok {tenantId runId : String} {resolution : InterruptResolution} {answerer : KeyInfo}
    {run : RunRecord} {changed : Bool}
    (h : store.resume db tenantId runId resolution answerer now = .ok (db', run, changed)) :
    ∃ row, (db.run? runId = some row ∧ row.tenantId = tenantId) ∧ resolution.runId = runId ∧
      ((store.answeredBy db tenantId resolution = true ∧
          row.awaiting.map (·.interruptId) ≠ some resolution.interruptId ∧
          db' = db ∧ run = record row now ∧ changed = false) ∨
        ∃ asked row', row.awaiting = some asked ∧ asked.interruptId = resolution.interruptId ∧
          resumeRow row resolution now = .ok row' ∧ row'.fits = true ∧
          db.resolutions.find? (resolutionId store.lib resolution) = none ∧
          db' = { db with
            runs := db.runs.put row'
            resolutions := db.resolutions.insert (store.resolutionRow row asked resolution now) }.ended [row'] now ∧
          run = record row' now ∧ changed = true) := by
  unfold RunStore.resume at h
  obtain ⟨_, hid, h⟩ := bind_ok.1 h
  have hid : resolution.runId = runId := by simpa using refuse_ok.1 hid
  obtain ⟨row, hrow, h⟩ := bind_ok.1 h
  obtain ⟨hr, -⟩ := Database.locked_ok.1 hrow
  refine ⟨row, hr, hid, ?_⟩
  split at h
  · next hw =>
    split at h
    · next ha =>
      cases h
      refine Or.inl ⟨ha, ?_, rfl, rfl, rfl⟩
      rw [Option.filter_eq_none_iff] at hw
      rw [Ne, Option.map_eq_some_iff]
      rintro ⟨i, hi, he⟩
      exact hw i hi (by simpa using he)
    · split at h <;> cases h
  · next asked hw =>
    obtain ⟨ha, hsame⟩ := Option.filter_eq_some_iff.1 hw
    obtain ⟨_, -, h⟩ := bind_ok.1 h
    obtain ⟨p, -, h⟩ := bind_ok.1 h
    cases p with
    | some problem => cases h
    | none =>
      obtain ⟨row', hm, h⟩ := bind_ok.1 h
      obtain ⟨_, hn, h⟩ := bind_ok.1 h
      obtain ⟨_, -, h⟩ := bind_ok.1 h
      obtain ⟨_, hf, h⟩ := bind_ok.1 h
      obtain ⟨hfit, rfl⟩ := Database.flush_ok.1 hf
      cases h
      exact Or.inr ⟨asked, row', ha, by simpa using hsame, hm, hfit row' List.mem_cons_self,
        Option.not_isSome_iff_eq_none.1 (refuse_ok.1 hn), rfl, rfl, rfl⟩

theorem resume_effect {tenantId runId : String} {resolution : InterruptResolution} {answerer : KeyInfo}
    {run : RunRecord} {changed : Bool}
    (h : store.resume db tenantId runId resolution answerer now = .ok (db', run, changed)) :
    Effect store now (.resume tenantId runId resolution answerer) db db' (.run run changed) := by
  obtain ⟨row, ⟨hr, ht⟩, hid, ⟨-, -, rfl, rfl, rfl⟩ | ⟨asked, row', ha, hsame, hm, hfit, hn, rfl, rfl, rfl⟩⟩ :=
    resume_ok h
  · exact .repeated _
  · exact .answered rfl (Table.mem_of_find? hr) ⟨Table.key_of_find? hr, hid⟩ ht (resumeRow_change ha hsame hm) hfit hn

theorem sweep_effect (ho : op.runId = none) {held : List String} {caught : RunRow → Bool} {order : RunRow → Option Instant} {limit : Nat}
    {moving : RunRow → Except ServiceError RunRow} {moved : List RunRecord}
    (hm : ∀ row row', caught row = true → moving row = .ok row' → Change store now op row row')
    (h : db.sweep held caught order limit now moving = .ok (db', moved)) :
    Effect store now op db db' (.moved moved) := by
  obtain ⟨rows, hrows, hfit, rfl, rfl⟩ := Database.sweep_ok h
  refine .swept ho (fun row hr => (Database.swept_spec hr).1) (Database.swept_nodup db held caught order limit) ?_ hfit
  exact (each_mem hrows).imp fun row row' h => hm row row' (Database.swept_spec h.1).2.1 h.2

theorem upload_effect {tenantId runId : String} {workerId : Option String} {role artifactId : String}
    {blob : StoredBlob} {mime : String} {row : ArtifactRow} {created : Bool}
    (h : db.upload tenantId runId workerId role artifactId blob mime now = .ok (db', row, created)) :
    Effect store now (.upload tenantId runId workerId role artifactId blob mime) db db' (.artifact row created) := by
  unfold Database.upload at h
  obtain ⟨_, -, h⟩ := bind_ok.1 h
  unfold Database.addArtifact at h
  split at h
  · cases h
    exact .uploaded db.artifacts _ _ ⟨_, _, _, _, _, _, _, rfl⟩
  · obtain ⟨_, -, h⟩ := bind_ok.1 h
    cases h
    exact .uploaded _ _ _ ⟨_, _, _, _, _, _, _, rfl⟩

/-- **What an operation does.** -/
theorem perform_effect (h : perform store op now db = .ok (db', answer)) : Effect store now op db db' answer := by
  cases op with
  | start start queue strict =>
    obtain ⟨⟨run, created⟩, hp, rfl⟩ := answering_ok.1 h
    exact start_effect hp
  | claim held tenantId request =>
    obtain ⟨claimed, hp, rfl⟩ := answering_ok.1 h
    exact claim_effect hp
  | heartbeat tenantId runId request =>
    obtain ⟨lease, hp, rfl⟩ := answering_ok.1 h
    exact heartbeat_effect hp
  | pause tenantId runId pause workerId =>
    obtain ⟨⟨run, changed⟩, hp, rfl⟩ := answering_ok.1 h
    exact pause_effect hp
  | resume tenantId runId resolution answerer =>
    obtain ⟨⟨run, changed⟩, hp, rfl⟩ := answering_ok.1 h
    exact resume_effect hp
  | cancel tenantId runId cancel canceller =>
    obtain ⟨⟨run, changed⟩, hp, rfl⟩ := answering_ok.1 h
    exact changing_effect rfl (fun _ _ => cancelRow_change) hp
  | finish tenantId runId ending workerId draw =>
    obtain ⟨⟨run, changed⟩, hp, rfl⟩ := answering_ok.1 h
    exact changing_effect rfl (fun _ _ => finishRow_change) hp
  | release tenantId runId request =>
    obtain ⟨⟨run, changed⟩, hp, rfl⟩ := answering_ok.1 h
    exact release_effect hp
  | timeOutPastDeadline held limit =>
    obtain ⟨moved, hp, rfl⟩ := answering_ok.1 h
    exact sweep_effect rfl (fun _ _ _ => pastDeadlineRow_change) hp
  | timeOutOverworked held limit =>
    obtain ⟨moved, hp, rfl⟩ := answering_ok.1 h
    exact sweep_effect rfl (fun _ _ => overworkedRow_change) hp
  | requeueLapsed held limit draws =>
    obtain ⟨moved, hp, rfl⟩ := answering_ok.1 h
    exact sweep_effect rfl (fun _ _ => lapsedRow_change) hp
  | escalateOverdue held limit =>
    obtain ⟨moved, hp, rfl⟩ := answering_ok.1 h
    exact sweep_effect rfl (fun _ _ => overdueRow_change) hp
  | upload tenantId runId workerId role artifactId blob mime =>
    obtain ⟨⟨row, created⟩, hp, rfl⟩ := answering_ok.1 h
    exact upload_effect hp
  | appendEvents tenantId runId append workerId =>
    obtain ⟨appended, hp, rfl⟩ := answering_ok.1 h
    obtain ⟨row, -, -, -, -, -, rfl, -⟩ := Database.appendEvents_ok hp
    exact .appended rfl hp

/-- What a request that moves one run did: nothing, or one change of the run it names, which it answers. -/
theorem Effect.moved {run : RunRecord} {changed : Bool} (h : Effect store now op db db' (.run run changed))
    (hs : op.movesRun = true) :
    (db' = db ∧ changed = false) ∨
      ∃ row row', row ∈ db.runs.rows ∧ op.runId = some row.runId ∧ Change store now op row row' ∧ row'.fits = true ∧
        db'.runs = db.runs.put row' ∧ run = record row' now ∧ changed = true := by
  cases h with
  | repeated => exact Or.inl ⟨rfl, rfl⟩
  | started is =>
    subst is
    cases hs
  | leased _ _ _ _ _ is =>
    obtain ⟨lease, he⟩ | ⟨claimed, he⟩ := is
    · cases he
    · cases he
  | @changed row row' found named change fits => exact Or.inr ⟨row, row', found, named, change, fits, rfl, rfl, rfl⟩
  | @answered row row' asked tenantId runId resolution answerer is found run tenant change fits new =>
    refine Or.inr ⟨row, row', found, ?_, change, fits, rfl, rfl, rfl⟩
    rw [is, run.1]
    rfl

/-! ## The runs -/

theorem Change.keys {rows rows' : List RunRow} (h : List.Forall₂ (Change store now op) rows rows') :
    rows'.map RunRow.runId = rows.map RunRow.runId := by
  induction h with
  | nil => rfl
  | cons hc _ ih => rw [List.map_cons, List.map_cons, hc.runId, ih]

/-- The runs an operation leaves: one more, or some of them changed. -/
theorem Effect.runs (h : Effect store now op db db' answer) :
    (∃ start queue strict, op = .start start queue strict ∧ db.conflicts (startedRow start queue now) = false ∧
        (startedRow start queue now).fits = true ∧ db'.runs = db.runs.insert (startedRow start queue now)) ∨
      ∃ rows rows', (∀ row ∈ rows, row ∈ db.runs.rows ∧ ∀ runId, op.runId = some runId → row.runId = runId) ∧
        (rows.map RunRow.runId).Nodup ∧ List.Forall₂ (Change store now op) rows rows' ∧
        (∀ row' ∈ rows', row'.fits = true) ∧ db'.runs = db.runs.putAll rows' := by
  have one : ∀ {row row' : RunRow}, row ∈ db.runs.rows → (∀ runId, op.runId = some runId → row.runId = runId) →
      Change store now op row row' → row'.fits = true →
      ∃ rows rows', (∀ row ∈ rows, row ∈ db.runs.rows ∧ ∀ runId, op.runId = some runId → row.runId = runId) ∧
        (rows.map RunRow.runId).Nodup ∧ List.Forall₂ (Change store now op) rows rows' ∧
        (∀ row' ∈ rows', row'.fits = true) ∧ db.runs.put row' = db.runs.putAll rows' := by
    intro row row' hm hn hc hf
    refine ⟨[row], [row'], fun a ha => ?_, by simp, .cons hc .nil, by simpa using hf, rfl⟩
    cases List.mem_singleton.1 ha
    exact ⟨hm, hn⟩
  have none : ∃ rows rows', (∀ row ∈ rows, row ∈ db.runs.rows ∧ ∀ runId, op.runId = some runId →
        row.runId = runId) ∧ (rows.map RunRow.runId).Nodup ∧ List.Forall₂ (Change store now op) rows rows' ∧
      (∀ row' ∈ rows', row'.fits = true) ∧ db.runs = db.runs.putAll rows' :=
    ⟨[], [], by simp, List.nodup_nil, .nil, by simp, rfl⟩
  cases h with
  | repeated | idle | uploaded | appended => exact Or.inr none
  | started is new fits => exact Or.inl ⟨_, _, _, is, new, fits, rfl⟩
  | leased found named change fits => exact Or.inr (one found named change fits)
  | changed found named change fits =>
    exact Or.inr (one found (fun r hr => Option.some.inj (named.symm.trans hr)) change fits)
  | answered is found run tenant change fits =>
    subst is
    exact Or.inr (one found (fun r hr => run.1.trans (Option.some.inj hr)) change fits)
  | swept named found once changes fits =>
    refine Or.inr ⟨_, _, fun row hr => ⟨found row hr, fun r he => ?_⟩, once, changes, fits, rfl⟩
    rw [named] at he
    cases he

theorem run?_of_mem {row : RunRow} (h : row ∈ db.runs.rows) : db.run? row.runId = some row := Table.find?_of_mem h

/-- A run after the operation: as it was, changed, or just started. -/
theorem Effect.run_back {r : String} {row' : RunRow} (h : Effect store now op db db' answer)
    (hr : db'.run? r = some row') :
    db.run? r = some row' ∨
      (∃ row, db.run? r = some row ∧ Change store now op row row' ∧ row'.fits = true ∧
        ∀ runId, op.runId = some runId → r = runId) ∨
      (db.run? r = none ∧ ∃ start queue strict, op = .start start queue strict ∧
        row' = startedRow start queue now ∧ row'.fits = true) := by
  rcases h.runs with ⟨start, queue, strict, is, new, fits, he⟩ | ⟨rows, rows', hm, -, hc, hf, he⟩
  · rw [Database.run?, he] at hr
    have hfree : db.runs.find? (startedRow start queue now).runId = none := by
      simp only [Database.conflicts, Bool.or_eq_false_iff] at new
      simpa [Database.run?] using new.1
    rw [Table.find?_insert hfree] at hr
    split at hr
    · next hk =>
      cases hr
      exact Or.inr (Or.inr ⟨hk ▸ hfree, start, queue, strict, is, rfl, fits⟩)
    · exact Or.inl hr
  · rw [Database.run?, he] at hr
    obtain ⟨hmem, hk⟩ := Table.find?_eq_some.1 hr
    rcases Table.mem_putAll hmem with h | ⟨h, -⟩
    · obtain ⟨row, hrow, hch⟩ := exists_of_mem_right hc h
      have hid : row.runId = r := hch.runId.symm.trans hk
      refine Or.inr (Or.inl ⟨row, ?_, hch, hf _ h, fun runId he => hid.symm.trans ((hm row hrow).2 runId he)⟩)
      rw [← hid]
      exact run?_of_mem (hm row hrow).1
    · exact Or.inl (hk ▸ run?_of_mem h)

/-- A run before the operation is there after it, as it was or changed. -/
theorem Effect.run_forward {r : String} {row : RunRow} (h : Effect store now op db db' answer)
    (hr : db.run? r = some row) : ∃ row', db'.run? r = some row' ∧ (row' = row ∨ Change store now op row row') := by
  rcases h.runs with ⟨start, queue, strict, -, new, -, he⟩ | ⟨rows, rows', hm, hn, hc, -, he⟩
  · refine ⟨row, ?_, Or.inl rfl⟩
    rw [Database.run?, he, Table.find?_insert_of_ne, ← Database.run?, hr]
    rintro rfl
    simp [Database.conflicts, hr] at new
  · unfold Database.run? at hr ⊢
    rw [he]
    by_cases hin : ∃ row' ∈ rows', row'.runId = r
    · obtain ⟨row', hrow', rfl⟩ := hin
      obtain ⟨row₀, hrow₀, hch⟩ := exists_of_mem_right hc hrow'
      have hsame : row₀ = row := by
        have h₀ := Table.find?_of_mem (hm row₀ hrow₀).1
        rw [← hch.runId, hr] at h₀
        exact (Option.some.inj h₀).symm
      refine ⟨row', Table.find?_putAll_of_mem ?_ hrow' hr, Or.inr (hsame ▸ hch)⟩
      rw [Change.keys hc]
      exact hn
    · refine ⟨row, ?_, Or.inl rfl⟩
      rw [Table.find?_putAll_of_ne, hr]
      intro row' hrow' hk
      exact hin ⟨row', hrow', hk⟩

/-! ## The log and the answers -/

theorem Effect.log (h : Effect store now op db db' answer) :
    db'.events = db.events ∨ ∃ tenantId runId append workerId, op = .appendEvents tenantId runId append workerId ∧
      db'.events = db.events ++ (db.appending tenantId runId append.events).added := by
  cases h with
  | appended is ok => exact Or.inr ⟨_, _, _, _, is, rfl⟩
  | _ => exact Or.inl rfl

theorem Effect.resolutions (h : Effect store now op db db' answer) :
    db'.resolutions = db.resolutions ∨ ∃ tenantId runId resolution answerer asked row row',
      op = .resume tenantId runId resolution answerer ∧ db.run? runId = some row ∧ row.tenantId = tenantId ∧
      resolution.runId = runId ∧ Change store now op row row' ∧ db'.run? runId = some row' ∧
      db.resolutions.find? (resolutionId store.lib resolution) = none ∧
      db'.resolutions = db.resolutions.insert (store.resolutionRow row asked resolution now) := by
  cases h with
  | answered is found run tenant change fits new =>
    obtain ⟨rfl, hid⟩ := run
    refine Or.inr ⟨_, _, _, _, _, _, _, is, run?_of_mem found, tenant, hid, change, ?_, new, rfl⟩
    exact Table.find?_put_self change.runId (run?_of_mem found)
  | _ => exact Or.inl rfl

/-! ## One step -/

/-- A step that succeeds has an effect; one refused changes nothing. -/
theorem apply_effect (store : RunStore) (now : Instant) (op : Op) (db : Database) :
    apply store db now op = db ∨ ∃ answer, Effect store now op db (apply store db now op) answer := by
  unfold apply
  cases h : perform store op now db with
  | error e => exact Or.inl rfl
  | ok r =>
    obtain ⟨db', answer⟩ := r
    exact Or.inr ⟨answer, perform_effect h⟩

theorem apply_run {r : String} {row' : RunRow} (hr : (apply store db now op).run? r = some row') :
    db.run? r = some row' ∨
      (∃ row, db.run? r = some row ∧ Change store now op row row' ∧ row'.fits = true ∧
        ∀ runId, op.runId = some runId → r = runId) ∨
      (db.run? r = none ∧ ∃ start queue strict, op = .start start queue strict ∧
        row' = startedRow start queue now ∧ row'.fits = true) := by
  rcases apply_effect store now op db with h | ⟨answer, h⟩
  · exact Or.inl (h ▸ hr)
  · exact h.run_back hr

theorem run_apply (store : RunStore) (now : Instant) (op : Op) {r : String} {row : RunRow}
    (hr : db.run? r = some row) :
    ∃ row', (apply store db now op).run? r = some row' ∧ (row' = row ∨ Change store now op row row') := by
  rcases apply_effect store now op db with h | ⟨answer, h⟩
  · exact ⟨row, h.symm ▸ hr, Or.inl rfl⟩
  · exact h.run_forward hr

theorem apply_log (store : RunStore) (now : Instant) (op : Op) (db : Database) : (apply store db now op).events = db.events ∨ ∃ tenantId runId append workerId,
    op = .appendEvents tenantId runId append workerId ∧
      (apply store db now op).events = db.events ++ (db.appending tenantId runId append.events).added := by
  rcases apply_effect store now op db with h | ⟨answer, h⟩
  · exact Or.inl (congrArg Database.events h)
  · exact h.log

end

end AgentRuns
