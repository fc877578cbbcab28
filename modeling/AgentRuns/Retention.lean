import AgentRuns.Frozen

/-!
# Retention

An artifact is kept without an end while its run has not ended, and goes some time after it has:

    expires_at is set  <=>  the run has ended                                (Database.Retained)

Every path that ends a run expires the artifacts there (`Effect.artifacts`), and an upload is recorded under
the lock of a run that has not ended.  A run goes only when none of its artifacts is left, and with its log and its
answers (`retention_sound`); what a purge has selected can still go when it deletes (`Selected`).
-/

namespace AgentRuns

open Relational Fallible Timed

/-- Rows refer to runs that are there, and an artifact has an end exactly when its run has ended. -/
structure Database.Retained (db : Database) : Prop where
  artifacts : ∀ a ∈ db.artifacts.rows, ∃ row, db.run? a.runId = some row ∧
    (row.status.final = true ↔ a.expiresAt.isSome = true)
  events : ∀ e ∈ db.events, (db.run? e.runId).isSome = true
  resolutions : ∀ k ∈ db.resolutions.rows, (db.run? k.runId).isSome = true

section
variable {store : RunStore} {api : ArtifactApi} {now t t' : Instant} {op : Op} {db db' : Database} {answer : Answer}
  {row : RunRow} {r : String} {d : Deployment} {act : DeploymentAct} {gone : List String}

/-! ## Ending a run expires its artifacts -/

/-- `expire_with`, for one artifact. -/
def ArtifactRow.expireWith (gone : List String) (at_ : Instant) (a : ArtifactRow) : ArtifactRow :=
  if a.runId ∈ gone ∧ a.expiresAt = none then { a with expiresAt := some at_ } else a

theorem expireWith_runId (a : ArtifactRow) (gone : List String) (at_ : Instant) : (a.expireWith gone at_).runId = a.runId := by
  unfold ArtifactRow.expireWith
  split <;> rfl

theorem expireWith_nil (as : List ArtifactRow) (at_ : Instant) : as.map (ArtifactRow.expireWith [] at_) = as := by
  rw [List.map_congr_left (g := id), List.map_id]
  intro a _
  exact if_neg fun h => absurd h.1 List.not_mem_nil

/-- The operation ended the run. -/
def Ends (db db' : Database) (r : String) : Prop :=
  ∃ row row', db.run? r = some row ∧ db'.run? r = some row' ∧ row.status.final = false ∧ row'.status.final = true

theorem not_ends_of_runs (h : db'.runs = db.runs) : ¬Ends db db' r := by
  rintro ⟨row, row', hr, hr', hu, hf⟩
  unfold Database.run? at hr hr'
  rw [h, hr] at hr'
  cases hr'
  rw [hu] at hf
  cases hf

/-- Of the runs an operation writes it ended those that are final. -/
theorem ends_putAll {rows rows' : List RunRow} (found : ∀ row ∈ rows, row ∈ db.runs.rows)
    (once : (rows.map RunRow.runId).Nodup) (changes : List.Forall₂ (Change store now op) rows rows')
    (runs : db'.runs = db.runs.putAll rows') :
    r ∈ (rows'.filter (·.status.final)).map RunRow.runId ↔ Ends db db' r := by
  have after : ∀ row ∈ rows, ∀ row' ∈ rows', row'.runId = row.runId → db'.run? row.runId = some row' := by
    intro row hrow row' hrow' hid
    unfold Database.run?
    rw [runs, ← hid]
    refine Table.find?_putAll_of_mem ?_ hrow' (hid ▸ Table.find?_of_mem (found row hrow))
    rw [Change.keys changes]
    exact once
  constructor
  · intro h
    obtain ⟨row', hrow', rfl⟩ := List.mem_map.1 h
    obtain ⟨hrow', hf⟩ := List.mem_filter.1 hrow'
    obtain ⟨row, hrow, hc⟩ := exists_of_mem_right changes hrow'
    have hr' := after row hrow row' hrow' hc.runId
    rw [hc.runId]
    exact ⟨row, row', run?_of_mem (found row hrow), hr', hc.unended, hf⟩
  · rintro ⟨row, row', hr, hr', hu, hf⟩
    by_cases hin : ∃ row₁ ∈ rows', row₁.runId = r
    · obtain ⟨row₁, hrow₁, rfl⟩ := hin
      obtain ⟨row₀, hrow₀, hc⟩ := exists_of_mem_right changes hrow₁
      have hsame := after row₀ hrow₀ row₁ hrow₁ hc.runId
      rw [← hc.runId, hr'] at hsame
      cases hsame
      exact List.mem_map.2 ⟨row', List.mem_filter.2 ⟨hrow₁, hf⟩, rfl⟩
    · unfold Database.run? at hr hr'
      rw [runs, Table.find?_putAll_of_ne fun row₁ h₁ he => hin ⟨row₁, h₁, he⟩, hr] at hr'
      cases hr'
      rw [hu] at hf
      cases hf

/-- The artifacts an operation leaves: those of the runs it ended are given their end. -/
theorem Effect.artifacts (h : Effect store now op db db' answer) (hu : op.isUpload = false) :
    ∃ gone, db'.artifacts.rows = db.artifacts.rows.map (ArtifactRow.expireWith gone (now + artifactRetention)) ∧
      ∀ r, r ∈ gone ↔ Ends db db' r := by
  have same : db'.artifacts = db.artifacts → (∀ r, ¬Ends db db' r) →
      ∃ gone, db'.artifacts.rows = db.artifacts.rows.map (ArtifactRow.expireWith gone (now + artifactRetention)) ∧
        ∀ r, r ∈ gone ↔ Ends db db' r := by
    intro ha he
    refine ⟨[], ?_, fun r => ⟨fun hm => absurd hm List.not_mem_nil, fun h => absurd h (he r)⟩⟩
    rw [expireWith_nil, ha]
  have moved : ∀ rows rows', (∀ row ∈ rows, row ∈ db.runs.rows) → (rows.map RunRow.runId).Nodup →
      List.Forall₂ (Change store now op) rows rows' → db'.runs = db.runs.putAll rows' →
      db'.artifacts = (db.ended rows' now).artifacts →
      ∃ gone, db'.artifacts.rows = db.artifacts.rows.map (ArtifactRow.expireWith gone (now + artifactRetention)) ∧
        ∀ r, r ∈ gone ↔ Ends db db' r := by
    intro rows rows' found once changes runs artifacts
    refine ⟨(rows'.filter (·.status.final)).map RunRow.runId, ?_, fun r => ends_putAll found once changes runs⟩
    rw [artifacts]
    rfl
  have one : ∀ {row : RunRow}, row ∈ db.runs.rows → ∀ row₁ ∈ [row], row₁ ∈ db.runs.rows := by
    intro row hm row₁ h
    rw [List.mem_singleton.1 h]
    exact hm
  cases h with
  | repeated | idle | appended => exact same rfl fun r => not_ends_of_runs rfl
  | uploaded _ _ _ is =>
    obtain ⟨_, _, _, _, _, _, _, rfl⟩ := is
    cases hu
  | started is new fits =>
    refine same rfl fun r => ?_
    rintro ⟨row, row', hr, hr', hunended, hf⟩
    unfold Database.run? at hr'
    rw [Table.find?_insert_of_ne, ← Database.run?, hr] at hr'
    · cases hr'
      rw [hunended] at hf
      cases hf
    · rintro rfl
      simp [Database.conflicts, hr] at new
  | @leased row row' _ found named change fits running =>
    refine same rfl fun r => ?_
    rw [← ends_putAll (one found) (List.nodup_singleton _) (.cons change .nil) rfl]
    rw [List.filter_cons_of_neg (by rw [running]; decide)]
    exact List.not_mem_nil
  | @changed row row' found named change fits =>
    exact moved [row] [row'] (one found) (List.nodup_singleton _) (.cons change .nil) rfl rfl
  | @answered row row' _ _ _ _ _ is found run tenant change fits new =>
    exact moved [row] [row'] (one found) (List.nodup_singleton _) (.cons change .nil) rfl rfl
  | @swept rows rows' named found once changes fits => exact moved rows rows' found once changes rfl rfl

theorem expireWith_blobKey (a : ArtifactRow) (gone : List String) (at_ : Instant) :
    (a.expireWith gone at_).blobKey = a.blobKey := by
  unfold ArtifactRow.expireWith
  split <;> rfl

/-- But for the uploads' own, operations leave the artifacts but for their ends. -/
theorem artifacts_other (store : RunStore) (now : Instant) (db : Database) (hu : op.isUpload = false) :
    ∃ gone at_, (apply store db now op).artifacts.rows = db.artifacts.rows.map (ArtifactRow.expireWith gone at_) := by
  rcases apply_effect store now op db with he | ⟨answer, he⟩
  · exact ⟨[], 0, by rw [he, expireWith_nil]⟩
  · obtain ⟨gone, hrows, -⟩ := he.artifacts hu
    exact ⟨gone, _, hrows⟩

/-- An upload's record adds the artifact of a run that has not ended, or nothing. -/
theorem artifacts_upload (store : RunStore) (now : Instant) (db : Database) (hu : op.isUpload = true) :
    apply store db now op = db ∨ ∃ a run, (apply store db now op).artifacts.rows = db.artifacts.rows ++ [a] ∧
      (apply store db now op).runs = db.runs ∧ a.expiresAt = none ∧ db.run? a.runId = some run ∧ run.status.final = false := by
  cases op with
  | upload tenantId runId workerId role artifactId blob mime =>
    cases hup : db.upload tenantId runId workerId role artifactId blob mime now with
    | error e => exact Or.inl (apply_upload_error hup)
    | ok p =>
      obtain ⟨db', a, created⟩ := p
      rw [apply_upload _ hup]
      obtain ⟨⟨run, hrun, hunended⟩, ⟨-, rfl, -⟩ | ⟨-, hnew, hrow, rfl⟩⟩ := upload_ok hup
      · exact Or.inl rfl
      · have hfree : db.artifacts.find? a.artifactId = none := by
          rw [hrow]
          exact hnew
        refine Or.inr ⟨a, run, Table.rows_insert hfree, rfl, by rw [hrow], ?_, hunended⟩
        rw [hrow]
        exact hrun
  | _ => cases hu

/-! ## It stays so -/

/-- A reference to a run stays good. -/
theorem isSome_apply (h : (db.run? r).isSome = true) : ((apply store db now op).run? r).isSome = true := by
  obtain ⟨row, hr⟩ := Option.isSome_iff_exists.1 h
  obtain ⟨row', hr', -⟩ := run_apply store now op hr
  rw [hr']
  rfl

/-- What is added to the log is of a run that is there. -/
theorem logged_apply {e : RunEventRow} (h : e ∈ (apply store db now op).events) :
    e ∈ db.events ∨ (db.run? e.runId).isSome = true := by
  unfold apply at h
  cases hp : perform store op now db with
  | error _ =>
    rw [hp] at h
    exact Or.inl h
  | ok result =>
    obtain ⟨db', answer⟩ := result
    rw [hp, orElse_ok] at h
    cases perform_effect hp with
    | @appended tenantId runId append workerId answer is ok =>
      obtain ⟨row, hr, -⟩ := Database.appendEvents_ok ok
      obtain ⟨new, hn⟩ := appending_spec tenantId runId append.events
        ⟨db.logged runId (append.events.map RunEvent.identity), db.lastPosition runId, []⟩
      rcases List.mem_append.1 h with h | h
      · exact Or.inl h
      · unfold Database.appending at h
        rw [hn.added, List.nil_append] at h
        rw [(hn.own e h).1, hr]
        exact Or.inr rfl
    | _ => exact Or.inl h

/-- The artifacts of an operation that is not an upload's. -/
theorem Database.Retained.artifacts_apply (h : db.Retained) (hu : op.isUpload = false) :
    ∀ a ∈ (apply store db now op).artifacts.rows, ∃ row, (apply store db now op).run? a.runId = some row ∧
      (row.status.final = true ↔ a.expiresAt.isSome = true) := by
  rcases apply_effect store now op db with he | ⟨answer, heff⟩
  · rw [he]
    exact h.artifacts
  · obtain ⟨gone, hrows, hgone⟩ := heff.artifacts hu
    intro a' ha'
    rw [hrows] at ha'
    obtain ⟨a, ha, rfl⟩ := List.mem_map.1 ha'
    obtain ⟨row, hr, hend⟩ := h.artifacts a ha
    obtain ⟨row', hr', hsame⟩ := heff.run_forward hr
    rw [expireWith_runId]
    refine ⟨row', hr', ?_⟩
    unfold ArtifactRow.expireWith
    by_cases hf : row.status.final = true
    · -- an ended run stays as it is, and its artifacts have their end
      have hstay : row' = row := by
        rcases hsame with rfl | hc
        · rfl
        · rw [hc.unended] at hf
          cases hf
      have hsome := hend.1 hf
      rw [if_neg (fun hc => by rw [hc.2] at hsome; cases hsome), hstay]
      exact hend
    · have hnone : a.expiresAt = none := by
        cases he : a.expiresAt with
        | none => rfl
        | some at_ => exact absurd (hend.2 (by rw [he]; rfl)) hf
      by_cases hf' : row'.status.final = true
      · have hmem : a.runId ∈ gone := (hgone a.runId).2 ⟨row, row', hr, hr', by simpa using hf, hf'⟩
        rw [if_pos ⟨hmem, hnone⟩]
        exact ⟨fun _ => rfl, fun _ => hf'⟩
      · have hmem : a.runId ∉ gone := by
          intro hm
          obtain ⟨_, row₂, -, hr₂, -, hf₂⟩ := (hgone a.runId).1 hm
          rw [hr'] at hr₂
          cases hr₂
          exact hf' hf₂
        rw [if_neg (fun hc => hmem hc.1), hnone]
        exact ⟨fun hc => absurd hc hf', fun hc => by cases hc⟩

theorem Database.Retained.apply (h : db.Retained) : (apply store db now op).Retained where
  artifacts := by
    by_cases hu : op.isUpload = true
    · rcases artifacts_upload store now db hu with he | ⟨a, run, hrows, hruns, hnone, hrun, hunended⟩
      · rw [he]
        exact h.artifacts
      · intro b hb
        rw [hrows] at hb
        unfold Database.run?
        rw [hruns]
        rcases List.mem_append.1 hb with hb | hb
        · exact h.artifacts b hb
        · rw [List.mem_singleton.1 hb]
          refine ⟨run, hrun, ?_⟩
          rw [hunended, hnone]
          exact ⟨fun hc => (by cases hc), fun hc => (by cases hc)⟩
    · exact h.artifacts_apply (by simpa using hu)
  events := by
    intro e he
    rcases logged_apply he with he | he
    · exact isSome_apply (h.events e he)
    · exact isSome_apply he
  resolutions := by
    intro k hk
    rcases apply_effect store now op db with he | ⟨answer, he⟩
    · rw [he] at hk ⊢
      exact h.resolutions k hk
    · rcases he.resolutions with h' | ⟨_, _, resolution, _, asked, row, _, -, hr, -, -, -, -, hnew, h'⟩
      · rw [h'] at hk
        exact isSome_apply (h.resolutions k hk)
      · rw [h', Table.rows_insert hnew] at hk
        refine isSome_apply ?_
        rcases List.mem_append.1 hk with hk | hk
        · exact h.resolutions k hk
        · rw [List.mem_singleton.1 hk]
          show (db.run? row.runId).isSome = true
          rw [run?_of_mem (Table.mem_of_find? hr)]
          rfl

theorem Database.Retained.removeArtifacts (h : db.Retained) (ids : List String) : (db.removeArtifacts ids).Retained where
  artifacts a ha := h.artifacts a (Table.mem_erase.1 ha).1
  events := h.events
  resolutions := h.resolutions

theorem deleteRuns_artifacts (hd : db.deleteRuns gone = .ok db') : db'.artifacts = db.artifacts := by
  unfold Database.deleteRuns at hd
  obtain ⟨_, -, hd⟩ := bind_ok.1 hd
  cases hd
  rfl

/-- A purge takes the log and the answers with the run, and no run that has an artifact. -/
theorem Database.Retained.deleteRuns (h : db.Retained) (hd : db.deleteRuns gone = .ok db') : db'.Retained := by
  have stays : ∀ {runId}, runId ∉ gone → db'.run? runId = db.run? runId := fun hn =>
    congrArg Prod.fst ((deleteRuns_whole hd).2 hn)
  have left : ∀ {runId : String}, db'.Gone runId → (∀ e ∈ db'.events, e.runId ≠ runId) ∧
      ∀ k ∈ db'.resolutions.rows, k.runId ≠ runId := by
    intro runId hg
    have hkept := Prod.ext_iff.1 hg.kept
    have hrest := Prod.ext_iff.1 hkept.2
    refine ⟨fun e he hid => ?_, fun k hk hid => ?_⟩
    · exact List.filter_eq_nil_iff.1 hrest.1 e he (decide_eq_true hid)
    · exact List.filter_eq_nil_iff.1 hrest.2 k hk (decide_eq_true hid)
  have hgone : ∀ {runId}, runId ∈ gone → db'.Gone runId := fun hr => (deleteRuns_whole hd).1 hr
  have sub : (∀ e ∈ db'.events, e ∈ db.events) ∧ ∀ k ∈ db'.resolutions.rows, k ∈ db.resolutions.rows := by
    unfold Database.deleteRuns at hd
    obtain ⟨_, -, hd⟩ := bind_ok.1 hd
    cases hd
    exact ⟨fun e he => (List.mem_filter.1 he).1, fun k hk => (Table.mem_erase.1 hk).1⟩
  refine ⟨fun a ha => ?_, fun e he => ?_, fun k hk => ?_⟩
  · have hn : a.runId ∉ gone := fun hr => (hgone hr).artifacts a ha rfl
    rw [stays hn]
    exact h.artifacts a (deleteRuns_artifacts hd ▸ ha)
  · have hn : e.runId ∉ gone := fun hr => (left (hgone hr)).1 e he rfl
    rw [stays hn]
    exact h.events e (sub.1 e he)
  · have hn : k.runId ∉ gone := fun hr => (left (hgone hr)).2 k hk rfl
    rw [stays hn]
    exact h.resolutions k (sub.2 k hk)

/-- **One step.** -/
theorem Database.Retained.step (h : d.db.Retained) : (d.step api now act).db.Retained := by
  rcases d.step_db api now act with h' | ⟨op, h'⟩ | ⟨ids, h'⟩ | ⟨k, -, h'⟩
  · rw [h']
    exact h
  · rw [h']
    exact h.apply
  · rw [h']
    exact h.removeArtifacts ids
  · exact h.deleteRuns h'

theorem Run.retained (h : Run (Deployment.step api) Deployment.Ok t .empty t' d) : d.db.Retained := by
  refine h.invariant' (fun d => d.db.Retained) (fun _ _ _ h _ => h.step) ⟨?_, ?_, ?_⟩
  · intro a ha
    cases ha
  · intro e he
    cases he
  · intro k hk
    cases hk

/-! ## What a purge has selected -/

/-- What the purges under way have selected ended, has no artifact, and is each locked by one of them. -/
structure Deployment.Selected (d : Deployment) : Prop where
  ended : ∀ k r, r ∈ d.purging k → ∃ row, d.db.run? r = some row ∧ row.status.final = true
  bare : ∀ k r, r ∈ d.purging k → ∀ a ∈ d.db.artifacts.rows, a.runId ≠ r
  once : ∀ k k' r, r ∈ d.purging k → r ∈ d.purging k' → k = k'

/-- An artifact after an operation is of a run that had one, or of one that had not ended. -/
theorem artifact_apply {a : ArtifactRow} (h : a ∈ (apply store db now op).artifacts.rows) :
    (∃ b ∈ db.artifacts.rows, b.runId = a.runId) ∨ ∃ run, db.run? a.runId = some run ∧ run.status.final = false := by
  by_cases hu : op.isUpload = true
  · rcases artifacts_upload store now db hu with he | ⟨added, run, hrows, -, -, hrun, hunended⟩
    · rw [he] at h
      exact Or.inl ⟨a, h, rfl⟩
    · rw [hrows] at h
      rcases List.mem_append.1 h with h | h
      · exact Or.inl ⟨a, h, rfl⟩
      · rw [List.mem_singleton.1 h]
        exact Or.inr ⟨run, hrun, hunended⟩
  · obtain ⟨gone, at_, hrows⟩ := artifacts_other store now db (by simpa using hu)
    rw [hrows] at h
    obtain ⟨b, hb, rfl⟩ := List.mem_map.1 h
    exact Or.inl ⟨b, hb, (expireWith_runId b gone at_).symm⟩

theorem Deployment.Selected.apply (h : d.Selected) {d' : Deployment} (hdb : d'.db = AgentRuns.apply store d.db now op)
    (hp : d'.purging = d.purging) : d'.Selected where
  ended k r hr := by
    obtain ⟨row, hrow, hf⟩ := h.ended k r (hp ▸ hr)
    exact ⟨row, hdb ▸ ended_apply hrow hf, hf⟩
  bare k r hr a ha := by
    rw [hp] at hr
    rw [hdb] at ha
    rcases artifact_apply ha with ⟨b, hb, hid⟩ | ⟨run, hrun, hu⟩
    · rw [← hid]
      exact h.bare k r hr b hb
    · rintro rfl
      obtain ⟨row, hrow, hf⟩ := h.ended k _ hr
      rw [hrow] at hrun
      cases hrun
      rw [hu] at hf
      cases hf
  once k k' r hr hr' := h.once k k' r (hp ▸ hr) (hp ▸ hr')

/-- What a purge has locked it locked now, or before. -/
theorem mem_purgingAt {k i : Nat} {gone : List String} (h : r ∈ (d.purgingAt k gone).purging i) :
    (i = k ∧ r ∈ gone) ∨ (i ≠ k ∧ r ∈ d.purging i) := by
  unfold Deployment.purgingAt at h
  dsimp only at h
  split at h
  · next hi => exact Or.inl ⟨hi, h⟩
  · next hi => exact Or.inr ⟨hi, h⟩

theorem mem_released {k i : Nat} (h : r ∈ (d.purgingAt k []).purging i) : i ≠ k ∧ r ∈ d.purging i := by
  rcases mem_purgingAt h with ⟨-, hr⟩ | hr
  · cases hr
  · exact hr

/-- Letting locks go keeps it. -/
theorem Deployment.Selected.release (h : d.Selected) (k : Nat) : (d.purgingAt k []).Selected where
  ended i r hr := h.ended i r (mem_released hr).2
  bare i r hr := h.bare i r (mem_released hr).2
  once i j r hr hr' := h.once i j r (mem_released hr).2 (mem_released hr').2

theorem endedBefore_spec {held : List String} {before : Instant} {limit : Nat} (h : r ∈ db.endedBefore held before limit) :
    (∃ row, db.run? r = some row ∧ row.status.final = true) ∧ (∀ a ∈ db.artifacts.rows, a.runId ≠ r) ∧ r ∉ held := by
  unfold Database.endedBefore at h
  obtain ⟨row, hrow, rfl⟩ := List.mem_map.1 h
  have hrow := List.mem_of_mem_take hrow
  rw [List.mem_filter, List.mem_insertionSort, List.mem_filter] at hrow
  obtain ⟨⟨hm, hp⟩, hheld⟩ := hrow
  simp only [Database.purgeable, Bool.and_eq_true, Bool.not_eq_true', List.any_eq_false, decide_eq_true_eq] at hp
  exact ⟨⟨row, run?_of_mem hm, hp.1.1⟩, fun a ha => hp.2 a ha, by simpa using hheld⟩

/-- A purge selects ended runs without artifacts that no other purge has locked. -/
theorem Deployment.Selected.select (h : d.Selected) {k : Nat} {held : List String} (before : Instant) (limit : Nat)
    (ok : ∀ runId, d.Locks runId → runId ∈ held) : (d.purgingAt k (d.db.endedBefore held before limit)).Selected where
  ended i r hr := by
    rcases mem_purgingAt hr with ⟨-, hr⟩ | ⟨-, hr⟩
    · exact (endedBefore_spec hr).1
    · exact h.ended i r hr
  bare i r hr := by
    rcases mem_purgingAt hr with ⟨-, hr⟩ | ⟨-, hr⟩
    · exact (endedBefore_spec hr).2.1
    · exact h.bare i r hr
  once i j r hr hr' := by
    rcases mem_purgingAt hr with ⟨hi, hr⟩ | ⟨-, hr⟩ <;> rcases mem_purgingAt hr' with ⟨hj, hr'⟩ | ⟨-, hr'⟩
    · rw [hi, hj]
    · exact absurd (ok r ⟨j, hr'⟩) (endedBefore_spec hr).2.2
    · exact absurd (ok r ⟨i, hr⟩) (endedBefore_spec hr').2.2
    · exact h.once i j r hr hr'

/-- The runs other purges have locked outlive this one's. -/
theorem Deployment.Selected.purged (h : d.Selected) {k : Nat} {db : Database} (hdelete : d.db.deleteRuns (d.purging k) = .ok db) :
    ((d.withDb db).purgingAt k []).Selected where
  ended i r hr := by
    obtain ⟨hi, hr⟩ := mem_released hr
    obtain ⟨row, hrow, hf⟩ := h.ended i r hr
    have hother : r ∉ d.purging k := fun hk => hi (h.once i k r hr hk)
    exact ⟨row, (congrArg Prod.fst ((deleteRuns_whole hdelete).2 hother)).trans hrow, hf⟩
  bare i r hr a ha := by
    have artifacts : db.artifacts = d.db.artifacts := deleteRuns_artifacts hdelete
    exact h.bare i r (mem_released hr).2 a (artifacts ▸ ha)
  once i j r hr hr' := h.once i j r (mem_released hr).2 (mem_released hr').2

def DeploymentAct.purgesRuns : DeploymentAct → Bool
  | .select .. | .purge .. => true
  | _ => false

theorem step_purging (h : act.purgesRuns = false) : (d.step api now act).purging = d.purging := by
  unfold Deployment.step
  cases act with
  | uploading act => rfl
  | expire | deleteBlob =>
    dsimp only
    split <;> rfl
  | remove =>
    dsimp only
    split
    · split <;> rfl
    · rfl
  | select | purge => cases h

theorem after_purging {acts : List (Instant × DeploymentAct)} : ∀ {d : Deployment},
    (acts.all fun a => !a.2.purgesRuns) = true → (Run.after (Deployment.step api) d acts).purging = d.purging := by
  induction acts with
  | nil => intro d _; rfl
  | cons a acts ih =>
    intro d h
    rw [List.all_cons, Bool.and_eq_true, Bool.not_eq_true'] at h
    exact (ih h.2).trans (step_purging h.1)

theorem Deployment.Selected.step (h : d.Selected) (ok : Deployment.Ok d now act) : (d.step api now act).Selected := by
  have same : ∀ {d' : Deployment}, d'.db = d.db → d'.purging = d.purging → d'.Selected := by
    intro d' hdb hp
    exact ⟨fun k r hr => hdb ▸ h.ended k r (hp ▸ hr), fun k r hr a ha => h.bare k r (hp ▸ hr) a (hdb ▸ ha),
      fun k k' r hr hr' => h.once k k' r (hp ▸ hr) (hp ▸ hr')⟩
  cases act with
  | uploading act =>
    rcases d.up.step_db api now act with hdb | ⟨op, hdb⟩
    · exact same hdb rfl
    · exact h.apply hdb rfl
  | expire | deleteBlob =>
    refine same ?_ (step_purging rfl)
    unfold Deployment.step
    dsimp only
    split <;> rfl
  | remove j commits =>
    unfold Deployment.step
    dsimp only
    split
    · split
      · exact ⟨h.ended, fun k r hr a ha => h.bare k r hr a (Table.mem_erase.1 ha).1, h.once⟩
      · exact same rfl rfl
    · exact h
  | select k held before limit =>
    unfold Deployment.step
    dsimp only
    split
    · exact h.select before limit ok
    · exact h
  | purge k commits =>
    unfold Deployment.step
    dsimp only
    split
    · exact h.release k
    · next db hdelete =>
      cases commits with
      | false => exact h.release k
      | true => exact h.purged hdelete

/-- A purge that has selected its runs is not refused their deletion. -/
theorem purge_accepted (h : Run (Deployment.step api) Deployment.Ok t .empty t' d) (k : Nat) :
    ∃ db, d.db.deleteRuns (d.purging k) = .ok db := by
  have hselected := h.invariant' (fun d => d.Selected) (fun _ _ _ h ok => h.step ok)
    ⟨fun _ _ hr => (by cases hr), fun _ _ hr => (by cases hr), fun _ _ _ hr => (by cases hr)⟩
  refine ⟨_, bind_ok.2 ⟨(), refuse_of_not _ fun hany => ?_, rfl⟩⟩
  obtain ⟨a, ha, hin⟩ := List.any_eq_true.1 hany
  exact hselected.bare k a.runId (by simpa using hin) a ha rfl

/-! ## The result -/

/-- **Retention.**  At every moment an artifact's run is there, and its row has an end exactly when the run has
ended; events and answers are of runs that are there; and a run that goes had no artifact, and goes with its log and
its answers. -/
theorem retention_sound (h : Run (Deployment.step api) Deployment.Ok t .empty t' d) :
    d.db.Retained ∧ ∀ now act r, (d.db.run? r).isSome = true → (d.step api now act).db.run? r = none →
      (∀ a ∈ d.db.artifacts.rows, a.runId ≠ r) ∧ (d.step api now act).db.Gone r := by
  refine ⟨Run.retained h, fun now act r hr hnone => ?_⟩
  obtain ⟨row, hr⟩ := Option.isSome_iff_exists.1 hr
  rcases d.step_db api now act with h' | ⟨op, h'⟩ | ⟨ids, h'⟩ | ⟨k, -, h'⟩
  · rw [h', hr] at hnone
    cases hnone
  · obtain ⟨row', hr', -⟩ := run_apply api.runs now op hr
    rw [h', hr'] at hnone
    cases hnone
  · have hsame : (d.db.removeArtifacts ids).run? r = some row := hr
    rw [h', hsame] at hnone
    cases hnone
  · by_cases hin : r ∈ d.purging k
    · have hgone := (deleteRuns_whole h').1 hin
      exact ⟨fun a ha => hgone.artifacts a (deleteRuns_artifacts h' ▸ ha), hgone⟩
    · have hsame := congrArg Prod.fst ((deleteRuns_whole h').2 hin)
      rw [show (d.step api now act).db.run? r = d.db.run? r from hsame, hr] at hnone
      cases hnone

end

/-! ## An artifact of a run that ends -/

/-- Three bytes, in two chunks. -/
def smallUpload : UploadRequest where
  tenantId := "t"
  runId := "r"
  workerId := none
  role := "service"
  checksum := none
  mime := "text/plain"
  body := ⟨none, [[1], [], [2, 3]], false⟩
  artifactId := "art_1"

/-- A run in its caller's process stores an artifact and succeeds; a week later the artifact is purged, and the run
selected. -/
def keptAWhile : List (Instant × DeploymentAct) :=
  [(0, .uploading smallBegin), (1, .uploading (.check 0 smallUpload)),
    (1, .uploading (.store 0 .returned)), (1, .uploading (.record 0 .returned)),
    (2, .uploading smallEnd), (604803, .expire 0 [] 10),
    (604803, .deleteBlob 0 .returned), (604803, .remove 0 true), (604804, .select 0 [] 10 1)]

/-- The deployment after the first `n` steps of it. -/
def keptFor (n : Nat) : Deployment := Run.after (Deployment.step smallArtifacts) .empty (keptAWhile.take n)

example : ((keptFor 4).db.artifacts.rows.all (·.expiresAt = none) && (keptFor 5).db.artifacts.rows.all
    (·.expiresAt = some 604802) && (keptFor 5).db.artifacts.rows.length = 1 && (keptFor 8).db.artifacts.rows.isEmpty &&
    (keptFor 9).purging 0 = ["r"]) = true := by decide +kernel

theorem keptFor_sound : (keptFor 9).db.Retained ∧ ∀ now act r, ((keptFor 9).db.run? r).isSome = true →
    (Deployment.step smallArtifacts (keptFor 9) now act).db.run? r = none →
      (∀ a ∈ (keptFor 9).db.artifacts.rows, a.runId ≠ r) ∧
        (Deployment.step smallArtifacts (keptFor 9) now act).db.Gone r := by
  have hadm : Run.Admitted (Deployment.step smallArtifacts) Deployment.Ok 0 .empty keptAWhile := by
    have hidle : ∀ runId, ¬(keptFor 8).Locks runId := by
      rintro runId ⟨k, hk⟩
      unfold keptFor at hk
      rw [after_purging (by decide)] at hk
      cases hk
    norm_num [keptAWhile, Run.Admitted, Deployment.Ok]
    exact fun runId h => absurd h (hidle runId)
  exact retention_sound (Run.replay_ends hadm)

end AgentRuns
