import AgentRuns.Parts
import AgentRuns.Views
import AgentRuns.Retention

/-!
# The runs of a tenant

`db.of tenantId` is the database with only the tenant's rows.  An operation on the tenant's runs works on it as it does on the whole
database (`perform_of`), and leaves the rows of every other tenant (`perform_others`).  The lookups that name no tenant rest on what
hangs on a run being of its tenant (`Tenanted`).
-/

namespace AgentRuns

open Relational Fallible

namespace Database

/-- The rows of a tenant. -/
def of (db : Database) (tenantId : String) : Database where
  runs := db.runs.only (·.tenantId = tenantId)
  resolutions := db.resolutions.only (·.tenantId = tenantId)
  events := db.events.filter (·.tenantId = tenantId)
  artifacts := db.artifacts.only (·.tenantId = tenantId)

/-- The run is there, and of the tenant. -/
def Holds (db : Database) (tenantId runId : String) : Prop := ∃ row, db.run? runId = some row ∧ row.tenantId = tenantId

/-- What hangs on a run is of the run's tenant, and an answer is kept under its own id. -/
structure Tenanted (lib : Libraries) (db : Database) : Prop where
  resolutions : ∀ kept ∈ db.resolutions.rows, db.Holds kept.tenantId kept.runId ∧
    kept.resolutionId = lib.stableId "res_" [.text kept.runId, .text kept.interruptId]
  events : ∀ e ∈ db.events, db.Holds e.tenantId e.runId
  artifacts : ∀ a ∈ db.artifacts.rows, db.Holds a.tenantId a.runId

/-- What an operation makes of a run stays the tenant's run. -/
def Keeps (decide : RunRow → Except ServiceError (Option RunRow)) : Prop :=
  ∀ row row', decide row = .ok (some row') → row'.runId = row.runId ∧ row'.tenantId = row.tenantId

/-- A run id that another tenant holds. -/
def alien (db : Database) (tenantId runId : String) : Bool := (db.run? runId).any (·.tenantId ≠ tenantId)

section
variable {lib : Libraries} {db db' : Database} {tenantId tenantId' runId : String} {now : Instant} {row row' : RunRow}

theorem Holds.unique (h : db.Holds tenantId runId) (h' : db.Holds tenantId' runId) : tenantId = tenantId' := by
  obtain ⟨row, hr, rfl⟩ := h
  obtain ⟨row', hr', rfl⟩ := h'
  rw [hr] at hr'
  rw [Option.some.inj hr']

/-! ## Reading -/

theorem run?_of (db : Database) (tenantId runId : String) :
    (db.of tenantId).run? runId = (db.run? runId).filter (·.tenantId = tenantId) := Table.find?_only db.runs _ runId

theorem one_of (db : Database) (tenantId runId : String) : (db.of tenantId).one tenantId runId = db.one tenantId runId := by
  unfold one
  rw [run?_of, Option.filter_filter]
  simp

theorem locked_of (db : Database) (tenantId runId : String) (workerId : Option String) :
    (db.of tenantId).locked tenantId runId workerId = db.locked tenantId runId workerId := by
  unfold locked
  rw [one_of]

theorem keyed_of (db : Database) (tenantId : String) (key : Option String) :
    (db.of tenantId).keyed tenantId key = db.keyed tenantId key := by
  refine Table.rows_find?_only fun row _ h => ?_
  rw [decide_eq_true_iff] at h ⊢
  exact h.1

theorem log_of (ht : db.Tenanted lib) (h : db.Holds tenantId runId) : (db.of tenantId).log runId = db.log runId := by
  show (db.events.filter _).filter _ = db.events.filter _
  rw [List.filter_filter]
  refine List.filter_congr fun e he => ?_
  rw [Bool.and_eq_left_iff_imp]
  intro hr
  rw [decide_eq_true_iff] at hr ⊢
  exact Holds.unique (ht.events e he) (hr ▸ h)

/-! ## Writing -/

theorem ended_of (db : Database) (rows : List RunRow) (now : Instant) (tenantId : String) :
    (db.ended rows now).of tenantId = (db.of tenantId).ended rows now := by
  unfold ended of
  congr 1
  refine Table.only_modify fun a => ?_
  split <;> rfl

/-- A transaction that writes a row back and goes on. -/
theorem flush_of {α : Type} {f : Database → Except ServiceError (Database × α)} (hr : db.run? row'.runId = some row)
    (h : row'.tenantId = row.tenantId)
    (hf : f (Database.of { db with runs := db.runs.put row' } tenantId) =
      seen (·.of tenantId) (f { db with runs := db.runs.put row' })) :
    ((db.of tenantId).flush [row'] >>= f) = seen (·.of tenantId) (db.flush [row'] >>= f) := by
  have hput : (db.runs.put row').only (·.tenantId = tenantId) = (db.of tenantId).runs.put row' := by
    refine Table.only_put fun b hb => ?_
    rw [show db.runs.find? row'.runId = some row from hr] at hb
    rw [← Option.some.inj hb, h]
  unfold of at hf
  rw [hput] at hf
  unfold flush refuse
  split
  · rfl
  · exact hf

/-! ## The operations -/

theorem pause_keeps (store : RunStore) (pause : RunPause) (workerId : Option String) :
    Keeps fun row => pauseRow row pause.interrupt pause.checkpoint workerId now := by
  intro row row' h
  have hchange : Change store now (.pause "" "" pause workerId) row row' := pauseRow_change h
  exact ⟨hchange.runId, hchange.tenantId⟩

theorem cancel_keeps (store : RunStore) (body : RunCancel) (canceller : KeyInfo) :
    Keeps fun row => cancelRow row body canceller now := by
  intro row row' h
  have hchange : Change store now (.cancel "" "" body canceller) row row' := cancelRow_change h
  exact ⟨hchange.runId, hchange.tenantId⟩

theorem finish_keeps (store : RunStore) (ending : RunFinish) (workerId : Option String) (draw : Draw) :
    Keeps fun row => finishRow row ending workerId draw now := by
  intro row row' h
  have hchange : Change store now (.finish "" "" ending workerId draw) row row' := finishRow_change h
  exact ⟨hchange.runId, hchange.tenantId⟩

theorem release_keeps (store : RunStore) (request : ReleaseRequest) :
    Keeps fun row => releaseRow row request.workerId request.checkpoint now := by
  intro row row' h
  have hchange : Change store now (.release "" "" request) row row' := releaseRow_change h
  exact ⟨hchange.runId, hchange.tenantId⟩

theorem changing_of {decide : RunRow → Except ServiceError (Option RunRow)} (hd : Keeps decide) :
    (db.of tenantId).changing tenantId runId now decide = seen (·.of tenantId) (db.changing tenantId runId now decide) := by
  unfold changing
  rw [locked_of]
  cases hl : db.locked tenantId runId none with
  | error e => rfl
  | ok row =>
    obtain ⟨⟨hr, -⟩, -⟩ := locked_ok.1 hl
    rw [ok_bind, ok_bind]
    cases hdec : decide row with
    | error e => rfl
    | ok d =>
      cases d with
      | none => rfl
      | some row' =>
        obtain ⟨hid, hten⟩ := hd row row' hdec
        have hr' : db.run? row'.runId = some row := by rw [hid, Table.key_of_find? hr, hr]
        refine flush_of hr' hten ?_
        rw [seen_ok, ended_of]

theorem saved_same (row : RunRow) (checkpoint : Option Json) (now : Instant) :
    (row.saved checkpoint now).runId = row.runId ∧ (row.saved checkpoint now).tenantId = row.tenantId := by
  unfold RunRow.saved
  split <;> exact ⟨rfl, rfl⟩

theorem heartbeat_of {store : RunStore} {request : HeartbeatRequest} :
    store.heartbeat (db.of tenantId) tenantId runId request now =
      seen (·.of tenantId) (store.heartbeat db tenantId runId request now) := by
  unfold RunStore.heartbeat
  cases boundedCheckpoint request.checkpoint with
  | error e => rfl
  | ok checkpoint =>
    rw [ok_bind, ok_bind, locked_of]
    cases hl : db.locked tenantId runId (some request.workerId) with
    | error e => rfl
    | ok row =>
      obtain ⟨⟨hr, -⟩, -⟩ := locked_ok.1 hl
      rw [ok_bind, ok_bind]
      unfold refuse
      split
      · rfl
      · obtain ⟨hkey, hten⟩ := saved_same row checkpoint now
        have hr' : db.run? ((row.saved checkpoint now).leased request.workerId request.leaseSeconds now).runId = some row := by
          show db.run? (row.saved checkpoint now).runId = some row
          rw [hkey, Table.key_of_find? hr, hr]
        exact flush_of hr' hten rfl

theorem startedBefore_of {start : RunStart} (ht : start.tenantId = tenantId) (queue strict : Bool) :
    (db.of tenantId).startedBefore start queue strict now = db.startedBefore start queue strict now := by
  subst ht
  unfold startedBefore
  simp only [one_of, keyed_of]

theorem start_of {start : RunStart} {queue strict : Bool} (ht : start.tenantId = tenantId)
    (hfree : db.alien tenantId start.runId = false) :
    (db.of tenantId).start start queue strict now = seen (·.of tenantId) (db.start start queue strict now) := by
  have hmine : ∀ row, db.run? start.runId = some row → decide (row.tenantId = tenantId) = true := by
    intro row hr
    unfold alien at hfree
    rw [hr, Option.any_some] at hfree
    simpa using hfree
  have hrun : (db.of tenantId).run? start.runId = db.run? start.runId := by
    rw [run?_of]
    cases hr : db.run? start.runId with
    | none => rfl
    | some row => exact Option.filter_some_pos (hmine row hr)
  have hconflicts : (db.of tenantId).conflicts (startedRow start queue now) = db.conflicts (startedRow start queue now) := by
    unfold conflicts
    rw [show (startedRow start queue now).runId = start.runId from rfl, hrun,
      show (startedRow start queue now).tenantId = tenantId from ht, keyed_of]
  unfold Database.start
  dsimp only
  rw [hconflicts, startedBefore_of ht]
  unfold refuse
  split
  · rfl
  · rw [ok_bind, ok_bind]
    split
    · cases db.startedBefore start queue strict now <;> rfl
    · have hinsert : (db.runs.insert (startedRow start queue now)).only (·.tenantId = tenantId) =
          (db.of tenantId).runs.insert (startedRow start queue now) :=
        Table.only_insert (decide_eq_true ht) fun row hr => hmine row hr
      rw [seen_ok]
      unfold of at hinsert ⊢
      rw [hinsert]

/-- A start that names a run of another tenant inserts nothing: what it answers is a matter of its own tenant's rows. -/
theorem start_alien {start : RunStart} {queue strict : Bool} (ht : start.tenantId = tenantId)
    (halien : db.alien tenantId start.runId = true) :
    db.start start queue strict now = (do
      refuse ((startedRow start queue now).fits = false) (.internal "the database refused a value")
      let found ← (db.of tenantId).startedBefore start queue strict now
      .ok (db, found, false)) := by
  have hconflicts : db.conflicts (startedRow start queue now) = true := by
    unfold alien at halien
    obtain ⟨row, hr, -⟩ := (Option.any_eq_true _ _).1 halien
    unfold conflicts
    rw [show db.run? (startedRow start queue now).runId = some row from hr]
    rfl
  unfold Database.start
  dsimp only
  rw [hconflicts, startedBefore_of ht]
  rfl

/-- A pause changes the run, and so does a release. -/
theorem pause_changing {store : RunStore} {pause : RunPause} {workerId : Option String} {x : Database × RunRecord × Bool}
    (h : store.pause db tenantId runId pause workerId now = .ok x) :
    db.changing tenantId runId now (fun row => pauseRow row pause.interrupt pause.checkpoint workerId now) = .ok x := by
  unfold RunStore.pause at h
  obtain ⟨_, -, h⟩ := bind_ok.1 h
  obtain ⟨_, -, h⟩ := bind_ok.1 h
  obtain ⟨checkpoint, hb, h⟩ := bind_ok.1 h
  cases boundedCheckpoint_ok hb
  exact h

theorem release_changing {request : ReleaseRequest} {x : Database × RunRecord × Bool}
    (h : db.release tenantId runId request now = .ok x) :
    db.changing tenantId runId now (fun row => releaseRow row request.workerId request.checkpoint now) = .ok x := by
  unfold release at h
  obtain ⟨checkpoint, hb, h⟩ := bind_ok.1 h
  cases boundedCheckpoint_ok hb
  exact h

theorem pause_of {store : RunStore} {pause : RunPause} {workerId : Option String} :
    store.pause (db.of tenantId) tenantId runId pause workerId now =
      seen (·.of tenantId) (store.pause db tenantId runId pause workerId now) := by
  unfold RunStore.pause
  simp only [seen_bind]
  refine bind_congr fun _ => bind_congr fun _ => ?_
  cases hb : boundedCheckpoint pause.checkpoint with
  | error e => rfl
  | ok checkpoint =>
    cases boundedCheckpoint_ok hb
    exact changing_of (pause_keeps store pause workerId)

theorem release_of (store : RunStore) {request : ReleaseRequest} : (db.of tenantId).release tenantId runId request now =
    seen (·.of tenantId) (db.release tenantId runId request now) := by
  unfold release
  cases hb : boundedCheckpoint request.checkpoint with
  | error e => rfl
  | ok checkpoint =>
    cases boundedCheckpoint_ok hb
    exact changing_of (release_keeps store request)

/-- An answer's id is taken by an answer of the same run. -/
theorem resolution_of (hres : Function.Injective (lib.stableId "res_")) (ht : db.Tenanted lib) (h : db.Holds tenantId runId)
    {resolution : InterruptResolution} (hrun : resolution.runId = runId) {kept : ResolutionRow}
    (hk : db.resolutions.find? (resolutionId lib resolution) = some kept) : kept.tenantId = tenantId := by
  obtain ⟨hm, hkey⟩ := Table.find?_eq_some.1 hk
  obtain ⟨hholds, hid⟩ := ht.resolutions kept hm
  have hparts := hres (hid.symm.trans hkey)
  have hsame : kept.runId = resolution.runId := by
    simpa using (List.cons.inj hparts).1
  rw [hsame, hrun] at hholds
  exact hholds.unique h

theorem answeredBy_of {store : RunStore} {resolution : InterruptResolution} :
    store.answeredBy (db.of tenantId) tenantId resolution = store.answeredBy db tenantId resolution := by
  unfold RunStore.answeredBy
  rw [show (db.of tenantId).resolutions.find? (resolutionId store.lib resolution) = _ from Table.find?_only _ _ _]
  cases db.resolutions.find? (resolutionId store.lib resolution) with
  | none => rfl
  | some kept =>
    by_cases hmine : kept.tenantId = tenantId <;> simp [Option.filter_some, hmine]

theorem resume_of {store : RunStore} {resolution : InterruptResolution} {answerer : KeyInfo}
    (hres : Function.Injective (store.lib.stableId "res_")) (ht : db.Tenanted store.lib) :
    store.resume (db.of tenantId) tenantId runId resolution answerer now =
      seen (·.of tenantId) (store.resume db tenantId runId resolution answerer now) := by
  unfold RunStore.resume
  by_cases hrun : resolution.runId = runId
  · rw [refuse_of_not _ (not_not.2 hrun), ok_bind, ok_bind, locked_of]
    cases hl : db.locked tenantId runId none with
    | error e => rfl
    | ok row =>
      obtain ⟨⟨hr, hmine⟩, -⟩ := locked_ok.1 hl
      rw [ok_bind, ok_bind, answeredBy_of]
      cases ha : row.awaiting.filter (·.interruptId = resolution.interruptId) with
      | none =>
        dsimp only
        split
        · rfl
        · split <;> rfl
      | some asked =>
        dsimp only
        simp only [seen_bind]
        refine bind_congr fun _ => bind_congr fun problem => ?_
        cases problem with
        | some problem => rfl
        | none =>
          dsimp only
          cases hm : resumeRow row resolution now with
          | error e => rfl
          | ok row' =>
            have hchange : Change store now (.resume tenantId runId resolution answerer) row row' :=
              resumeRow_change (Option.filter_eq_some_iff.1 ha).1 (by simpa using (Option.filter_eq_some_iff.1 ha).2) hm
            have hr' : db.run? row'.runId = some row := by rw [hchange.runId, Table.key_of_find? hr, hr]
            have hfind : (db.of tenantId).resolutions.find? (store.resolutionRow row asked resolution now).resolutionId =
                db.resolutions.find? (store.resolutionRow row asked resolution now).resolutionId := by
              rw [show (db.of tenantId).resolutions.find? _ = _ from Table.find?_only _ _ _]
              cases hk : db.resolutions.find? (store.resolutionRow row asked resolution now).resolutionId with
              | none => rfl
              | some kept => exact Option.filter_some_pos (decide_eq_true (resolution_of hres ht ⟨row, hr, hmine⟩ hrun hk))
            have hinsert : (db.resolutions.insert (store.resolutionRow row asked resolution now)).only (·.tenantId = tenantId) =
                (db.of tenantId).resolutions.insert (store.resolutionRow row asked resolution now) :=
              Table.only_insert (decide_eq_true hmine) fun kept hk =>
                decide_eq_true (resolution_of hres ht ⟨row, hr, hmine⟩ hrun hk)
            rw [ok_bind, ok_bind, hfind]
            simp only [seen_bind]
            refine bind_congr fun _ => bind_congr fun _ => ?_
            rw [← seen_bind]
            refine flush_of hr' hchange.tenantId ?_
            rw [seen_ok, ended_of]
            unfold of at hinsert ⊢
            dsimp only at hinsert ⊢
            rw [hinsert]
  · rw [refuse_of _ hrun]
    rfl

theorem checkArtifactWriter_of {workerId : Option String} {role : String} :
    (db.of tenantId).checkArtifactWriter tenantId runId workerId role = db.checkArtifactWriter tenantId runId workerId role := by
  unfold checkArtifactWriter
  rw [one_of]

/-- A writer is let in to a run of its tenant. -/
theorem checkArtifactWriter_holds {workerId : Option String} {role : String} {u : Unit}
    (h : db.checkArtifactWriter tenantId runId workerId role = .ok u) : db.Holds tenantId runId := by
  unfold checkArtifactWriter at h
  split at h
  · cases h
  · next row hrow => exact ⟨row, one_eq_some.1 hrow⟩

theorem addArtifact_of {artifact : ArtifactRow} (ht : db.Tenanted lib) (hmine : artifact.tenantId = tenantId)
    (h : db.Holds tenantId artifact.runId)
    (hfree : ∀ a, db.artifacts.find? artifact.artifactId = some a → a.tenantId = tenantId) :
    (db.of tenantId).addArtifact artifact = seen (·.of tenantId) (db.addArtifact artifact) := by
  have hfind : (db.of tenantId).artifacts.find? artifact.artifactId = db.artifacts.find? artifact.artifactId := by
    rw [show (db.of tenantId).artifacts.find? _ = _ from Table.find?_only _ _ _]
    cases ha : db.artifacts.find? artifact.artifactId with
    | none => rfl
    | some a => exact Option.filter_some_pos (decide_eq_true (hfree a ha))
  have hinsert : (db.artifacts.insert artifact).only (·.tenantId = tenantId) = (db.of tenantId).artifacts.insert artifact :=
    Table.only_insert (decide_eq_true hmine) fun a ha => decide_eq_true (hfree a ha)
  unfold addArtifact
  rw [show (db.of tenantId).artifacts.rows.find? _ = _ from Table.rows_find?_only fun a ha hsame => by
    rw [decide_eq_true_iff] at hsame ⊢
    exact (hsame.1 ▸ ht.artifacts a ha).unique h]
  split
  · rfl
  · rw [hfind, seen_bind]
    refine bind_congr fun _ => ?_
    rw [seen_ok]
    unfold of at hinsert ⊢
    dsimp only at hinsert ⊢
    rw [hinsert]

theorem upload_of {workerId : Option String} {role artifactId : String} {blob : StoredBlob} {mime : String}
    (ht : db.Tenanted lib) (hfree : ∀ a, db.artifacts.find? artifactId = some a → a.tenantId = tenantId) :
    (db.of tenantId).upload tenantId runId workerId role artifactId blob mime now =
      seen (·.of tenantId) (db.upload tenantId runId workerId role artifactId blob mime now) := by
  unfold upload
  rw [checkArtifactWriter_of]
  cases hc : db.checkArtifactWriter tenantId runId workerId role with
  | error e => rfl
  | ok u =>
    exact addArtifact_of ht rfl (checkArtifactWriter_holds hc) hfree

theorem appending_of (ht : db.Tenanted lib) (h : db.Holds tenantId runId) (events : List RunEvent) :
    (db.of tenantId).appending tenantId runId events = db.appending tenantId runId events := by
  unfold appending logged lastPosition
  rw [log_of ht h]

/-- What an append adds is of the tenant's run. -/
theorem appending_own (tenantId runId : String) (events : List RunEvent) :
    ∀ e ∈ (db.appending tenantId runId events).added, e.runId = runId ∧ e.tenantId = tenantId := by
  obtain ⟨new, hnew⟩ := appending_spec tenantId runId events
    ⟨db.logged runId (events.map RunEvent.identity), db.lastPosition runId, []⟩
  intro e he
  rw [show (db.appending tenantId runId events).added = [] ++ new from hnew.added, List.nil_append] at he
  exact ⟨(hnew.own e he).1, (hnew.own e he).2.1⟩

theorem appendEvents_of {append : EventsAppend} {workerId : Option String} (ht : db.Tenanted lib) :
    (db.of tenantId).appendEvents tenantId runId append workerId =
      seen (·.of tenantId) (db.appendEvents tenantId runId append workerId) := by
  unfold appendEvents
  rw [locked_of, seen_bind]
  refine bind_congr fun _ => ?_
  cases hl : db.locked tenantId runId none with
  | error e => rfl
  | ok row =>
    obtain ⟨hholds, -⟩ := locked_ok.1 hl
    rw [ok_bind, ok_bind, appending_of ht ⟨row, hholds⟩]
    simp only [seen_bind]
    refine bind_congr fun _ => bind_congr fun _ => bind_congr fun _ => bind_congr fun _ => ?_
    rw [seen_ok]
    unfold of
    dsimp only
    rw [List.filter_append, List.filter_eq_self.2 fun e he => decide_eq_true (appending_own tenantId runId _ e he).2]

end

end Database

/-! ## An operation of the tenant's -/

namespace Op

/-- The tenant's own requests. -/
def By (tenantId : String) : Op → Prop
  | start body _ _ => body.tenantId = tenantId
  | heartbeat tenantId' _ _ => tenantId' = tenantId
  | pause tenantId' _ _ _ => tenantId' = tenantId
  | resume tenantId' _ _ _ => tenantId' = tenantId
  | cancel tenantId' _ _ _ => tenantId' = tenantId
  | finish tenantId' _ _ _ _ => tenantId' = tenantId
  | release tenantId' _ _ => tenantId' = tenantId
  | upload tenantId' _ _ _ _ _ _ => tenantId' = tenantId
  | appendEvents tenantId' _ _ _ => tenantId' = tenantId
  | _ => False

/-- The id a start names. -/
def named : Op → Option String
  | start body _ _ => some body.runId
  | _ => none

/-- The id minted for it is no other tenant's. -/
def Fresh (tenantId : String) (db : Database) : Op → Prop
  | upload _ _ _ _ artifactId _ _ => ∀ a, db.artifacts.find? artifactId = some a → a.tenantId = tenantId
  | _ => True

end Op

section
variable {store : RunStore} {now : Instant} {op : Op} {db db' : Database} {tenantId : String} {answer : Answer}

theorem answering_seen {α : Type} (f : α → Answer) (x : Except ServiceError (Database × α)) (tenantId : String) :
    answering f (seen (·.of tenantId) x) = seen (·.of tenantId) (answering f x) := by
  cases x <;> rfl

/-- **A tenant's operation works on its rows alone.** -/
theorem perform_of (hres : Function.Injective (store.lib.stableId "res_")) (ht : db.Tenanted store.lib) (hby : op.By tenantId)
    (hnamed : op.named.all (fun runId => !db.alien tenantId runId) = true) (hfresh : op.Fresh tenantId db) :
    perform store op now (db.of tenantId) = seen (·.of tenantId) (perform store op now db) := by
  cases op with
  | start start queue strict =>
    have hfree : db.alien tenantId start.runId = false := by simpa [Op.named] using hnamed
    show answering _ _ = seen _ (answering _ _)
    rw [Database.start_of hby hfree, answering_seen]
  | heartbeat =>
    cases hby
    show answering _ _ = seen _ (answering _ _)
    rw [Database.heartbeat_of, answering_seen]
  | pause =>
    cases hby
    show answering _ _ = seen _ (answering _ _)
    rw [Database.pause_of, answering_seen]
  | resume =>
    cases hby
    show answering _ _ = seen _ (answering _ _)
    rw [Database.resume_of hres ht, answering_seen]
  | cancel =>
    cases hby
    show answering _ _ = seen _ (answering _ _)
    rw [Database.cancel, Database.changing_of (Database.cancel_keeps store _ _), answering_seen]
    rfl
  | finish =>
    cases hby
    show answering _ _ = seen _ (answering _ _)
    rw [Database.finish, Database.changing_of (Database.finish_keeps store _ _ _), answering_seen]
    rfl
  | release =>
    cases hby
    show answering _ _ = seen _ (answering _ _)
    rw [Database.release_of store, answering_seen]
  | upload =>
    cases hby
    show answering _ _ = seen _ (answering _ _)
    rw [Database.upload_of ht hfresh, answering_seen]
  | appendEvents =>
    cases hby
    show answering _ _ = seen _ (answering _ _)
    rw [Database.appendEvents_of ht, answering_seen]
  | _ => cases hby

/-! ### The other tenants -/

/-- A row written over one of the tenant's. -/
theorem Database.put_others {row row' : RunRow} (hr : db.run? row'.runId = some row) (hmine : row.tenantId = tenantId)
    (hten : row'.tenantId = row.tenantId) {other : String} (hne : other ≠ tenantId) :
    Database.of { db with runs := db.runs.put row' } other = db.of other := by
  have hout : row.tenantId ≠ other := by
    rw [hmine]
    exact hne.symm
  have hput : (db.runs.put row').only (·.tenantId = other) = db.runs.only (·.tenantId = other) := by
    refine Table.only_put_other (decide_eq_false (by rw [hten]; exact hout)) fun b hb => ?_
    rw [show db.runs.find? row'.runId = some row from hr] at hb
    rw [← Option.some.inj hb]
    exact decide_eq_false hout
  unfold of
  dsimp only
  rw [hput]

/-- The artifacts of one of the tenant's runs. -/
theorem Database.ended_others {row : RunRow} (h : ∀ a ∈ db.artifacts.rows, a.runId = row.runId → a.tenantId = tenantId)
    {other : String} (hne : other ≠ tenantId) : (db.ended [row] now).of other = db.of other := by
  unfold ended of
  congr 1
  dsimp only
  refine Table.only_modify_other (fun a => ?_) fun a ha hother => if_neg ?_
  · split <;> rfl
  · rintro ⟨hgone, -⟩
    obtain ⟨row', hrow', hid⟩ := List.mem_map.1 hgone
    rw [List.mem_singleton.1 (List.mem_filter.1 hrow').1] at hid
    rw [decide_eq_true_iff] at hother
    exact hne (hother.symm.trans (h a ha hid.symm))

/-- One of the tenant's runs, changed and perhaps ended. -/
theorem Database.changed_others {lib : Libraries} {row row' : RunRow} (ht : db.Tenanted lib) (hr : db.run? row'.runId = some row)
    (hmine : row.tenantId = tenantId) (hten : row'.tenantId = row.tenantId) {other : String} (hne : other ≠ tenantId) :
    (Database.ended { db with runs := db.runs.put row' } [row'] now).of other = db.of other := by
  rw [Database.ended_others (fun a ha he => (he ▸ ht.artifacts a ha).unique ⟨row, hr, hmine⟩) hne]
  exact Database.put_others hr hmine hten hne

theorem Database.changing_others {lib : Libraries} {runId : String} {decide : RunRow → Except ServiceError (Option RunRow)}
    {run : RunRecord} {changed : Bool} (ht : db.Tenanted lib) (hd : Database.Keeps decide)
    (h : db.changing tenantId runId now decide = .ok (db', run, changed)) {other : String} (hne : other ≠ tenantId) :
    db'.of other = db.of other := by
  obtain ⟨row, ⟨hr, hmine⟩, ⟨-, rfl, -⟩ | ⟨row', hdec, -, rfl, -⟩⟩ := Database.changing_ok.1 h
  · rfl
  · obtain ⟨hid, hten⟩ := hd row row' hdec
    exact Database.changed_others ht (by rw [hid, Table.key_of_find? hr, hr]) hmine hten hne

/-- **A tenant's operation leaves every other tenant's rows.** -/
theorem perform_others (ht : db.Tenanted store.lib) (hby : op.By tenantId) (h : perform store op now db = .ok (db', answer))
    {other : String} (hne : other ≠ tenantId) : db'.of other = db.of other := by
  cases op with
  | start start queue strict =>
    obtain ⟨⟨run, created⟩, hp, -⟩ := answering_ok.1 h
    unfold Database.start at hp
    obtain ⟨_, -, hp⟩ := bind_ok.1 hp
    split at hp
    · obtain ⟨_, -, hp⟩ := bind_ok.1 hp
      cases hp
      rfl
    · cases hp
      have hout : (startedRow start queue now).tenantId ≠ other := fun he => hne (he.symm.trans hby)
      have hinsert : (db.runs.insert (startedRow start queue now)).only (·.tenantId = other) =
          db.runs.only (·.tenantId = other) := Table.only_insert_other (decide_eq_false hout)
      unfold Database.of
      rw [hinsert]
  | heartbeat tenantId' runId request =>
    cases hby
    obtain ⟨lease, hp, -⟩ := answering_ok.1 h
    unfold RunStore.heartbeat at hp
    obtain ⟨checkpoint, -, hp⟩ := bind_ok.1 hp
    obtain ⟨row, hrow, hp⟩ := bind_ok.1 hp
    obtain ⟨⟨hr, hmine⟩, -⟩ := Database.locked_ok.1 hrow
    obtain ⟨_, -, hp⟩ := bind_ok.1 hp
    obtain ⟨_, hf, hp⟩ := bind_ok.1 hp
    obtain ⟨-, rfl⟩ := Database.flush_ok.1 hf
    cases hp
    obtain ⟨hkey, hten⟩ := Database.saved_same row checkpoint now
    have hr' : db.run? ((row.saved checkpoint now).leased request.workerId request.leaseSeconds now).runId = some row := by
      show db.run? (row.saved checkpoint now).runId = some row
      rw [hkey, Table.key_of_find? hr, hr]
    exact Database.put_others hr' hmine hten hne
  | pause tenantId' runId pause workerId =>
    cases hby
    obtain ⟨⟨run, changed⟩, hp, -⟩ := answering_ok.1 h
    exact Database.changing_others ht (Database.pause_keeps store pause workerId) (Database.pause_changing hp) hne
  | cancel tenantId' runId body canceller =>
    cases hby
    obtain ⟨⟨run, changed⟩, hp, -⟩ := answering_ok.1 h
    exact Database.changing_others ht (Database.cancel_keeps store body canceller) hp hne
  | finish tenantId' runId ending workerId draw =>
    cases hby
    obtain ⟨⟨run, changed⟩, hp, -⟩ := answering_ok.1 h
    exact Database.changing_others ht (Database.finish_keeps store ending workerId draw) hp hne
  | release tenantId' runId request =>
    cases hby
    obtain ⟨⟨run, changed⟩, hp, -⟩ := answering_ok.1 h
    exact Database.changing_others ht (Database.release_keeps store request) (Database.release_changing hp) hne
  | resume tenantId' runId resolution answerer =>
    cases hby
    obtain ⟨⟨run, changed⟩, hp, -⟩ := answering_ok.1 h
    obtain ⟨row, ⟨hr, hmine⟩, -, ⟨-, -, rfl, -⟩ | ⟨asked, row', ha, hsame, hm, -, -, rfl, -⟩⟩ := resume_ok hp
    · rfl
    · have hchange : Change store now (.resume tenantId runId resolution answerer) row row' := resumeRow_change ha hsame hm
      have hr' : db.run? row'.runId = some row := by rw [hchange.runId, Table.key_of_find? hr, hr]
      have hinsert : (db.resolutions.insert (store.resolutionRow row asked resolution now)).only (·.tenantId = other) =
          db.resolutions.only (·.tenantId = other) := by
        refine Table.only_insert_other (decide_eq_false ?_)
        show row.tenantId ≠ other
        rw [hmine]
        exact hne.symm
      have hchanged : (Database.ended { db with runs := db.runs.put row' } [row'] now).of other = db.of other :=
        Database.changed_others ht hr' hmine hchange.tenantId hne
      unfold Database.of Database.ended at hchanged ⊢
      dsimp only at hchanged ⊢
      rw [hinsert]
      exact hchanged
  | upload tenantId' runId workerId role artifactId blob mime =>
    cases hby
    obtain ⟨⟨row, created⟩, hp, -⟩ := answering_ok.1 h
    obtain ⟨-, ⟨-, rfl, -⟩ | ⟨-, -, rfl, rfl⟩⟩ := upload_ok hp
    · rfl
    · have hinsert : (db.artifacts.insert ⟨artifactId, runId, tenantId, blob.key, mime, blob.size, checksumOf blob.sha256, now,
          none⟩).only (·.tenantId = other) = db.artifacts.only (·.tenantId = other) :=
        Table.only_insert_other (decide_eq_false hne.symm)
      unfold Database.of
      rw [hinsert]
  | appendEvents tenantId' runId append workerId =>
    cases hby
    obtain ⟨appended, hp, -⟩ := answering_ok.1 h
    obtain ⟨row, -, -, -, -, -, rfl, -⟩ := Database.appendEvents_ok hp
    have hnone : (db.appending tenantId runId append.events).added.filter (·.tenantId = other) = [] := by
      rw [List.filter_eq_nil_iff]
      intro e he
      rw [(Database.appending_own tenantId runId append.events e he).2, decide_eq_true_iff]
      exact hne.symm
    unfold Database.of
    rw [List.filter_append, hnone, List.append_nil]
  | _ => cases hby

/-! ### It stays so -/

namespace Database

theorem Holds.apply {r : String} (h : db.Holds tenantId r) : (apply store db now op).Holds tenantId r := by
  obtain ⟨row, hr, rfl⟩ := h
  obtain ⟨row', hr', rfl | hchange⟩ := run_apply store now op hr
  · exact ⟨row', hr', rfl⟩
  · exact ⟨row', hr', hchange.tenantId⟩

theorem logged_holds {e : RunEventRow} (h : e ∈ (AgentRuns.apply store db now op).events) :
    e ∈ db.events ∨ db.Holds e.tenantId e.runId := by
  unfold AgentRuns.apply at h
  cases hp : perform store op now db with
  | error _ =>
    rw [hp] at h
    exact Or.inl h
  | ok result =>
    obtain ⟨db', answer⟩ := result
    rw [hp, orElse_ok] at h
    cases perform_effect hp with
    | @appended tenantId runId append workerId answer is ok =>
      obtain ⟨row, hr, hmine, -⟩ := appendEvents_ok ok
      rcases List.mem_append.1 h with h | h
      · exact Or.inl h
      · obtain ⟨hid, hten⟩ := appending_own tenantId runId append.events e h
        rw [hid, hten]
        exact Or.inr ⟨row, hr, hmine⟩
    | _ => exact Or.inl h

theorem artifact_holds {a : ArtifactRow} (h : a ∈ (AgentRuns.apply store db now op).artifacts.rows) :
    (∃ b ∈ db.artifacts.rows, b.runId = a.runId ∧ b.tenantId = a.tenantId) ∨ db.Holds a.tenantId a.runId := by
  cases hu : op.isUpload with
  | false =>
    obtain ⟨gone, at_, hrows⟩ := artifacts_other store now db hu
    rw [hrows] at h
    obtain ⟨b, hb, rfl⟩ := List.mem_map.1 h
    refine Or.inl ⟨b, hb, ?_⟩
    unfold ArtifactRow.expireWith
    split <;> exact ⟨rfl, rfl⟩
  | true =>
    cases op with
    | upload tenantId runId workerId role artifactId blob mime =>
      cases hup : db.upload tenantId runId workerId role artifactId blob mime now with
      | error e =>
        rw [apply_upload_error hup] at h
        exact Or.inl ⟨a, h, rfl, rfl⟩
      | ok result =>
        obtain ⟨db', row, created⟩ := result
        rw [apply_upload _ hup] at h
        obtain ⟨-, ⟨-, rfl, -⟩ | ⟨-, hnew, rfl, rfl⟩⟩ := upload_ok hup
        · exact Or.inl ⟨a, h, rfl, rfl⟩
        · obtain ⟨_, hc, -⟩ := bind_ok.1 hup
          rw [Table.rows_insert hnew, List.mem_append, List.mem_singleton] at h
          rcases h with h | rfl
          · exact Or.inl ⟨a, h, rfl, rfl⟩
          · exact Or.inr (checkArtifactWriter_holds hc)
    | _ => cases hu

theorem resolution_holds {kept : ResolutionRow} (h : kept ∈ (AgentRuns.apply store db now op).resolutions.rows) :
    kept ∈ db.resolutions.rows ∨ (db.Holds kept.tenantId kept.runId ∧
      kept.resolutionId = store.lib.stableId "res_" [.text kept.runId, .text kept.interruptId]) := by
  rcases apply_effect store now op db with he | ⟨answer, he⟩
  · exact Or.inl (he ▸ h)
  · rcases he.resolutions with hsame | ⟨tenantId, runId, resolution, answerer, asked, row, row', -, hr, -, hrun, -, -, hnew, hres⟩
    · exact Or.inl (hsame ▸ h)
    · rw [hres, Table.rows_insert hnew, List.mem_append, List.mem_singleton] at h
      rcases h with h | rfl
      · exact Or.inl h
      · have hkey : row.runId = runId := Table.key_of_find? hr
        refine Or.inr ⟨⟨row, by rw [← hr, ← hkey]; rfl, rfl⟩, ?_⟩
        show resolutionId store.lib resolution = store.lib.stableId "res_" [.text row.runId, .text resolution.interruptId]
        unfold resolutionId
        rw [hrun, hkey]

/-- **What an operation adds hangs on a run of its own tenant.** -/
theorem Tenanted.apply (ht : db.Tenanted store.lib) (now : Instant) (op : Op) : (apply store db now op).Tenanted store.lib where
  resolutions kept hk := by
    rcases resolution_holds hk with hk | ⟨hholds, hid⟩
    · exact ⟨(ht.resolutions kept hk).1.apply, (ht.resolutions kept hk).2⟩
    · exact ⟨hholds.apply, hid⟩
  events e he := by
    rcases logged_holds he with he | hholds
    · exact (ht.events e he).apply
    · exact hholds.apply
  artifacts a ha := by
    rcases artifact_holds ha with ⟨b, hb, hid, hten⟩ | hholds
    · rw [← hid, ← hten]
      exact (ht.artifacts b hb).apply
    · exact hholds.apply

/-- What a purge leaves hangs on a run it left. -/
theorem Tenanted.deleteRuns {lib : Libraries} {gone : List String} (ht : db.Tenanted lib) (h : db.deleteRuns gone = .ok db') :
    db'.Tenanted lib := by
  obtain ⟨_, hrefused, h⟩ := bind_ok.1 h
  cases h
  have hnone := refuse_ok.1 hrefused
  have hleft : ∀ {tenantId r}, db.Holds tenantId r → gone.contains r = false →
      ∃ row, (db.runs.erase fun row => gone.contains row.runId).find? r = some row ∧ row.tenantId = tenantId := by
    rintro _ r ⟨row, hr, rfl⟩ hkept
    refine ⟨row, ?_, rfl⟩
    rw [Table.find?_erase, show db.runs.find? r = some row from hr, Option.filter_some_pos]
    rw [Table.key_of_find? hr, hkept]
    rfl
  constructor
  · intro kept hk
    obtain ⟨hm, hkept⟩ := Table.mem_erase.1 hk
    exact ⟨hleft (ht.resolutions kept hm).1 hkept, (ht.resolutions kept hm).2⟩
  · intro e he
    obtain ⟨hm, hkept⟩ := List.mem_filter.1 he
    exact hleft (ht.events e hm) (by simpa using hkept)
  · intro a ha
    refine hleft (ht.artifacts a ha) ?_
    rw [Bool.eq_false_iff]
    intro hgone
    exact hnone (List.any_eq_true.2 ⟨a, ha, hgone⟩)

theorem Tenanted.removeArtifacts {lib : Libraries} (ht : db.Tenanted lib) (ids : List String) :
    (db.removeArtifacts ids).Tenanted lib where
  resolutions := ht.resolutions
  events := ht.events
  artifacts a ha := ht.artifacts a (Table.mem_erase.1 ha).1

end Database

end

end AgentRuns
