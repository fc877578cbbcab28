import AgentRuns.Purges
import AgentRuns.EventLog

/-!
# An ended run is frozen

What is kept of a run: its row, its log and its answers (`Database.kept`).  Once the run has ended no operation
changes any of it (`kept_apply`); a purge that takes the run takes all of it at once (`deleteRuns_whole`).

    ended  =>  kept as it ended, or purged whole in between                  (ended_frozen)
-/

namespace AgentRuns

open Relational Fallible Timed

/-- All that is kept of a run. -/
def Database.kept (db : Database) (runId : String) : Option RunRow × List RunEventRow × List ResolutionRow :=
  (db.run? runId, db.log runId, db.answered runId)

/-- Nothing of a run is left. -/
structure Database.Gone (db : Database) (runId : String) : Prop where
  kept : db.kept runId = (none, [], [])
  artifacts : ∀ a ∈ db.artifacts.rows, a.runId ≠ runId

section
variable {store : RunStore} {api : ArtifactApi} {now t t' : Instant} {op : Op} {db db' : Database} {row : RunRow}
  {r : String} {d d' : Deployment} {act : DeploymentAct} {gone : List String}

/-! ## One step -/

/-- An answer is recorded of a run that changes, so not of one that ended. -/
theorem answered_ended (hr : db.run? r = some row) (hf : row.status.final = true) :
    (apply store db now op).answered r = db.answered r := by
  rcases apply_effect store now op db with h | ⟨answer, h⟩
  · rw [h]
  · rcases h.resolutions with h | ⟨_, _, resolution, _, asked, row₁, _, -, hr₁, -, -, hc, -, hnew, he⟩
    · unfold Database.answered
      rw [h]
    · unfold Database.answered
      rw [he, Table.rows_insert hnew, List.filter_append]
      have hne : row₁.runId ≠ r := by
        intro hid
        have hfound : db.run? r = some row₁ := by rw [← hid]; exact run?_of_mem (Table.mem_of_find? hr₁)
        rw [hr] at hfound
        cases hfound
        rw [hc.unended] at hf
        cases hf
      have hnone : [store.resolutionRow row₁ asked resolution now].filter (·.runId = r) = [] :=
        List.filter_eq_nil_iff.2 fun a ha hk => by
          cases List.mem_singleton.1 ha
          exact hne (of_decide_eq_true hk)
      rw [hnone, List.append_nil]

theorem kept_apply (hr : db.run? r = some row) (hf : row.status.final = true) :
    (apply store db now op).kept r = db.kept r := by
  unfold Database.kept
  rw [ended_apply hr hf, log_ended store now op hr hf, answered_ended hr hf, hr]

/-- Of the rows a purge leaves, those of one run: none, or all there were. -/
theorem filter_purged {α : Type} (gone : List String) (r : String) (l : List α) (runId : α → String) :
    (l.filter fun a => !gone.contains (runId a)).filter (fun a => runId a = r) =
      if r ∈ gone then [] else l.filter fun a => runId a = r := by
  rw [List.filter_filter]
  split
  · next hr =>
    rw [List.filter_eq_nil_iff]
    intro a _ h
    simp only [Bool.and_eq_true, decide_eq_true_eq, Bool.not_eq_true', List.contains_eq_mem,
      decide_eq_false_iff_not] at h
    exact h.2 (h.1 ▸ hr)
  · next hr =>
    refine List.filter_congr fun a _ => ?_
    by_cases h : runId a = r
    · simp [h, hr]
    · simp [h]

/-- A purge takes all of a run, and leaves every other run. -/
theorem deleteRuns_whole (h : db.deleteRuns gone = .ok db') :
    (r ∈ gone → db'.Gone r) ∧ (r ∉ gone → db'.kept r = db.kept r) := by
  unfold Database.deleteRuns at h
  obtain ⟨_, hfree, h⟩ := bind_ok.1 h
  have hfree := refuse_ok.1 hfree
  cases h
  have hlog := filter_purged gone r db.events RunEventRow.runId
  have hanswers := filter_purged gone r db.resolutions.rows ResolutionRow.runId
  have hrun := Table.find?_erase db.runs (fun row => gone.contains row.runId) r
  unfold Database.kept Database.run? Database.log Database.answered
  refine ⟨fun hr => ⟨?_, fun a ha he => ?_⟩, fun hr => ?_⟩
  · rw [if_pos hr] at hlog hanswers
    have hnone : (db.runs.find? r).filter (fun row => !gone.contains row.runId) = none := by
      rw [Option.filter_eq_none_iff]
      intro row hrow
      rw [Table.key_of_find? hrow]
      simpa using hr
    exact Prod.ext (hrun.trans hnone) (Prod.ext hlog hanswers)
  · refine hfree (List.any_eq_true.2 ⟨a, ha, ?_⟩)
    rw [he]
    simpa using hr
  · rw [if_neg hr] at hlog hanswers
    have hsame : (db.runs.find? r).filter (fun row => !gone.contains row.runId) = db.runs.find? r := by
      cases hf : db.runs.find? r with
      | none => rfl
      | some row =>
        refine Option.filter_some_pos ?_
        rw [Table.key_of_find? hf]
        simpa using hr
    exact Prod.ext (hrun.trans hsame) (Prod.ext hlog hanswers)

/-- **One step.**  An ended run is kept as it is, or a purge takes it whole. -/
theorem kept_step (api : ArtifactApi) (now : Instant) (act : DeploymentAct) (hr : d.db.run? r = some row) (hf : row.status.final = true) :
    (d.step api now act).db.kept r = d.db.kept r ∨
      ∃ k, act = .purge k true ∧ r ∈ d.purging k ∧ (d.step api now act).db.Gone r := by
  rcases d.step_db api now act with h | ⟨op, h⟩ | ⟨ids, h⟩ | ⟨k, hk, h⟩
  · exact Or.inl (by rw [h])
  · exact Or.inl (by rw [h, kept_apply hr hf])
  · exact Or.inl (by rw [h]; rfl)
  · by_cases hin : r ∈ d.purging k
    · exact Or.inr ⟨k, hk, hin, (deleteRuns_whole h).1 hin⟩
    · exact Or.inl ((deleteRuns_whole h).2 hin)

/-! ## Any run of operations -/

/-- What is kept of the run is what was, but for a purge that took the run whole, up to which it was. -/
def Deployment.KeptUntilPurged (api : ArtifactApi) (r : String) (t : Instant) (d : Deployment) (t' : Instant)
    (d' : Deployment) : Prop :=
  d'.db.kept r = d.db.kept r ∨
    ∃ t₁ d₁ now k, Run (Deployment.step api) Deployment.Ok t d t₁ d₁ ∧ d₁.db.kept r = d.db.kept r ∧ t₁ ≤ now ∧
      (Deployment.step api d₁ now (.purge k true)).db.Gone r ∧
      Run (Deployment.step api) Deployment.Ok now (Deployment.step api d₁ now (.purge k true)) t' d'

/-- **An ended run is frozen.**  However the deployment goes on, its row, its log and its answers are as they were
until a purge takes the run whole. -/
theorem ended_frozen (hr : d.db.run? r = some row) (hf : row.status.final = true)
    (h : Run (Deployment.step api) Deployment.Ok t d t' d') : Deployment.KeptUntilPurged api r t d t' d' := by
  induction h with
  | refl => exact Or.inl rfl
  | @tail t₁ d₁ now act h₁ hle hok ih =>
    rcases ih with hkept | ⟨t₂, d₂, at_, k, h₂, hkept, hle₂, hgone, h₃⟩
    · have hr₁ : d₁.db.run? r = some row := (congrArg Prod.fst hkept).trans hr
      rcases kept_step api now act hr₁ hf with h | ⟨k, rfl, -, hgone⟩
      · exact Or.inl (h.trans hkept)
      · exact Or.inr ⟨t₁, d₁, now, k, h₁, hkept, hle, hgone, .refl⟩
    · exact Or.inr ⟨t₂, d₂, at_, k, h₂, hkept, hle₂, hgone, .tail now act h₃ hle hok⟩

end

/-! ## A run that ends and goes -/

/-- A run in its caller's process succeeds. -/
def endedRun : Deployment := Run.after (Deployment.step smallArtifacts) .empty
  [(0, .uploading smallBegin),
    (1, .uploading smallEnd)]

/-- It is finished again, and a purge takes it. -/
def purgesIt : List (Instant × DeploymentAct) :=
  [(2, .uploading smallEnd), (20, .select 0 [] 10 1), (21, .purge 0 true)]

theorem endedRun_kept : ((Run.after (Deployment.step smallArtifacts) endedRun purgesIt).db.run? "r").isNone = true ∧
    Deployment.KeptUntilPurged smallArtifacts "r" 1 endedRun 21
      (Run.after (Deployment.step smallArtifacts) endedRun purgesIt) := by
  have hrun : (endedRun.db.run? "r").any (·.status.final) = true := by decide +kernel
  obtain ⟨row, hr, hf⟩ := (Option.any_eq_true _ _).1 hrun
  have hadm : Run.Admitted (Deployment.step smallArtifacts) Deployment.Ok 1 endedRun purgesIt := by
    refine ⟨⟨by norm_num, trivial⟩, ⟨by norm_num, ?_⟩, ⟨by norm_num, trivial⟩, trivial⟩
    rintro runId ⟨k, hk⟩
    cases hk
  exact ⟨by decide +kernel, ended_frozen hr hf (Run.replay_ends hadm)⟩

end AgentRuns
