import AgentRuns.SweepQueries

/-!
# The overwork sweep and the rule

The rule for a run's working time is in Python (`_worked`, `_limit`, and what `_lease` tells) and once more in the sweep's SQL.  The
two agree on every row, whatever is NULL in it, in the exact arithmetic and in doubles (`QueryAgrees`).  So a sweep ends runs whose
lease reports no time left, and of these all but what has worked just its limit (`overwork_agrees`): past it is where the ticker
ends a run, at it a lease has none left to tell (`not_exactly_out_of_time`).
-/

namespace AgentRuns

open Relational Fallible Timed

/-! ## Row by row -/

/-- The limits and the time worked are of the arithmetic. -/
structure RunStore.Stores (store : RunStore) (a : Rounding) (row : RunRow) : Prop where
  worked : a.Holds row.workedSeconds
  own : ∀ own, row.timeoutSeconds = some own → a.Holds own
  most : ∀ most, store.maxRunSeconds = some most → a.Holds most

/-- A RUNNING row says since when, and that is not after now. -/
def RunRow.RunningBy (row : RunRow) (now : Instant) : Prop :=
  row.status = .RUNNING → ∃ since, row.runningSince = some since ∧ since ≤ now

/-- What the query makes of a row is what the rule does. -/
structure QueryAgrees (store : RunStore) (a : Rounding) (now : Instant) (row : RunRow) : Prop where
  /-- RUNNING, with a limit, and past it -/
  rule : where_ (store.overworkedQuery a now row) = true ↔
    row.status = .RUNNING ∧ ∃ limit, store.limit row = some limit ∧ limit < workedIn a row now
  /-- RUNNING, with no time left, and not just at its limit -/
  lease : where_ (store.overworkedQuery a now row) = true ↔
    row.status = .RUNNING ∧ store.remainingIn a row now = some 0 ∧ store.limit row ≠ some (workedIn a row now)
  unlimited : store.limit row = none → where_ (store.overworkedQuery a now row) = false
  /-- past it before this stretch began -/
  earlier : row.status = .RUNNING → ∀ limit, store.limit row = some limit → limit < row.workedSeconds →
    where_ (store.overworkedQuery a now row) = true

section
variable {store : RunStore} {a : Rounding} {now : Instant} {row : RunRow}

/-- The limit is one of the two, so it is of the arithmetic. -/
theorem RunStore.Stores.limit (h : store.Stores a row) {limit : Rat} (hl : store.limit row = some limit) : a.Holds limit := by
  unfold RunStore.limit at hl
  cases hown : row.timeoutSeconds with
  | none =>
    rw [hown] at hl
    exact h.most limit hl
  | some own =>
    rw [hown] at hl
    cases hmost : store.maxRunSeconds with
    | none =>
      rw [hmost] at hl
      cases hl
      exact h.own _ hown
    | some most =>
      rw [hmost] at hl
      cases hl
      rcases min_choice own most with hmin | hmin
      · rw [hmin]
        exact h.own _ hown
      · rw [hmin]
        exact h.most _ hmost

theorem RunStore.Stores.workedIn (h : store.Stores a row) : a.Holds (workedIn a row now) := by
  unfold AgentRuns.workedIn
  split
  · exact h.worked
  · exact a.holds_round _

/-- A stretch is no less than nothing, rounded or not, so `max` lets it be. -/
theorem workedIn_since {since : Instant} (hsince : row.runningSince = some since) (hle : since ≤ now) :
    workedIn a row now = a.round (row.workedSeconds + a.round (now - since)) := by
  unfold workedIn
  rw [hsince]
  dsimp only
  rw [max_eq_right (a.round_nonneg (sub_nonneg.2 hle))]

/-- **The query is the rule.** -/
theorem where_overworked_rule (h : row.RunningBy now) : where_ (store.overworkedQuery a now row) = true ↔
    row.status = .RUNNING ∧ ∃ limit, store.limit row = some limit ∧ limit < workedIn a row now := by
  rw [where_overworked_iff]
  refine and_congr_right fun hrunning => exists_congr fun limit => ?_
  obtain ⟨since, hsince, hle⟩ := h hrunning
  rw [workedIn_since hsince hle, hsince]
  constructor
  · rintro ⟨_, hlimit, ⟨⟩, hlt⟩
    exact ⟨hlimit, hlt⟩
  · rintro ⟨hlimit, hlt⟩
    exact ⟨since, hlimit, rfl, hlt⟩

/-- A lease has no time left to tell at the limit and past it. -/
theorem remainingIn_eq_zero (hs : store.Stores a row) :
    store.remainingIn a row now = some 0 ↔ ∃ limit, store.limit row = some limit ∧ limit ≤ workedIn a row now := by
  unfold RunStore.remainingIn
  rw [Option.map_eq_some_iff]
  refine exists_congr fun limit => and_congr_right fun hl => ?_
  exact a.max_sub_eq_zero hs.workedIn (hs.limit hl)

theorem query_agrees (h : row.RunningBy now) (hs : store.Stores a row) : QueryAgrees store a now row where
  rule := where_overworked_rule h
  lease := by
    rw [where_overworked_rule h, remainingIn_eq_zero hs]
    refine and_congr_right fun _ => ?_
    constructor
    · rintro ⟨limit, hl, hlt⟩
      refine ⟨⟨limit, hl, hlt.le⟩, fun he => hlt.ne ?_⟩
      rw [hl] at he
      exact Option.some.inj he
    · rintro ⟨⟨limit, hl, hle⟩, hne⟩
      exact ⟨limit, hl, lt_of_le_of_ne hle fun he => hne (by rw [hl, he])⟩
  unlimited := by
    intro hnone
    rw [Bool.eq_false_iff, Ne, where_overworked_rule h]
    rintro ⟨-, limit, hl, -⟩
    rw [hnone] at hl
    cases hl
  earlier := by
    intro hrunning limit hl hlt
    obtain ⟨since, hsince, hle⟩ := h hrunning
    refine (where_overworked_rule h).2 ⟨hrunning, limit, hl, hlt.trans_le ?_⟩
    rw [workedIn_since hsince hle]
    exact a.le_round_add hs.worked (a.round_nonneg (sub_nonneg.2 hle))

end

/-! ## A sweep -/

/-- The numbers of the sweep's message are text that a column takes. -/
structure Formats (lib : Libraries) : Prop where
  fixed0 : ∀ x, Json.textStorable (lib.fixed0 x) = true
  general : ∀ x, Json.textStorable (lib.general x) = true

/-- RUNNING, its lease with no time left to tell, and not just at its limit. -/
structure RunStore.PastLimit (store : RunStore) (now : Instant) (row : RunRow) : Prop where
  running : row.status = .RUNNING
  lease : ∀ workerId seconds, (store.lease row workerId seconds now).2.remainingSeconds = some 0
  past : store.limit row ≠ some (worked row now)

/-- What a sweep at `now` ends of the runs, `held` being locked by others and `limit` its batch. -/
structure SweepEnds (store : RunStore) (db : Database) (held : List String) (limit : Nat) (now : Instant) (db' : Database)
    (moved : List RunRecord) : Prop where
  /-- what it ends is past its limit -/
  ends : ∀ run ∈ moved, run.runId ∉ held ∧ ∃ row row', db.run? run.runId = some row ∧ store.PastLimit now row ∧
    db'.run? run.runId = some row' ∧ row'.status = .TIMEOUT ∧ run = record row' now
  /-- what is past its limit it ends, unless another holds it or the batch is full -/
  misses : ∀ r row, db.run? r = some row → store.PastLimit now row → r ∉ held →
    (∃ run ∈ moved, run.runId = r) ∨ moved.length = limit
  /-- no other run is changed -/
  stands : ∀ r, (∀ run ∈ moved, run.runId ≠ r) → db'.run? r = db.run? r

section
variable {store : RunStore} {now : Instant} {row row' : RunRow} {db : Database}

theorem RunStore.stores_exact : store.Stores .exact row := ⟨rfl, fun _ _ => rfl, fun _ _ => rfl⟩

theorem overworked_iff_pastLimit (h : row.RunningBy now) : store.overworked now row = true ↔ store.PastLimit now row := by
  rw [← where_overworked, (query_agrees h RunStore.stores_exact).lease]
  constructor
  · rintro ⟨hrunning, hlease, hover⟩
    exact ⟨hrunning, fun _ _ => hlease, hover⟩
  · rintro ⟨hrunning, hlease, hover⟩
    exact ⟨hrunning, hlease "" smallLease, hover⟩

theorem runTimeout_storable (hlib : Formats store.lib) (seconds limit : Rat) :
    (ownError "run_timeout" s!"the run worked {store.lib.fixed0 seconds} s, past its limit of {store.lib.general limit} s"
      false).storable = true := by
  have hcode : Json.textStorable "run_timeout" = true := by decide +kernel
  have hworked : Json.textStorable (toString "the run worked ") = true := by decide +kernel
  have hpast : Json.textStorable (toString " s, past its limit of ") = true := by decide +kernel
  have hseconds : Json.textStorable (toString " s") = true := by decide +kernel
  have hsource : Json.textStorable "agent-runs" = true := by decide +kernel
  have hfixed : Json.textStorable (toString (store.lib.fixed0 seconds)) = true := hlib.fixed0 seconds
  have hgeneral : Json.textStorable (toString (store.lib.general limit)) = true := hlib.general limit
  simp only [AgentError.storable, ownError, Json.textStorable_append, hcode, hworked, hpast, hseconds, hsource, hfixed, hgeneral,
    Option.all_some, Bool.and_true]

/-- The overwork sweep moves every run it takes. -/
theorem overworkedRow_total (hlib : Formats store.lib) (hf : row.fits = true) (hc : store.overworked now row = true) :
    ∃ row', store.overworkedRow now row = .ok row' ∧ row'.fits = true := by
  simp only [RunStore.overworked, Bool.and_eq_true, decide_eq_true_eq, Option.any_eq_true] at hc
  obtain ⟨hrunning, limit, hlimit, -⟩ := hc
  have hmove : move row .TIMEOUT now = .ok (row.moved .TIMEOUT now) := move_ok.2 ⟨by rw [hrunning]; rfl, rfl⟩
  have hmoved : store.limit (row.moved .TIMEOUT now) = some limit := hlimit
  unfold RunStore.overworkedRow
  rw [hmove, ok_bind, hmoved]
  exact ⟨_, rfl, RunRow.fits_failed (RunRow.fits_moved hf .TIMEOUT now) (runTimeout_storable hlib _ _)⟩

theorem overworkedRow_ok (h : store.overworkedRow now row = .ok row') : row'.runId = row.runId ∧ row'.status = .TIMEOUT := by
  obtain ⟨_, hm, h⟩ := bind_ok.1 h
  obtain ⟨-, rfl⟩ := move_ok.1 hm
  split at h
  · cases h
  · cases h
    exact ⟨rfl, rfl⟩

/-- A RUNNING run of a service says since when. -/
theorem Reached.runningBy (hreached : Reached store db)
    (hsince : ∀ r row since, db.run? r = some row → row.runningSince = some since → since ≤ now) {r : String}
    (hr : db.run? r = some row) : row.RunningBy now := by
  intro hrunning
  obtain ⟨since, hs⟩ := Option.isSome_iff_exists.1 ((hreached.inv hr).running.2 hrunning)
  exact ⟨since, hs, hsince r row since hr hs⟩

/-- A sweep of runs none of which is RUNNING since after now. -/
theorem sweep_ends (hlib : Formats store.lib) (hreached : Reached store db)
    (hsince : ∀ r row since, db.run? r = some row → row.runningSince = some since → since ≤ now) (held : List String) (limit : Nat) :
    ∃ db' moved, store.timeOutOverworked db held limit now = .ok (db', moved) ∧ SweepEnds store db held limit now db' moved := by
  obtain ⟨db', moved, hsweep⟩ : ∃ db' moved, store.timeOutOverworked db held limit now = .ok (db', moved) :=
    Database.sweep_total fun row hm hc => overworkedRow_total hlib (hreached.fits (run?_of_mem hm)) hc
  have hruns := Database.sweep_runs (fun row row' _ h => (overworkedRow_ok h).1) hsweep
  refine ⟨db', moved, hsweep, ?_, ?_, ?_⟩
  · intro run hrun
    obtain ⟨row, hrow, row', hmoved, hid, rfl⟩ := hruns.moved run hrun
    obtain ⟨hm, hc, hfree⟩ := Database.swept_spec hrow
    have hr := run?_of_mem hm
    obtain ⟨row'', hmoved', hr', -⟩ := hruns.taken row hrow
    rw [hmoved] at hmoved'
    cases hmoved'
    have hkey : (record row' now).runId = row.runId := hid
    rw [hkey]
    exact ⟨hfree, row, row', hr, (overworked_iff_pastLimit (hreached.runningBy hsince hr)).1 hc, hr', (overworkedRow_ok hmoved).2, rfl⟩
  · intro r row hr hpast hfree
    have hkey := Table.key_of_find? hr
    have hc := (overworked_iff_pastLimit (hreached.runningBy hsince hr)).2 hpast
    rcases Database.swept_or_full (Table.mem_of_find? hr) hc (by rw [hkey]; exact hfree) with hin | hfull
    · obtain ⟨row', hmoved, -, hmem⟩ := hruns.taken row hin
      exact Or.inl ⟨_, hmem, (overworkedRow_ok hmoved).1.trans hkey⟩
    · exact Or.inr (hruns.length.trans hfull)
  · intro r hnot
    refine hruns.stands r fun row hrow he => ?_
    obtain ⟨row', hmoved, -, hmem⟩ := hruns.taken row hrow
    exact hnot _ hmem ((overworkedRow_ok hmoved).1.trans he)

end

/-- A store that says 19 s and 10 s. -/
def lateStore : RunStore := { smallStore with lib := { spelledLibraries with fixed0 := fun _ => "19", general := fun _ => "10" } }

/-- Claimed at 1, with a limit of 10 s. -/
def limitedWork : List (Instant × Op) :=
  [(0, .start { smallStart with timeoutSeconds := some 10 } true true),
    (1, .claim ⟨[], []⟩ (some "t") ⟨"w", ["a"], smallLease⟩)]

theorem limitedWork_reached : Reached lateStore (history lateStore limitedWork) := by
  have hadmitted : Run.Admitted (apply lateStore) anything 0 Database.empty limitedWork := by
    norm_num [limitedWork, Run.Admitted, anything]
  obtain ⟨now, h⟩ := history_run hadmitted
  exact ⟨now, 0, h⟩

theorem limitedWork_since {now : Instant} (hnow : 1 ≤ now) : ∀ r row since, (history lateStore limitedWork).run? r = some row →
    row.runningSince = some since → since ≤ now := by
  have hall : ((history lateStore limitedWork).runs.rows.all fun row => row.runningSince.all (· ≤ 1)) = true := by decide +kernel
  intro r row since hr hsince
  have h := List.all_eq_true.1 hall row (Table.mem_of_find? hr)
  rw [hsince, Option.all_some, decide_eq_true_eq] at h
  exact h.trans hnow

end AgentRuns
