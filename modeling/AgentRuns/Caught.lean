import AgentRuns.Backlog
import AgentRuns.Lasting
import AgentRuns.WorkedTime
import AgentRuns.Repeats
import Mathlib.Data.Finset.Option

/-!
# No run is starved of a sweep

A sweep takes a batch of the runs it looks for, in the order of an instant of theirs (`Sweep.mark`).  A run it
looks for is not overtaken for ever: a lease given later ends later, a stretch begun later is since later, and
what may come ahead after all, a run started past its deadline or paused past its interrupt's, counts
(`Sweep.comes`).  So sweeps whose batches add up to more than those ahead get to it (`sweep_reaches`).

One thing is special of leases: a heartbeat of a run asked to cancel counts its lease from the cancel, so it may
move the lease back.  Runs asked to cancel before the lease in question ends are ahead from the first.
-/

namespace AgentRuns

open Relational Fallible Timed Backlog

/-- The four sweeps of a tick. -/
inductive Sweep where
  | pastDeadline
  | overworked
  | lapsed
  | overdue
deriving DecidableEq

/-- What sweep an operation is, whom it passes over and how many it takes. -/
def Op.sweep : Op → Option (Sweep × List String × Nat)
  | .timeOutPastDeadline held limit => some (.pastDeadline, held, limit)
  | .timeOutOverworked held limit => some (.overworked, held, limit)
  | .requeueLapsed held limit _ => some (.lapsed, held, limit)
  | .escalateOverdue held limit => some (.overdue, held, limit)
  | _ => none

/-- The run an operation starts or names. -/
def Op.brings : Op → Option String
  | start asked _ _ => some asked.runId
  | op => op.runId

namespace Sweep

/-- The rows the sweep asks for. -/
def catches (store : RunStore) (now : Instant) : Sweep → RunRow → Bool
  | .pastDeadline => RunStore.pastDeadline now
  | .overworked => store.overworked now
  | .lapsed => Database.lapsed now
  | .overdue => RunStore.overdue now

def order : Sweep → RunRow → Option Instant
  | .pastDeadline => RunRow.deadline
  | .overworked => RunRow.runningSince
  | .lapsed => RunRow.leaseExpiresAt
  | .overdue => RunRow.awaitingDeadline

/-- The instant a run may come to be looked for by. -/
def mark : Sweep → RunRow → Option Instant
  | .pastDeadline, row => if row.status.final = true then none else row.deadline
  | .overworked, row => if row.status = .RUNNING then row.runningSince else none
  | .lapsed, row => if row.status = .RUNNING then row.leaseExpiresAt else none
  | .overdue, row => if row.status = .PAUSED then row.awaitingDeadline else none

/-- Is the run ahead of those marked `e`, or may a heartbeat still move it there? -/
def before (k : Sweep) (e : Instant) (row : RunRow) : Bool :=
  (k.mark row).any fun d => d ≤ e || (k = .lapsed && row.cancelRequestedAt.any (· < e))

/-- The runs ahead of `r`, marked `e`. -/
def ahead (k : Sweep) (e : Instant) (r : String) (db : Database) : Finset String :=
  ((db.runs.rows.filter (k.before e)).map RunRow.runId).toFinset.erase r

/-- An operation that may bring a run ahead of those marked `e`. -/
def comes (k : Sweep) (e : Instant) (op : Op) : Bool :=
  match k, op with
  | .pastDeadline, .start start _ _ => start.deadline.any (·.at_ ≤ e)
  | .overdue, .pause _ _ pause _ => pause.interrupt.deadline.any (· ≤ e)
  | _, _ => false

/-- The run that comes. -/
def came (k : Sweep) (e : Instant) (op : Op) : Finset String := if k.comes e op = true then op.brings.toFinset else ∅

/-- How many runs the operation takes as this sweep, if it commits and does not find `r` locked. -/
def takes (k : Sweep) (store : RunStore) (r : String) (db : Database) (now : Instant) (op : Op) : ℕ :=
  match op.sweep with
  | some (k', held, limit) => if k' = k ∧ r ∉ held ∧ (perform store op now db).isOk = true then limit else 0
  | none => 0

end Sweep

section
variable {store : RunStore} {t now : Instant} {op : Op} {db db' : Database} {row row' : RunRow} {r : String} {k : Sweep}
  {e : Instant} {held : List String} {limit : Nat} {answer : Answer}

/-! ## What a sweep takes -/

theorem performed (h : (perform store op now db).isOk = true) : ∃ db' answer, perform store op now db = .ok (db', answer) := by
  cases hp : perform store op now db with
  | error problem =>
    rw [hp] at h
    cases h
  | ok x => exact ⟨x.1, x.2, rfl⟩

theorem apply_of_ok (h : perform store op now db = .ok (db', answer)) : apply store db now op = db' := by
  unfold apply
  rw [h]
  rfl

theorem Sweep.mark_of_catches (h : k.catches store now row = true) : ∃ d, k.mark row = some d ∧ k.order row = some d := by
  cases k with
  | pastDeadline =>
    simp only [Sweep.catches, RunStore.pastDeadline, Bool.and_eq_true, Bool.not_eq_true', Option.any_eq_true] at h
    obtain ⟨hunended, d, hd, -⟩ := h
    exact ⟨d, by rw [Sweep.mark, hunended]; exact hd, hd⟩
  | overworked =>
    simp only [Sweep.catches, RunStore.overworked, Bool.and_eq_true, decide_eq_true_eq, Option.any_eq_true] at h
    obtain ⟨hrunning, -, -, d, hd, -⟩ := h
    exact ⟨d, by rw [Sweep.mark, if_pos hrunning]; exact hd, hd⟩
  | lapsed =>
    simp only [Sweep.catches, Database.lapsed, Bool.and_eq_true, decide_eq_true_eq, Option.any_eq_true] at h
    obtain ⟨hrunning, d, hd, -⟩ := h
    exact ⟨d, by rw [Sweep.mark, if_pos hrunning]; exact hd, hd⟩
  | overdue =>
    simp only [Sweep.catches, RunStore.overdue, Bool.and_eq_true, decide_eq_true_eq, Option.any_eq_true] at h
    obtain ⟨hpaused, d, hd, -⟩ := h
    exact ⟨d, by rw [Sweep.mark, if_pos hpaused]; exact hd, hd⟩

/-- What a sweep makes of a run has no mark any more. -/
theorem Change.unmarked (hop : op.sweep = some (k, held, limit)) (h : Change store now op row row') : k.mark row' = none := by
  cases h with
  | pastDeadline | overworked | lapseCancelled | gaveUp | lapsed | escalated | unanswered =>
    cases hop
    simp [Sweep.mark, RunRow.moved, RunRow.requeued, RunStatus.final]
  | _ => cases hop

theorem swept_unmarked {moving : RunRow → Except ServiceError RunRow} {moved : List RunRecord}
    (hop : op.sweep = some (k, held, limit))
    (hm : ∀ row row', k.catches store now row = true → moving row = .ok row' → Change store now op row row')
    (h : db.sweep held (k.catches store now) k.order limit now moving = .ok (db', moved)) :
    ∀ row ∈ db.swept held (k.catches store now) k.order limit, ∃ row', db'.run? row.runId = some row' ∧ k.mark row' = none := by
  intro row hrow
  have hruns := Database.sweep_runs (fun row row' hc hmoved => (hm row row' hc hmoved).runId) h
  obtain ⟨row', hmoved, hr', -⟩ := hruns.taken row hrow
  exact ⟨row', hr', (hm row row' (Database.swept_spec hrow).2.1 hmoved).unmarked hop⟩

/-- A sweep that commits leaves those it took without a mark. -/
theorem perform_sweeps (hop : op.sweep = some (k, held, limit)) (h : perform store op now db = .ok (db', answer)) :
    ∀ row ∈ db.swept held (k.catches store now) k.order limit, ∃ row', db'.run? row.runId = some row' ∧ k.mark row' = none := by
  cases op with
  | timeOutPastDeadline held limit =>
    cases hop
    obtain ⟨moved, hsweep, -⟩ := answering_ok.1 h
    exact swept_unmarked rfl (fun _ _ _ => pastDeadlineRow_change) hsweep
  | timeOutOverworked held limit =>
    cases hop
    obtain ⟨moved, hsweep, -⟩ := answering_ok.1 h
    exact swept_unmarked rfl (fun _ _ => overworkedRow_change) hsweep
  | requeueLapsed held limit draws =>
    cases hop
    obtain ⟨moved, hsweep, -⟩ := answering_ok.1 h
    have hchange : ∀ row row', Sweep.catches store now .lapsed row = true → Database.lapsedRow now (draws row.runId) row = .ok row' →
        Change store now (.requeueLapsed held limit draws) row row' := fun _ _ => lapsedRow_change
    exact swept_unmarked rfl hchange hsweep
  | escalateOverdue held limit =>
    cases hop
    obtain ⟨moved, hsweep, -⟩ := answering_ok.1 h
    exact swept_unmarked rfl (fun _ _ => overdueRow_change) hsweep
  | _ => cases hop

/-! ## Who comes ahead -/

theorem Change.deadline (h : Change store now op row row') : row'.deadline = row.deadline := by
  have hasked := h.asked
  simp only [RunRow.asked, Prod.mk.injEq] at hasked
  exact hasked.2.2.1

/-- A lease given at `now` ends later, or was given to a run whose cancel was asked for before. -/
theorem Change.lapsed_before (h : Change store now op row row') (hi : RowInv row) (hlt : e < now)
    (hb : Sweep.before .lapsed e row' = true) : Sweep.before .lapsed e row = true := by
  simp only [Sweep.before, Sweep.mark, Option.any_eq_true, Option.ite_none_right_eq_some, Bool.or_eq_true, Bool.and_eq_true,
    decide_eq_true_eq, true_and] at hb ⊢
  obtain ⟨d, ⟨hs, hd⟩, hb⟩ := hb
  have later : ∀ {c : Option Instant} {seconds : LeaseSeconds}, c.getD now + seconds.val = d →
      (d ≤ e ∨ ∃ a, c = some a ∧ a < e) → ∃ a, c = some a ∧ a < e := by
    intro c seconds he hor
    rcases hor with hle | hc
    · have hpos : (0 : Rat) < (seconds.val : Rat) := by exact_mod_cast lt_of_lt_of_le (by decide) seconds.property.1
      cases c with
      | none =>
        rw [Option.getD_none] at he
        linarith
      | some a =>
        rw [Option.getD_some] at he
        exact ⟨a, rfl, by linarith⟩
    · exact hc
  cases h with
  | claimed queued =>
    -- no run is asked to cancel while it waits on the queue
    have hnone : row.cancelRequestedAt = none := hi.uncancelled (by rw [queued]; decide)
    obtain ⟨a, ha, -⟩ := later (Option.some.inj hd) hb
    rw [show ((row.moved .RUNNING now).cancelRequestedAt) = row.cancelRequestedAt from rfl, hnone] at ha
    cases ha
  | @beat row tenantId runId request running holder =>
    obtain ⟨d', hd'⟩ := Option.isSome_iff_exists.1 (hi.lease.1 (by rw [holder]; rfl))
    have hsame : (row.saved request.checkpoint now).cancelRequestedAt = row.cancelRequestedAt := by
      unfold RunRow.saved
      split <;> rfl
    obtain ⟨a, ha, halt⟩ := later (Option.some.inj hd) hb
    exact ⟨d', ⟨running, hd'⟩, .inr ⟨a, hsame ▸ ha, halt⟩⟩
  | cancelAsked unasked running leased =>
    rcases hb with hle | ⟨a, ha, halt⟩
    · exact ⟨d, ⟨running, hd⟩, .inl hle⟩
    · cases ha
      exact absurd halt (not_lt.2 (le_of_lt hlt))
  | resumeRunning waiting same can inProcess =>
    have hnone : row.leaseExpiresAt = none := by
      have hlease := hi.lease
      rw [hi.unheld (by rw [hi.paused waiting]; decide)] at hlease
      simpa using hlease
    have hkept : row.leaseExpiresAt = some d := hd
    rw [hnone] at hkept
    cases hkept
  | @finished row tenantId runId ending workerId draw fenced last can =>
    exact absurd hs (RunStatus.ne_of_final ending.isAnEnding).2.1
  | escalated paused =>
    have hrunning : row.status = .RUNNING := hs
    rw [paused] at hrunning
    cases hrunning
  | _ => cases hs

/-- A stretch begun at `now` is since later. -/
theorem Change.overworked_before (h : Change store now op row row') (hi : RowInv row) (hlt : e < now)
    (hb : Sweep.before .overworked e row' = true) : Sweep.before .overworked e row = true := by
  simp only [Sweep.before, Sweep.mark, Option.any_eq_true, Option.ite_none_right_eq_some, Bool.or_eq_true, Bool.and_eq_true,
    decide_eq_true_eq] at hb ⊢
  obtain ⟨d, ⟨hs, hd⟩, hle | ⟨hk, -⟩⟩ := hb
  · rcases h.clock hi with ⟨-, hsince, hstatus⟩ | ⟨-, hsince, -⟩
    · exact ⟨d, ⟨hstatus ▸ hs, hsince ▸ hd⟩, .inl hle⟩
    · rw [hsince, if_pos hs] at hd
      cases hd
      exact absurd hlt (not_lt.2 hle)
  · cases hk

/-- Only a pause asks for an answer by an instant. -/
theorem Change.overdue_before (h : Change store now op row row') (hb : Sweep.before .overdue e row' = true) :
    Sweep.before .overdue e row = true ∨ Sweep.comes .overdue e op = true := by
  simp only [Sweep.before, Sweep.mark, Option.any_eq_true, Option.ite_none_right_eq_some, Bool.or_eq_true, Bool.and_eq_true,
    decide_eq_true_eq] at hb
  obtain ⟨d, ⟨hs, hd⟩, hle | ⟨hk, -⟩⟩ := hb
  · cases h with
    | @paused row tenantId runId pause workerId unsettled fenced uncancelled running =>
      have hdeadline : pause.interrupt.deadline = some d := hd
      refine .inr ?_
      simp only [Sweep.comes, hdeadline, Option.any_some, decide_eq_true_eq]
      exact hle
    | @beat row tenantId runId request running holder =>
      have hsame : (row.saved request.checkpoint now).status = row.status := by
        unfold RunRow.saved
        split <;> rfl
      have hpaused : (row.saved request.checkpoint now).status = .PAUSED := hs
      rw [hsame, running] at hpaused
      cases hpaused
    | cancelAsked unasked running =>
      have hpaused : row.status = .PAUSED := hs
      rw [running] at hpaused
      cases hpaused
    | escalated => cases hd
    | @finished row tenantId runId ending workerId draw fenced last can =>
      exact absurd hs (RunStatus.ne_of_final ending.isAnEnding).2.2
    | _ => cases hs
  · cases hk

theorem Change.pastDeadline_before (h : Change store now op row row') (hb : Sweep.before .pastDeadline e row' = true) :
    Sweep.before .pastDeadline e row = true := by
  simp only [Sweep.before, Sweep.mark, Option.any_eq_true, Option.ite_none_left_eq_some, Bool.or_eq_true, Bool.and_eq_true,
    decide_eq_true_eq] at hb ⊢
  obtain ⟨d, ⟨-, hd⟩, hb⟩ := hb
  refine ⟨d, ⟨by rw [h.unended]; decide, h.deadline ▸ hd⟩, hb.imp_right fun hk => ?_⟩
  cases hk.1

/-- A run ahead after an operation was ahead before it, or is the one the operation brings. -/
theorem Sweep.before_apply (hreach : Reached store db) (hlt : e < now) {r' : String}
    (hr' : (apply store db now op).run? r' = some row') (hb : k.before e row' = true) :
    (∃ row, db.run? r' = some row ∧ k.before e row = true) ∨ (k.comes e op = true ∧ op.brings = some r') := by
  rcases apply_run hr' with hr | ⟨row, hr, hc, -, hnamed⟩ | ⟨-, start, queue, strict, rfl, rfl, -⟩
  · exact .inl ⟨row', hr, hb⟩
  · cases k with
    | pastDeadline => exact .inl ⟨row, hr, hc.pastDeadline_before hb⟩
    | overworked => exact .inl ⟨row, hr, hc.overworked_before (hreach.inv hr) hlt hb⟩
    | lapsed => exact .inl ⟨row, hr, hc.lapsed_before (hreach.inv hr) hlt hb⟩
    | overdue =>
      rcases hc.overdue_before hb with hb | hcomes
      · exact .inl ⟨row, hr, hb⟩
      · refine .inr ⟨hcomes, ?_⟩
        cases op with
        | pause tenantId runId pause workerId => exact congrArg some (hnamed runId rfl).symm
        | _ => cases hcomes
  · -- a started run has no lease and nobody to wait for
    have hkey : (startedRow start queue now).runId = r' := Table.key_of_find? hr'
    refine .inr ⟨?_, congrArg some hkey⟩
    cases k with
    | pastDeadline =>
      simp only [Sweep.before, Sweep.mark, Option.any_eq_true, Option.ite_none_left_eq_some, Bool.or_eq_true, Bool.and_eq_true,
        decide_eq_true_eq] at hb
      obtain ⟨d, ⟨-, hd⟩, hle | ⟨hk, -⟩⟩ := hb
      · obtain ⟨at_, hat, rfl⟩ := Option.map_eq_some_iff.1 hd
        simp only [Sweep.comes, hat, Option.any_some, decide_eq_true_eq]
        exact hle
      · cases hk
    | overworked =>
      simp only [Sweep.before, Sweep.mark, Option.any_eq_true, Option.ite_none_right_eq_some, Bool.or_eq_true, Bool.and_eq_true,
        decide_eq_true_eq] at hb
      obtain ⟨d, ⟨-, hd⟩, hle | ⟨hk, -⟩⟩ := hb
      · have hsince : (if queue then none else some now) = some d := hd
        cases queue with
        | true => cases hsince
        | false =>
          cases hsince
          exact absurd hlt (not_lt.2 hle)
      · cases hk
    | lapsed =>
      simp only [Sweep.before, Sweep.mark, Option.any_eq_true, Option.ite_none_right_eq_some] at hb
      obtain ⟨d, ⟨-, hd⟩, -⟩ := hb
      cases hd
    | overdue =>
      simp only [Sweep.before, Sweep.mark, Option.any_eq_true, Option.ite_none_right_eq_some] at hb
      obtain ⟨d, ⟨-, hd⟩, -⟩ := hb
      cases hd

/-! ## While it is looked for -/

/-- What is marked by an instant that is past is looked for, or works on within its limit. -/
theorem Sweep.catches_of_mark (hk : k ≠ .overworked) (hm : k.mark row = some e) (hlt : e < now) :
    k.catches store now row = true := by
  cases k with
  | overworked => exact absurd rfl hk
  | pastDeadline =>
    obtain ⟨hunended, hd⟩ := Option.ite_none_left_eq_some.1 hm
    simp [Sweep.catches, RunStore.pastDeadline, hd, hlt, hunended]
  | lapsed =>
    obtain ⟨hrunning, hd⟩ := Option.ite_none_right_eq_some.1 hm
    simp [Sweep.catches, Database.lapsed, hd, hlt, hrunning]
  | overdue =>
    obtain ⟨hpaused, hd⟩ := Option.ite_none_right_eq_some.1 hm
    simp [Sweep.catches, RunStore.overdue, hd, hlt, hpaused]

theorem overworked_later (h : store.overworked t row = true) (hle : t ≤ now) : store.overworked now row = true := by
  simp only [RunStore.overworked, Bool.and_eq_true, decide_eq_true_eq, Option.any_eq_true] at h ⊢
  obtain ⟨hrunning, allowed, hallowed, since, hsince, hlt⟩ := h
  exact ⟨hrunning, allowed, hallowed, since, hsince, by linarith⟩

/-- A step within a stretch leaves what the run may work on and has worked before. -/
theorem Change.overworked_back (h : Change store now op row row') (hi : RowInv row) (hlt : e < now)
    (hm : Sweep.mark .overworked row' = some e) :
    Sweep.mark .overworked row = some e ∧ (store.overworked t row = true → store.overworked t row' = true) := by
  obtain ⟨hrunning, hsince'⟩ := Option.ite_none_right_eq_some.1 hm
  rcases h.clock hi with ⟨hworked, hsince, hstatus⟩ | ⟨-, hsince, -⟩
  · have hasked := h.asked
    simp only [RunRow.asked, Prod.mk.injEq] at hasked
    have hlimit : store.limit row' = store.limit row := by
      unfold RunStore.limit
      rw [hasked.2.2.2.1]
    refine ⟨Option.ite_none_right_eq_some.2 ⟨hstatus ▸ hrunning, hsince ▸ hsince'⟩, fun hover => ?_⟩
    unfold RunStore.overworked at hover ⊢
    rw [hworked, hsince, hstatus, hlimit]
    exact hover
  · rw [hsince, if_pos hrunning] at hsince'
    cases hsince'
    exact absurd hlt (lt_irrefl _)

/-- Time passes. -/
theorem Sweep.catches_later (hm : k.mark row = some e) (hlt : e < now) (hc : k.catches store t row = true) (hle : t ≤ now) :
    k.catches store now row = true := by
  by_cases hk : k = .overworked
  · subst hk
    exact overworked_later hc hle
  · exact Sweep.catches_of_mark hk hm hlt

/-- A run marked so is still looked for. -/
theorem Sweep.catches_apply (hreach : Reached store db) (hlt : e < now) (hle : t ≤ now)
    (hc : ∀ row, db.run? r = some row → k.mark row = some e → k.catches store t row = true)
    (hr' : (apply store db now op).run? r = some row') (hm : k.mark row' = some e) : k.catches store now row' = true := by
  by_cases hk : k = .overworked
  · subst hk
    rcases apply_run hr' with hr | ⟨row, hr, hchange, -⟩ | ⟨-, start, queue, strict, rfl, rfl, -⟩
    · exact overworked_later (hc row' hr hm) hle
    · obtain ⟨hm, hover⟩ := hchange.overworked_back (hreach.inv hr) hlt hm
      exact hover (overworked_later (hc row hr hm) hle)
    · obtain ⟨-, hsince⟩ := Option.ite_none_right_eq_some.1 hm
      have hsince : (if queue then none else some now) = some e := hsince
      cases queue with
      | true => cases hsince
      | false =>
        cases hsince
        exact absurd hlt (lt_irrefl _)
  · exact Sweep.catches_of_mark hk hm hlt

/-! ## Those ahead -/

theorem Sweep.mem_ahead {r' : String} :
    r' ∈ k.ahead e r db ↔ r' ≠ r ∧ ∃ row, db.run? r' = some row ∧ k.before e row = true := by
  simp only [Sweep.ahead, Finset.mem_erase, List.mem_toFinset, List.mem_map, List.mem_filter]
  refine and_congr_right fun _ => ⟨?_, ?_⟩
  · rintro ⟨row, ⟨hm, hb⟩, rfl⟩
    exact ⟨row, run?_of_mem hm, hb⟩
  · rintro ⟨row, hr, hb⟩
    exact ⟨row, ⟨Table.mem_of_find? hr, hb⟩, Table.key_of_find? hr⟩

/-- What a sweep takes while it does not get to `r`: a batch of runs ahead of it. -/
theorem Sweep.batch (hr : db.run? r = some row) (hm : k.mark row = some e) (hc : k.catches store now row = true)
    (hfree : r ∉ held) (hnot : row ∉ db.swept held (k.catches store now) k.order limit) :
    (db.swept held (k.catches store now) k.order limit).length = limit ∧
      ∀ taken ∈ db.swept held (k.catches store now) k.order limit, taken.runId ∈ k.ahead e r db := by
  have hkey : row.runId = r := Table.key_of_find? hr
  obtain ⟨d, hd, horder⟩ := Sweep.mark_of_catches hc
  rw [hm] at hd
  cases hd
  have : Std.Total fun a b : RunRow => (k.order a).getD 0 ≤ (k.order b).getD 0 := ⟨fun a b => le_total _ _⟩
  have : IsTrans RunRow fun a b => (k.order a).getD 0 ≤ (k.order b).getD 0 := ⟨fun a b c => le_trans⟩
  rcases taken_or_before (fun a b : RunRow => (k.order a).getD 0 ≤ (k.order b).getD 0) (fun row => !held.contains row.runId) limit
    (List.mem_filter.2 ⟨Table.mem_of_find? hr, hc⟩) (by simpa [hkey] using hfree) with htaken | ⟨hfull, hbefore⟩
  · exact absurd htaken hnot
  · refine ⟨hfull, fun taken htaken => ?_⟩
    obtain ⟨hmem, hcaught, -⟩ := Database.swept_spec htaken
    obtain ⟨d, hd, hat⟩ := Sweep.mark_of_catches hcaught
    refine Sweep.mem_ahead.2 ⟨fun he => ?_, taken, run?_of_mem hmem, ?_⟩
    · rw [← he, run?_of_mem hmem] at hr
      cases hr
      exact hnot htaken
    · have hle := hbefore taken htaken
      rw [horder, hat, Option.getD_some, Option.getD_some] at hle
      simp [Sweep.before, hd, hle]

theorem Sweep.card_came : (k.came e op).card ≤ (k.comes e op).toNat := by
  unfold Sweep.came
  cases k.comes e op with
  | false => exact le_refl 0
  | true =>
    cases op.brings with
    | none => exact Nat.zero_le 1
    | some r' => exact le_refl 1

theorem Sweep.ahead_subset (hreach : Reached store db) (hlt : e < now) :
    k.ahead e r (apply store db now op) ⊆ k.ahead e r db ∪ k.came e op := by
  intro r' hmem
  obtain ⟨hne, row', hr', hb⟩ := Sweep.mem_ahead.1 hmem
  rcases Sweep.before_apply hreach hlt hr' hb with ⟨row, hr, hb⟩ | ⟨hcomes, hbrings⟩
  · exact Finset.mem_union_left _ (Sweep.mem_ahead.2 ⟨hne, row, hr, hb⟩)
  · refine Finset.mem_union_right _ ?_
    rw [Sweep.came, if_pos hcomes, hbrings]
    exact Option.mem_toFinset.2 rfl

/-- **One step.**  As long as `r` is not got to, there are no more ahead of it than before, less those taken and with the one that
may have come. -/
theorem Sweep.ahead_apply (hreach : Reached store db) (hlt : e < now) (hr : db.run? r = some row) (hm : k.mark row = some e)
    (hc : k.catches store now row = true) (hr' : (apply store db now op).run? r = some row') (hm' : k.mark row' = some e) :
    (k.ahead e r (apply store db now op)).card + k.takes store r db now op ≤
      (k.ahead e r db).card + (k.comes e op).toNat := by
  have hafter : k.ahead e r (apply store db now op) ⊆ k.ahead e r db ∪ k.came e op := Sweep.ahead_subset hreach hlt
  have idle : k.takes store r db now op = 0 → (k.ahead e r (apply store db now op)).card + k.takes store r db now op ≤
      (k.ahead e r db).card + (k.comes e op).toNat := by
    intro hzero
    have hcard := card_ahead (Finset.empty_subset (k.ahead e r db)) (Finset.disjoint_empty_right _) hafter
    rw [hzero]
    exact hcard.trans (Nat.add_le_add_left Sweep.card_came _)
  cases hop : op.sweep with
  | none => exact idle (by rw [Sweep.takes, hop])
  | some sweep =>
    obtain ⟨k', held, limit⟩ := sweep
    by_cases hserves : k' = k ∧ r ∉ held ∧ (perform store op now db).isOk = true
    · have htakes : k.takes store r db now op = limit := by
        rw [Sweep.takes, hop]
        exact if_pos hserves
      obtain ⟨rfl, hfree, hok⟩ := hserves
      obtain ⟨db', answer, hperform⟩ := performed hok
      have hgone := perform_sweeps hop hperform
      have hnot : row ∉ db.swept held (k'.catches store now) k'.order limit := by
        intro hin
        obtain ⟨row'', hr'', hnone⟩ := hgone row hin
        rw [Table.key_of_find? hr, ← apply_of_ok hperform, hr'] at hr''
        cases hr''
        rw [hm'] at hnone
        cases hnone
      obtain ⟨hfull, hahead⟩ := Sweep.batch hr hm hc hfree hnot
      have hcard : ((db.swept held (k'.catches store now) k'.order limit).map RunRow.runId).toFinset.card = limit := by
        rw [List.toFinset_card_of_nodup (Database.swept_nodup db held _ _ limit), List.length_map, hfull]
      have hsub : ((db.swept held (k'.catches store now) k'.order limit).map RunRow.runId).toFinset ⊆ k'.ahead e r db := by
        intro r' hr'
        obtain ⟨taken, htaken, rfl⟩ := List.mem_map.1 (List.mem_toFinset.1 hr')
        exact hahead taken htaken
      have hdisjoint : Disjoint (k'.ahead e r (apply store db now op))
          ((db.swept held (k'.catches store now) k'.order limit).map RunRow.runId).toFinset := by
        refine Finset.disjoint_right.2 fun r' hin hstill => ?_
        obtain ⟨taken, htaken, rfl⟩ := List.mem_map.1 (List.mem_toFinset.1 hin)
        obtain ⟨row'', hr'', hnone⟩ := hgone taken htaken
        obtain ⟨-, row₁, hr₁, hb⟩ := Sweep.mem_ahead.1 hstill
        rw [apply_of_ok hperform, hr''] at hr₁
        cases hr₁
        simp [Sweep.before, hnone] at hb
      have hall := card_ahead hsub hdisjoint hafter
      rw [hcard] at hall
      rw [htakes]
      exact hall.trans (Nat.add_le_add_left Sweep.card_came _)
    · refine idle ?_
      rw [Sweep.takes, hop]
      exact if_neg hserves

/-! ## Every run -/

/-- The run is still marked so. -/
def Sweep.Waits (k : Sweep) (e : Instant) (r : String) (db : Database) : Prop := ∃ row, db.run? r = some row ∧ k.mark row = some e

/-- What the steps keep: a run marked so is one the sweep asks for. -/
structure Sweep.Caught (k : Sweep) (store : RunStore) (e : Instant) (r : String) (now : Instant) (db : Database) : Prop where
  reached : ReachedAt store now db
  past : e < now
  there : ∃ row, db.run? r = some row
  catches : ∀ row, db.run? r = some row → k.mark row = some e → k.catches store now row = true

theorem Sweep.Caught.step (h : k.Caught store e r t db) (hle : t ≤ now) : k.Caught store e r now (apply store db now op) := by
  have hlt : e < now := lt_of_lt_of_le h.past hle
  obtain ⟨first, hrun⟩ := h.reached
  obtain ⟨row, hr⟩ := h.there
  obtain ⟨row', hr', -⟩ := run_apply store now op hr
  exact ⟨⟨first, .tail now op hrun hle trivial⟩, hlt, ⟨row', hr'⟩,
    fun row hr hm => Sweep.catches_apply ⟨t, first, hrun⟩ hlt hle h.catches hr hm⟩

theorem Sweep.Caught.ahead (h : k.Caught store e r t db) (hle : t ≤ now) (hwaits : k.Waits e r db)
    (hstill : k.Waits e r (apply store db now op)) :
    (k.ahead e r (apply store db now op)).card + k.takes store r db now op ≤ (k.ahead e r db).card + (k.comes e op).toNat := by
  obtain ⟨row, hr, hm⟩ := hwaits
  obtain ⟨row', hr', hm'⟩ := hstill
  have hlt : e < now := lt_of_lt_of_le h.past hle
  exact Sweep.ahead_apply ⟨t, h.reached⟩ hlt hr hm (Sweep.catches_later hm hlt (h.catches row hr hm) hle) hr' hm'

end

/-- Two runs claimed for a minute, and their workers gone. -/
def abandonedWork : List (Instant × Op) :=
  [(0, .start { smallStart with runId := "q" } true true), (0, .start smallStart true true),
    (1, .claim ⟨[], []⟩ (some "t") ⟨"v", ["a"], smallLease⟩), (2, .claim ⟨[], []⟩ (some "t") ⟨"w", ["a"], smallLease⟩),
    (100, .release "t" "none" ⟨"w", none⟩)]

theorem abandonedWork_admitted : Run.Admitted (apply smallStore) anything 0 Database.empty abandonedWork := by
  norm_num [abandonedWork, Run.Admitted, anything]

/-- Two sweeps of one run each. -/
def singleSweeps : List (Instant × Op) :=
  [(100, .requeueLapsed [] 1 fun _ => smallDraw), (101, .requeueLapsed [] 1 fun _ => smallDraw)]

end AgentRuns
