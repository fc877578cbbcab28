import AgentRuns.Lasting
import AgentRuns.Spelled

/-!
# Attempts

What the counters of a run's row count over its whole history, told by the steps of the history (`steps`):

    attempt        =  1 + the requeues + the resumes that continue the run
    lease_lapses   =  the lapses of a run nobody asked to cancel
    error_retries  =  the errors that were retried

so no two RUNNING stretches have one attempt, and the sweep and the retries put a run back on the queue
only so often (`attempts_accounted`).  A run asked to cancel whose lease lapses ends, and its lapse is
not counted (`cancelled_lapse_uncounted`).
-/

namespace AgentRuns

open Relational Fallible Timed

/-! ## The history of a run -/

/-- An operation, and the run's row before and after it. -/
structure RunStep where
  now : Instant
  op : Op
  before : RunRow
  after : RunRow

/-- The run's row before and after an operation, when it is there. -/
def stepOf (store : RunStore) (r : String) (db : Database) (now : Instant) (op : Op) : List RunStep :=
  match db.run? r, (apply store db now op).run? r with
  | some before, some after => [⟨now, op, before, after⟩]
  | _, _ => []

/-- The steps of the run in a history. -/
def steps (store : RunStore) (r : String) (ops : List (Instant × Op)) : List RunStep :=
  Run.trace (apply store) (stepOf store r) Database.empty ops

namespace RunStep

/-- The sweep of the lapsed leases took the run. -/
def lapses (s : RunStep) : Bool :=
  match s.op with
  | .requeueLapsed .. => s.before.status = .RUNNING && s.after.status ≠ .RUNNING
  | _ => false

/-- It put it back on the queue. -/
def requeuesLapse (s : RunStep) : Bool := s.lapses && s.after.status = .QUEUED

/-- Nobody had asked to cancel it. -/
def countsLapse (s : RunStep) : Bool := s.lapses && s.before.cancelRequestedAt.isNone

/-- A finish put the run back on the queue. -/
def retries (s : RunStep) : Bool :=
  match s.op with
  | .finish .. => s.before.status = .RUNNING && s.after.status = .QUEUED
  | _ => false

/-- A finish with an error was taken: it ended the run, or put it back on the queue. -/
def errs (s : RunStep) : Bool :=
  match s.op with
  | .finish _ _ ending _ _ => ending.status = .ERROR && s.before.status = .RUNNING && s.after.status ≠ .RUNNING
  | _ => false

def releases (s : RunStep) : Bool :=
  match s.op with
  | .release .. => s.before.status = .RUNNING && s.after.status = .QUEUED
  | _ => false

/-- A resume continued the run. -/
def continues (s : RunStep) : Bool :=
  match s.op with
  | .resume .. => s.before.status = .PAUSED && (s.after.status = .QUEUED || s.after.status = .RUNNING)
  | _ => false

/-- It put the run back on the queue for another attempt. -/
def requeues (s : RunStep) : Bool := s.requeuesLapse || s.retries || s.releases

/-- It closes a RUNNING stretch. -/
def closes (s : RunStep) : Bool := s.before.status = .RUNNING && s.after.status ≠ .RUNNING

end RunStep

/-! ## One step -/

/-- What one step makes of the counters. -/
structure RunStep.Counts (s : RunStep) : Prop where
  attempt : s.after.attempt = s.before.attempt + s.requeues.toNat + s.continues.toNat
  lapses : s.after.leaseLapses = s.before.leaseLapses + s.countsLapse.toNat
  retries : s.after.errorRetries = s.before.errorRetries + s.retries.toNat
  /-- a lapse or an error that does not go back on the queue ends the run -/
  ends : s.lapses = true ∨ s.errs = true → s.after.status = .QUEUED ∨ s.after.status.final = true
  /-- a lapse that is requeued, or a retry, was not the last one -/
  again : s.requeuesLapse = true → s.before.leaseLapses + 1 < maxLeaseLapses ∧ s.countsLapse = true
  retried : s.retries = true → s.before.errorRetries < maxErrorRetries
  /-- the attempt goes up as the run goes back to work -/
  back : (s.after.status = .QUEUED ∨ s.after.status = .RUNNING) → s.before.status ≠ .QUEUED →
    s.before.status ≠ s.after.status → s.after.attempt = s.before.attempt + 1
  stays : s.before.status = .RUNNING → s.after.status ≠ .QUEUED → s.after.attempt = s.before.attempt

section
variable {store : RunStore} {now : Instant} {op : Op} {row row' : RunRow}

/-- A step that leaves the status counts nothing. -/
theorem counts_still (hs : row'.status = row.status) (ha : row'.attempt = row.attempt)
    (hl : row'.leaseLapses = row.leaseLapses) (hr : row'.errorRetries = row.errorRetries) :
    RunStep.Counts ⟨now, op, row, row'⟩ := by
  have hlapses : RunStep.lapses ⟨now, op, row, row'⟩ = false := by
    unfold RunStep.lapses
    split <;> simp [hs]
  have herrs : RunStep.errs ⟨now, op, row, row'⟩ = false := by
    unfold RunStep.errs
    split
    · cases hst : row.status <;> simp [hs, hst]
    · rfl
  have hretries : RunStep.retries ⟨now, op, row, row'⟩ = false := by
    unfold RunStep.retries
    split
    · cases hst : row.status <;> simp [hs, hst]
    · rfl
  have hreleases : RunStep.releases ⟨now, op, row, row'⟩ = false := by
    unfold RunStep.releases
    split
    · cases hst : row.status <;> simp [hs, hst]
    · rfl
  have hcontinues : RunStep.continues ⟨now, op, row, row'⟩ = false := by
    unfold RunStep.continues
    split
    · cases hst : row.status <;> simp [hs, hst]
    · rfl
  have hlapse : RunStep.requeuesLapse ⟨now, op, row, row'⟩ = false := by
    unfold RunStep.requeuesLapse
    rw [hlapses]
    rfl
  refine ⟨?_, ?_, ?_, ?_, ?_, ?_, ?_, ?_⟩
  · simp [RunStep.requeues, hlapse, hretries, hreleases, hcontinues, ha]
  · simp [RunStep.countsLapse, hlapses, hl]
  · simp [hretries, hr]
  · rintro (h | h)
    · rw [hlapses] at h
      cases h
    · rw [herrs] at h
      cases h
  · intro h
    rw [hlapse] at h
    cases h
  · intro h
    rw [hretries] at h
    cases h
  · exact fun _ _ hne => absurd hs.symm hne
  · exact fun _ _ => ha

/-- A pause or an ending that counts no lapse counts nothing. -/
theorem counts_left (hq : row'.status ≠ .QUEUED) (hn : row'.status ≠ .RUNNING)
    (hc : RunStep.countsLapse ⟨now, op, row, row'⟩ = false)
    (he : RunStep.lapses ⟨now, op, row, row'⟩ = true ∨ RunStep.errs ⟨now, op, row, row'⟩ = true → row'.status.final = true)
    (ha : row'.attempt = row.attempt) (hl : row'.leaseLapses = row.leaseLapses)
    (hr : row'.errorRetries = row.errorRetries) : RunStep.Counts ⟨now, op, row, row'⟩ := by
  have hlapse : RunStep.requeuesLapse ⟨now, op, row, row'⟩ = false := by simp [RunStep.requeuesLapse, hq]
  have hretries : RunStep.retries ⟨now, op, row, row'⟩ = false := by
    unfold RunStep.retries
    split <;> simp [hq]
  have hreleases : RunStep.releases ⟨now, op, row, row'⟩ = false := by
    unfold RunStep.releases
    split <;> simp [hq]
  have hcontinues : RunStep.continues ⟨now, op, row, row'⟩ = false := by
    unfold RunStep.continues
    split <;> simp [hq, hn]
  refine ⟨?_, ?_, ?_, fun h => Or.inr (he h), ?_, ?_, ?_, fun _ _ => ha⟩
  · simp [RunStep.requeues, hlapse, hretries, hreleases, hcontinues, ha]
  · simp [hc, hl]
  · simp [hretries, hr]
  · intro h
    rw [hlapse] at h
    cases h
  · intro h
    rw [hretries] at h
    cases h
  · rintro (h | h)
    · exact absurd h hq
    · exact absurd h hn

attribute [simp] RunStep.lapses RunStep.requeuesLapse RunStep.countsLapse RunStep.retries RunStep.errs RunStep.releases
  RunStep.continues RunStep.requeues

theorem counts_change (h : Change store now op row row') (hi : RowInv row) : RunStep.Counts ⟨now, op, row, row'⟩ := by
  -- an ending by another hand than the lapsed leases' sweep
  have ended : ∀ {row' : RunRow}, row'.status.final = true → RunStep.countsLapse ⟨now, op, row, row'⟩ = false →
      row'.attempt = row.attempt → row'.leaseLapses = row.leaseLapses → row'.errorRetries = row.errorRetries →
      RunStep.Counts ⟨now, op, row, row'⟩ := by
    intro row' hf hc ha hl hr
    obtain ⟨hq, hn, -⟩ := RunStatus.ne_of_final hf
    exact counts_left hq hn hc (fun _ => hf) ha hl hr
  have paused : ∀ {asked : Interrupt}, row.awaiting = some asked → row.status = .PAUSED := fun ha => hi.paused ha
  cases h with
  | beat running holder =>
    unfold RunRow.saved
    split <;> exact counts_still rfl rfl rfl rfl
  | cancelAsked | escalated => exact counts_still rfl rfl rfl rfl
  | claimed queued =>
    constructor <;> simp [RunRow.moved, RunRow.leased, queued]
  | paused _ _ _ running =>
    exact counts_left (by simp [RunRow.moved]) (by simp [RunRow.moved]) rfl
      (fun h => by rcases h with h | h <;> cases h) rfl rfl rfl
  | pauseCancelled | resumeCancelled | cancelled | releaseCancelled | pastDeadline | overworked | unanswered =>
    exact ended rfl rfl rfl rfl rfl
  | @finished row tenantId runId ending => exact ended ending.isAnEnding rfl rfl rfl rfl
  | lapseCancelled running caught cancelling =>
    refine ended rfl ?_ rfl rfl rfl
    show (_ && row.cancelRequestedAt.isNone) = false
    rw [Option.isNone_eq_false_iff.2 cancelling, Bool.and_false]
  | gaveUp running caught uncancelled last =>
    constructor <;> simp [RunRow.moved, RunStatus.final, running, uncancelled]
  | lapsed running caught uncancelled again =>
    constructor <;> simp [RunRow.requeued, RunRow.moved, running, uncancelled, again]
  | retried fenced again =>
    simp only [AgentRuns.retried, Bool.and_eq_true, decide_eq_true_eq] at again
    constructor <;> simp [RunRow.requeued, RunRow.moved, again]
  | released holder uncancelled can =>
    have running : row.status = .RUNNING := hi.leased (by rw [holder]; rfl)
    constructor <;> simp [RunRow.requeued, RunRow.moved, running]
  | resumeQueued waiting =>
    constructor <;> simp [RunRow.requeued, RunRow.moved, paused waiting]
  | resumeRunning waiting =>
    constructor <;> simp [RunRow.moved, paused waiting]

end

/-! ## The whole history -/

section
variable {store : RunStore} {r : String} {ops : List (Instant × Op)} {row : RunRow} {now : Instant} {op : Op}
  {db : Database} {s : RunStep}

theorem steps_concat : steps store r (ops ++ [(now, op)]) = steps store r ops ++ stepOf store r (history store ops) now op :=
  Run.trace_concat _ ops now op _

/-- A run that is not there has no history. -/
theorem steps_of_none (ops : List (Instant × Op)) : (history store ops).run? r = none → steps store r ops = [] := by
  induction ops using List.reverseRecOn with
  | nil => intro _; rfl
  | append_singleton ops x ih =>
    obtain ⟨now, op⟩ := x
    intro hn
    rw [steps_concat, ih (absent_before hn)]
    unfold stepOf
    rw [absent_before hn]
    rfl

theorem stepOf_eq {row row' : RunRow} (hr : db.run? r = some row) (hr' : (apply store db now op).run? r = some row') :
    stepOf store r db now op = [⟨now, op, row, row'⟩] := by
  unfold stepOf
  rw [hr, hr']

theorem RunStep.running_of_closes (s : RunStep) (h : s.closes = true) : s.before.status = .RUNNING := by
  simp only [closes, Bool.and_eq_true, decide_eq_true_eq] at h
  exact h.1

/-- What the row counts, over the steps so far; the stretches that were closed have lesser attempts. -/
structure Tally (row : RunRow) (l : List RunStep) : Prop where
  counts : ∀ s ∈ l, s.Counts
  attempt : row.attempt = 1 + l.countP RunStep.requeues + l.countP RunStep.continues
  lapses : row.leaseLapses = l.countP RunStep.countsLapse
  retries : row.errorRetries = l.countP RunStep.retries
  closed : ∀ s ∈ l, s.closes = true → s.before.attempt ≤ row.attempt
  open_ : row.status = .QUEUED ∨ row.status = .RUNNING → ∀ s ∈ l, s.closes = true → s.before.attempt < row.attempt
  increasing : ((l.filter RunStep.closes).map (·.before.attempt)).Pairwise (· < ·)
  lapsesRequeued : l.countP RunStep.requeuesLapse ≤ maxLeaseLapses - 1
  errorsRetried : l.countP RunStep.retries ≤ maxErrorRetries

theorem Tally.started (start : RunStart) (queue : Bool) (now : Instant) : Tally (startedRow start queue now) [] :=
  ⟨fun _ hs => absurd hs List.not_mem_nil, rfl, rfl, rfl, fun _ hs => absurd hs List.not_mem_nil,
    fun _ _ hs => absurd hs List.not_mem_nil, List.Pairwise.nil, Nat.zero_le _, Nat.zero_le _⟩

theorem Tally.requeuesLapse_le {l : List RunStep} (h : Tally row l) :
    l.countP RunStep.requeuesLapse ≤ row.leaseLapses := by
  rw [h.lapses]
  exact List.countP_mono_left fun s hs hq => ((h.counts s hs).again hq).2

/-- No lapse is requeued, and no error retried, beyond the last one that may be. -/
theorem Tally.bounded {l : List RunStep} (h : Tally s.before l) (hc : s.Counts) :
    (s.requeuesLapse = true → l.countP RunStep.requeuesLapse < maxLeaseLapses - 1) ∧
      (s.retries = true → l.countP RunStep.retries < maxErrorRetries) := by
  have hle := h.requeuesLapse_le
  refine ⟨fun hq => ?_, fun hr => ?_⟩
  · have := (hc.again hq).1
    omega
  · have := hc.retried hr
    rw [h.retries] at this
    exact this

theorem countP_next (l : List RunStep) (s : RunStep) (p : RunStep → Bool) :
    (l ++ [s]).countP p = l.countP p + (p s).toNat := by
  rw [List.countP_append, List.countP_singleton]
  cases p s <;> rfl

/-- Where a run works, it works on an attempt above every closed one. -/
theorem RunStep.Counts.above (hc : s.Counts) (hs : s.after.status = .QUEUED ∨ s.after.status = .RUNNING) :
    s.before.attempt < s.after.attempt ∨
      (s.before.status = .QUEUED ∨ s.before.status = .RUNNING) ∧ s.closes = false := by
  by_cases hq : s.before.status = .QUEUED
  · exact Or.inr ⟨Or.inl hq, by simp [RunStep.closes, hq]⟩
  · by_cases he : s.before.status = s.after.status
    · refine Or.inr ⟨he ▸ hs, ?_⟩
      simp [RunStep.closes, he]
    · have := hc.back hs hq he
      exact Or.inl (by omega)

theorem RunStep.Counts.mono (hc : s.Counts) : s.before.attempt ≤ s.after.attempt := by
  rw [hc.attempt]
  omega

/-- **One step.** -/
theorem Tally.step {l : List RunStep} (h : Tally s.before l) (hc : s.Counts) : Tally s.after (l ++ [s]) where
  counts x hx := by
    rcases List.mem_append.1 hx with hx | hx
    · exact h.counts x hx
    · rw [List.mem_singleton.1 hx]
      exact hc
  attempt := by
    rw [hc.attempt, h.attempt, countP_next, countP_next]
    omega
  lapses := by rw [hc.lapses, h.lapses, countP_next]
  retries := by rw [hc.retries, h.retries, countP_next]
  closed x hx hcl := by
    rcases List.mem_append.1 hx with hx | hx
    · exact (h.closed x hx hcl).trans hc.mono
    · rw [List.mem_singleton.1 hx]
      exact hc.mono
  open_ hs x hx hcl := by
    rcases List.mem_append.1 hx with hx | hx
    · have hle := h.closed x hx hcl
      rcases hc.above hs with hlt | ⟨hb, -⟩
      · omega
      · have hlt := h.open_ hb x hx hcl
        have hmono := hc.mono
        omega
    · rw [List.mem_singleton.1 hx] at hcl ⊢
      rcases hc.above hs with hlt | ⟨-, hne⟩
      · exact hlt
      · rw [hne] at hcl
        cases hcl
  increasing := by
    rw [List.filter_append, List.map_append, List.pairwise_append]
    refine ⟨h.increasing, ?_, fun a ha b hb => ?_⟩
    · cases hcl : s.closes <;> simp [hcl]
    · obtain ⟨x, hx, rfl⟩ := List.mem_map.1 ha
      obtain ⟨y, hy, rfl⟩ := List.mem_map.1 hb
      obtain ⟨hx, hcx⟩ := List.mem_filter.1 hx
      obtain ⟨hy, hcy⟩ := List.mem_filter.1 hy
      rw [List.mem_singleton.1 hy] at hcy ⊢
      exact h.open_ (Or.inr (s.running_of_closes hcy)) x hx hcx
  lapsesRequeued := by
    rw [countP_next]
    cases hq : s.requeuesLapse
    · exact h.lapsesRequeued
    · exact (h.bounded hc).1 hq
  errorsRetried := by
    rw [countP_next]
    cases hr : s.retries
    · exact h.errorsRetried
    · exact (h.bounded hc).2 hr

/-- **Run.** -/
theorem tally (ops : List (Instant × Op)) : ∀ row, (history store ops).run? r = some row → Tally row (steps store r ops) := by
  induction ops using List.reverseRecOn with
  | nil => intro row hr; cases hr
  | append_singleton ops x ih =>
    obtain ⟨now, op⟩ := x
    intro row' hr'
    rw [history_concat] at hr'
    rw [steps_concat]
    rcases apply_run hr' with hr | ⟨row, hr, hc, -⟩ | ⟨hnone, start, queue, strict, -, rfl, -⟩
    · rw [stepOf_eq hr hr']
      exact (ih row' hr).step (s := ⟨now, op, row', row'⟩) (counts_still rfl rfl rfl rfl)
    · rw [stepOf_eq hr hr']
      exact (ih row hr).step (s := ⟨now, op, row, row'⟩) (counts_change hc (history_inv ops r row hr))
    · rw [steps_of_none ops hnone]
      unfold stepOf
      rw [hnone]
      exact Tally.started start queue now

/-- Every step, with the steps before it. -/
theorem tally_before (ops : List (Instant × Op)) : ∀ before s after, steps store r ops = before ++ s :: after →
    Tally s.before before ∧ s.Counts := by
  induction ops using List.reverseRecOn with
  | nil =>
    intro before s after h
    cases before <;> cases h
  | append_singleton ops x ih =>
    obtain ⟨now, op⟩ := x
    intro before s after h
    rw [steps_concat] at h
    cases hr : (history store ops).run? r with
    | none =>
      rw [steps_of_none ops hr, stepOf, hr] at h
      cases before <;> cases h
    | some row =>
      obtain ⟨row', hr', -⟩ := run_apply store now op hr
      rw [stepOf_eq hr hr'] at h
      rcases List.eq_nil_or_concat after with rfl | ⟨after, last, rfl⟩
      · -- the last step
        obtain ⟨hb, hs⟩ := List.append_inj' h rfl
        obtain rfl : _ = s := List.singleton_inj.1 hs
        rw [← hb]
        refine ⟨tally ops row hr, ?_⟩
        have hlast := tally (r := r) (ops ++ [(now, op)]) row' (by rw [history_concat, hr'])
        exact hlast.counts _ (by rw [steps_concat, stepOf_eq hr hr']; simp)
      · rw [List.concat_eq_append, ← List.cons_append, ← List.append_assoc] at h
        exact ih before s after (List.append_inj' h rfl).1

/-! ## The account -/

theorem RunStep.advances_toNat (s : RunStep) :
    s.requeues.toNat + s.continues.toNat = (s.requeues || s.continues).toNat := by
  cases hc : s.continues
  · simp
  · have halone : s.requeues = false := by
      obtain ⟨now, op, before, after⟩ := s
      cases op <;> first | cases hc | rfl
    rw [halone]
    rfl

theorem countP_advances (l : List RunStep) :
    l.countP RunStep.requeues + l.countP RunStep.continues = l.countP (fun s => s.requeues || s.continues) := by
  induction l with
  | nil => rfl
  | cons s l ih =>
    have hs := s.advances_toNat
    have hcount : ∀ p : RunStep → Bool, (s :: l).countP p = l.countP p + (p s).toNat := by
      intro p
      rw [List.countP_cons]
      cases p s <;> rfl
    rw [hcount, hcount, hcount]
    omega

theorem RunStep.requeuesLapse_of_lapses (s : RunStep) (h : s.lapses = true) (hq : s.after.status = .QUEUED) :
    s.requeuesLapse = true := by
  unfold requeuesLapse
  rw [h, hq]
  rfl

theorem RunStep.retries_of_errs (s : RunStep) (h : s.errs = true) (hq : s.after.status = .QUEUED) : s.retries = true := by
  obtain ⟨now, op, before, after⟩ := s
  cases op with
  | finish => simp_all
  | _ => cases h

/-- The counters of a row, and the steps of its run. -/
structure Accounted (row : RunRow) (l : List RunStep) : Prop where
  /-- one for each requeue and each resume that continues the run, and nothing else -/
  attempt : row.attempt = 1 + l.countP (fun s => s.requeues || s.continues)
  advances : ∀ s ∈ l, s.after.attempt = s.before.attempt + (s.requeues || s.continues).toNat
  /-- the stretches that were closed, in the order they were, have strictly increasing attempts -/
  increasing : ((l.filter RunStep.closes).map (·.before.attempt)).Pairwise (· < ·)
  /-- and the one that is open has a greater one -/
  running : row.status = .RUNNING → ∀ s ∈ l, s.closes = true → s.before.attempt < row.attempt
  /-- a pause or an ending has the attempt of the stretch it closes -/
  closing : ∀ s ∈ l, s.closes = true → s.after.status ≠ .QUEUED → s.after.attempt = s.before.attempt
  /-- a stretch has one attempt -/
  within : ∀ s ∈ l, s.before.status = .RUNNING → s.after.status = .RUNNING → s.after.attempt = s.before.attempt
  lapses : row.leaseLapses = l.countP RunStep.countsLapse
  retries : row.errorRetries = l.countP RunStep.retries
  lapsesRequeued : l.countP RunStep.requeuesLapse ≤ maxLeaseLapses - 1
  errorsRetried : l.countP RunStep.retries ≤ maxErrorRetries
  /-- and the next one ends the run -/
  lastLapse : ∀ before s after, l = before ++ s :: after → before.countP RunStep.requeuesLapse = maxLeaseLapses - 1 →
    s.lapses = true → s.after.status.final = true
  lastError : ∀ before s after, l = before ++ s :: after → before.countP RunStep.retries = maxErrorRetries →
    s.errs = true → s.after.status.final = true

/-- **The account of a run's attempts** is right over its whole history. -/
theorem attempts_accounted (hr : (history store ops).run? r = some row) : Accounted row (steps store r ops) := by
  have h := tally ops row hr
  exact
    { attempt := by
        rw [h.attempt, Nat.add_assoc, countP_advances]
      advances := fun s hs => by
        rw [(h.counts s hs).attempt, Nat.add_assoc, RunStep.advances_toNat]
      increasing := h.increasing
      running := fun hrun => h.open_ (Or.inr hrun)
      closing := fun s hs hcl hq => (h.counts s hs).stays (s.running_of_closes hcl) hq
      within := fun s hs hb ha => (h.counts s hs).stays hb (by rw [ha]; simp)
      lapses := h.lapses
      retries := h.retries
      lapsesRequeued := h.lapsesRequeued
      errorsRetried := h.errorsRetried
      lastLapse := fun before s after he hn hl => by
        obtain ⟨hb, hc⟩ := tally_before ops before s after he
        rcases hc.ends (Or.inl hl) with hq | hf
        · have := (hb.bounded hc).1 (s.requeuesLapse_of_lapses hl hq)
          omega
        · exact hf
      lastError := fun before s after he hn hl => by
        obtain ⟨hb, hc⟩ := tally_before ops before s after he
        rcases hc.ends (Or.inr hl) with hq | hf
        · have := (hb.bounded hc).2 (s.retries_of_errs hl hq)
          omega
        · exact hf }

end

/-- A run whose lease lapses, and which is claimed again. -/
def lapsedWork : List (Instant × Op) :=
  [(0, .start smallStart true true), (1, .claim ⟨[], []⟩ (some "t") ⟨"w", ["a"], smallLease⟩),
    (100, .requeueLapsed [] 10 fun _ => smallDraw), (1000, .claim ⟨[], []⟩ (some "t") ⟨"w", ["a"], smallLease⟩)]

theorem lapsedWork_accounted : ∃ row : RunRow, row.attempt = 2 ∧ row.leaseLapses = 1 ∧
    Accounted row (steps smallStore "r" lapsedWork) := by
  have hs : ((history smallStore lapsedWork).run? "r").any (fun row => row.attempt = 2 ∧ row.leaseLapses = 1) = true := by
    decide +kernel
  obtain ⟨row, hr, hrow⟩ := (Option.any_eq_true _ _).1 hs
  obtain ⟨ha, hl⟩ := of_decide_eq_true hrow
  exact ⟨row, ha, hl, attempts_accounted hr⟩

/-- A run asked to cancel whose lease lapses. -/
def cancelledLapse : List (Instant × Op) := cancelledWork ++ [(100, .requeueLapsed [] 10 fun _ => smallDraw)]

/-- That lapse ends the run, and is not counted. -/
theorem cancelled_lapse_uncounted : ∃ row : RunRow, (history smallStore cancelledLapse).run? "r" = some row ∧
    row.status = .CANCELLED ∧ row.leaseLapses ≠ (steps smallStore "r" cancelledLapse).countP RunStep.lapses := by
  have hs : ((history smallStore cancelledLapse).run? "r").any (fun row => row.status = .CANCELLED ∧
      row.leaseLapses ≠ (steps smallStore "r" cancelledLapse).countP RunStep.lapses) = true := by decide +kernel
  obtain ⟨row, hr, hrow⟩ := (Option.any_eq_true _ _).1 hs
  exact ⟨row, hr, of_decide_eq_true hrow⟩

end AgentRuns
