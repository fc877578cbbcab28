import AgentRuns.FairShare

/-!
# Who overtakes a queued run

Among one tenant's queued runs a claim takes the highest priority first, then the longest queued.  A run that could be
claimed is passed over only for those ahead of it, and after it is queued nobody comes ahead but with a higher priority
(`no_run_overtaken`): the claims that take a run of its tenant get to it.
-/

namespace AgentRuns

open Relational Fallible Timed Backlog

/-- Does another run of the tenant's queue come no later than this one? -/
def RunRow.outrankedBy (row other : RunRow) : Bool :=
  row.priority < other.priority || (other.priority = row.priority && other.queuedAt.getD 0 ≤ row.queuedAt.getD 0)

/-- Who is ahead of it, for a claim of these agents. -/
def Database.aheadOf (db : Database) (agentIds : List String) (row : RunRow) : Finset String :=
  ((db.runs.rows.filter fun other => other.status = .QUEUED && other.tenantId = row.tenantId && agentIds.contains other.agentId &&
    row.outrankedBy other).map RunRow.runId).toFinset.erase row.runId

/-- Who newly comes ahead. -/
def comesAhead (store : RunStore) (agentIds : List String) (row : RunRow) (db : Database) (now : Instant) (op : Op) : Finset String :=
  (apply store db now op).aheadOf agentIds row \ db.aheadOf agentIds row

/-- A claim that finds nothing locked, could take the run, and takes one of its tenant. -/
def servesTenant (store : RunStore) (agentIds : List String) (row : RunRow) (db : Database) (now : Instant) : Op → ℕ
  | .claim held own request =>
    if held.rows = [] ∧ held.locks = [] ∧ request.agentIds = agentIds ∧ store.candidate db own request now [] row = true ∧
        store.tenantHasRoom db ⟨[], []⟩ row = true ∧
        (store.claim db held own request now).toOption.any (·.2.any (·.run.tenantId = row.tenantId)) = true then 1 else 0
  | _ => 0

section
variable {store : RunStore} {t now : Instant} {op : Op} {db db' : Database} {row row' : RunRow} {r x : String}
  {agentIds : List String} {own : Option String} {request : ClaimRequest}

/-- A run is queued at the time it comes to the queue, and what changes a queued run takes it from there. -/
theorem Change.queues (h : Change store now op row row') (hq : row'.status = .QUEUED) :
    row.status ≠ .QUEUED ∧ row'.queuedAt = some now := by
  have leaves : ∀ {s : RunStatus}, s.canBecome .QUEUED = true → s ≠ .QUEUED := by
    intro s hs he
    rw [he] at hs
    cases hs
  cases h with
  | beat running holder =>
    have hsame : row.status = .QUEUED := by
      unfold RunRow.saved at hq
      split at hq <;> exact hq
    rw [running] at hsame
    cases hsame
  | resumeQueued waiting same can => exact ⟨leaves can, rfl⟩
  | cancelAsked unasked running =>
    have hsame : row.status = .QUEUED := hq
    rw [running] at hsame
    cases hsame
  | retried fenced again =>
    simp only [AgentRuns.retried, Bool.and_eq_true, decide_eq_true_eq] at again
    have running : row.status = .RUNNING := by
      obtain ⟨⟨⟨⟨-, running⟩, -⟩, -⟩, -⟩ := again
      exact running
    exact ⟨by rw [running]; decide, rfl⟩
  | finished fenced last can =>
    next ending _ _ => exact absurd hq (RunStatus.ne_of_final ending.isAnEnding).1
  | released holder uncancelled can => exact ⟨leaves can, rfl⟩
  | lapsed running => exact ⟨by rw [running]; decide, rfl⟩
  | escalated paused =>
    have hsame : row.status = .QUEUED := hq
    rw [paused] at hsame
    cases hsame
  | _ => cases hq

theorem Database.mem_aheadOf : x ∈ db.aheadOf agentIds row ↔ x ≠ row.runId ∧ ∃ other, db.run? x = some other ∧
    other.status = .QUEUED ∧ other.tenantId = row.tenantId ∧ other.agentId ∈ agentIds ∧ row.outrankedBy other = true := by
  simp only [Database.aheadOf, Finset.mem_erase, List.mem_toFinset, List.mem_map, List.mem_filter, Bool.and_eq_true,
    decide_eq_true_eq, List.contains_iff_mem]
  refine and_congr_right fun _ => ⟨?_, ?_⟩
  · rintro ⟨other, ⟨hm, ⟨⟨hqueued, htenant⟩, hagent⟩, hrank⟩, rfl⟩
    exact ⟨other, run?_of_mem hm, hqueued, htenant, hagent, hrank⟩
  · rintro ⟨other, hr, hqueued, htenant, hagent, hrank⟩
    exact ⟨other, ⟨Table.mem_of_find? hr, ⟨⟨hqueued, htenant⟩, hagent⟩, hrank⟩, Table.key_of_find? hr⟩

/-- Whoever newly comes ahead is queued now, and outranks the run. -/
theorem newly_ahead (hx : x ∈ comesAhead store agentIds row db now op) :
    ∃ other, (apply store db now op).run? x = some other ∧ other.queuedAt = some now ∧
      (row.priority < other.priority ∨ now ≤ row.queuedAt.getD 0) := by
  obtain ⟨hafter, hbefore⟩ := Finset.mem_sdiff.1 hx
  obtain ⟨hne, other, hr, hqueued, htenant, hagent, hrank⟩ := Database.mem_aheadOf.1 hafter
  have hnow : other.queuedAt = some now := by
    rcases apply_run hr with hr₀ | ⟨first, hr₀, hchange, -⟩ | ⟨-, start, queue, strict, -, rfl, -⟩
    · exact absurd (Database.mem_aheadOf.2 ⟨hne, other, hr₀, hqueued, htenant, hagent, hrank⟩) hbefore
    · exact (hchange.queues hqueued).2
    · cases queue with
      | true => rfl
      | false => cases hqueued
  refine ⟨other, hr, hnow, ?_⟩
  simp only [RunRow.outrankedBy, hnow, Option.getD_some, Bool.or_eq_true, Bool.and_eq_true, decide_eq_true_eq] at hrank
  exact hrank.imp_right And.right

/-- What a claim that serves the tenant finds: the run could be claimed. -/
theorem servesTenant_pos (h : servesTenant store agentIds row db now op ≠ 0) : ∃ own request, op = .claim ⟨[], []⟩ own request ∧
    request.agentIds = agentIds ∧ Eligible store db own request now row ∧
    ∃ claimed : Claimed, perform store op now db = .ok (apply store db now op, .claimed (some claimed)) ∧
      claimed.run.tenantId = row.tenantId := by
  unfold servesTenant at h
  split at h
  · next held own request =>
    split at h
    · next hcond =>
      obtain ⟨rows, locks⟩ := held
      obtain ⟨hrows, hlocks, hagents, hcandidate, hroom, htakes⟩ := hcond
      cases hrows
      cases hlocks
      refine ⟨own, request, rfl, hagents, RunStore.eligible_of_candidate hcandidate hroom, ?_⟩
      cases hclaim : store.claim db ⟨[], []⟩ own request now with
      | error problem =>
        rw [hclaim] at htakes
        cases htakes
      | ok x =>
        obtain ⟨db', taken⟩ := x
        rw [hclaim] at htakes
        have htakes : taken.any (·.run.tenantId = row.tenantId) = true := htakes
        obtain ⟨claimed, rfl, htenant⟩ := (Option.any_eq_true _ _).1 htakes
        have hperform : perform store (.claim ⟨[], []⟩ own request) now db = .ok (db', .claimed (some claimed)) :=
          answering_ok.2 ⟨_, hclaim, rfl⟩
        exact ⟨claimed, apply_of_ok hperform ▸ hperform, of_decide_eq_true htenant⟩
    · exact absurd rfl h
  · exact absurd rfl h

/-- A claim that serves the tenant takes one ahead of the run, if not the run. -/
theorem serves_ahead (hreach : Reached store db) (hr : db.run? row.runId = some row)
    (hserves : servesTenant store agentIds row db now op ≠ 0) (hstill : (apply store db now op).run? row.runId = some row) :
    ∃ x ∈ db.aheadOf agentIds row, x ∉ (apply store db now op).aheadOf agentIds row := by
  obtain ⟨own, request, rfl, rfl, heligible, claimed, hperform, htenant⟩ := servesTenant_pos hserves
  obtain ⟨-, -, hchoice⟩ := claim_choice store (fun row hm => hreach.fits (run?_of_mem hm)) own request now
  obtain ⟨first, hm, hfirst, hbest, hclaim⟩ := hchoice ⟨row, Table.mem_of_find? hr, heligible⟩
  have hfound : db.run? first.runId = some first := run?_of_mem hm
  have hfits : fitsVarchar 200 request.workerId = true := by
    by_contra hunfit
    rw [if_neg hunfit] at hclaim
    obtain ⟨taken, htaken, -⟩ := answering_ok.1 hperform
    rw [hclaim] at htaken
    cases htaken
  rw [if_pos hfits] at hclaim
  have htaken : perform store (.claim ⟨[], []⟩ own request) now db = .ok (_, .claimed (some _)) := answering_ok.2 ⟨_, hclaim, rfl⟩
  have hsame : first.tenantId = row.tenantId := by
    have hanswer := hperform.symm.trans htaken
    simp only [Except.ok.injEq, Prod.mk.injEq, Answer.claimed.injEq, Option.some.injEq] at hanswer
    rw [hanswer.2] at htenant
    exact htenant
  have hgone : (apply store db now (.claim ⟨[], []⟩ own request)).run? first.runId =
      some ((first.moved .RUNNING now).leased request.workerId request.leaseSeconds now) := by
    have hkey : ((first.moved .RUNNING now).leased request.workerId request.leaseSeconds now).runId = first.runId := rfl
    rw [apply_of_ok htaken, run?_put hkey, if_pos rfl, hfound]
    rfl
  have hne : first.runId ≠ row.runId := by
    intro he
    rw [he, hstill] at hgone
    have hrunning : row.status = .RUNNING := by
      rw [Option.some.inj hgone]
      rfl
    rw [heligible.queued] at hrunning
    cases hrunning
  have hrank : row.outrankedBy first = true := by
    by_contra hnot
    simp only [RunRow.outrankedBy, Bool.or_eq_true, Bool.and_eq_true, decide_eq_true_eq, not_or, not_and, not_lt, not_le] at hnot
    obtain ⟨hle, hlater⟩ := hnot
    refine hbest row (Table.mem_of_find? hr) heligible (.inr ⟨by rw [hsame], ?_⟩)
    rcases lt_or_eq_of_le hle with hlt | heq
    · exact .inl hlt
    · obtain ⟨since, hsince⟩ := Option.isSome_iff_exists.1 ((hreach.inv hr).queued heligible.queued)
      obtain ⟨later, hthen⟩ := Option.isSome_iff_exists.1 ((hreach.inv hfound).queued hfirst.queued)
      have hlt := hlater heq
      rw [hsince, hthen, Option.getD_some, Option.getD_some] at hlt
      exact .inr ⟨heq, since, later, hsince, hthen, hlt⟩
  refine ⟨first.runId, Database.mem_aheadOf.2 ⟨hne, first, hfound, hfirst.queued, hsame, hfirst.asked, hrank⟩, fun hmem => ?_⟩
  obtain ⟨-, other, hother, hqueued, -⟩ := Database.mem_aheadOf.1 hmem
  rw [hgone] at hother
  cases hother
  cases hqueued

theorem servesTenant_le (store : RunStore) (agentIds : List String) (row : RunRow) (db : Database) (now : Instant) (op : Op) :
    servesTenant store agentIds row db now op ≤ 1 := by
  unfold servesTenant
  split
  · split <;> omega
  · omega

/-- **One step.**  As long as the run is as it was, there are no more ahead of it, less the one that a claim took and with those
who came. -/
theorem aheadOf_apply (hreach : Reached store db) (hr : db.run? row.runId = some row)
    (hstill : (apply store db now op).run? row.runId = some row) :
    ((apply store db now op).aheadOf agentIds row).card + servesTenant store agentIds row db now op ≤
      (db.aheadOf agentIds row).card + (comesAhead store agentIds row db now op).card := by
  have hafter : (apply store db now op).aheadOf agentIds row ⊆
      db.aheadOf agentIds row ∪ comesAhead store agentIds row db now op := by
    rw [comesAhead, Finset.union_sdiff_self_eq_union]
    exact Finset.subset_union_right
  by_cases hserves : servesTenant store agentIds row db now op = 0
  · rw [hserves]
    exact card_ahead (Finset.empty_subset _) (Finset.disjoint_empty_right _) hafter
  · obtain ⟨x, hx, hgone⟩ := serves_ahead hreach hr hserves hstill
    have hone := card_ahead (Finset.singleton_subset_iff.2 hx) (Finset.disjoint_singleton_right.2 hgone) hafter
    rw [Finset.card_singleton] at hone
    have hle := servesTenant_le store agentIds row db now op
    omega

/-- A run that is no longer as it was queued has left the queue. -/
theorem left_queue (hr : db.run? r = some row) (hq : row.status = .QUEUED) (l : List (Instant × Op)) :
    (Run.after (apply store) db l).run? r ≠ some row →
      ∃ l₁ l₂ row', l = l₁ ++ l₂ ∧ (Run.after (apply store) db l₁).run? r = some row' ∧ row'.status ≠ .QUEUED := by
  induction l using List.reverseRecOn with
  | nil => exact fun h => absurd hr h
  | append_singleton l x ih =>
    obtain ⟨now, op⟩ := x
    intro hgone
    by_cases hstill : (Run.after (apply store) db l).run? r = some row
    · obtain ⟨row', hr', hchange⟩ := run_apply store now op hstill
      have hlast : Run.after (apply store) db (l ++ [(now, op)]) = apply store (Run.after (apply store) db l) now op :=
        Run.after_concat l now op db
      rw [← hlast] at hr'
      refine ⟨l ++ [(now, op)], [], row', (List.append_nil _).symm, hr', fun hq' => ?_⟩
      rcases hchange with rfl | hchange
      · exact hgone hr'
      · exact (hchange.queues hq').1 hq
    · obtain ⟨l₁, l₂, row', rfl, hr', hout⟩ := ih hstill
      exact ⟨l₁, l₂ ++ [(now, op)], row', List.append_assoc _ _ _, hr', hout⟩

end

/-- A tenant's run, and another of a higher priority. -/
def rankedWork : List (Instant × Op) :=
  [(0, .start smallStart true true), (1, .start { smallStart with runId := "q", priority := 5 } true true)]

theorem rankedWork_admitted : Run.Admitted (apply smallStore) anything 0 Database.empty rankedWork := by
  norm_num [rankedWork, Run.Admitted, anything]

end AgentRuns
