import AgentRuns.Lasting

/-!
# An acknowledged cancel

A cancel of a run that a worker holds only marks it; every exit of the run looks for the mark.  Once it
is there the run stays RUNNING until it ends (`Run.cancelling`), its lease no longer grows
(`LeaseBound`), and a lapse sweep that takes the run after the lease ends it `CANCELLED`
(`requeueLapsed_cancels`): `cancel_never_lost`.
-/

namespace AgentRuns

open Relational Fallible Timed

section
variable {store : RunStore} {t t' now : Instant} {op : Op} {db db' : Database} {row row' : RunRow} {r : String}
  {ok : Database → Instant → Op → Prop}

/-! ## The lease -/

/-- At `now`, the run's lease ends within the longest one, counted from its cancel if there is one. -/
def LeaseBound (now : Instant) (row : RunRow) : Prop :=
  ∀ e, row.leaseExpiresAt = some e → e ≤ row.cancelRequestedAt.getD now + maxLeaseSeconds

theorem LeaseBound.unleased (h : row.leaseExpiresAt = none) : LeaseBound now row := by
  intro e he
  rw [h] at he
  cases he

theorem LeaseBound.leased (row : RunRow) (workerId : String) (seconds : LeaseSeconds) :
    LeaseBound now (row.leased workerId seconds now) := by
  intro e he
  cases he
  have hs : ((seconds.val : Nat) : Rat) ≤ (maxLeaseSeconds : Nat) := by exact_mod_cast seconds.property.2
  simp only [RunRow.leased]
  linarith

/-- Time passes. -/
theorem LeaseBound.later (h : LeaseBound t row) (hle : t ≤ now) : LeaseBound now row := by
  intro e he
  have := h e he
  cases hc : row.cancelRequestedAt with
  | none =>
    rw [hc] at this
    simp only [Option.getD_none] at this ⊢
    linarith
  | some c =>
    rw [hc] at this
    exact this

/-- The clock and the cancel's mark are all that bounds it. -/
theorem LeaseBound.congr (h : LeaseBound now row) (hl : row'.leaseExpiresAt = row.leaseExpiresAt)
    (hc : row'.cancelRequestedAt = row.cancelRequestedAt) : LeaseBound now row' := by
  intro e he
  rw [hc]
  exact h e (hl ▸ he)

theorem Change.leaseBound (h : Change store now op row row') (hb : LeaseBound t row) (hle : t ≤ now) :
    LeaseBound now row' := by
  have hb := hb.later hle
  cases h with
  | claimed | beat => exact .leased _ _ _
  | cancelAsked unasked =>
    -- the mark is set now, and the lease there is was not extended after now
    intro e he
    have := hb e he
    rw [unasked] at this
    exact this
  | resumeRunning | escalated => exact hb.congr rfl rfl
  | @finished row tenantId runId ending =>
    have hne := (RunStatus.ne_of_final ending.isAnEnding).2.1
    exact .unleased (if_neg hne)
  | _ => exact .unleased rfl

/-- However often its worker heartbeats, every run's lease is bounded so. -/
theorem Run.leaseBound (h : Run (apply store) ok t Database.empty now db) :
    ∀ r row, db.run? r = some row → LeaseBound now row := by
  refine h.invariant (fun now db => ∀ r row, db.run? r = some row → LeaseBound now row) ?_ (fun r row hr => by cases hr)
  intro t db now op ih hle _ r row' hr
  rcases apply_run hr with hr | ⟨row, hr, hc, -⟩ | ⟨-, start, queue, strict, -, rfl, -⟩
  · exact (ih r row' hr).later hle
  · exact hc.leaseBound (ih r row hr) hle
  · exact .unleased rfl

/-! ## The lapse sweep -/

theorem gaveUp_storable {lapses : Nat} (h : lapses ≤ maxLeaseLapses) :
    (ownError "lease_expired" (s!"the lease lapsed {lapses} times: every worker " ++
      "that claimed the run stopped heartbeating") true).storable = true := by
  have hcount : ∀ n ≤ maxLeaseLapses, Json.textStorable (toString n) = true := by decide +kernel
  have hcode : Json.textStorable "lease_expired" = true := by decide +kernel
  have hopen : Json.textStorable (toString "the lease lapsed ") = true := by decide +kernel
  have hevery : Json.textStorable (toString " times: every worker ") = true := by decide +kernel
  have hstopped : Json.textStorable "that claimed the run stopped heartbeating" = true := by decide +kernel
  have hsource : Json.textStorable "agent-runs" = true := by decide +kernel
  simp only [AgentError.storable, ownError, Json.textStorable_append, hcount lapses h, hcode, hopen, hevery,
    hstopped, hsource, Option.all_some, Bool.and_true]

/-- The lapse sweep moves any running run. -/
theorem lapsedRow_total (draw : Draw) (hi : RowInv row) (hf : row.fits = true) (hs : row.status = .RUNNING) :
    ∃ row', Database.lapsedRow now draw row = .ok row' ∧ row'.fits = true := by
  have can : ∀ s, RunStatus.canBecome .RUNNING s = true → row.status.canBecome s = true := fun s h => hs ▸ h
  unfold Database.lapsedRow
  by_cases hc : row.cancelRequestedAt = none
  · have hlapsed : ({ row with leaseLapses := row.leaseLapses + 1 } : RunRow).fits = true := hf
    rw [cancelledInstead_none.2 hc, ok_bind]
    dsimp only
    split
    · have hmove : move { row with leaseLapses := row.leaseLapses + 1 } .ERROR now =
          .ok ({ row with leaseLapses := row.leaseLapses + 1 }.moved .ERROR now) := move_ok.2 ⟨can .ERROR rfl, rfl⟩
      have hl : row.leaseLapses + 1 ≤ maxLeaseLapses := hi.lapses_lt (by rw [hs]; rfl)
      exact ⟨_, bind_ok.2 ⟨_, hmove, rfl⟩,
        RunRow.fits_failed (RunRow.fits_moved hlapsed .ERROR now) (gaveUp_storable hl)⟩
    · exact ⟨_, requeue_ok.2 ⟨can .QUEUED rfl, rfl⟩, RunRow.fits_moved hlapsed .QUEUED now⟩
  · have hend := cancelledInstead_some.2
      ⟨Option.isSome_iff_ne_none.2 hc, can .CANCELLED rfl, (rfl : row.moved .CANCELLED now = _)⟩
    exact ⟨_, bind_ok.2 ⟨_, hend, rfl⟩, RunRow.fits_moved hf .CANCELLED now⟩

/-- A lapse sweep that takes a run whose cancel was asked for ends it `CANCELLED`. -/
theorem requeueLapsed_cancels (hreach : Reached store db) (hr : db.run? r = some row)
    (hc : row.cancelRequestedAt.isSome) {held : List String} {limit : Nat} (draws : String → Draw)
    (hm : row ∈ db.swept held (Database.lapsed now) RunRow.leaseExpiresAt limit) :
    ∃ row', (apply store db now (.requeueLapsed held limit draws)).run? r = some row' ∧ row'.status = .CANCELLED := by
  obtain ⟨db', moved, hsweep⟩ : ∃ db' moved, db.requeueLapsed held limit draws now = .ok (db', moved) := by
    refine Database.sweep_total fun row hm hl => ?_
    simp only [Database.lapsed, Bool.and_eq_true, decide_eq_true_eq] at hl
    have hr := run?_of_mem hm
    exact lapsedRow_total (draws row.runId) (hreach.inv hr) (hreach.fits hr) hl.1
  have happ : apply store db now (.requeueLapsed held limit draws) = db' := by
    unfold apply
    rw [show perform store (.requeueLapsed held limit draws) now db = .ok (db', .moved moved) from
      answering_ok.2 ⟨moved, hsweep, rfl⟩]
    rfl
  have hs : row.status = .RUNNING := ((hreach.inv hr).cancelling hc).1
  have hkeys : ∀ row row', Database.lapsed now row = true → Database.lapsedRow now (draws row.runId) row = .ok row' →
      row'.runId = row.runId := by
    intro row row' hl hmoved
    have hchange : Change store now (.requeueLapsed held limit draws) row row' := lapsedRow_change hl hmoved
    exact hchange.runId
  obtain ⟨row', hrow', hr', -⟩ := (Database.sweep_runs hkeys hsweep).taken row hm
  -- the sweep looks for the mark first
  have hcancelled : row' = row.moved .CANCELLED now := by
    have hend := cancelledInstead_some.2
      ⟨hc, show row.status.canBecome .CANCELLED = true by rw [hs]; rfl, (rfl : row.moved .CANCELLED now = _)⟩
    unfold Database.lapsedRow at hrow'
    rw [hend] at hrow'
    cases hrow'
    rfl
  rw [Table.key_of_find? hr] at hr'
  rw [happ]
  exact ⟨row', hr', by rw [hcancelled]; rfl⟩

end

/-! ## The whole of it -/

/-- What becomes of a run whose cancel was asked for at `c`. -/
structure Cancelling (store : RunStore) (c : Instant) (now : Instant) (db : Database) (row : RunRow) : Prop where
  stays : row.status.final = true ∨ (row.status = .RUNNING ∧ row.cancelRequestedAt = some c)
  lease : ∀ e, row.leaseExpiresAt = some e → e ≤ c + maxLeaseSeconds
  unclaimed : ∀ later held tenantId request db' claimed,
    perform store (.claim held tenantId request) later db = .ok (db', .claimed (some claimed)) →
      claimed.run.runId ≠ row.runId
  caught : ∀ later, c + maxLeaseSeconds < later → row.status.final = false → Database.lapsed later row = true
  swept : ∀ later held limit draws, row.status.final = false →
    row ∈ db.swept held (Database.lapsed later) RunRow.leaseExpiresAt limit →
      ∃ row', (apply store db later (.requeueLapsed held limit draws)).run? row.runId = some row' ∧
        row'.status = .CANCELLED

theorem claim_queued {store : RunStore} {db db' : Database} {now : Instant} {held : Held} {tenantId : Option String}
    {request : ClaimRequest} {claimed : Claimed}
    (h : perform store (.claim held tenantId request) now db = .ok (db', .claimed (some claimed))) :
    ∃ row, db.run? claimed.run.runId = some row ∧ row.status = .QUEUED := by
  obtain ⟨_, hc, he⟩ := answering_ok.1 h
  cases he
  unfold RunStore.claim at hc
  split at hc
  · cases hc
  · next row hrow =>
    obtain ⟨hm, hq, -⟩ := RunStore.claimLoop_spec hrow
    obtain ⟨⟨_, claimed⟩, ht, hc⟩ := bind_ok.1 hc
    obtain ⟨-, -, hrun⟩ := RunStore.take_ok ht
    cases hc
    rw [hrun]
    exact ⟨row, run?_of_mem hm, hq⟩

/-- **An acknowledged cancel is never lost.**  In every history after cancel marked the run at `c`, the run
is RUNNING with its mark or has ended, its lease ends by `c` and the longest lease, no claim takes it,
and the lapse sweep, which looks for it from that instant on, ends it `CANCELLED`. -/
theorem cancel_never_lost {store : RunStore} {t now₀ now : Instant} {db₀ db : Database} {r : String} {row₀ : RunRow}
    {c : Instant} (h₀ : Run (apply store) anything t Database.empty now₀ db₀) (hr₀ : db₀.run? r = some row₀)
    (hc : row₀.cancelRequestedAt = some c) (h : Run (apply store) anything now₀ db₀ now db) :
    ∃ row, db.run? r = some row ∧ Cancelling store c now db row := by
  have hrun : Run (apply store) anything t Database.empty now db := h₀.trans h
  have hreach : Reached store db := ⟨now, t, hrun⟩
  obtain ⟨row, hr, hcase⟩ := Run.cancelling ⟨t, h₀⟩ h hr₀ hc
  have hi := hreach.inv hr
  have hkey : row.runId = r := Table.key_of_find? hr
  subst hkey
  have running : row.status.final = false → row.status = .RUNNING ∧ row.cancelRequestedAt = some c := by
    intro hf
    rcases hcase with ⟨hc', hs⟩ | hfinal
    · exact ⟨hs, hc'⟩
    · rw [hf] at hfinal
      cases hfinal
  have hlease : ∀ e, row.leaseExpiresAt = some e → e ≤ c + maxLeaseSeconds := by
    intro e he
    have hs : row.status = .RUNNING := hi.leased (hi.lease.2 (by rw [he]; rfl))
    have hb := Run.leaseBound hrun _ row hr e he
    rwa [(running (by rw [hs]; rfl)).2, Option.getD_some] at hb
  refine ⟨row, hr, ⟨?_, hlease, ?_, ?_, ?_⟩⟩
  · rcases hcase with ⟨hc', hs⟩ | hfinal
    · exact Or.inr ⟨hs, hc'⟩
    · exact Or.inl hfinal
  · intro later held tenantId request db' claimed hclaim he
    obtain ⟨row', hr', hq⟩ := claim_queued hclaim
    rw [he, hr] at hr'
    cases hr'
    rcases hcase with ⟨-, hs⟩ | hfinal
    · rw [hq] at hs
      cases hs
    · rw [hq] at hfinal
      cases hfinal
  · intro later hlt hf
    obtain ⟨hs, hc'⟩ := running hf
    obtain ⟨e, he⟩ := Option.isSome_iff_exists.1 (hi.lease.1 (hi.cancelling (by rw [hc']; rfl)).2)
    have := hlease e he
    simp only [Database.lapsed, hs, he, Option.any_some, Bool.and_eq_true, decide_eq_true_eq, true_and]
    linarith
  · intro later held limit draws hf hm
    exact requeueLapsed_cancels hreach hr (by rw [(running hf).2]; rfl) draws hm

/-- A run asked to cancel at 2 whose worker then asks for the longest lease. -/
theorem cancel_never_lost_heartbeat : ∃ row, Cancelling smallStore 2 3
    (apply smallStore (history smallStore cancelledWork) 3 (.heartbeat "t" "r" ⟨"w", ⟨3600, by decide⟩, none⟩)) row ∧
      row.leaseExpiresAt = some 3602 := by
  have hs : ((history smallStore cancelledWork).run? "r").any (·.cancelRequestedAt = some 2) = true := by
    decide +kernel
  have hl : ((apply smallStore (history smallStore cancelledWork) 3
      (.heartbeat "t" "r" ⟨"w", ⟨3600, by decide⟩, none⟩)).run? "r").any (·.leaseExpiresAt = some 3602) = true := by
    decide +kernel
  have h₀ : Run (apply smallStore) anything 0 Database.empty 2 (history smallStore cancelledWork) :=
    Run.replay_ends cancelledWork_admitted
  obtain ⟨row₀, hr₀, hc⟩ := (Option.any_eq_true _ _).1 hs
  obtain ⟨row, hr, hcancelling⟩ := cancel_never_lost h₀ hr₀ (of_decide_eq_true hc)
    (Run.single (a := Op.heartbeat "t" "r" ⟨"w", ⟨3600, by decide⟩, none⟩) (show (2 : Instant) ≤ 3 by norm_num) trivial)
  rw [hr] at hl
  exact ⟨row, hcancelling, of_decide_eq_true hl⟩

end AgentRuns
