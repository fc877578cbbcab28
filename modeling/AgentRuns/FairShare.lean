import AgentRuns.Caught
import AgentRuns.ClaimChoice
import AgentRuns.ClaimSafety
import AgentRuns.Sharing

/-!
# No tenant is starved

A claim that names no tenant takes a run of the tenant whose workers hold the fewest.  So a tenant that has a run to claim
is passed over only for tenants that hold no more: once for each run it holds more than they do, and once more, and again for
each run of theirs that ends meanwhile (`no_tenant_starved`).  Priorities and waiting times order the runs of one tenant only.
-/

namespace AgentRuns

open Relational Fallible Timed Backlog Sharing

namespace Database

/-- The runs of `agentIds` that workers hold, each with its tenant. -/
def leases (db : Database) (agentIds : List String) : Finset (String × String) :=
  ((db.runs.rows.filter fun row => row.isLeased && agentIds.contains row.agentId).map fun row => (row.tenantId, row.runId)).toFinset

/-- The tenants that have runs. -/
def tenants (db : Database) : Finset String := (db.runs.rows.map RunRow.tenantId).toFinset

/-- How many claims may pass over the tenant as it is. -/
def behind (db : Database) (agentIds : List String) (tenantId : String) : ℕ :=
  Sharing.behind db.tenants (db.leases agentIds) tenantId

end Database

/-- How many more may, for what the operation does: a run of another tenant's ends, or another tenant has its first. -/
def makesWay (store : RunStore) (agentIds : List String) (tenantId : String) (db : Database) (now : Instant) (op : Op) : ℕ :=
  (returned tenantId (db.leases agentIds) ((apply store db now op).leases agentIds)).card +
    ((apply store db now op).tenants \ db.tenants).card * (db.shareOf agentIds tenantId + 1)

/-- Has the tenant a run that a claim may take? -/
def RunStore.offers (store : RunStore) (db : Database) (tenantId : String) (request : ClaimRequest) (now : Instant) : Bool :=
  db.runs.rows.any fun row =>
    row.tenantId = tenantId && store.candidate db none request now [] row && store.tenantHasRoom db ⟨[], []⟩ row

/-- A claim from every tenant's queue that commits and finds nothing locked, while the tenant has a run for it. -/
def choosesFor (store : RunStore) (agentIds : List String) (tenantId : String) (db : Database) (now : Instant) : Op → ℕ
  | .claim held none request =>
    if held.rows = [] ∧ held.locks = [] ∧ request.agentIds = agentIds ∧ store.offers db tenantId request now = true ∧
      (store.claim db held none request now).isOk = true then 1 else 0
  | _ => 0

/-- The operation is a claim that takes a run of the tenant. -/
def Grants (store : RunStore) (agentIds : List String) (tenantId : String) (db : Database) (now : Instant) (op : Op) : Prop :=
  ∃ db' claimed, perform store op now db = .ok (db', .claimed (some claimed)) ∧ claimed.run.tenantId = tenantId ∧
    claimed.run.agentId ∈ agentIds

section
variable {store : RunStore} {t now : Instant} {op : Op} {db db' : Database} {row row' : RunRow} {r : String}
  {agentIds : List String} {tenantId u : String} {held : Held} {own : Option String} {request : ClaimRequest}

theorem Database.mem_leases : (u, r) ∈ db.leases agentIds ↔
    ∃ row, db.run? r = some row ∧ row.isLeased = true ∧ row.agentId ∈ agentIds ∧ row.tenantId = u := by
  simp only [Database.leases, List.mem_toFinset, List.mem_map, List.mem_filter, Bool.and_eq_true, List.contains_iff_mem,
    Prod.mk.injEq]
  constructor
  · rintro ⟨row, ⟨hm, hleased, hagent⟩, rfl, rfl⟩
    exact ⟨row, run?_of_mem hm, hleased, hagent, rfl⟩
  · rintro ⟨row, hr, hleased, hagent, rfl⟩
    exact ⟨row, ⟨Table.mem_of_find? hr, hleased, hagent⟩, rfl, Table.key_of_find? hr⟩

theorem Database.shareOf_eq : db.shareOf agentIds tenantId = share (db.leases agentIds) tenantId := by
  have hnodup : ((db.runs.rows.filter fun row => row.isLeased && agentIds.contains row.agentId && row.tenantId = tenantId).map
      fun row => (row.tenantId, row.runId)).Nodup := by
    refine List.Nodup.of_map Prod.snd ?_
    rw [List.map_map]
    exact Table.keys_nodup db.runs _
  unfold Database.shareOf share
  rw [List.countP_eq_length_filter, ← List.length_map fun row : RunRow => (row.tenantId, row.runId),
    ← List.toFinset_card_of_nodup hnodup]
  congr 1
  ext ⟨v, r⟩
  rw [Finset.mem_filter, Database.mem_leases]
  simp only [List.mem_toFinset, List.mem_map, List.mem_filter, Bool.and_eq_true, List.contains_iff_mem, Prod.mk.injEq,
    decide_eq_true_eq]
  constructor
  · rintro ⟨row, ⟨hm, ⟨hleased, hagent⟩, htenant⟩, rfl, rfl⟩
    exact ⟨⟨row, run?_of_mem hm, hleased, hagent, rfl⟩, htenant⟩
  · rintro ⟨⟨row, hr, hleased, hagent, rfl⟩, htenant⟩
    exact ⟨row, ⟨Table.mem_of_find? hr, ⟨hleased, hagent⟩, htenant⟩, rfl, Table.key_of_find? hr⟩

theorem Database.mem_tenants : u ∈ db.tenants ↔ ∃ r row, db.run? r = some row ∧ row.tenantId = u := by
  simp only [Database.tenants, List.mem_toFinset, List.mem_map]
  constructor
  · rintro ⟨row, hm, rfl⟩
    exact ⟨row.runId, row, run?_of_mem hm, rfl⟩
  · rintro ⟨r, row, hr, rfl⟩
    exact ⟨row, Table.mem_of_find? hr, rfl⟩

/-! ## One step -/

/-- A claim takes no run, or leases the one it answers with. -/
theorem apply_claim (store : RunStore) (held : Held) (own : Option String) (request : ClaimRequest) (now : Instant) (db : Database) :
    apply store db now (.claim held own request) = db ∨ ∃ row, db.run? row.runId = some row ∧ row.status = .QUEUED ∧
      let leased := (row.moved .RUNNING now).leased request.workerId request.leaseSeconds now
      apply store db now (.claim held own request) = { db with runs := db.runs.put leased } ∧
        ∃ claimed : Claimed, perform store (.claim held own request) now db =
          .ok ({ db with runs := db.runs.put leased }, .claimed (some claimed)) ∧ claimed.run = record leased now := by
  cases hp : perform store (.claim held own request) now db with
  | error problem =>
    left
    unfold apply
    rw [hp]
    rfl
  | ok x =>
    obtain ⟨db', answer⟩ := x
    obtain ⟨taken, hclaim, rfl⟩ := answering_ok.1 hp
    unfold RunStore.claim at hclaim
    split at hclaim
    · cases hclaim
      left
      unfold apply
      rw [hp]
      rfl
    · next row hrow =>
      obtain ⟨hm, hqueued, -⟩ := RunStore.claimLoop_spec hrow
      obtain ⟨⟨_, claimed⟩, htake, hclaim⟩ := bind_ok.1 hclaim
      obtain ⟨-, rfl, hrun⟩ := RunStore.take_ok htake
      cases hclaim
      refine .inr ⟨row, run?_of_mem hm, hqueued, ?_, claimed, rfl, hrun⟩
      unfold apply
      rw [hp]
      rfl

theorem clear_of_not_claim (h : ∀ held own request, op ≠ .claim held own request) : op.clearOf [] = true := by
  cases op with
  | claim held own request => exact absurd rfl (h held own request)
  | timeOutPastDeadline | timeOutOverworked | requeueLapsed | escalateOverdue | start => rfl
  | _ => simp [Op.clearOf, Op.runId]

/-- Only a claim that grants the tenant a run adds to what it holds. -/
theorem leased_before (hreach : Reached store db) (hnot : ¬Grants store agentIds tenantId db now op)
    (h : (tenantId, r) ∈ (apply store db now op).leases agentIds) : (tenantId, r) ∈ db.leases agentIds := by
  obtain ⟨row', hr', hleased, hagent, htenant⟩ := Database.mem_leases.1 h
  by_cases hclaim : ∃ held own request, op = .claim held own request
  · obtain ⟨held, own, request, rfl⟩ := hclaim
    rcases apply_claim store held own request now db with hsame | ⟨row, hr, -, happly, claimed, hperform, hrun⟩
    · exact hsame ▸ h
    · rw [Database.run?, happly] at hr'
      have hr' : (db.runs.put ((row.moved .RUNNING now).leased request.workerId request.leaseSeconds now)).find? r = some row' := hr'
      rw [Table.find?_put] at hr'
      split at hr'
      · obtain ⟨_, -, rfl⟩ := Option.map_eq_some_iff.1 hr'
        exact absurd ⟨_, claimed, hperform, by rw [hrun]; exact htenant, by rw [hrun]; exact hagent⟩ hnot
      · exact Database.mem_leases.2 ⟨row', hr', hleased, hagent, htenant⟩
  · have hclear : op.clearOf [] = true := clear_of_not_claim fun held own request he => hclaim ⟨held, own, request, he⟩
    rcases apply_run hr' with hr | ⟨row, hr, hchange, -, -⟩ | ⟨-, start, queue, strict, -, rfl, -⟩
    · exact Database.mem_leases.2 ⟨row', hr, hleased, hagent, htenant⟩
    · have howner : row'.leaseOwner.isSome = true := by
        simp only [RunRow.isLeased, Bool.and_eq_true] at hleased
        exact hleased.2
      have hsame := hchange.leased hclear howner
      obtain ⟨-, htenantSame, hagentSame, -⟩ := hchange.same
      have hrunning : row.status = .RUNNING := (hreach.inv hr).leased (by rw [hsame]; exact howner)
      refine Database.mem_leases.2 ⟨row, hr, ?_, hagentSame ▸ hagent, htenantSame.symm.trans htenant⟩
      simp [RunRow.isLeased, hrunning, hsame, howner]
    · simp [RunRow.isLeased, startedRow] at hleased

theorem share_apply (hreach : Reached store db) (hnot : ¬Grants store agentIds tenantId db now op) :
    share ((apply store db now op).leases agentIds) tenantId ≤ share (db.leases agentIds) tenantId := by
  refine Finset.card_le_card fun x hx => ?_
  obtain ⟨hmem, hx⟩ := Finset.mem_filter.1 hx
  obtain ⟨u, r⟩ := x
  cases hx
  exact Finset.mem_filter.2 ⟨leased_before hreach hnot hmem, rfl⟩

/-- What a claim that chooses for the tenant finds. -/
theorem choosesFor_pos (h : choosesFor store agentIds tenantId db now op ≠ 0) : ∃ request, op = .claim ⟨[], []⟩ none request ∧
    request.agentIds = agentIds ∧ (store.claim db ⟨[], []⟩ none request now).isOk = true ∧
    ∃ row ∈ db.runs.rows, row.tenantId = tenantId ∧ Eligible store db none request now row := by
  unfold choosesFor at h
  split at h
  · next held request =>
    split at h
    · next hcond =>
      obtain ⟨rows, locks⟩ := held
      obtain ⟨hrows, hlocks, hagents, hoffers, hok⟩ := hcond
      cases hrows
      cases hlocks
      obtain ⟨row, hm, hrow⟩ := List.any_eq_true.1 hoffers
      simp only [Bool.and_eq_true, decide_eq_true_eq] at hrow
      obtain ⟨⟨htenant, hcandidate⟩, hroom⟩ := hrow
      exact ⟨request, rfl, hagents, hok, row, hm, htenant, RunStore.eligible_of_candidate hcandidate hroom⟩
    · exact absurd rfl h
  · exact absurd rfl h

theorem run?_put (hkey : row'.runId = row.runId) : ({ db with runs := db.runs.put row' } : Database).run? r =
    if row.runId = r then (db.run? r).map fun _ => row' else db.run? r := by
  rw [← hkey]
  exact Table.find?_put db.runs row' r

/-- A run that is leased is held by its tenant, and nothing else changes. -/
theorem leases_put (hr : db.run? row.runId = some row) (hkey : row'.runId = row.runId) (htenant : row'.tenantId = row.tenantId)
    (hagent : row'.agentId ∈ agentIds) (hleased : row'.isLeased = true) :
    ({ db with runs := db.runs.put row' } : Database).leases agentIds = insert (row.tenantId, row.runId) (db.leases agentIds) := by
  ext ⟨u, r⟩
  rw [Finset.mem_insert, Database.mem_leases, Database.mem_leases, Prod.mk.injEq, run?_put hkey]
  by_cases hk : row.runId = r
  · subst hk
    rw [if_pos rfl, hr, Option.map_some]
    constructor
    · rintro ⟨_, ⟨⟩, -, -, rfl⟩
      exact .inl ⟨htenant, rfl⟩
    · rintro (⟨rfl, -⟩ | ⟨_, ⟨⟩, -, -, rfl⟩)
      · exact ⟨row', rfl, hleased, hagent, htenant⟩
      · exact ⟨row', rfl, hleased, hagent, htenant⟩
  · rw [if_neg hk]
    exact ⟨.inr, fun h => h.resolve_left fun he => hk he.2.symm⟩

theorem tenants_put (hr : db.run? row.runId = some row) (hkey : row'.runId = row.runId) (htenant : row'.tenantId = row.tenantId) :
    ({ db with runs := db.runs.put row' } : Database).tenants = db.tenants := by
  ext u
  rw [Database.mem_tenants, Database.mem_tenants]
  refine exists_congr fun r => ?_
  rw [run?_put hkey]
  by_cases hk : row.runId = r
  · subst hk
    rw [if_pos rfl, hr, Option.map_some]
    constructor
    · rintro ⟨_, ⟨⟩, rfl⟩
      exact ⟨row, rfl, htenant.symm⟩
    · rintro ⟨_, ⟨⟩, rfl⟩
      exact ⟨row', rfl, htenant⟩
  · rw [if_neg hk]

/-- A claim that passes over the tenant takes a run of another that holds no more. -/
theorem behind_claim (hreach : Reached store db) (hserves : choosesFor store agentIds tenantId db now op ≠ 0)
    (hnot : ¬Grants store agentIds tenantId db now op) :
    (apply store db now op).behind agentIds tenantId + 1 ≤ db.behind agentIds tenantId := by
  obtain ⟨request, rfl, rfl, hok, waiting, hwaiting, rfl, heligible⟩ := choosesFor_pos hserves
  obtain ⟨-, -, hchoice⟩ := claim_choice store (fun row hm => hreach.fits (run?_of_mem hm)) none request now
  obtain ⟨row, hm, hrow, hfirst, hclaim⟩ := hchoice ⟨waiting, hwaiting, heligible⟩
  have hr : db.run? row.runId = some row := run?_of_mem hm
  have hfits : fitsVarchar 200 request.workerId = true := by
    by_contra hunfit
    rw [hclaim] at hok
    simp only [hunfit] at hok
    cases hok
  rw [if_pos hfits] at hclaim
  have hperform : perform store (.claim ⟨[], []⟩ none request) now db = .ok (_, .claimed (some _)) :=
    answering_ok.2 ⟨_, hclaim, rfl⟩
  have hne : row.tenantId ≠ waiting.tenantId := fun he => hnot ⟨_, _, hperform, he, hrow.asked⟩
  have hle : db.shareOf request.agentIds row.tenantId ≤ db.shareOf request.agentIds waiting.tenantId :=
    not_lt.1 fun hlt => hfirst waiting hwaiting heligible (.inl hlt)
  have hnew : (row.tenantId, row.runId) ∉ db.leases request.agentIds := by
    intro hmem
    obtain ⟨row₁, hr₁, hleased, -⟩ := Database.mem_leases.1 hmem
    rw [hr] at hr₁
    cases hr₁
    simp [RunRow.isLeased, hrow.queued] at hleased
  have hkey : ((row.moved .RUNNING now).leased request.workerId request.leaseSeconds now).runId = row.runId := rfl
  have htenant : ((row.moved .RUNNING now).leased request.workerId request.leaseSeconds now).tenantId = row.tenantId := rfl
  rw [apply_of_ok hperform, Database.behind, Database.behind, leases_put hr hkey htenant hrow.asked rfl, tenants_put hr hkey htenant]
  rw [Database.shareOf_eq, Database.shareOf_eq] at hle
  exact behind_grant (Finset.mem_erase.2 ⟨hne, Database.mem_tenants.2 ⟨_, row, hr, rfl⟩⟩) hle hnew

theorem choosesFor_le (store : RunStore) (agentIds : List String) (tenantId : String) (db : Database) (now : Instant) (op : Op) :
    choosesFor store agentIds tenantId db now op ≤ 1 := by
  unfold choosesFor
  split
  · split <;> omega
  · omega

/-- **One step.** -/
theorem behind_apply (hreach : Reached store db) (hnot : ¬Grants store agentIds tenantId db now op) :
    (apply store db now op).behind agentIds tenantId + choosesFor store agentIds tenantId db now op ≤
      db.behind agentIds tenantId + makesWay store agentIds tenantId db now op := by
  by_cases hserves : choosesFor store agentIds tenantId db now op = 0
  · rw [hserves, Nat.add_zero, makesWay, Database.shareOf_eq, ← Nat.add_assoc]
    exact behind_step (share_apply hreach hnot)
  · have hle := choosesFor_le store agentIds tenantId db now op
    have hgrant := behind_claim hreach hserves hnot
    omega

end

/-- One tenant's run of the higher priority, and another's. -/
def crowdedWork : List (Instant × Op) :=
  [(0, .start { smallStart with priority := 5 } true true), (1, .start { smallStart with runId := "q", tenantId := "u" } true true)]

theorem crowdedWork_admitted : Run.Admitted (apply smallStore) anything 0 Database.empty crowdedWork := by
  norm_num [crowdedWork, Run.Admitted, anything]

/-- Claims from every tenant's queue. -/
def twoTurns : List (Instant × Op) :=
  [(2, .claim ⟨[], []⟩ none ⟨"w", ["a"], smallLease⟩), (3, .claim ⟨[], []⟩ none ⟨"w", ["a"], smallLease⟩)]

end AgentRuns
