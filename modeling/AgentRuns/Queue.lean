import AgentRuns.Store
import Mathlib.Data.List.Sort

/-!
# The queue

`RunStore.claim`: the next run in claim order that has room, leased to the worker.  A claim
passes over what other transactions hold (`Held`): a row, as `SKIP LOCKED` does, and the advisory
lock its tenant's or its key's room is counted under.  What it passed over it looks past from
then on (`Passed`), so the loop ends: every turn leaves at least one run out (`claimLoop_enough`).
-/

namespace AgentRuns

open Relational Fallible

/-- What other transactions hold: run ids of locked rows, and advisory locks. -/
structure Held where
  rows : List String
  locks : List Int

/-- A condition a claim added after it found no room. -/
inductive Passed where
  | tenant (tenantId : String)
  | key (tenantId : String) (concurrencyKey : Option String)

def Passed.admits : Passed → RunRow → Bool
  | tenant tenantId, row => row.tenantId ≠ tenantId
  | key tenantId concurrencyKey, row => row.tenantId ≠ tenantId ∨ row.concurrencyKey ≠ concurrencyKey

/-! ## What is counted -/

/-- `_LEASED`: a run a worker holds. -/
def RunRow.isLeased (row : RunRow) : Bool := row.status = .RUNNING && row.leaseOwner.isSome

/-- A running run of the tenant with the key. -/
def RunRow.runsWith (row : RunRow) (tenantId key : String) : Bool :=
  row.status = .RUNNING && row.tenantId = tenantId && row.concurrencyKey = some key

namespace Database

/-- The runs a tenant's workers hold. -/
def leasedOf (db : Database) (tenantId : String) : Nat :=
  db.runs.rows.countP fun row => row.isLeased && row.tenantId = tenantId

/-- The runs of `agentIds` a tenant's workers hold: its share of the fleet. -/
def shareOf (db : Database) (agentIds : List String) (tenantId : String) : Nat :=
  db.runs.rows.countP fun row => row.isLeased && agentIds.contains row.agentId && row.tenantId = tenantId

/-- The running runs that share a concurrency key. -/
def runningWith (db : Database) (tenantId key : String) : Nat :=
  db.runs.rows.countP fun row => row.runsWith tenantId key

end Database

namespace RunStore

/-! ## The next run -/

/-- What the query asks of the row itself. -/
def queuedFor (tenantId : Option String) (request : ClaimRequest) (now : Instant) (passed : List Passed)
    (row : RunRow) : Bool :=
  row.status = .QUEUED && request.agentIds.contains row.agentId && row.availableAt.all (· ≤ now) &&
    passed.all (·.admits row) && tenantId.all (· = row.tenantId)

/-- May the claim take the row? -/
def candidate (store : RunStore) (db : Database) (tenantId : Option String) (request : ClaimRequest) (now : Instant)
    (passed : List Passed) (row : RunRow) : Bool :=
  queuedFor tenantId request now passed row &&
    row.concurrencyKey.all fun key => db.runningWith row.tenantId key < store.perKey

/-- Claim order: the smaller share, the higher priority, the longer wait. -/
def claimOrder (db : Database) (agentIds : List String) (a b : RunRow) : Bool :=
  let shareA := db.shareOf agentIds a.tenantId
  let shareB := db.shareOf agentIds b.tenantId
  shareA < shareB ∨ shareA = shareB ∧
    (b.priority < a.priority ∨ b.priority = a.priority ∧ a.queuedAt.getD 0 ≤ b.queuedAt.getD 0)

/-- `_next_queued`: the first candidate in claim order whose row no other transaction holds. -/
def nextQueued (store : RunStore) (db : Database) (held : Held) (tenantId : Option String) (request : ClaimRequest)
    (now : Instant) (passed : List Passed) : Option RunRow :=
  ((db.runs.rows.filter (store.candidate db tenantId request now passed)).insertionSort
    fun a b => claimOrder db request.agentIds a b = true).find? fun row => !held.rows.contains row.runId

/-! ## Room -/

/-- The advisory lock of `names`. -/
def claimLock (store : RunStore) (names : List String) : Int := store.lib.hashText ("\x1f".intercalate names)

def tenantLock (store : RunStore) (row : RunRow) : Int := store.claimLock ["tenant", row.tenantId]
def keyLock (store : RunStore) (row : RunRow) (key : String) : Int := store.claimLock ["key", row.tenantId, key]

/-- `_tenant_has_room`. -/
def tenantHasRoom (store : RunStore) (db : Database) (held : Held) (row : RunRow) : Bool :=
  match store.perTenant with
  | none => true
  | some cap => !held.locks.contains (store.tenantLock row) && db.leasedOf row.tenantId < cap

/-- `_key_has_room`. -/
def keyHasRoom (store : RunStore) (db : Database) (held : Held) (row : RunRow) : Bool :=
  match row.concurrencyKey with
  | none => true
  | some key => !held.locks.contains (store.keyLock row key) && db.runningWith row.tenantId key < store.perKey

/-! ## The claim -/

/-- The claim's loop, `fuel` turns at most: the run it takes. -/
def claimLoop (store : RunStore) (db : Database) (held : Held) (tenantId : Option String) (request : ClaimRequest)
    (now : Instant) : Nat → List Passed → Option RunRow
  | 0, _ => none
  | fuel + 1, passed =>
    match store.nextQueued db held tenantId request now passed with
    | none => none
    | some row =>
      if !store.tenantHasRoom db held row then
        store.claimLoop db held tenantId request now fuel (passed ++ [.tenant row.tenantId])
      else if !store.keyHasRoom db held row then
        store.claimLoop db held tenantId request now fuel (passed ++ [.key row.tenantId row.concurrencyKey])
      else some row

/-- The run found, leased to the worker. -/
def take (store : RunStore) (db : Database) (row : RunRow) (request : ClaimRequest) (now : Instant) :
    Except ServiceError (Database × Claimed) := do
  let running ← move row .RUNNING now
  let (leased, lease) := store.lease running request.workerId request.leaseSeconds now
  let db ← db.flush [leased]
  .ok (db, ⟨record leased now, lease⟩)

theorem take_ok {store : RunStore} {db db' : Database} {row : RunRow} {request : ClaimRequest} {now : Instant}
    {claimed : Claimed} (h : store.take db row request now = .ok (db', claimed)) :
    let leased := (row.moved .RUNNING now).leased request.workerId request.leaseSeconds now
    leased.fits = true ∧ db' = { db with runs := db.runs.put leased } ∧ claimed.run = record leased now := by
  obtain ⟨_, hmv, h⟩ := bind_ok.1 h
  obtain ⟨-, rfl⟩ := move_ok.1 hmv
  obtain ⟨_, hf, h⟩ := bind_ok.1 h
  obtain ⟨hfit, rfl⟩ := Database.flush_ok.1 hf
  cases h
  exact ⟨hfit _ List.mem_cons_self, rfl, rfl⟩

/-- `RunStore.claim`. -/
def claim (store : RunStore) (db : Database) (held : Held) (tenantId : Option String) (request : ClaimRequest)
    (now : Instant) : Except ServiceError (Database × Option Claimed) :=
  match store.claimLoop db held tenantId request now (db.runs.rows.length + 1) [] with
  | none => .ok (db, none)
  | some row => do
    let (db, claimed) ← store.take db row request now
    .ok (db, some claimed)

/-! ## What the loop finds -/

section
variable {store : RunStore} {db : Database} {held : Held} {tenantId : Option String} {request : ClaimRequest}
  {now : Instant} {passed : List Passed} {row : RunRow}

theorem nextQueued_spec (h : store.nextQueued db held tenantId request now passed = some row) :
    row ∈ db.runs.rows ∧ store.candidate db tenantId request now passed row = true ∧ row.runId ∉ held.rows := by
  have hm := List.mem_of_find?_eq_some h
  rw [List.mem_insertionSort, List.mem_filter] at hm
  have hl := List.find?_some h
  simp only [List.contains_eq_mem, Bool.not_eq_eq_eq_not, Bool.not_true, decide_eq_false_iff_not] at hl
  exact ⟨hm.1, hm.2, hl⟩

theorem queued_of_candidate (h : store.candidate db tenantId request now passed row = true) :
    row.status = .QUEUED := by
  simp only [candidate, queuedFor, Bool.and_eq_true, decide_eq_true_eq] at h
  exact h.1.1.1.1.1

/-- The run a claim takes is queued, nobody holds its row, and it has room. -/
theorem claimLoop_spec {fuel : Nat} : ∀ {passed : List Passed},
    store.claimLoop db held tenantId request now fuel passed = some row →
    row ∈ db.runs.rows ∧ row.status = .QUEUED ∧ row.runId ∉ held.rows ∧
      store.tenantHasRoom db held row = true ∧ store.keyHasRoom db held row = true := by
  induction fuel with
  | zero => intro passed h; cases h
  | succ fuel ih =>
    intro passed h
    unfold claimLoop at h
    split at h
    · cases h
    · next next hn =>
      split at h
      · exact ih h
      · next ht =>
        split at h
        · exact ih h
        · next hk =>
          cases h
          obtain ⟨hm, hc, hl⟩ := nextQueued_spec hn
          exact ⟨hm, queued_of_candidate hc, hl, by simpa using ht, by simpa using hk⟩

/-! ## The loop ends -/

/-- One more condition, that an element fails, counts fewer. -/
theorem countP_and_lt {α : Type} {p q : α → Bool} {l : List α} {a : α} (hm : a ∈ l) (hp : p a = true) (hq : q a = false) :
    l.countP (fun x => p x && q x) < l.countP p := by
  have hle : ∀ l' : List α, l'.countP (fun x => p x && q x) ≤ l'.countP p := fun l' =>
    List.countP_mono_left fun x _ hx => by
      rw [Bool.and_eq_true] at hx
      exact hx.1
  obtain ⟨l₁, l₂, rfl⟩ := List.append_of_mem hm
  rw [List.countP_append, List.countP_append, List.countP_cons, List.countP_cons, hp, hq]
  have h₁ := hle l₁
  have h₂ := hle l₂
  simp only [Bool.and_false, Bool.false_eq_true, if_false, if_true]
  omega

/-- The runs a claim still looks at. -/
def open_ (db : Database) (tenantId : Option String) (request : ClaimRequest) (now : Instant)
    (passed : List Passed) : Nat :=
  db.runs.rows.countP (queuedFor tenantId request now passed)

/-- Passing over a run's tenant or key leaves the run out. -/
theorem open_lt (h : store.nextQueued db held tenantId request now passed = some row) {p : Passed}
    (hp : p.admits row = false) :
    open_ db tenantId request now (passed ++ [p]) < open_ db tenantId request now passed := by
  obtain ⟨hm, hc, -⟩ := nextQueued_spec h
  have hq : queuedFor tenantId request now passed row = true := by
    rw [candidate, Bool.and_eq_true] at hc
    exact hc.1
  have hsub : ∀ r, queuedFor tenantId request now (passed ++ [p]) r = true →
      (queuedFor tenantId request now passed r && p.admits r) = true := by
    intro r hr
    simp only [queuedFor, List.all_append, List.all_cons, List.all_nil, Bool.and_eq_true, Bool.and_true] at hr ⊢
    exact ⟨⟨⟨hr.1.1, hr.1.2.1⟩, hr.2⟩, hr.1.2.2⟩
  unfold open_
  calc db.runs.rows.countP (queuedFor tenantId request now (passed ++ [p]))
      ≤ db.runs.rows.countP (fun r => queuedFor tenantId request now passed r && p.admits r) :=
        List.countP_mono_left fun r _ => hsub r
    _ < db.runs.rows.countP (queuedFor tenantId request now passed) := countP_and_lt hm hq hp

theorem admits_tenant_self (row : RunRow) : (Passed.tenant row.tenantId).admits row = false := by
  simp [Passed.admits]

theorem admits_key_self (row : RunRow) : (Passed.key row.tenantId row.concurrencyKey).admits row = false := by
  simp [Passed.admits]

/-- **The claim's loop ends.**  More turns than runs it looks at change nothing. -/
theorem claimLoop_enough {fuel : Nat} : ∀ {passed : List Passed}, open_ db tenantId request now passed < fuel →
    ∀ more, store.claimLoop db held tenantId request now (fuel + more) passed =
      store.claimLoop db held tenantId request now fuel passed := by
  induction fuel with
  | zero => intro passed h; omega
  | succ fuel ih =>
    intro passed h more
    rw [Nat.succ_add]
    unfold claimLoop
    split
    · rfl
    · next row hn =>
      have step : ∀ p : Passed, p.admits row = false → open_ db tenantId request now (passed ++ [p]) < fuel :=
        fun p hp => by have := open_lt hn hp; omega
      split
      · exact ih (step _ (admits_tenant_self row)) more
      · split
        · exact ih (step _ (admits_key_self row)) more
        · rfl

/-- The turns a claim allows itself are enough. -/
theorem claimLoop_total (more : Nat) :
    store.claimLoop db held tenantId request now (db.runs.rows.length + 1 + more) [] =
      store.claimLoop db held tenantId request now (db.runs.rows.length + 1) [] :=
  claimLoop_enough (Nat.lt_succ_of_le List.countP_le_length) more

end

end RunStore

end AgentRuns
