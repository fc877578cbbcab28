import AgentRuns.Spelled
import Mathlib.Data.Prod.Lex

/-!
# Which run a claim takes

`Eligible` says which runs a claim may take and `Precedes` which of them comes first, each in its own words.
The loop of `RunStore.claim` ends whatever other transactions do between its statements (`turns_end`): every
turn but the last leaves out a tenant or a key it never looks at again.  What it leaves out when nobody else
holds anything has no room (`Closed`), so the run it finds is eligible, and no eligible run precedes it.
-/

namespace AgentRuns

open Relational Fallible

/-! ## Who may be claimed, and who first -/

/-- May a claim take the run? -/
structure Eligible (store : RunStore) (db : Database) (tenantId : Option String) (request : ClaimRequest) (now : Instant)
    (row : RunRow) : Prop where
  queued : row.status = .QUEUED
  asked : row.agentId ∈ request.agentIds
  available : ∀ at_, row.availableAt = some at_ → at_ ≤ now
  mine : ∀ own, tenantId = some own → own = row.tenantId
  keyRoom : ∀ key, row.concurrencyKey = some key → db.runningWith row.tenantId key < store.perKey
  tenantRoom : ∀ cap, store.perTenant = some cap → db.leasedOf row.tenantId < cap

/-- Comes `a` before `b`?  The tenant with fewer leased runs of these agents, then the higher priority, then the
longer wait. -/
def Precedes (db : Database) (agentIds : List String) (a b : RunRow) : Prop :=
  db.shareOf agentIds a.tenantId < db.shareOf agentIds b.tenantId ∨
    db.shareOf agentIds a.tenantId = db.shareOf agentIds b.tenantId ∧
      (b.priority < a.priority ∨ b.priority = a.priority ∧
        ∃ since later, a.queuedAt = some since ∧ b.queuedAt = some later ∧ since < later)

/-! ## The loop, turn by turn -/

namespace RunStore

/-- The database each statement of a turn reads, and what the others hold of it then. -/
structure Seen where
  chosen : Database × Held
  tenant : Database × Held
  key : Database × Held

/-- Nothing comes between the statements. -/
def Seen.still (db : Database) (held : Held) : Seen := ⟨(db, held), (db, held), (db, held)⟩

/-- What one turn of the loop does. -/
inductive Turn where
  | nothing
  | leaveOut (passed : Passed)
  | found (row : RunRow)

/-- The body of the loop. -/
def turn (store : RunStore) (seen : Seen) (tenantId : Option String) (request : ClaimRequest) (now : Instant)
    (passed : List Passed) : Turn :=
  match store.nextQueued seen.chosen.1 seen.chosen.2 tenantId request now passed with
  | none => .nothing
  | some row =>
    if !store.tenantHasRoom seen.tenant.1 seen.tenant.2 row then .leaveOut (.tenant row.tenantId)
    else if !store.keyHasRoom seen.key.1 seen.key.2 row then .leaveOut (.key row.tenantId row.concurrencyKey)
    else .found row

/-- The loop from its `i`-th turn on, `fuel` turns at most: what it finds, or `none` when the turns run out. -/
def turns (store : RunStore) (seen : Nat → Seen) (tenantId : Option String) (request : ClaimRequest) (now : Instant) :
    Nat → Nat → List Passed → Option (Option RunRow)
  | 0, _, _ => none
  | fuel + 1, i, passed =>
    match store.turn (seen i) tenantId request now passed with
    | .nothing => some none
    | .leaveOut p => store.turns seen tenantId request now fuel (i + 1) (passed ++ [p])
    | .found row => some (some row)

section
variable {store : RunStore} {db : Database} {held : Held} {tenantId : Option String} {request : ClaimRequest}
  {now : Instant} {passed : List Passed} {row : RunRow}

/-- With nothing between its statements the loop is `claimLoop`. -/
theorem turns_still {fuel : Nat} : ∀ {i : Nat} {passed : List Passed} {found : Option RunRow},
    store.turns (fun _ => .still db held) tenantId request now fuel i passed = some found →
      store.claimLoop db held tenantId request now fuel passed = found := by
  induction fuel with
  | zero => intro i passed found h; cases h
  | succ fuel ih =>
    intro i passed found h
    unfold turns turn Seen.still at h
    dsimp only at h
    unfold claimLoop
    cases hn : store.nextQueued db held tenantId request now passed with
    | none =>
      rw [hn] at h
      cases h
      rfl
    | some row =>
      rw [hn] at h
      dsimp only at h ⊢
      cases ht : store.tenantHasRoom db held row with
      | false =>
        rw [ht] at h
        exact ih h
      | true =>
        cases hk : store.keyHasRoom db held row with
        | false =>
          rw [ht, hk] at h
          exact ih h
        | true =>
          rw [ht, hk] at h
          cases h
          rfl

/-! ### It ends -/

/-- Two runs of one tenant and one key. -/
def samePlace (a b : RunRow) : Prop := a.tenantId = b.tenantId ∧ a.concurrencyKey = b.concurrencyKey

theorem admits_same {a b : RunRow} (h : samePlace a b) (p : Passed) : p.admits a = p.admits b := by
  cases p <;> simp [Passed.admits, h.1, h.2]

/-- What a turn leaves out, it looked at until then. -/
theorem turn_leaveOut {seen : Seen} {p : Passed} (h : store.turn seen tenantId request now passed = .leaveOut p) :
    ∃ row ∈ seen.chosen.1.runs.rows, passed.all (·.admits row) = true ∧ p.admits row = false := by
  unfold turn at h
  split at h
  · cases h
  · next row hn =>
    obtain ⟨hm, hc, -⟩ := nextQueued_spec hn
    have hpassed : passed.all (·.admits row) = true := by
      simp only [candidate, queuedFor, Bool.and_eq_true] at hc
      exact hc.1.1.2
    refine ⟨row, hm, hpassed, ?_⟩
    split at h
    · cases h
      exact admits_tenant_self row
    · split at h
      · cases h
        exact admits_key_self row
      · cases h

/-- **The loop ends**, whatever the statements see, after at most one turn more than there are runs with different
tenants and keys. -/
theorem turns_end {seen : Nat → Seen} {places : List RunRow}
    (hplaces : ∀ i, ∀ row ∈ (seen i).chosen.1.runs.rows, ∃ place ∈ places, samePlace row place) {fuel : Nat} :
    ∀ {i : Nat} {passed : List Passed}, places.countP (fun place => passed.all (·.admits place)) < fuel →
      ∃ found, store.turns seen tenantId request now fuel i passed = some found := by
  induction fuel with
  | zero => intro i passed h; omega
  | succ fuel ih =>
    intro i passed h
    unfold turns
    cases hturn : store.turn (seen i) tenantId request now passed with
    | nothing => exact ⟨none, rfl⟩
    | found row => exact ⟨some row, rfl⟩
    | leaveOut p =>
      obtain ⟨row, hm, hin, hout⟩ := turn_leaveOut hturn
      obtain ⟨place, hplace, hsame⟩ := hplaces i row hm
      refine ih ?_
      have hlt := countP_and_lt (p := fun place => passed.all (·.admits place)) (q := fun place => p.admits place) hplace
        (by rw [← hin]; exact congrArg _ (funext fun q => (admits_same hsame q).symm))
        (by rw [← hout]; exact (admits_same hsame p).symm)
      have heq : places.countP (fun place => (passed ++ [p]).all (·.admits place)) =
          places.countP (fun place => passed.all (·.admits place) && p.admits place) :=
        List.countP_congr fun place _ => by simp [List.all_append]
      rw [heq]
      omega

/-! ### The first in claim order -/

/-- What claim order compares. -/
def rank (db : Database) (agentIds : List String) (row : RunRow) : Nat ×ₗ Int ×ₗ Rat :=
  toLex (db.shareOf agentIds row.tenantId, toLex (-row.priority, row.queuedAt.getD 0))

theorem claimOrder_iff {agentIds : List String} {a b : RunRow} :
    claimOrder db agentIds a b = true ↔ rank db agentIds a ≤ rank db agentIds b := by
  unfold claimOrder rank
  rw [Prod.Lex.toLex_le_toLex, Prod.Lex.toLex_le_toLex, decide_eq_true_eq, neg_lt_neg_iff, neg_inj]
  simp only [eq_comm]

/-- No run that comes later precedes one that comes first. -/
theorem not_precedes {agentIds : List String} {a b : RunRow} (h : claimOrder db agentIds a b = true) :
    ¬ Precedes db agentIds b a := by
  rw [claimOrder_iff, rank, rank, Prod.Lex.toLex_le_toLex, Prod.Lex.toLex_le_toLex] at h
  rintro (hshare | ⟨hshare, hpriority | ⟨hpriority, since, later, hb, ha, hlt⟩⟩)
  · rcases h with h | ⟨h, -⟩ <;> dsimp only at h <;> omega
  · rcases h with h | ⟨-, h | ⟨h, -⟩⟩ <;> dsimp only at h <;> omega
  · rcases h with h | ⟨-, h | ⟨-, h⟩⟩
    · dsimp only at h
      omega
    · dsimp only at h
      omega
    · dsimp only at h
      rw [ha, hb] at h
      exact absurd h (not_le.2 hlt)

instance (agentIds : List String) : Std.Total fun a b => claimOrder db agentIds a b = true where
  total a b := by
    rw [claimOrder_iff, claimOrder_iff]
    exact le_total _ _

instance (agentIds : List String) : IsTrans RunRow fun a b => claimOrder db agentIds a b = true where
  trans a b c hab hbc := by
    rw [claimOrder_iff] at hab hbc ⊢
    exact le_trans hab hbc

theorem head_le {α : Type} {r : α → α → Prop} [DecidableRel r] [Std.Total r] [IsTrans α r] {l : List α} {a : α}
    (h : (l.insertionSort r).head? = some a) : ∀ b ∈ l, b = a ∨ r a b := by
  intro b hb
  obtain ⟨rest, hrest⟩ := List.head?_eq_some_iff.1 h
  have hsorted := List.pairwise_insertionSort r l
  rw [hrest, List.pairwise_cons] at hsorted
  have hmem : b ∈ a :: rest := hrest ▸ (List.mem_insertionSort r).2 hb
  rcases List.mem_cons.1 hmem with rfl | hmem
  · exact Or.inl rfl
  · exact Or.inr (hsorted.1 b hmem)

/-- Where nobody holds a row the query finds the first of the candidates. -/
theorem nextQueued_head (locks : List Int) :
    store.nextQueued db ⟨[], locks⟩ tenantId request now passed =
      ((db.runs.rows.filter (store.candidate db tenantId request now passed)).insertionSort
        fun a b => claimOrder db request.agentIds a b = true).head? := by
  unfold nextQueued
  cases (db.runs.rows.filter (store.candidate db tenantId request now passed)).insertionSort
    fun a b => claimOrder db request.agentIds a b = true with
  | nil => rfl
  | cons a rest => rfl

theorem nextQueued_first {locks : List Int} (h : store.nextQueued db ⟨[], locks⟩ tenantId request now passed = some row)
    {other : RunRow} (hm : other ∈ db.runs.rows) (hc : store.candidate db tenantId request now passed other = true) :
    ¬ Precedes db request.agentIds other row := by
  rw [nextQueued_head] at h
  rcases head_le h other (List.mem_filter.2 ⟨hm, hc⟩) with rfl | hle
  · exact not_precedes (claimOrder_iff.2 (le_refl _))
  · exact not_precedes hle

theorem nextQueued_none {locks : List Int} (h : store.nextQueued db ⟨[], locks⟩ tenantId request now passed = none)
    {other : RunRow} (hm : other ∈ db.runs.rows) : store.candidate db tenantId request now passed other = false := by
  rw [nextQueued_head, List.head?_eq_none_iff, ← List.length_eq_zero_iff, List.length_insertionSort,
    List.length_eq_zero_iff, List.filter_eq_nil_iff] at h
  simpa using h other hm

/-! ### What is left out has no room -/

theorem tenantHasRoom_iff : store.tenantHasRoom db ⟨[], []⟩ row = true ↔
    ∀ cap, store.perTenant = some cap → db.leasedOf row.tenantId < cap := by
  unfold tenantHasRoom
  cases store.perTenant <;> simp

theorem keyHasRoom_iff : store.keyHasRoom db ⟨[], []⟩ row = true ↔
    ∀ key, row.concurrencyKey = some key → db.runningWith row.tenantId key < store.perKey := by
  unfold keyHasRoom
  cases row.concurrencyKey <;> simp

/-- What was passed over admits every eligible run. -/
def Closed (store : RunStore) (db : Database) (tenantId : Option String) (request : ClaimRequest) (now : Instant)
    (passed : List Passed) : Prop :=
  ∀ row ∈ db.runs.rows, Eligible store db tenantId request now row → passed.all (·.admits row) = true

theorem candidate_of_eligible (hclosed : Closed store db tenantId request now passed) (hm : row ∈ db.runs.rows)
    (h : Eligible store db tenantId request now row) : store.candidate db tenantId request now passed row = true := by
  have hadmits := hclosed row hm h
  have havailable : row.availableAt.all (· ≤ now) = true := by
    rw [Option.all_eq_true]
    exact fun at_ hat => decide_eq_true (h.available at_ hat)
  have hmine : tenantId.all (· = row.tenantId) = true := by
    rw [Option.all_eq_true]
    exact fun own hown => decide_eq_true (h.mine own hown)
  have hkey : (row.concurrencyKey.all fun key => db.runningWith row.tenantId key < store.perKey) = true := by
    rw [Option.all_eq_true]
    exact fun key hkey => decide_eq_true (h.keyRoom key hkey)
  simp only [candidate, queuedFor, Bool.and_eq_true, decide_eq_true_eq, List.contains_iff_mem]
  exact ⟨⟨⟨⟨⟨h.queued, h.asked⟩, havailable⟩, hadmits⟩, hmine⟩, hkey⟩

/-- A candidate with room is eligible. -/
theorem eligible_of_candidate (hc : store.candidate db tenantId request now passed row = true)
    (ht : store.tenantHasRoom db ⟨[], []⟩ row = true) : Eligible store db tenantId request now row := by
  simp only [candidate, queuedFor, Bool.and_eq_true, decide_eq_true_eq, List.contains_iff_mem, Option.all_eq_true] at hc
  obtain ⟨⟨⟨⟨⟨hqueued, hasked⟩, havailable⟩, -⟩, hmine⟩, hkey⟩ := hc
  exact ⟨hqueued, hasked, havailable, hmine, hkey, tenantHasRoom_iff.1 ht⟩

theorem Closed.tenant (hclosed : Closed store db tenantId request now passed)
    (ht : store.tenantHasRoom db ⟨[], []⟩ row = false) :
    Closed store db tenantId request now (passed ++ [.tenant row.tenantId]) := by
  intro other hm h
  rw [List.all_append, hclosed other hm h, Bool.true_and]
  have hne : other.tenantId ≠ row.tenantId := by
    intro heq
    have hroom : store.tenantHasRoom db ⟨[], []⟩ row = true :=
      tenantHasRoom_iff.2 fun cap hcap => heq ▸ h.tenantRoom cap hcap
    rw [hroom] at ht
    cases ht
  simp [Passed.admits, hne]

theorem Closed.key (hclosed : Closed store db tenantId request now passed)
    (hk : store.keyHasRoom db ⟨[], []⟩ row = false) :
    Closed store db tenantId request now (passed ++ [.key row.tenantId row.concurrencyKey]) := by
  intro other hm h
  rw [List.all_append, hclosed other hm h, Bool.true_and]
  have hne : other.tenantId ≠ row.tenantId ∨ other.concurrencyKey ≠ row.concurrencyKey := by
    by_contra hsame
    push Not at hsame
    have hroom : store.keyHasRoom db ⟨[], []⟩ row = true :=
      keyHasRoom_iff.2 fun key hkey => hsame.1 ▸ h.keyRoom key (hsame.2.trans hkey)
    rw [hroom] at hk
    cases hk
  simpa [Passed.admits] using hne

/-- What the loop finds: an eligible run no eligible run precedes, or that there is none. -/
theorem turns_found {fuel : Nat} : ∀ {i : Nat} {passed : List Passed} {found : Option RunRow},
    Closed store db tenantId request now passed →
    store.turns (fun _ => .still db ⟨[], []⟩) tenantId request now fuel i passed = some found →
      match found with
      | none => ∀ row ∈ db.runs.rows, ¬ Eligible store db tenantId request now row
      | some row => row ∈ db.runs.rows ∧ Eligible store db tenantId request now row ∧
          ∀ other ∈ db.runs.rows, Eligible store db tenantId request now other → ¬ Precedes db request.agentIds other row := by
  induction fuel with
  | zero => intro i passed found _ h; cases h
  | succ fuel ih =>
    intro i passed found hclosed h
    unfold turns turn Seen.still at h
    dsimp only at h
    cases hn : store.nextQueued db ⟨[], []⟩ tenantId request now passed with
    | none =>
      rw [hn] at h
      cases h
      intro row hm hrow
      have hnot := nextQueued_none hn hm
      rw [candidate_of_eligible hclosed hm hrow] at hnot
      cases hnot
    | some row =>
      rw [hn] at h
      obtain ⟨hm, hc, -⟩ := nextQueued_spec hn
      cases ht : store.tenantHasRoom db ⟨[], []⟩ row with
      | false =>
        simp only [ht, Bool.not_false, if_true] at h
        exact ih (hclosed.tenant ht) h
      | true =>
        cases hk : store.keyHasRoom db ⟨[], []⟩ row with
        | false =>
          simp only [ht, hk, Bool.not_true, Bool.false_eq_true, if_false, Bool.not_false, if_true] at h
          exact ih (hclosed.key hk) h
        | true =>
          simp only [ht, hk, Bool.not_true, Bool.false_eq_true, if_false] at h
          cases h
          exact ⟨hm, eligible_of_candidate hc ht, fun other ho hother =>
            nextQueued_first hn ho (candidate_of_eligible hclosed ho hother)⟩

/-! ### The lease -/

theorem fits_leased (h : row.fits = true) (workerId : String) (seconds : LeaseSeconds) :
    (row.leased workerId seconds now).fits = fitsVarchar 200 workerId := by
  show _ = fitsVarchar? 200 (some workerId)
  simp only [RunRow.fits, Bool.and_eq_true] at h
  rw [Bool.eq_iff_iff]
  simp only [RunRow.fits, RunRow.leased, Bool.and_eq_true]
  simp_all

theorem flush_one (db : Database) (row : RunRow) :
    db.flush [row] = if row.fits then .ok { db with runs := db.runs.put row }
      else .error (.internal "the database refused a value") := by
  unfold Database.flush
  cases hfits : row.fits with
  | true =>
    rw [refuse_of_not _ (by simp [hfits])]
    rfl
  | false =>
    rw [refuse_of _ (by simp [hfits])]
    rfl

/-- A queued row is leased, unless PostgreSQL refuses the worker's id. -/
theorem take_eq (hfits : row.fits = true) (hqueued : row.status = .QUEUED) :
    store.take db row request now =
      let leased := (row.moved .RUNNING now).leased request.workerId request.leaseSeconds now
      let lease := (store.lease (row.moved .RUNNING now) request.workerId request.leaseSeconds now).2
      if fitsVarchar 200 request.workerId then .ok ({ db with runs := db.runs.put leased }, ⟨record leased now, lease⟩)
      else .error (.internal "the database refused a value") := by
  have hmove : move row .RUNNING now = .ok (row.moved .RUNNING now) :=
    move_ok.2 ⟨by rw [hqueued]; rfl, rfl⟩
  have hleased : ((row.moved .RUNNING now).leased request.workerId request.leaseSeconds now).fits =
      fitsVarchar 200 request.workerId := fits_leased (row.fits_moved hfits .RUNNING now) _ _
  have hflush := flush_one db ((row.moved .RUNNING now).leased request.workerId request.leaseSeconds now)
  rw [hleased] at hflush
  unfold take
  rw [hmove, ok_bind]
  dsimp only [lease] at hflush ⊢
  rw [hflush]
  by_cases hworker : fitsVarchar 200 request.workerId = true
  · rw [if_pos hworker, if_pos hworker]
    rfl
  · rw [if_neg hworker, if_neg hworker]
    rfl

end

end RunStore

/-- **A claim picks the right run, and ends.**  The loop ends whatever its statements see of the runs of other
transactions; when it sees none, the claim answers that there is no run exactly if none is eligible, and else leases
an eligible run that no eligible run precedes. -/
theorem claim_choice (store : RunStore) {db : Database} (hdb : ∀ row ∈ db.runs.rows, row.fits = true)
    (tenantId : Option String) (request : ClaimRequest) (now : Instant) :
    (∀ (seen : Nat → RunStore.Seen) (places : List RunRow),
      (∀ i, ∀ row ∈ (seen i).chosen.1.runs.rows, ∃ place ∈ places, RunStore.samePlace row place) →
        ∃ found, store.turns seen tenantId request now (places.length + 1) 0 [] = some found) ∧
    (store.claim db ⟨[], []⟩ tenantId request now = .ok (db, none) ↔
      ¬ ∃ row ∈ db.runs.rows, Eligible store db tenantId request now row) ∧
    ((∃ row ∈ db.runs.rows, Eligible store db tenantId request now row) →
      ∃ row ∈ db.runs.rows, Eligible store db tenantId request now row ∧
        (∀ other ∈ db.runs.rows, Eligible store db tenantId request now other →
          ¬ Precedes db request.agentIds other row) ∧
        store.claim db ⟨[], []⟩ tenantId request now =
          let leased := (row.moved .RUNNING now).leased request.workerId request.leaseSeconds now
          let lease := (store.lease (row.moved .RUNNING now) request.workerId request.leaseSeconds now).2
          if fitsVarchar 200 request.workerId then
            .ok ({ db with runs := db.runs.put leased }, some ⟨record leased now, lease⟩)
          else .error (.internal "the database refused a value")) := by
  have hends : ∀ (seen : Nat → RunStore.Seen) (places : List RunRow),
      (∀ i, ∀ row ∈ (seen i).chosen.1.runs.rows, ∃ place ∈ places, RunStore.samePlace row place) →
        ∃ found, store.turns seen tenantId request now (places.length + 1) 0 [] = some found :=
    fun _ _ h => RunStore.turns_end h (Nat.lt_succ_of_le List.countP_le_length)
  obtain ⟨found, hfound⟩ := hends (fun _ => .still db ⟨[], []⟩) db.runs.rows
    fun _ row hm => ⟨row, hm, rfl, rfl⟩
  have hclosed : RunStore.Closed store db tenantId request now [] := fun _ _ _ => rfl
  have hpick := RunStore.turns_found hclosed hfound
  have hloop := RunStore.turns_still hfound
  refine ⟨hends, ?_⟩
  unfold RunStore.claim
  rw [hloop]
  cases found with
  | none =>
    refine ⟨⟨fun _ ⟨row, hm, hrow⟩ => hpick row hm hrow, fun _ => rfl⟩, ?_⟩
    rintro ⟨row, hm, hrow⟩
    exact absurd hrow (hpick row hm)
  | some row =>
    obtain ⟨hm, heligible, hmin⟩ := hpick
    dsimp only
    rw [RunStore.take_eq (hdb row hm) heligible.queued]
    dsimp only
    constructor
    · constructor
      · intro h
        obtain ⟨⟨db', claimed⟩, -, h⟩ := bind_ok.1 h
        simp at h
      · intro h
        exact absurd ⟨row, hm, heligible⟩ h
    · intro _
      refine ⟨row, hm, heligible, hmin, ?_⟩
      split <;> rfl

/-- Two runs of one key: one running, and one queued behind it; and one of another key. -/
def waitingRuns : Database :=
  { Database.empty with
    runs := Table.empty.insertAll
      [(startedRow { smallStart with concurrencyKey := some "k" } true 0).leased "w" smallLease 1 |>.moved .RUNNING 1,
        startedRow { smallStart with runId := "s", concurrencyKey := some "k" } true 2,
        startedRow { smallStart with runId := "u", concurrencyKey := some "l" } true 3] }

def waitingRequest : ClaimRequest := ⟨"w", ["a"], smallLease⟩

/-- The run whose key has room is leased. -/
theorem waitingRuns_choice : ¬ smallStore.claim waitingRuns ⟨[], []⟩ (some "t") waitingRequest 5 = .ok (waitingRuns, none) := by
  intro h
  refine (@claim_choice smallStore waitingRuns (by decide +kernel) (some "t") waitingRequest 5).2.1.1 h
    ⟨startedRow { smallStart with runId := "u", concurrencyKey := some "l" } true 3, ?_, ?_⟩
  · exact List.mem_cons_of_mem _ (List.mem_cons_of_mem _ List.mem_cons_self)
  · exact
      { queued := rfl
        asked := by decide
        available := fun _ h => by cases h
        mine := fun _ h => by cases h; rfl
        keyRoom := fun key h => by cases h; decide +kernel
        tenantRoom := fun _ h => by cases h }

end AgentRuns
