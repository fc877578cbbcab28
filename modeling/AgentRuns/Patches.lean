import AgentRuns.Clocks
import AgentRuns.Ticks

/-!
# Concurrent updates

A `PATCH` reads its row without a lock and later writes the columns it changed, while fires lock the row for
their whole transaction.  Each `UPDATE` waits for the row's lock and works on the newest committed row, so a
transaction's writes are one step at its commit; what a `PATCH` read may be older (`Patching`).

    committed, one behind another  =  the interleaved run                    (updates_serial)

when no `PATCH` finds, as it writes, that what it read of the row was changed since (`Untouched`).
-/

namespace AgentRuns

open Relational Fallible Timed

/-- The schedules, and the row each `PATCH` that is under way has read. -/
structure Patching where
  s : Scheduler
  read : Nat → Option ScheduleRow

/-- A step of a transaction: a `PATCH` reads, or writes and commits; or a fire commits. -/
inductive PatchAct where
  | read (i : Nat) (tenantId scheduleId : String)
  | commit (i : Nat) (change : ScheduleUpdate)
  | fires (op : ScheduleOp) (isFire : op.runId.isSome = true)

namespace Patching

/-- Nothing is under way. -/
def quiet (s : Scheduler) : Patching := ⟨s, fun _ => none⟩

/-- The transaction `i` has read `row`, or is over. -/
def reading (p : Patching) (i : Nat) (row : Option ScheduleRow) : Nat → Option ScheduleRow :=
  fun j => if j = i then row else p.read j

def step (store : ScheduleStore) (p : Patching) (now : Instant) (act : PatchAct) : Patching :=
  match act with
  | .read i tenantId scheduleId =>
    { p with read := p.reading i (p.s.schedules.find? scheduleId |>.filter (·.tenantId = tenantId)) }
  | .commit i change =>
    match p.read i with
    | none => p
    | some row =>
      { s := orElse p.s (p.s.scheduling id (store.commitUpdate p.s.schedules row change now))
        read := p.reading i none }
  | .fires op _ => { p with s := Scheduler.step store p.s now op }

/-- The operation a step commits. -/
def commits (p : Patching) : PatchAct → Option ScheduleOp
  | .read .. => none
  | .commit i change => (p.read i).map fun row => .update row.tenantId row.scheduleId change
  | .fires op _ => some op

/-- The operations in the order they commit. -/
def serial (store : ScheduleStore) (p : Patching) : List (Instant × PatchAct) → List (Instant × ScheduleOp)
  | [] => []
  | (now, act) :: acts => ((p.commits act).map (now, ·)).toList ++ serial store (step store p now act) acts

end Patching

/-! ## What a `PATCH` read -/

/-- The row with the columns an update does not read as `current` has them: the bookkeeping, and the clock. -/
def ScheduleRow.booked (row current : ScheduleRow) : ScheduleRow :=
  { row with
    createdBy := current.createdBy
    nextFireAt := current.nextFireAt
    lastFiredAt := current.lastFiredAt
    lastRunId := current.lastRunId
    consecutiveFailures := current.consecutiveFailures
    lastError := current.lastError
    retryAfter := current.retryAfter
    createdAt := current.createdAt
    updatedAt := current.updatedAt }

/-- What the update goes by is in the row as it was read. -/
structure Unmoved (store : ScheduleStore) (read current : ScheduleRow) (change : ScheduleUpdate) (now : Instant) :
    Prop where
  /-- the fields of its spec -/
  spec : current = read.booked current
  /-- the clock, where the update sets it -/
  clock : ∀ spec, store.checked (read.merged change) = .ok spec → (read.retimed spec || read.reEnabled spec) = true →
    current.nextFireAt = read.nextFireAt
  /-- the failures, where it clears them -/
  failures : ∀ spec, store.checked (read.merged change) = .ok spec → read.reEnabled spec = true →
    current.consecutiveFailures = read.consecutiveFailures ∧ current.lastError = read.lastError ∧
      current.retryAfter = read.retryAfter
  /-- no other write of the same instant -/
  stamp : read.updatedAt = now → current.updatedAt = now

/-- No update of the run writes over a row that moved under it. -/
def Untouched (store : ScheduleStore) (p : Patching) : List (Instant × PatchAct) → Prop
  | [] => True
  | (now, act) :: acts =>
    (∀ i change row current, act = .commit i change → p.read i = some row →
      p.s.schedules.find? row.scheduleId = some current → Unmoved store row current change now) ∧
    Untouched store (p.step store now act) acts

/-! ## A commit is an update of the row as it is -/

section
variable {store : ScheduleStore} {now : Instant} {read current row row' : ScheduleRow} {change : ScheduleUpdate}
  {spec : ScheduleSpec} {op : ScheduleOp} {s s' : Scheduler}

theorem column_of_same {α : Type} [BEq α] [LawfulBEq α] {read wrote current : α} (h : read = wrote → current = wrote) :
    ScheduleRow.column (· == ·) read wrote current = wrote := by
  unfold ScheduleRow.column
  split
  · next he => exact h (eq_of_beq he).symm
  · rfl

theorem column_unwritten {α : Type} [BEq α] [LawfulBEq α] (read current : α) :
    ScheduleRow.column (· == ·) read read current = current := if_pos (beq_self_eq_true read)

/-- The clock an update sets. -/
def ScheduleStore.updatedClock (store : ScheduleStore) (row : ScheduleRow) (spec : ScheduleSpec) (now : Instant) :
    Option Instant :=
  if row.retimed spec then store.calendar.nextFireAt spec.cadence now spec.timezone
  else if row.reEnabled spec then (store.rearm (store.apply row spec) now).nextFireAt
  else row.nextFireAt

theorem ScheduleStore.rearm_eq (store : ScheduleStore) (row : ScheduleRow) (at_ : Instant) :
    store.rearm row at_ = { row with nextFireAt := (store.rearm row at_).nextFireAt } := by
  unfold rearm
  split
  · rfl
  · dsimp only
    split <;> rfl

/-- An update column by column. -/
theorem ScheduleStore.updatedRow_eq (store : ScheduleStore) (row : ScheduleRow) (spec : ScheduleSpec) (now : Instant) :
    store.updatedRow row spec now = { store.apply row spec with
      nextFireAt := store.updatedClock row spec now
      consecutiveFailures := if row.reEnabled spec then 0 else row.consecutiveFailures
      lastError := if row.reEnabled spec then none else row.lastError
      retryAfter := if row.reEnabled spec then none else row.retryAfter
      updatedAt := now } := by
  unfold updatedRow updatedClock
  by_cases ht : row.retimed spec = true
  · by_cases he : row.reEnabled spec = true <;> simp only [ht, he, if_true] <;> rfl
  · by_cases he : row.reEnabled spec = true
    · simp only [ht, he, if_true]
      rw [store.rearm_eq (store.apply row spec) now]
      rfl
    · simp only [ht, he]
      rfl

theorem ScheduleStore.rearm_congr {a b : ScheduleRow} (hn : a.nextFireAt = b.nextFireAt) (hc : a.cadence = b.cadence)
    (hz : a.timezone = b.timezone) (at_ : Instant) :
    (store.rearm a at_).nextFireAt = (store.rearm b at_).nextFireAt := by
  unfold rearm arm
  rw [hn, hc, hz]
  split
  · rfl
  · dsimp only
    split
    · exact hn
    · rfl

theorem Unmoved.clock_eq (h : Unmoved store read current change now)
    (hspec : store.checked (read.merged change) = .ok spec) :
    ScheduleRow.column (· == ·) read.nextFireAt (store.updatedClock read spec now) current.nextFireAt =
      store.updatedClock current spec now := by
  have hretimed : current.retimed spec = read.retimed spec := by rw [h.spec]; rfl
  have henabled : current.reEnabled spec = read.reEnabled spec := by rw [h.spec]; rfl
  unfold ScheduleStore.updatedClock
  rw [hretimed, henabled]
  by_cases ht : read.retimed spec = true
  · have hclock := h.clock spec hspec (by rw [ht]; rfl)
    rw [if_pos ht, if_pos ht]
    exact column_of_same fun he => hclock.trans he
  · by_cases hr : read.reEnabled spec = true
    · have hclock := h.clock spec hspec (by rw [hr, Bool.or_true])
      have hsame : (store.rearm (store.apply current spec) now).nextFireAt =
          (store.rearm (store.apply read spec) now).nextFireAt := 
        store.rearm_congr (a := store.apply current spec) (b := store.apply read spec) hclock rfl rfl now
      rw [if_neg ht, if_neg ht, if_pos hr, if_pos hr, hsame]
      exact column_of_same fun he => hclock.trans he
    · rw [if_neg ht, if_neg ht, if_neg hr, if_neg hr]
      exact column_unwritten _ _

/-- A column that a resume clears. -/
theorem column_cleared {α : Type} [BEq α] [LawfulBEq α] {b : Bool} {read current : α} (cleared : α)
    (h : b = true → current = read) :
    ScheduleRow.column (· == ·) read (if b then cleared else read) current = if b then cleared else current := by
  by_cases hb : b = true
  · rw [if_pos hb, if_pos hb]
    exact column_of_same fun he => (h hb).trans he
  · rw [if_neg hb, if_neg hb]
    exact column_unwritten _ _

/-- Of the row as it was read and as it is, an update makes the same. -/
theorem Unmoved.flushed_eq (h : Unmoved store read current change now)
    (hspec : store.checked (read.merged change) = .ok spec) :
    ScheduleRow.flushed read (store.updatedRow read spec now) current =
      ScheduleRow.flushed current (store.updatedRow current spec now) current := by
  have henabled : current.reEnabled spec = read.reEnabled spec := by rw [h.spec]; rfl
  have hclock := h.clock_eq hspec
  have hfailures := column_cleared 0 fun hb => (h.failures spec hspec hb).1
  have herror := column_cleared none fun hb => (h.failures spec hspec hb).2.1
  have hretry := column_cleared none fun hb => (h.failures spec hspec hb).2.2
  have hstamp : ScheduleRow.column (· == ·) read.updatedAt now current.updatedAt = now := column_of_same h.stamp
  have hread : ScheduleRow.flushed read (store.updatedRow read spec now) (read.booked current) =
      ScheduleRow.flushed (read.booked current) (store.updatedRow (read.booked current) spec now)
        (read.booked current) := by
    rw [store.updatedRow_eq, store.updatedRow_eq, ← h.spec, henabled]
    unfold ScheduleRow.flushed
    simp only [column_self, hclock, hfailures, herror, hretry, hstamp]
    rw [h.spec]
    simp only [ScheduleStore.apply, ScheduleRow.booked, column_self]
  rwa [← h.spec] at hread

/-- So a commit does what an update at once would do. -/
theorem Unmoved.commitUpdate_eq {schedules : Table ScheduleRow.scheduleId} (h : Unmoved store read current change now)
    (hfound : schedules.find? read.scheduleId = some current) :
    store.commitUpdate schedules read change now = store.commitUpdate schedules current change now := by
  have hid : current.scheduleId = read.scheduleId := by rw [h.spec]; rfl
  have hmerged : current.merged change = read.merged change := by rw [h.spec]; rfl
  unfold ScheduleStore.commitUpdate
  rw [hmerged, hid, hfound]
  cases hspec : store.checked (read.merged change) with
  | error e => rfl
  | ok spec =>
    simp only [ok_bind]
    rw [h.flushed_eq hspec]

/-- A fire that does not stop the schedule moves only the bookkeeping and the clock. -/
theorem RowChange.booked (h : RowChange store now op row row') (isFire : op.runId.isSome = true)
    (kept : row'.enabled = row.enabled) : row' = row.booked row' := by
  cases h with
  | updated => cases isFire
  | succeeded => rfl
  | failed =>
    unfold ScheduleStore.failureRow ScheduleRow.booked at *
    dsimp only at *
    split at kept
    · next hstop =>
      rw [if_pos hstop, ← kept]
    · next hgo => rw [if_neg hgo]

/-- An update that neither re-times nor resumes goes by nothing a fire moves. -/
theorem Unmoved.of_booked (hspec : current = read.booked current)
    (hplain : ∀ spec, store.checked (read.merged change) = .ok spec → (read.retimed spec || read.reEnabled spec) = false)
    (hstamp : read.updatedAt ≠ now) : Unmoved store read current change now where
  spec := hspec
  clock spec h hclock := by
    rw [hplain spec h] at hclock
    cases hclock
  failures spec h he := by
    have hnone := hplain spec h
    rw [he, Bool.or_true] at hnone
    cases hnone
  stamp h := absurd h hstamp

theorem commit_serial
    (h : ∀ current, s.schedules.find? row.scheduleId = some current → Unmoved store row current change now) :
    orElse s (s.scheduling id (store.commitUpdate s.schedules row change now)) =
      Scheduler.step store s now (.update row.tenantId row.scheduleId change) := by
  unfold Scheduler.step Scheduler.perform
  dsimp only
  cases hfound : s.schedules.find? row.scheduleId with
  | none =>
    have hrow : ScheduleStore.row s.schedules row.tenantId row.scheduleId =
        .error (.notFound s!"no schedule {row.scheduleId}") := by
      unfold ScheduleStore.row
      rw [hfound]
      rfl
    have hcommit : ∃ e, store.commitUpdate s.schedules row change now = .error e := by
      unfold ScheduleStore.commitUpdate
      rw [hfound]
      cases store.checked (row.merged change) with
      | error e => exact ⟨e, rfl⟩
      | ok spec => exact ⟨_, rfl⟩
    obtain ⟨e, he⟩ := hcommit
    unfold ScheduleStore.update
    rw [he, hrow]
    rfl
  | some current =>
    have hu := h current hfound
    have htenant : current.tenantId = row.tenantId := by rw [hu.spec]; rfl
    have hrow := ScheduleStore.row_ok.2 ⟨hfound, htenant⟩
    unfold ScheduleStore.update
    rw [hrow, hu.commitUpdate_eq hfound]
    rfl

/-! ## Names are kept -/

/-- The names an update sends. -/
def ScheduleUpdate.names (change : ScheduleUpdate) : List String := ((change.metadata.getD none).getD []).map Prod.fst

theorem names_of_pyEqMembers : ∀ {a b : List (String × Json)}, Json.pyEqMembers a b = true →
    a.map Prod.fst = b.map Prod.fst
  | [], [], _ => rfl
  | (k, x) :: a, (l, y) :: b, h => by
    simp only [Json.pyEqMembers, Bool.and_eq_true, beq_iff_eq] at h
    rw [List.map_cons, List.map_cons, names_of_pyEqMembers h.2, h.1.1]
  | [], _ :: _, h => by cases h
  | _ :: _, [], h => by cases h

/-- Validating a spec leaves its metadata as it is. -/
def ScheduleStore.KeepsMetadata (store : ScheduleStore) : Prop :=
  ∀ spec spec', store.validate spec = some spec' → spec'.metadata = spec.metadata

/-- The metadata of the spec an update asks for. -/
theorem merged_metadata {fields : ScheduleSpec} (h : row.merged change = some fields) :
    fields.metadata = match change.metadata with
      | none => row.scheduleMetadata.getD []
      | some sent => mergeMembers (row.scheduleMetadata.getD []) (sent.getD []) := by
  unfold ScheduleRow.merged at h
  simp only [Option.bind_eq_bind, Option.bind_eq_some_iff] at h
  obtain ⟨_, -, _, -, _, -, _, -, _, -, _, -, h⟩ := h
  cases h
  rfl

theorem checked_metadata (keeps : store.KeepsMetadata) {fields : Option ScheduleSpec}
    (h : store.checked fields = .ok spec) : ∃ asked, fields = some asked ∧ spec.metadata = asked.metadata := by
  unfold ScheduleStore.checked at h
  split at h
  · cases h
  · next valid hvalid =>
    obtain ⟨asked, rfl, hv⟩ := Option.bind_eq_some_iff.1 hvalid
    obtain ⟨_, -, h⟩ := bind_ok.1 h
    cases h
    exact ⟨asked, rfl, keeps asked valid hv⟩

/-- An update adds the names it sends to the ones that are there. -/
theorem mem_names_updated (keeps : store.KeepsMetadata) (hspec : store.checked (row.merged change) = .ok spec)
    {name : String} : name ∈ (ScheduleRow.flushed row (store.updatedRow row spec now) row).names ↔
      name ∈ row.names ∨ name ∈ change.names := by
  obtain ⟨asked, hasked, hmeta⟩ := checked_metadata keeps hspec
  have hwrote : (store.updatedRow row spec now).names = spec.metadata.map Prod.fst := by
    rw [store.updatedRow_eq]
    unfold ScheduleRow.names ScheduleStore.apply
    dsimp only
    split
    · next he =>
      rw [List.isEmpty_iff.1 he]
      rfl
    · rfl
  have hmerged : name ∈ spec.metadata.map Prod.fst ↔ name ∈ row.names ∨ name ∈ change.names := by
    rw [hmeta, merged_metadata hasked]
    unfold ScheduleRow.names ScheduleUpdate.names
    cases change.metadata with
    | none => simp
    | some sent => exact mem_names_mergeMembers
  have hflushed : (ScheduleRow.flushed row (store.updatedRow row spec now) row).names =
      (store.updatedRow row spec now).names := by
    unfold ScheduleRow.flushed ScheduleRow.names ScheduleRow.column
    dsimp only
    split
    · next hsame =>
      rw [Bool.and_eq_true] at hsame
      exact (names_of_pyEqMembers hsame.1).symm
    · rfl
  rw [hflushed, hwrote, hmerged]

theorem RowChange.names (keeps : store.KeepsMetadata) (h : RowChange store now op row row') {name : String}
    (hn : name ∈ row.names) : name ∈ row'.names := by
  cases h with
  | updated checked => exact (mem_names_updated keeps checked).2 (Or.inl hn)
  | succeeded => exact hn
  | failed =>
    unfold ScheduleStore.failureRow
    dsimp only
    split <;> exact hn

/-! ## The clock is an occurrence -/

/-- The clock is an occurrence of the row's own cadence in its own zone. -/
def ScheduleRow.Armed (store : ScheduleStore) (row : ScheduleRow) : Prop :=
  ∃ after, row.nextFireAt = store.calendar.nextFireAt row.cadence after row.timezone

theorem ScheduleStore.rearm_armed (h : row.Armed store) (at_ : Instant) : (store.rearm row at_).Armed store := by
  unfold rearm
  split
  · exact ⟨at_, rfl⟩
  · dsimp only
    split
    · exact h
    · exact ⟨at_, rfl⟩

theorem updatedRow_armed (h : row.Armed store) : (store.updatedRow row spec now).Armed store := by
  unfold ScheduleRow.Armed
  rw [store.updatedRow_eq]
  unfold ScheduleStore.updatedClock
  dsimp only
  by_cases ht : row.retimed spec = true
  · rw [if_pos ht]
    exact ⟨now, rfl⟩
  · have hsame : spec.cadence = row.cadence ∧ spec.timezone = row.timezone := by
      simpa [ScheduleRow.retimed] using ht
    have happly : (store.apply row spec).Armed store := by
      obtain ⟨after, ha⟩ := h
      refine ⟨after, ?_⟩
      show row.nextFireAt = store.calendar.nextFireAt spec.cadence after spec.timezone
      rw [ha, hsame.1, hsame.2]
    rw [if_neg ht]
    by_cases hr : row.reEnabled spec = true
    · rw [if_pos hr]
      obtain ⟨after, ha⟩ := store.rearm_armed happly now
      rw [store.rearm_eq] at ha
      exact ⟨after, ha⟩
    · rw [if_neg hr]
      exact happly

theorem RowChange.armed (h : RowChange store now op row row') (ha : row.Armed store) : row'.Armed store := by
  cases h with
  | @updated row spec tenantId scheduleId change checked =>
    unfold ScheduleRow.Armed ScheduleRow.flushed
    simp only [column_self]
    exact updatedRow_armed ha
  | @succeeded row op fireTime runId => exact ⟨max fireTime now, rfl⟩
  | failed =>
    unfold ScheduleStore.failureRow
    dsimp only
    split <;> exact ha

namespace Scheduler

/-- Every schedule's clock is an occurrence. -/
def Armed (store : ScheduleStore) (s : Scheduler) : Prop :=
  ∀ scheduleId row, s.schedules.find? scheduleId = some row → row.Armed store

theorem Armed.step (h : s.Armed store) : (Scheduler.step store s now op).Armed store := by
  intro scheduleId row' hrow'
  rcases step_row hrow' with hr | ⟨row, hr, hc⟩ | ⟨-, spec, createdBy, rfl⟩
  · exact h scheduleId row' hr
  · exact hc.armed (h scheduleId row hr)
  · exact ⟨now, rfl⟩

theorem Run.armed {ok : Scheduler → Instant → ScheduleOp → Prop} {t t' : Instant}
    (h : Run (Scheduler.step store) ok t Scheduler.empty t' s) : s.Armed store :=
  h.invariant' (fun s => s.Armed store) (fun _ _ _ hs _ => hs.step) fun _ _ hr => by cases hr

/-- The schedule's metadata holds the name. -/
def Holds (s : Scheduler) (scheduleId name : String) : Prop :=
  ∃ row, s.schedules.find? scheduleId = some row ∧ name ∈ row.names

/-- Only a deleted schedule loses a name. -/
theorem Holds.step (keeps : store.KeepsMetadata) {scheduleId name : String} (h : s.Holds scheduleId name)
    (kept : ∀ tenantId id, op ≠ .delete tenantId id) : (Scheduler.step store s now op).Holds scheduleId name := by
  obtain ⟨row, hrow, hname⟩ := h
  unfold Scheduler.step
  cases hp : perform store s now op with
  | error e => exact ⟨row, hrow, hname⟩
  | ok p =>
    obtain ⟨s', fired⟩ := p
    rw [orElse_ok]
    unfold Holds
    obtain he | ⟨row₁, row₂, hr, hc, he⟩ | ⟨spec, createdBy, id, hfree, he⟩ | ⟨tenantId, id, p, hd, -⟩ :=
      perform_schedules hp
    · exact ⟨row, he ▸ hrow, hname⟩
    · rw [he]
      by_cases hk : row₂.scheduleId = scheduleId
      · have hsame : row₁ = row := by
          rw [← hc.scheduleId, hk, hrow] at hr
          exact (Option.some.inj hr).symm
        exact ⟨row₂, Table.find?_put_self hk hrow, hc.names keeps (hsame ▸ hname)⟩
      · exact ⟨row, by rw [Table.find?_put_of_ne hk, hrow], hname⟩
    · refine ⟨row, ?_, hname⟩
      rw [he, Table.find?_insert_of_ne, hrow]
      intro hk
      have hk : id = scheduleId := hk
      rw [hk, hrow] at hfree
      cases hfree
    · exact absurd hd (kept tenantId id)

end Scheduler

end

/-! ## The run is a serial one -/

namespace Patching

/-- The names the update of a transaction sets as it commits, each with its schedule. -/
def sets (store : ScheduleStore) (p : Patching) (now : Instant) (i : Nat) (change : ScheduleUpdate) :
    List (String × String) :=
  match p.read i with
  | none => []
  | some row =>
    if (store.commitUpdate p.s.schedules row change now).toOption.isSome then change.names.map (row.scheduleId, ·)
    else []

/-- The names the updates that commit set. -/
def names (store : ScheduleStore) (p : Patching) : List (Instant × PatchAct) → List (String × String)
  | [] => []
  | (now, .commit i change) :: acts =>
    p.sets store now i change ++ names store (step store p now (.commit i change)) acts
  | (now, act) :: acts => names store (step store p now act) acts

section
variable {store : ScheduleStore} {p : Patching} {now : Instant} {act : PatchAct} {i : Nat} {change : ScheduleUpdate}
  {acts : List (Instant × PatchAct)}

/-- **One step.**  A step does what the operation it commits does to the schedules as they are. -/
theorem step_serial
    (h : ∀ i change row current, act = .commit i change → p.read i = some row →
      p.s.schedules.find? row.scheduleId = some current → Unmoved store row current change now) :
    (step store p now act).s =
      Run.after (Scheduler.step store) p.s ((p.commits act).map (now, ·)).toList := by
  cases act with
  | read i tenantId scheduleId => rfl
  | fires op isFire => rfl
  | commit i change =>
    unfold step commits
    dsimp only
    cases hread : p.read i with
    | none => rfl
    | some row => exact commit_serial (h i change row · rfl hread)

/-- A transaction that commits deletes no schedule. -/
theorem commits_kept {op : ScheduleOp} (h : p.commits act = some op) (tenantId scheduleId : String) :
    op ≠ .delete tenantId scheduleId := by
  rintro rfl
  cases act with
  | read i tenantId scheduleId => cases h
  | commit i change =>
    obtain ⟨row, -, he⟩ := Option.map_eq_some_iff.1 h
    cases he
  | fires op isFire =>
    cases h
    cases isFire

theorem holds_step (keeps : store.KeepsMetadata) (scheduleId name : String)
    (serial : (step store p now act).s = Run.after (Scheduler.step store) p.s ((p.commits act).map (now, ·)).toList)
    (h : p.s.Holds scheduleId name) : (step store p now act).s.Holds scheduleId name := by
  rw [serial]
  cases hc : p.commits act with
  | none => exact h
  | some op => exact h.step keeps (commits_kept hc)

theorem armed_step
    (serial : (step store p now act).s = Run.after (Scheduler.step store) p.s ((p.commits act).map (now, ·)).toList)
    (h : p.s.Armed store) : (step store p now act).s.Armed store := by
  rw [serial]
  cases p.commits act with
  | none => exact h
  | some op => exact h.step

/-- An update that commits leaves the names it set. -/
theorem sets_hold (keeps : store.KeepsMetadata)
    (h : ∀ row current, p.read i = some row → p.s.schedules.find? row.scheduleId = some current →
      Unmoved store row current change now) {scheduleId name : String}
    (hn : (scheduleId, name) ∈ p.sets store now i change) :
    (step store p now (.commit i change)).s.Holds scheduleId name := by
  unfold sets at hn
  unfold step
  dsimp only
  cases hread : p.read i with
  | none =>
    rw [hread] at hn
    cases hn
  | some row =>
    rw [hread] at hn
    dsimp only at hn ⊢
    cases hc : store.commitUpdate p.s.schedules row change now with
    | error e =>
      rw [hc] at hn
      cases hn
    | ok schedules =>
      have hset : name ∈ change.names ∧ row.scheduleId = scheduleId := by
        rw [hc] at hn
        obtain ⟨_, hm, he⟩ := List.mem_map.1 (show _ ∈ change.names.map (row.scheduleId, ·) from hn)
        cases he
        exact ⟨hm, rfl⟩
      show Scheduler.Holds { p.s with schedules := schedules } scheduleId name
      obtain ⟨spec, current, hspec, hfound, rfl⟩ := ScheduleStore.commitUpdate_ok hc
      have hu := h row current hread hfound
      have hid : current.scheduleId = row.scheduleId := by rw [hu.spec]; rfl
      have hmerged : store.checked (current.merged change) = .ok spec := by rw [hu.spec]; exact hspec
      rw [hu.flushed_eq hspec]
      refine ⟨_, Table.find?_put_self (hid.trans hset.2) (hset.2 ▸ hfound), ?_⟩
      exact (mem_names_updated keeps hmerged).2 (Or.inr hset.1)

/-- **Run.**  What transactions leave is what their operations leave, taken one by one as they commit. -/
theorem after_serial : ∀ {p : Patching}, Untouched store p acts →
    (Run.after (step store) p acts).s = Run.after (Scheduler.step store) p.s (serial store p acts) := by
  induction acts with
  | nil => intro p _; rfl
  | cons x acts ih =>
    obtain ⟨now, act⟩ := x
    intro p h
    have hstep := step_serial h.1
    show (Run.after (step store) (step store p now act) acts).s = _
    rw [ih h.2, hstep]
    show _ = Run.after (Scheduler.step store) p.s (((p.commits act).map (now, ·)).toList ++ _)
    cases p.commits act with
    | none => rfl
    | some op => rfl

theorem after_holds (keeps : store.KeepsMetadata) {scheduleId name : String} : ∀ {p : Patching},
    Untouched store p acts → (p.s.Holds scheduleId name ∨ (scheduleId, name) ∈ names store p acts) →
      (Run.after (step store) p acts).s.Holds scheduleId name := by
  induction acts with
  | nil =>
    rintro p - (h | h)
    · exact h
    · cases h
  | cons x acts ih =>
    obtain ⟨now, act⟩ := x
    rintro p ⟨hact, hacts⟩ h
    have hkeep := holds_step keeps scheduleId name (step_serial hact)
    refine ih hacts ?_
    rcases h with h | h
    · exact Or.inl (hkeep h)
    · cases act with
      | read i tenantId scheduleId => exact Or.inr h
      | fires op isFire => exact Or.inr h
      | commit i change =>
        rcases List.mem_append.1 h with h | h
        · exact Or.inl (sets_hold keeps (hact i change · · rfl) h)
        · exact Or.inr h

theorem after_armed : ∀ {p : Patching}, Untouched store p acts → p.s.Armed store →
    (Run.after (step store) p acts).s.Armed store := by
  induction acts with
  | nil => intro p _ h; exact h
  | cons x acts ih =>
    intro p h harmed
    exact ih h.2 (armed_step (step_serial h.1) harmed)

end

end Patching

/-- **Updates one by one.**  When nothing an update read was changed before it writes, the run leaves what its
transactions leave one behind another, every name set, and every clock an occurrence of the row's cadence. -/
theorem updates_serial {store : ScheduleStore} (keeps : store.KeepsMetadata) {t t' : Instant} {s : Scheduler}
    (reached : Run (Scheduler.step store) anything t Scheduler.empty t' s) {acts : List (Instant × PatchAct)}
    (untouched : Untouched store (.quiet s) acts) :
    (Run.after (Patching.step store) (.quiet s) acts).s =
        Run.after (Scheduler.step store) s (Patching.serial store (.quiet s) acts) ∧
      (∀ scheduleId name, (scheduleId, name) ∈ Patching.names store (.quiet s) acts →
        (Run.after (Patching.step store) (.quiet s) acts).s.Holds scheduleId name) ∧
      (Run.after (Patching.step store) (.quiet s) acts).s.Armed store :=
  ⟨Patching.after_serial untouched, fun _ _ h => Patching.after_holds keeps untouched (Or.inr h),
    Patching.after_armed untouched (Scheduler.Run.armed reached)⟩

/-! ## Updates of an hourly schedule -/

/-- An update that sets one name of the metadata. -/
def setName (name : String) : ScheduleUpdate where
  agentId := none
  name := none
  cadence := none
  timezone := none
  input := none
  workspaceId := none
  enabled := none
  timeoutSeconds := none
  agentVersion := none
  priority := none
  concurrencyKey := none
  metadata := some (some [(name, .null)])

/-- An update read before a fire and written after it. -/
def aroundFire : List (Instant × PatchAct) :=
  [(10, .read 0 "t" "s"), (3700, .fires (.fireDue [] "r" none) rfl), (3710, .commit 0 (setName "a"))]

theorem aroundFire_untouched : Untouched smallSchedules (.quiet hourly) aroundFire := by
  refine ⟨fun _ _ _ _ h => ?_, fun _ _ _ _ h => ?_, ?_, trivial⟩
  · cases h
  · cases h
  intro i change row current hact hread hfound
  cases hact
  have hread : (hourly.schedules.find? "s" |>.filter (·.tenantId = "t")) = some row := hread
  rw [Option.filter_eq_some_iff] at hread
  have hid := Table.key_of_find? hread.1
  have hrows : (hourly.schedules.rows.all fun row => row.updatedAt != 3710 &&
      (smallSchedules.checked (row.merged (setName "a"))).toOption.all fun spec =>
        !(row.retimed spec || row.reEnabled spec)) = true := by decide +kernel
  have hrow := List.all_eq_true.1 hrows row (Table.mem_of_find? hread.1)
  rw [Bool.and_eq_true, bne_iff_ne] at hrow
  have hkept : ((Scheduler.step smallSchedules hourly 3700 (.fireDue [] "r" none)).schedules.rows ++
      hourly.schedules.rows).all (·.enabled) = true := by decide +kernel
  have hspec : current = row.booked current := by
    have hfired : (Scheduler.step smallSchedules hourly 3700 (.fireDue [] "r" none)).schedules.find? "s" = some current :=
      hid ▸ hfound
    rcases Scheduler.step_row hfired with h | ⟨row₁, h, hc⟩ | ⟨h, -⟩
    · rw [hread.1] at h
      cases h
      rfl
    · rw [hread.1] at h
      cases h
      rw [List.all_append, Bool.and_eq_true, List.all_eq_true, List.all_eq_true] at hkept
      have hafter := hkept.1 current (Table.mem_of_find? hfired)
      have hbefore := hkept.2 row (Table.mem_of_find? hread.1)
      exact hc.booked rfl (hafter.trans hbefore.symm)
    · rw [hread.1] at h
      cases h
  refine .of_booked hspec (fun spec h => ?_) hrow.1
  have hplain := hrow.2
  rw [h] at hplain
  simpa [Except.toOption] using hplain

theorem smallSchedules_keeps : smallSchedules.KeepsMetadata := by
  rintro spec spec' ⟨⟩
  rfl

/-- The update and the fire are serial. -/
theorem aroundFire_serial : (Run.after (Patching.step smallSchedules) (.quiet hourly) aroundFire).s =
      Run.after (Scheduler.step smallSchedules) hourly (Patching.serial smallSchedules (.quiet hourly) aroundFire) ∧
    (∀ scheduleId name, (scheduleId, name) ∈ Patching.names smallSchedules (.quiet hourly) aroundFire →
      (Run.after (Patching.step smallSchedules) (.quiet hourly) aroundFire).s.Holds scheduleId name) ∧
    (Run.after (Patching.step smallSchedules) (.quiet hourly) aroundFire).s.Armed smallSchedules :=
  updates_serial smallSchedules_keeps (.single (le_refl (0 : Instant)) trivial) aroundFire_untouched

/-- Two updates, both read before either is written. -/
def bothRead : List (Instant × PatchAct) :=
  [(10, .read 0 "t" "s"), (11, .read 1 "t" "s"), (12, .commit 0 (setName "a")), (13, .commit 1 (setName "b"))]

/-- The names in the schedule's metadata. -/
def Scheduler.namesOf (s : Scheduler) (scheduleId : String) : Option (List String) :=
  (s.schedules.find? scheduleId).map ScheduleRow.names

/-- The later one drops the name the earlier one set, which neither order of the two would. -/
theorem bothRead_lose_name :
    Patching.names smallSchedules (.quiet hourly) bothRead = [("s", "a"), ("s", "b")] ∧
      ¬(Run.after (Patching.step smallSchedules) (.quiet hourly) bothRead).s.Holds "s" "a" ∧
      (Run.after (Patching.step smallSchedules) (.quiet hourly) bothRead).s ≠ Run.after (Scheduler.step smallSchedules)
        hourly [(12, .update "t" "s" (setName "a")), (13, .update "t" "s" (setName "b"))] ∧
      (Run.after (Patching.step smallSchedules) (.quiet hourly) bothRead).s ≠ Run.after (Scheduler.step smallSchedules)
        hourly [(12, .update "t" "s" (setName "b")), (13, .update "t" "s" (setName "a"))] := by
  have hnames : (Run.after (Patching.step smallSchedules) (.quiet hourly) bothRead).s.namesOf "s" = some ["b"] := by
    decide +kernel
  refine ⟨by decide +kernel, ?_, fun heq => ?_, fun heq => ?_⟩
  · rintro ⟨row, hrow, hname⟩
    unfold Scheduler.namesOf at hnames
    rw [hrow, Option.map_some, Option.some.injEq] at hnames
    rw [hnames] at hname
    exact absurd hname (by decide)
  · rw [heq] at hnames
    revert hnames
    decide +kernel
  · rw [heq] at hnames
    revert hnames
    decide +kernel

end AgentRuns
