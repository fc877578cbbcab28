import AgentRuns.Canonical
import AgentRuns.Patches
import AgentRuns.Resuming

/-!
# The identity of a schedule

An upsert looks a schedule up by its tenant, agent, principal, cadence and the digest of its input.  The digest is of the
input as it is sent, but an update takes it again of what the JSONB column gives back (`Jsonb`), where 1e16 is an integer and
-0.0 has no sign.

    an upsert of the same spec finds it  ↔  its cadence fires again, and every number of its input is plain
                                              or it was never updated                       (identity_kept_iff)
-/

namespace AgentRuns

open Relational Fallible Timed

/-! ## JSONB -/

/-- Does Python write the number with neither an exponent above it nor a negative zero? -/
def plainNumber (text : String) : Bool := text != "-0.0" && !text.toList.contains '+'

/-- A JSONB column, to Python: how it writes a number that it gets back. -/
structure Jsonb where
  number : String → String
  number_plain : ∀ text, plainNumber text = true → number text = text
  plain_number : ∀ text, plainNumber (number text) = true
  numeral_number : ∀ text, Json.numeral text = true → Json.numeral (number text) = true

namespace Jsonb

variable (jsonb : Jsonb)

/-- The value that is given back. -/
def read : Json → Json := Json.mapNumbers jsonb.number

def readMembers : List (String × Json) → List (String × Json) := Json.mapNumbersMembers jsonb.number

theorem number_eq_iff {text : String} : jsonb.number text = text ↔ plainNumber text = true := by
  constructor
  · intro h
    rw [← h]
    exact jsonb.plain_number text
  · exact jsonb.number_plain text

/-- What is given back is given back as it is. -/
theorem read_read (j : Json) : jsonb.read (jsonb.read j) = jsonb.read j := by
  unfold read
  rw [Json.mapNumbers_mapNumbers]
  congr 1
  funext text
  exact jsonb.number_plain _ (jsonb.plain_number text)

/-- The canonical text stays exactly where every number is plain. -/
theorem canonical_read {j : Json} (hj : ∀ t ∈ j.numbers, Json.numeral t = true) :
    (jsonb.read j).canonical = j.canonical ↔ ∀ t ∈ j.numbers, plainNumber t = true := by
  unfold read
  rw [Json.canonical_mapNumbers jsonb.numeral_number hj]
  exact forall₂_congr fun t _ => jsonb.number_eq_iff

theorem read_of_plain {j : Json} (h : ∀ t ∈ j.numbers, plainNumber t = true) : jsonb.read j = j :=
  Json.mapNumbers_of_fixed fun t ht => jsonb.number_plain t (h t ht)

end Jsonb

/-! ## Rows, as a transaction reads them -/

/-- The row with what its JSONB columns give back. -/
def ScheduleRow.readBack (jsonb : Jsonb) (row : ScheduleRow) : ScheduleRow :=
  { row with input := jsonb.read row.input, scheduleMetadata := row.scheduleMetadata.map jsonb.readMembers }

/-- Is it an update of the schedule? -/
def ScheduleOp.updates (scheduleId : String) : ScheduleOp → Bool
  | .update _ id _ => id = scheduleId
  | _ => false

namespace Scheduler

def readBack (jsonb : Jsonb) (s : Scheduler) : Scheduler :=
  { s with schedules := s.schedules.modify (·.readBack jsonb) fun _ => rfl }

theorem find?_readBack (jsonb : Jsonb) (s : Scheduler) (scheduleId : String) :
    (s.readBack jsonb).schedules.find? scheduleId = (s.schedules.find? scheduleId).map (·.readBack jsonb) :=
  Table.find?_modify s.schedules (·.readBack jsonb) (fun _ => rfl) scheduleId

theorem unique_readBack (jsonb : Jsonb) {s : Scheduler} (h : s.schedules.Unique ScheduleRow.identity) :
    (s.readBack jsonb).schedules.Unique ScheduleRow.identity :=
  Table.Unique.modify (f := (·.readBack jsonb)) h (fun _ => rfl) fun _ => rfl

/-- The state the next transaction finds behind an operation. -/
def stepStored (croniter : Croniter) (store : ScheduleStore) (jsonb : Jsonb) (s : Scheduler) (now : Instant) (op : ScheduleOp) :
    Scheduler :=
  (stepRaising croniter store s now op).readBack jsonb

/-- Is the schedule updated: does croniter raise nothing in the update, and nothing refuse it? -/
def updates (croniter : Croniter) (store : ScheduleStore) (scheduleId : String) (s : Scheduler) (now : Instant) (op : ScheduleOp) :
    Bool :=
  op.updates scheduleId && !s.raises croniter store now op && (perform store s now op).toOption.isSome

end Scheduler

/-! ## What is sent -/

/-- What a validation gave it gives again, field by field; an input it lets through. -/
structure ScheduleStore.Settled (store : ScheduleStore) : Prop where
  tenantId : ∀ a b c d, store.validate a = some b → store.validate c = some d → c.tenantId = b.tenantId → d.tenantId = b.tenantId
  agentId : ∀ a b c d, store.validate a = some b → store.validate c = some d → c.agentId = b.agentId → d.agentId = b.agentId
  onBehalfOf : ∀ a b c d, store.validate a = some b → store.validate c = some d → c.onBehalfOf = b.onBehalfOf →
    d.onBehalfOf = b.onBehalfOf
  cadence : ∀ a b c d, store.validate a = some b → store.validate c = some d → strip c.cadence = strip b.cadence →
    strip d.cadence = strip b.cadence
  input : ∀ a b, store.validate a = some b → b.input = a.input

/-- The agent, cadence and input that are sent are the schedule's. -/
structure ScheduleUpdate.Leaves (change : ScheduleUpdate) (row : ScheduleRow) : Prop where
  agentId : ∀ sent, change.agentId = some (some sent) → sent = row.agentId
  cadence : ∀ sent, change.cadence = some (some sent) → strip sent = row.cadence
  input : ∀ sent, change.input = some sent → sent.getD .null = row.input

/-- Nor does the operation delete the schedule. -/
def Leaves (scheduleId : String) (s : Scheduler) (_ : Instant) : ScheduleOp → Prop
  | .update tenantId id change =>
    id = scheduleId → ∀ row, ScheduleStore.row s.schedules tenantId id = .ok row → change.Leaves row
  | .delete tenantId id => id = scheduleId → ∀ row, ScheduleStore.row s.schedules tenantId id ≠ .ok row
  | _ => True

/-- A schedule of a spec, with the input it holds and the digest it goes under. -/
structure ScheduleRow.Stands (row : ScheduleRow) (spec : ScheduleSpec) (input : Json) (digest : String) : Prop where
  identity : row.identity = (spec.tenantId, spec.agentId, spec.onBehalfOf, spec.cadence, digest)
  input : row.input = input

section
variable {store : ScheduleStore} {now : Instant} {row : ScheduleRow} {change : ScheduleUpdate} {fields spec spec' checked : ScheduleSpec}

theorem merged_fields (h : row.merged change = some fields) : fields.tenantId = row.tenantId ∧
    change.agentId.getD (some row.agentId) = some fields.agentId ∧ fields.onBehalfOf = row.onBehalfOf ∧
    change.cadence.getD (some row.cadence) = some fields.cadence ∧
    fields.input = (change.input.getD (some row.input)).getD .null := by
  unfold ScheduleRow.merged at h
  simp only [Option.bind_eq_bind, Option.bind_eq_some_iff] at h
  obtain ⟨agentId, hagent, _, -, cadence, hcadence, _, -, _, -, _, -, h⟩ := h
  cases h
  exact ⟨rfl, hagent, rfl, hcadence, rfl⟩

/-- A checked spec is a valid one, its cadence stripped. -/
theorem checked_ok {fields : Option ScheduleSpec} (h : store.checked fields = .ok checked) :
    ∃ asked valid, fields = some asked ∧ store.validate asked = some valid ∧ checked = { valid with cadence := strip valid.cadence } := by
  unfold ScheduleStore.checked at h
  split at h
  · cases h
  · next valid hvalid =>
    obtain ⟨asked, rfl, hv⟩ := Option.bind_eq_some_iff.1 hvalid
    obtain ⟨n, hn, h⟩ := bind_ok.1 h
    cases h
    exact ⟨asked, valid, rfl, hv, by rw [Calendar.validateCadence_strip hn]⟩

theorem checked_input (settled : store.Settled) (h : store.checked (some spec) = .ok checked) : checked.input = spec.input := by
  obtain ⟨_, valid, ha, hvalid, rfl⟩ := checked_ok h
  cases ha
  exact settled.input spec valid hvalid

/-- What an update writes that leaves them: the same identity, but for the digest, which is taken of the input as it is. -/
theorem ScheduleRow.Stands.updated {input : Json} {digest : String} (settled : store.Settled)
    (hchecked : store.checked (some spec) = .ok checked) (h : row.Stands checked input digest) (leaves : change.Leaves row)
    (hspec : store.checked (row.merged change) = .ok spec') :
    (ScheduleRow.flushed row (store.updatedRow row spec' now) row).Stands checked input (store.inputSha256 input) := by
  obtain ⟨_, valid, ha, hvalid, rfl⟩ := checked_ok hchecked
  cases ha
  obtain ⟨asked, valid', hasked, hvalid', rfl⟩ := checked_ok hspec
  obtain ⟨htenant, hagent, hobo, hcadence, hinput⟩ := merged_fields hasked
  obtain ⟨hidentity, rfl⟩ := h
  simp only [ScheduleRow.identity, Prod.mk.injEq] at hidentity
  obtain ⟨htenant₀, hagent₀, hobo₀, hcadence₀, -⟩ := hidentity
  have hagent : asked.agentId = row.agentId := by
    cases hsent : change.agentId with
    | none => simpa [hsent] using hagent.symm
    | some sent =>
      rw [hsent, Option.getD_some] at hagent
      exact leaves.agentId _ (by rw [hsent, hagent])
  have hcadence : strip asked.cadence = strip valid.cadence := by
    cases hsent : change.cadence with
    | none =>
      rw [hsent, Option.getD_none, Option.some_inj] at hcadence
      rw [← hcadence, hcadence₀, strip_strip]
    | some sent =>
      rw [hsent, Option.getD_some] at hcadence
      rw [leaves.cadence _ (by rw [hsent, hcadence]), hcadence₀]
  have hinput : valid'.input = row.input := by
    rw [settled.input _ _ hvalid', hinput]
    cases hsent : change.input with
    | none => rfl
    | some sent => exact leaves.input sent hsent
  -- a column is written where it changed, so what is left in it is what was to be written
  have htenant := settled.tenantId _ _ _ _ hvalid hvalid' (htenant.trans htenant₀)
  have hagent := settled.agentId _ _ _ _ hvalid hvalid' (hagent.trans hagent₀)
  have hobo := settled.onBehalfOf _ _ _ _ hvalid hvalid' (hobo.trans hobo₀)
  have hcadence := settled.cadence _ _ _ _ hvalid hvalid' hcadence
  rw [store.updatedRow_eq]
  constructor
  · simp only [ScheduleRow.identity, ScheduleRow.flushed, ScheduleStore.apply, column_self, htenant, hagent, hobo, hcadence,
      hinput]
  · show ScheduleRow.column Json.pyEq row.input valid'.input row.input = row.input
    rw [hinput, ScheduleRow.column, Json.pyEq_refl, if_pos rfl]

/-! ## What an operation leaves -/

/-- An upsert finds the schedule of its identity, or makes one. -/
theorem ScheduleStore.upsert_cases {schedules schedules' : Table ScheduleRow.scheduleId} {createdBy scheduleId : String}
    {created : Bool} (h : store.upsert schedules spec createdBy scheduleId now = .ok (schedules', row, created)) :
    ∃ checked, store.checked (some spec) = .ok checked ∧ (store.createdRow checked createdBy scheduleId now).fits = true ∧
      ((created = false ∧ schedules' = schedules ∧ row ∈ schedules.rows ∧
          row.identity = (store.createdRow checked createdBy scheduleId now).identity) ∨
        (created = true ∧ row = store.createdRow checked createdBy scheduleId now ∧ schedules.find? scheduleId = none ∧
          schedules' = schedules.insert row ∧ ∀ other ∈ schedules.rows, other.identity ≠ row.identity)) := by
  obtain ⟨checked, hchecked, h⟩ := bind_ok.1 h
  obtain ⟨_, hfits, h⟩ := bind_ok.1 h
  refine ⟨checked, hchecked, by simpa using refuse_ok.1 hfits, ?_⟩
  split at h
  · next existing hexisting =>
    cases h
    exact .inl ⟨rfl, rfl, List.mem_of_find?_eq_some hexisting, by simpa using List.find?_some hexisting⟩
  · next hnone =>
    obtain ⟨_, hfree, h⟩ := bind_ok.1 h
    cases h
    refine .inr ⟨rfl, rfl, Option.not_isSome_iff_eq_none.1 (refuse_ok.1 hfree), rfl, fun other hother => ?_⟩
    simpa using List.find?_eq_none.1 hnone other hother

namespace Scheduler

variable {s s' : Scheduler} {op : ScheduleOp} {fired : Fired}

/-- A fire writes back one schedule, with the identity and the input it had, or none. -/
theorem perform_fires (hop : op.runId.isSome = true) (h : s.perform store now op = .ok (s', fired)) :
    s'.schedules = s.schedules ∨ ∃ row row', s.schedules.find? row.scheduleId = some row ∧ s'.schedules = s.schedules.put row' ∧
      row'.scheduleId = row.scheduleId ∧ row'.identity = row.identity ∧ row'.input = row.input := by
  cases hresult : fired.result? with
  | none =>
    refine (perform_unfired h hop hresult).imp_right ?_
    rintro ⟨row, error, hrow, hs⟩
    refine ⟨row, _, hrow, hs, ?_⟩
    unfold ScheduleStore.failureRow
    dsimp only
    split <;> exact ⟨rfl, rfl, rfl⟩
  | some result =>
    cases fired with
    | failed | idle => cases hresult
    | fired result' =>
      obtain ⟨row, runId, fault, hrow, -, h⟩ := perform_fired h
      generalize op.at_.getD _ = fireTime at h
      obtain ⟨_, he, -⟩ | ⟨db, run, created, -, rfl, he⟩ := fireRow_ok h
      · cases he
      · cases he
        exact .inr ⟨row, _, hrow, rfl, rfl, rfl, rfl⟩

/-- What an update that is taken writes. -/
theorem perform_update {tenantId scheduleId : String}
    (h : s.perform store now (.update tenantId scheduleId change) = .ok (s', fired)) :
    ∃ row spec, ScheduleStore.row s.schedules tenantId scheduleId = .ok row ∧ store.checked (row.merged change) = .ok spec ∧
      s'.schedules = s.schedules.put (ScheduleRow.flushed row (store.updatedRow row spec now) row) ∧
      ∀ other ∈ s.schedules.rows, other.scheduleId ≠ row.scheduleId →
        other.identity ≠ (ScheduleRow.flushed row (store.updatedRow row spec now) row).identity := by
  obtain ⟨_, hu, h⟩ := bind_ok.1 h
  cases h
  obtain ⟨row, hrow, hu⟩ := bind_ok.1 hu
  obtain ⟨hfound, -⟩ := ScheduleStore.row_ok.1 hrow
  obtain ⟨spec, hspec, hu⟩ := bind_ok.1 hu
  rw [Table.key_of_find? hfound, hfound] at hu
  obtain ⟨_, -, hu⟩ := bind_ok.1 hu
  obtain ⟨_, hfree, hu⟩ := bind_ok.1 hu
  cases hu
  refine ⟨row, spec, hrow, hspec, rfl, fun other hother hne he => ?_⟩
  refine refuse_ok.1 hfree (List.any_eq_true.2 ⟨other, hother, ?_⟩)
  rw [Table.key_of_find? hfound] at hne
  simpa using ⟨hne, he⟩

/-- **The identities of schedules are unique.** -/
theorem unique_perform (hu : s.schedules.Unique ScheduleRow.identity) (h : s.perform store now op = .ok (s', fired)) :
    s'.schedules.Unique ScheduleRow.identity := by
  cases op with
  | upsert spec createdBy scheduleId =>
    obtain ⟨⟨schedules, row, created⟩, hupsert, h⟩ := bind_ok.1 h
    cases h
    obtain ⟨checked, -, -, ⟨-, rfl, -⟩ | ⟨-, rfl, hnone, rfl, hfree⟩⟩ := ScheduleStore.upsert_cases hupsert
    · exact hu
    · exact hu.insert hfree hnone
  | update tenantId scheduleId change =>
    obtain ⟨row, spec, -, -, hs, hfree⟩ := perform_update h
    rw [hs]
    exact hu.put hfree
  | delete tenantId scheduleId =>
    obtain ⟨_, hd, h⟩ := bind_ok.1 h
    cases h
    obtain ⟨row, -, hd⟩ := bind_ok.1 hd
    cases hd
    exact hu.erase _
  | fire | fireDue =>
    obtain hs | ⟨row, row', hrow, hs, hid, hidentity, -⟩ := perform_fires rfl h
    · exact hs ▸ hu
    · rw [hs]
      exact hu.put_same (Table.mem_of_find? hrow) hid hidentity
  | op op =>
    cases h
    exact hu

/-- The schedule's own row behind a write of one. -/
theorem find?_put_cases {schedules : Table ScheduleRow.scheduleId} {row row₁ written : ScheduleRow} {scheduleId : String}
    (hfound : schedules.find? scheduleId = some row) (hrow : schedules.find? row₁.scheduleId = some row₁)
    (hid : written.scheduleId = row₁.scheduleId) :
    ((schedules.put written).find? scheduleId = some row ∧ row₁.scheduleId ≠ scheduleId) ∨
      ((schedules.put written).find? scheduleId = some written ∧ row₁ = row) := by
  by_cases hk : row₁.scheduleId = scheduleId
  · rw [hk, hfound] at hrow
    exact .inr ⟨Table.find?_put_self (hid.trans hk) hfound, (Option.some.inj hrow).symm⟩
  · rw [Table.find?_put_of_ne (by rw [hid]; exact hk)]
    exact .inl ⟨hfound, hk⟩

theorem stands_perform {scheduleId : String} {input : Json} {digest : String} (settled : store.Settled)
    (hchecked : store.checked (some spec) = .ok checked) (hfound : s.schedules.find? scheduleId = some row)
    (hs : row.Stands checked input digest) (leaves : Leaves scheduleId s now op) (h : s.perform store now op = .ok (s', fired)) :
    ∃ row', s'.schedules.find? scheduleId = some row' ∧ row'.Stands checked input
      (if op.updates scheduleId then store.inputSha256 input else digest) := by
  cases op with
  | upsert spec' createdBy id =>
    rw [if_neg (by simp [ScheduleOp.updates])]
    obtain ⟨⟨schedules, row', created⟩, hupsert, h⟩ := bind_ok.1 h
    cases h
    obtain ⟨checked', -, -, ⟨-, rfl, -⟩ | ⟨-, rfl, hnone, rfl, -⟩⟩ := ScheduleStore.upsert_cases hupsert
    · exact ⟨row, hfound, hs⟩
    · refine ⟨row, ?_, hs⟩
      rw [Table.find?_insert_of_ne, hfound]
      intro hid
      have hid : id = scheduleId := hid
      rw [hid, hfound] at hnone
      cases hnone
  | update tenantId id change =>
    obtain ⟨row₁, spec', hrow₁, hspec, hschedules, -⟩ := perform_update h
    obtain ⟨hfound₁, -⟩ := ScheduleStore.row_ok.1 hrow₁
    have hid := Table.key_of_find? hfound₁
    have hwritten : (ScheduleRow.flushed row₁ (store.updatedRow row₁ spec' now) row₁).scheduleId = row₁.scheduleId := rfl
    rw [hschedules]
    rcases find?_put_cases hfound (by rw [hid, hfound₁]) hwritten with ⟨hafter, hne⟩ | ⟨hafter, hsame⟩
    · rw [if_neg (by simpa [ScheduleOp.updates, hid] using hne)]
      exact ⟨row, hafter, hs⟩
    · have hid : id = scheduleId := by rw [← hid, hsame, Table.key_of_find? hfound]
      rw [if_pos (by simpa [ScheduleOp.updates] using hid)]
      exact ⟨_, hafter, (hsame ▸ hs).updated settled hchecked (leaves hid _ hrow₁) hspec⟩
  | delete tenantId id =>
    rw [if_neg (by simp [ScheduleOp.updates])]
    obtain ⟨_, hd, h⟩ := bind_ok.1 h
    cases h
    obtain ⟨row₁, hrow₁, hd⟩ := bind_ok.1 hd
    cases hd
    obtain ⟨hfound₁, -⟩ := ScheduleStore.row_ok.1 hrow₁
    have hid := Table.key_of_find? hfound₁
    refine ⟨row, ?_, hs⟩
    rw [hid]
    refine (Table.find?_erase_of_ne _ fun he => ?_).trans hfound
    exact leaves he.symm _ hrow₁
  | fire | fireDue =>
    rw [if_neg (by simp [ScheduleOp.updates])]
    obtain hschedules | ⟨row₁, written, hrow₁, hschedules, hid, hidentity, hinput⟩ := perform_fires rfl h
    · exact ⟨row, hschedules ▸ hfound, hs⟩
    · rw [hschedules]
      rcases find?_put_cases hfound hrow₁ hid with ⟨hafter, -⟩ | ⟨hafter, rfl⟩
      · exact ⟨row, hafter, hs⟩
      · exact ⟨written, hafter, ⟨hidentity.trans hs.identity, hinput.trans hs.input⟩⟩
  | op op =>
    rw [if_neg (by simp [ScheduleOp.updates])]
    cases h
    exact ⟨row, hfound, hs⟩

/-! ## Steps and runs -/

variable {croniter : Croniter} {jsonb : Jsonb}

/-- An operation is taken, or it leaves the state as it was. -/
theorem stepRaising_cases (croniter : Croniter) (store : ScheduleStore) (s : Scheduler) (now : Instant) (op : ScheduleOp) :
    (∃ s' fired, s.raises croniter store now op = false ∧ s.perform store now op = .ok (s', fired) ∧
        stepRaising croniter store s now op = s') ∨
      ((s.raises croniter store now op = true ∨ (s.perform store now op).toOption = none) ∧
        stepRaising croniter store s now op = s) := by
  unfold stepRaising
  by_cases hraises : s.raises croniter store now op = true
  · exact .inr ⟨.inl hraises, if_pos hraises⟩
  · rw [if_neg hraises]
    unfold step
    cases hp : perform store s now op with
    | ok p => exact .inl ⟨p.1, p.2, by simpa using hraises, rfl, rfl⟩
    | error e => exact .inr ⟨.inr rfl, rfl⟩

theorem unique_step (hu : s.schedules.Unique ScheduleRow.identity) :
    (stepStored croniter store jsonb s now op).schedules.Unique ScheduleRow.identity := by
  refine unique_readBack jsonb ?_
  obtain ⟨s', fired, -, hp, he⟩ | ⟨-, he⟩ := stepRaising_cases croniter store s now op
  · rw [he]
    exact unique_perform hu hp
  · rw [he]
    exact hu

theorem unique_after (ops : List (Instant × ScheduleOp)) : ∀ {s : Scheduler}, s.schedules.Unique ScheduleRow.identity →
    (Run.after (stepStored croniter store jsonb) s ops).schedules.Unique ScheduleRow.identity := by
  induction ops with
  | nil => intro s hu; exact hu
  | cons x ops ih => intro s hu; exact ih (unique_step hu)

/-- **One step.**  A schedule that is left its agent, cadence and input stands under its identity, but that an update takes
the digest again of the input as it is. -/
theorem stands_step {scheduleId : String} {input : Json} {digest : String} (settled : store.Settled)
    (hread : jsonb.read input = input) (hchecked : store.checked (some spec) = .ok checked)
    (hfound : s.schedules.find? scheduleId = some row) (hs : row.Stands checked input digest) (leaves : Leaves scheduleId s now op) :
    ∃ row', (stepStored croniter store jsonb s now op).schedules.find? scheduleId = some row' ∧ row'.Stands checked input
      (if s.updates croniter store scheduleId now op then store.inputSha256 input else digest) := by
  have hback : ∀ {s' : Scheduler} {row' : ScheduleRow} {digest' : String}, stepRaising croniter store s now op = s' →
      s'.schedules.find? scheduleId = some row' → row'.Stands checked input digest' →
      ∃ row', (stepStored croniter store jsonb s now op).schedules.find? scheduleId = some row' ∧
        row'.Stands checked input digest' := by
    intro s' row' digest' he hfound' hs'
    refine ⟨row'.readBack jsonb, ?_, hs'.identity, ?_⟩
    · rw [stepStored, find?_readBack, he, hfound', Option.map_some]
    · show jsonb.read row'.input = input
      rw [hs'.input, hread]
  obtain ⟨s', fired, hraises, hp, he⟩ | ⟨hnot, he⟩ := stepRaising_cases croniter store s now op
  · obtain ⟨row', hfound', hs'⟩ := stands_perform settled hchecked hfound hs leaves hp
    have hupdates : s.updates croniter store scheduleId now op = op.updates scheduleId := by
      simp [updates, hraises, hp, Except.toOption]
    rw [hupdates]
    exact hback he hfound' hs'
  · have hupdates : s.updates croniter store scheduleId now op = false := by
      rcases hnot with hnot | hnot <;> simp [updates, hnot]
    rw [hupdates]
    exact hback he hfound hs

/-- **A run.**  So it is until its first update, and behind it. -/
theorem stands_after {scheduleId : String} {input : Json} (settled : store.Settled) (hread : jsonb.read input = input)
    (hchecked : store.checked (some spec) = .ok checked) (ops : List (Instant × ScheduleOp)) :
    ∀ {s : Scheduler} {row : ScheduleRow} {digest : String}, s.schedules.find? scheduleId = some row →
      row.Stands checked input digest → Run.Each (stepStored croniter store jsonb) (Leaves scheduleId) s ops →
      ∃ row', (Run.after (stepStored croniter store jsonb) s ops).schedules.find? scheduleId = some row' ∧
        row'.Stands checked input
          (if Run.Each (stepStored croniter store jsonb) (fun s now op => s.updates croniter store scheduleId now op = false) s ops
            then digest else store.inputSha256 input) := by
  induction ops with
  | nil =>
    intro s row digest hfound hs _
    refine ⟨row, hfound, ?_⟩
    rw [if_pos (show Run.Each _ _ s [] from trivial)]
    exact hs
  | cons x ops ih =>
    intro s row digest hfound hs leaves
    obtain ⟨row₁, hfound₁, hs₁⟩ := stands_step settled hread hchecked hfound hs leaves.1
    obtain ⟨row', hfound', hs'⟩ := ih hfound₁ hs₁ leaves.2
    refine ⟨row', hfound', ?_⟩
    by_cases hupdates : s.updates croniter store scheduleId x.1 x.2 = true
    · rw [if_pos hupdates, ite_self] at hs'
      rw [if_neg fun h => absurd h.1 (by simp [hupdates])]
      exact hs'
    · rw [if_neg hupdates] at hs'
      by_cases hrest : Run.Each (stepStored croniter store jsonb)
          (fun s now op => s.updates croniter store scheduleId now op = false) (stepStored croniter store jsonb s x.1 x.2) ops
      · rw [if_pos hrest] at hs'
        rw [if_pos ⟨by simpa using hupdates, hrest⟩]
        exact hs'
      · rw [if_neg hrest] at hs'
        rw [if_neg fun h => hrest h.2]
        exact hs'

end Scheduler

/-! ## An upsert of the same spec -/

/-- Does croniter have a next instant for it? -/
def FiresAgain (croniter : Croniter) (store : ScheduleStore) (spec : ScheduleSpec) (now : Instant) : Prop :=
  ∃ checked next, store.checked (some spec) = .ok checked ∧ croniter.nextFireAt checked.cadence now checked.timezone = .ok next

namespace Scheduler

/-- An upsert makes the schedule. -/
def Makes (croniter : Croniter) (store : ScheduleStore) (s : Scheduler) (now : Instant) (spec : ScheduleSpec)
    (createdBy scheduleId : String) : Prop :=
  s.raises croniter store now (.upsert spec createdBy scheduleId) = false ∧
    ∃ schedules row, store.upsert s.schedules spec createdBy scheduleId now = .ok (schedules, row, true)

/-- An upsert finds the schedule, and makes none. -/
def Finds (croniter : Croniter) (store : ScheduleStore) (s : Scheduler) (now : Instant) (spec : ScheduleSpec)
    (createdBy newId scheduleId : String) : Prop :=
  s.raises croniter store now (.upsert spec createdBy newId) = false ∧
    ∃ found, store.upsert s.schedules spec createdBy newId now = .ok (s.schedules, found, false) ∧ found.scheduleId = scheduleId

variable {croniter : Croniter} {jsonb : Jsonb} {s : Scheduler}

/-- The schedule that an upsert makes. -/
theorem Makes.stands (jsonb : Jsonb) (settled : store.Settled) {createdBy scheduleId : String}
    (h : s.Makes croniter store now spec createdBy scheduleId) : ∃ checked row, store.checked (some spec) = .ok checked ∧
      (store.createdRow checked createdBy scheduleId now).fits = true ∧
      (stepStored croniter store jsonb s now (.upsert spec createdBy scheduleId)).schedules.find? scheduleId = some row ∧
      row.Stands checked (jsonb.read spec.input) (store.inputSha256 spec.input) := by
  obtain ⟨hraises, schedules, row, hupsert⟩ := h
  obtain ⟨checked, hchecked, hfits, ⟨hc, -⟩ | ⟨-, rfl, hnone, rfl, -⟩⟩ := ScheduleStore.upsert_cases hupsert
  · cases hc
  have hinput := checked_input settled hchecked
  have hstep : stepRaising croniter store s now (.upsert spec createdBy scheduleId) =
      { s with schedules := s.schedules.insert (store.createdRow checked createdBy scheduleId now) } := by
    unfold stepRaising step perform scheduling
    rw [if_neg (by simp [hraises])]
    dsimp only
    rw [hupsert]
    rfl
  refine ⟨checked, (store.createdRow checked createdBy scheduleId now).readBack jsonb, hchecked, hfits, ?_, ?_, ?_⟩
  · have hself : (store.createdRow checked createdBy scheduleId now).scheduleId = scheduleId := rfl
    rw [stepStored, find?_readBack, hstep, Table.find?_insert hnone, if_pos hself, Option.map_some]
  · rw [← hinput]
    rfl
  · rw [← hinput]
    rfl

theorem Makes.not_finds {createdBy newId scheduleId : String} (h : s.Makes croniter store now spec createdBy newId) :
    ¬s.Finds croniter store now spec createdBy newId scheduleId := by
  rintro ⟨-, found, hfound, -⟩
  obtain ⟨-, schedules, row, hmade⟩ := h
  rw [hfound] at hmade
  cases hmade

/-- Who makes it, and when, does not count. -/
theorem createdRow_fits {createdBy scheduleId createdBy' newId : String} {now' : Instant}
    (h : (store.createdRow checked createdBy scheduleId now).fits = true) (hby : fitsVarchar 128 createdBy' = true)
    (hid : fitsVarchar 64 newId = true) : (store.createdRow checked createdBy' newId now').fits = true := by
  simp only [ScheduleRow.fits, ScheduleStore.createdRow, ScheduleStore.arm, Bool.and_eq_true, fitsVarchar?] at h ⊢
  tauto

/-- Where it stands, an upsert finds it exactly if croniter answers and its digest is the input's. -/
theorem finds_iff (hagrees : croniter.Agrees store.calendar) (hu : s.schedules.Unique ScheduleRow.identity)
    {made : Instant} {createdBy scheduleId createdBy' newId : String} {input : Json} {digest : String}
    (hchecked : store.checked (some spec) = .ok checked)
    (hraises : store.raises croniter (some spec) (fun spec => [⟨spec.cadence, made, spec.timezone⟩]) = false)
    (hfits : (store.createdRow checked createdBy scheduleId made).fits = true) (hby : fitsVarchar 128 createdBy' = true)
    (hid : fitsVarchar 64 newId = true) (hfound : s.schedules.find? scheduleId = some row) (hs : row.Stands checked input digest) :
    s.Finds croniter store now spec createdBy' newId scheduleId ↔
      FiresAgain croniter store spec now ∧ digest = store.inputSha256 checked.input := by
  have hasked : s.raises croniter store now (.upsert spec createdBy' newId) = false ↔ FiresAgain croniter store spec now := by
    have hcall := ScheduleStore.raises_eq hagrees hraises hchecked fun spec => [⟨spec.cadence, now, spec.timezone⟩]
    show store.raises croniter (some spec) (fun spec => [⟨spec.cadence, now, spec.timezone⟩]) = false ↔ _
    rw [hcall]
    constructor
    · intro h
      obtain ⟨next, hnext⟩ := NextFire.of_not_raises (List.any_eq_false.1 h _ List.mem_cons_self |> Bool.eq_false_iff.2)
      exact ⟨checked, next, hchecked, hnext⟩
    · rintro ⟨checked', next, hchecked', hnext⟩
      rw [hchecked] at hchecked'
      cases hchecked'
      simp [NextFire.raises, hnext, Except.toOption]
  have hrow := Table.mem_of_find? hfound
  constructor
  · rintro ⟨hanswers, found, hupsert, hsame⟩
    refine ⟨hasked.1 hanswers, ?_⟩
    obtain ⟨checked', hchecked', -, ⟨-, -, hfound', hidentity⟩ | ⟨hc, -⟩⟩ := ScheduleStore.upsert_cases hupsert
    · rw [hchecked] at hchecked'
      cases hchecked'
      have he : found = row := by
        rw [← hsame, Table.find?_of_mem hfound'] at hfound
        exact Option.some.inj hfound
      rw [he, hs.identity] at hidentity
      exact congrArg (fun identity => identity.2.2.2.2) hidentity
    · cases hc
  · rintro ⟨hanswers, rfl⟩
    refine ⟨hasked.2 hanswers, row, ?_, Table.key_of_find? hfound⟩
    have hidentity : row.identity = (store.createdRow checked createdBy' newId now).identity := hs.identity
    have hwritable : refuse ((store.createdRow checked createdBy' newId now).fits = false)
        (.internal "the database refused a value") = (.ok () : Except ServiceError Unit) :=
      refuse_of_not _ (by simp [createdRow_fits hfits hby hid])
    unfold ScheduleStore.upsert
    rw [hchecked, ok_bind]
    dsimp only
    rw [hwritable, ok_bind]
    cases hf : s.schedules.rows.find? fun existing => existing.identity = (store.createdRow checked createdBy' newId now).identity with
    | none => exact absurd hidentity (by simpa using List.find?_eq_none.1 hf row hrow)
    | some existing =>
      have hexisting : existing.identity = (store.createdRow checked createdBy' newId now).identity := by
        simpa using List.find?_some hf
      rw [hu existing (List.mem_of_find?_eq_some hf) row hrow (hexisting.trans hidentity.symm)]

end Scheduler

end

/-- A whole number written out: "1.5e+16" is 15000000000000000. -/
def writtenOut (text : String) : String :=
  let mantissa := text.toList.takeWhile (· != 'e')
  let exponent := ((text.toList.dropWhile (· != '+')).filter Char.isDigit).foldl (fun n c => 10 * n + (c.toNat - 48)) 0
  let places := ((mantissa.dropWhile (· != '.')).filter Char.isDigit).length
  String.ofList (mantissa.filter (fun c => c.isDigit || c == '-') ++ List.replicate (exponent - places) '0')

theorem writtenOut_chars (text : String) : ∀ c ∈ (writtenOut text).toList, (c.isDigit || c == '-') = true := by
  intro c hc
  unfold writtenOut at hc
  rw [String.toList_ofList, List.mem_append] at hc
  rcases hc with hc | hc
  · exact (List.mem_filter.1 hc).2
  · rw [(List.mem_replicate.1 hc).2]
    decide

/-- As `numeric` keeps them: no exponent, and no sign of zero. -/
def numericColumn : Jsonb where
  number text := if plainNumber text then text else if text = "-0.0" then "0.0" else writtenOut text
  number_plain text h := if_pos h
  plain_number := by
    intro text
    by_cases h : plainNumber text = true
    · rw [if_pos h]
      exact h
    · rw [if_neg h]
      by_cases hz : text = "-0.0"
      · rw [if_pos hz]
        decide
      · rw [if_neg hz]
        have hchars := writtenOut_chars text
        simp only [plainNumber, Bool.and_eq_true, bne_iff_ne, Bool.not_eq_true', List.contains_eq_mem, decide_eq_false_iff_not]
        refine ⟨fun he => ?_, fun hplus => absurd (hchars '+' hplus) (by decide)⟩
        rw [he] at hchars
        exact absurd (hchars '.' (by decide)) (by decide)
  numeral_number := by
    intro text hnumeral
    by_cases h : plainNumber text = true
    · rw [if_pos h]
      exact hnumeral
    · rw [if_neg h]
      by_cases hz : text = "-0.0"
      · rw [if_pos hz]
        decide
      · rw [if_neg hz]
        refine List.all_eq_true.2 fun c hc => ?_
        have hchar := writtenOut_chars text c hc
        simp only [Bool.or_eq_true] at hchar
        rcases hchar with hchar | hchar <;> simp [Json.numeralChar, hchar]

example : numericColumn.number "-1.5e+16" = "-15000000000000000" := by decide

/-! ## A schedule that is renamed -/

/-- The small deployment, with the digests of the code. -/
def hashedSchedules : ScheduleStore := { raisingSchedules with inputSha256 := Json.inputSha256 }

/-- An hourly schedule with one number in its input. -/
def numbered (value : Rat) (text : String) : ScheduleSpec := { smallSpec with input := .obj [("n", .num value text)] }

def rename (name : String) : ScheduleUpdate where
  agentId := none
  name := some (some name)
  cadence := none
  timezone := none
  input := none
  workspaceId := none
  enabled := none
  timeoutSeconds := none
  agentVersion := none
  priority := none
  concurrencyKey := none
  metadata := none

theorem rename_leaves (name : String) (row : ScheduleRow) : (rename name).Leaves row := by
  constructor <;> intro sent h <;> cases h

theorem hashedSchedules_settled : hashedSchedules.Settled := by
  constructor
  · rintro a b c d ⟨⟩ ⟨⟩ h
    exact h
  · rintro a b c d ⟨⟩ ⟨⟩ h
    exact h
  · rintro a b c d ⟨⟩ ⟨⟩ h
    exact h
  · rintro a b c d ⟨⟩ ⟨⟩ h
    exact h
  · rintro a b ⟨⟩
    rfl

theorem makes_of {croniter : Croniter} {store : ScheduleStore} {s : Scheduler} {now : Instant} {spec : ScheduleSpec}
    {createdBy scheduleId : String} (hraises : s.raises croniter store now (.upsert spec createdBy scheduleId) = false)
    (h : ((store.upsert s.schedules spec createdBy scheduleId now).toOption.any (·.2.2)) = true) :
    s.Makes croniter store now spec createdBy scheduleId := by
  refine ⟨hraises, ?_⟩
  cases hu : store.upsert s.schedules spec createdBy scheduleId now with
  | error e =>
    rw [hu] at h
    cases h
  | ok p =>
    obtain ⟨schedules, row, created⟩ := p
    rw [hu] at h
    cases (show created = true from h)
    exact ⟨schedules, row, rfl⟩

theorem firesAgain_of {croniter : Croniter} {store : ScheduleStore} {spec : ScheduleSpec} {now : Instant}
    (h : ((store.checked (some spec)).toOption.any fun checked =>
      (croniter.nextFireAt checked.cadence now checked.timezone).toOption.isSome) = true) : FiresAgain croniter store spec now := by
  cases hc : store.checked (some spec) with
  | error e =>
    rw [hc] at h
    cases h
  | ok checked =>
    rw [hc] at h
    cases hn : croniter.nextFireAt checked.cadence now checked.timezone with
    | error e =>
      rw [Except.toOption, Option.any_some, hn] at h
      cases h
    | ok next => exact ⟨checked, next, hc, hn⟩

/-- A new schedule of it, renamed. -/
def renamed (spec : ScheduleSpec) : Scheduler :=
  Run.after (Scheduler.stepStored Croniter.ofFebruary hashedSchedules numericColumn)
    (Scheduler.stepStored Croniter.ofFebruary hashedSchedules numericColumn Scheduler.empty 0 (.upsert spec "u" "s"))
    [(100, .update "t" "s" (rename "m"))]

theorem renamed_leaves (s : Scheduler) : Run.Each (Scheduler.stepStored Croniter.ofFebruary hashedSchedules numericColumn)
    (Leaves "s") s [(100, .update "t" "s" (rename "m"))] :=
  ⟨fun _ row _ => rename_leaves "m" row, trivial⟩

end AgentRuns
