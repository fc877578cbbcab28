import AgentRuns.Tenants
import AgentRuns.Patches

/-!
# The schedules of a tenant

A schedule stays its tenant's: nothing of a `ScheduleUpdate` names one, and the contracts leave `tenant_id` as it was sent
(`KeepsTenant`).  The identity that an upsert and an update look for among all schedules has the tenant among its columns.
-/

namespace AgentRuns

open Relational Fallible

/-- `model_validate` leaves the tenant as it was sent. -/
def ScheduleStore.KeepsTenant (store : ScheduleStore) : Prop :=
  ∀ fields spec, store.validate fields = some spec → spec.tenantId = fields.tenantId

namespace Scheduler

/-- The rows of a tenant. -/
def of (s : Scheduler) (tenantId : String) : Scheduler := ⟨s.db.of tenantId, s.schedules.only (·.tenantId = tenantId)⟩

end Scheduler

section
variable {store : ScheduleStore} {schedules schedules' : Table ScheduleRow.scheduleId} {tenantId other scheduleId : String}
  {now : Instant} {row row' : ScheduleRow} {spec : ScheduleSpec} {change : ScheduleUpdate}

/-! ## The store -/

theorem find?_schedules_only (schedules : Table ScheduleRow.scheduleId) (tenantId scheduleId : String) :
    (schedules.only (·.tenantId = tenantId)).find? scheduleId = (schedules.find? scheduleId).filter (·.tenantId = tenantId) :=
  Table.find?_only schedules _ scheduleId

theorem row_of (schedules : Table ScheduleRow.scheduleId) (tenantId scheduleId : String) :
    ScheduleStore.row (schedules.only (·.tenantId = tenantId)) tenantId scheduleId =
      ScheduleStore.row schedules tenantId scheduleId := by
  unfold ScheduleStore.row
  rw [find?_schedules_only, Option.filter_filter]
  simp

theorem checked_tenant (keeps : store.KeepsTenant) {fields : Option ScheduleSpec} (h : store.checked fields = .ok spec) :
    ∃ sent, fields = some sent ∧ spec.tenantId = sent.tenantId := by
  unfold ScheduleStore.checked at h
  split at h
  · cases h
  · next valid hvalid =>
    obtain ⟨sent, rfl, hsent⟩ := Option.bind_eq_some_iff.1 hvalid
    obtain ⟨cadence, -, h⟩ := bind_ok.1 h
    cases h
    exact ⟨sent, rfl, keeps sent valid hsent⟩

theorem merged_tenant {fields : ScheduleSpec} (h : row.merged change = some fields) : fields.tenantId = row.tenantId := by
  unfold ScheduleRow.merged at h
  simp only [Option.bind_eq_bind, Option.bind_eq_some_iff, Option.some.injEq] at h
  obtain ⟨_, -, _, -, _, -, _, -, _, -, _, -, rfl⟩ := h
  rfl

/-- The row an update writes is its tenant's. -/
theorem updated_tenant (keeps : store.KeepsTenant) (h : store.checked (row.merged change) = .ok spec) :
    (ScheduleRow.flushed row (store.updatedRow row spec now) row).tenantId = row.tenantId := by
  obtain ⟨fields, hfields, hspec⟩ := checked_tenant keeps h
  have hwrote : (store.updatedRow row spec now).tenantId = row.tenantId := by
    rw [ScheduleStore.updatedRow_eq]
    exact hspec.trans (merged_tenant hfields)
  show ScheduleRow.column (· == ·) row.tenantId (store.updatedRow row spec now).tenantId row.tenantId = row.tenantId
  unfold ScheduleRow.column
  rw [hwrote, ite_self]

theorem upsert_of (keeps : store.KeepsTenant) {createdBy : String} (hmine : spec.tenantId = tenantId)
    (hfresh : ∀ row, schedules.find? scheduleId = some row → row.tenantId = tenantId) :
    store.upsert (schedules.only (·.tenantId = tenantId)) spec createdBy scheduleId now =
      seen (·.only (·.tenantId = tenantId)) (store.upsert schedules spec createdBy scheduleId now) := by
  unfold ScheduleStore.upsert
  rw [seen_bind]
  cases hc : store.checked (some spec) with
  | error e => rfl
  | ok valid =>
    obtain ⟨sent, hsent, hten⟩ := checked_tenant keeps hc
    cases hsent
    have hcreated : (store.createdRow valid createdBy scheduleId now).tenantId = tenantId := hten.trans hmine
    have hfind : (schedules.only (·.tenantId = tenantId)).rows.find? (fun existing => existing.identity =
        (store.createdRow valid createdBy scheduleId now).identity) =
          schedules.rows.find? fun existing => existing.identity = (store.createdRow valid createdBy scheduleId now).identity := by
      refine Table.rows_find?_only fun existing _ hsame => ?_
      rw [decide_eq_true_iff] at hsame ⊢
      exact (congrArg Prod.fst hsame).trans hcreated
    have hkey : (schedules.only (·.tenantId = tenantId)).find? scheduleId = schedules.find? scheduleId := by
      rw [find?_schedules_only]
      cases hrow : schedules.find? scheduleId with
      | none => rfl
      | some row => exact Option.filter_some_pos (decide_eq_true (hfresh row hrow))
    have hinsert : (schedules.insert (store.createdRow valid createdBy scheduleId now)).only (·.tenantId = tenantId) =
        (schedules.only (·.tenantId = tenantId)).insert (store.createdRow valid createdBy scheduleId now) :=
      Table.only_insert (decide_eq_true hcreated) fun row hrow => decide_eq_true (hfresh row hrow)
    rw [ok_bind, ok_bind]
    dsimp only
    rw [seen_bind]
    refine bind_congr fun _ => ?_
    rw [hfind, hkey]
    split
    · rfl
    · rw [seen_bind]
      refine bind_congr fun _ => ?_
      rw [seen_ok, hinsert]

theorem update_of (keeps : store.KeepsTenant) :
    store.update (schedules.only (·.tenantId = tenantId)) tenantId scheduleId change now =
      (store.update schedules tenantId scheduleId change now).map (·.only (·.tenantId = tenantId)) := by
  unfold ScheduleStore.update
  rw [row_of]
  cases hrow : ScheduleStore.row schedules tenantId scheduleId with
  | error e => rfl
  | ok row =>
    obtain ⟨hfind, hmine⟩ := ScheduleStore.row_ok.1 hrow
    have hkey : row.scheduleId = scheduleId := Table.key_of_find? hfind
    rw [ok_bind, ok_bind]
    unfold ScheduleStore.commitUpdate
    cases hc : store.checked (row.merged change) with
    | error e => rfl
    | ok spec =>
      have hfind' : (schedules.only (·.tenantId = tenantId)).find? scheduleId = some row := by
        rw [find?_schedules_only, hfind]
        exact Option.filter_some_pos (decide_eq_true hmine)
      rw [ok_bind, ok_bind, hkey, hfind, hfind']
      dsimp only
      have hten : (ScheduleRow.flushed row (store.updatedRow row spec now) row).tenantId = row.tenantId := updated_tenant keeps hc
      have hany : (schedules.only (·.tenantId = tenantId)).rows.any (fun other => other.scheduleId ≠ scheduleId ∧
          other.identity = (ScheduleRow.flushed row (store.updatedRow row spec now) row).identity) =
            schedules.rows.any fun other => other.scheduleId ≠ scheduleId ∧
              other.identity = (ScheduleRow.flushed row (store.updatedRow row spec now) row).identity := by
        show (schedules.rows.filter _).any _ = _
        rw [List.any_filter]
        congr 1
        funext other
        rw [Bool.and_eq_right_iff_imp, decide_eq_true_iff, decide_eq_true_iff]
        intro h
        exact (congrArg Prod.fst h.2).trans (hten.trans hmine)
      have hput : (schedules.put (ScheduleRow.flushed row (store.updatedRow row spec now) row)).only (·.tenantId = tenantId) =
          (schedules.only (·.tenantId = tenantId)).put (ScheduleRow.flushed row (store.updatedRow row spec now) row) := by
        refine Table.only_put fun b hb => ?_
        rw [show (ScheduleRow.flushed row (store.updatedRow row spec now) row).scheduleId = scheduleId from hkey, hfind] at hb
        rw [← Option.some.inj hb, hten]
      rw [hany]
      unfold refuse
      split
      · rfl
      · rw [ok_bind, ok_bind]
        split
        · rfl
        · rw [ok_bind, ok_bind, ← hput]
          rfl

theorem schedule_delete_of : ScheduleStore.delete (schedules.only (·.tenantId = tenantId)) tenantId scheduleId =
    (ScheduleStore.delete schedules tenantId scheduleId).map (·.only (·.tenantId = tenantId)) := by
  unfold ScheduleStore.delete
  rw [row_of]
  cases hrow : ScheduleStore.row schedules tenantId scheduleId with
  | error e => rfl
  | ok row =>
    exact congrArg Except.ok Table.only_erase.symm

/-! ## A fire -/

theorem failureRow_same (row : ScheduleRow) (error : AgentError) (now : Instant) :
    (ScheduleStore.failureRow row error now).scheduleId = row.scheduleId ∧
      (ScheduleStore.failureRow row error now).tenantId = row.tenantId := by
  unfold ScheduleStore.failureRow
  dsimp only
  split <;> exact ⟨rfl, rfl⟩

namespace Scheduler

variable {s s' : Scheduler} {fireTime : AwareDatetime} {at_ : Option AwareDatetime} {runId : String} {fault : Option AgentError}
  {fired : Fired} {error : AgentError}

theorem put_of (hfind : s.schedules.find? row'.scheduleId = some row) (hten : row'.tenantId = row.tenantId) :
    (s.of tenantId).put row' = (s.put row').map (·.of tenantId) := by
  have hput : (s.schedules.put row').only (·.tenantId = tenantId) = (s.of tenantId).schedules.put row' := by
    refine Table.only_put fun b hb => ?_
    rw [hfind] at hb
    rw [← Option.some.inj hb, hten]
  unfold put refuse
  split
  · rfl
  · show Except.ok (Scheduler.mk (s.db.of tenantId) _) = Except.ok (Scheduler.mk (s.db.of tenantId) _)
    rw [hput]

theorem recordFailure_of (hfind : s.schedules.find? row.scheduleId = some row) :
    (s.of tenantId).recordFailure row error now = seen (·.of tenantId) (s.recordFailure row error now) := by
  obtain ⟨hkey, hten⟩ := failureRow_same row error now
  unfold recordFailure
  rw [put_of (hkey.symm ▸ hfind) hten]
  cases s.put (ScheduleStore.failureRow row error now) <;> rfl

/-- The run of a fire is the schedule's tenant's. -/
theorem fireRow_of (hfind : s.schedules.find? row.scheduleId = some row) (hmine : row.tenantId = tenantId)
    (hfree : s.db.alien tenantId runId = false) : (s.of tenantId).fireRow store row fireTime runId fault now =
      seen (·.of tenantId) (s.fireRow store row fireTime runId fault now) := by
  unfold fireRow
  cases fault with
  | some error => exact recordFailure_of hfind
  | none =>
    have hstarts : (s.of tenantId).db.start (fireStart store.calendar row fireTime runId) true false now =
        seen (·.of tenantId) (s.db.start (fireStart store.calendar row fireTime runId) true false now) :=
      Database.start_of hmine hfree
    dsimp only
    rw [hstarts]
    cases hstart : s.db.start (fireStart store.calendar row fireTime runId) true false now with
    | error error =>
      rw [seen_error]
      dsimp only
      split
      · exact recordFailure_of hfind
      · rfl
    | ok started =>
      obtain ⟨db, run, created⟩ := started
      rw [seen_ok]
      dsimp only
      have hput : Scheduler.put ⟨db.of tenantId, (s.of tenantId).schedules⟩ (store.successRow row fireTime.at_ run.runId now) =
          (Scheduler.put ⟨db, s.schedules⟩ (store.successRow row fireTime.at_ run.runId now)).map (·.of tenantId) :=
        @put_of tenantId row (store.successRow row fireTime.at_ run.runId now) ⟨db, s.schedules⟩ hfind rfl
      rw [hput]
      cases Scheduler.put ⟨db, s.schedules⟩ (store.successRow row fireTime.at_ run.runId now) <;> rfl

theorem fire_of (hfree : s.db.alien tenantId runId = false) : (s.of tenantId).fire store tenantId scheduleId at_ runId fault now =
    seen (·.of tenantId) (s.fire store tenantId scheduleId at_ runId fault now) := by
  unfold fire
  rw [show (s.of tenantId).schedules = s.schedules.only (·.tenantId = tenantId) from rfl, row_of, seen_bind]
  cases hrow : ScheduleStore.row s.schedules tenantId scheduleId with
  | error e => rfl
  | ok row =>
    obtain ⟨hfind, hmine⟩ := ScheduleStore.row_ok.1 hrow
    rw [ok_bind, ok_bind]
    simp only [seen_bind]
    refine bind_congr fun _ => bind_congr fun _ => ?_
    exact fireRow_of (by rw [Table.key_of_find? hfind, hfind]) hmine hfree

end Scheduler

/-! ## The other tenants -/

theorem upsert_others (keeps : store.KeepsTenant) {createdBy : String} {created : Bool} (hmine : spec.tenantId = tenantId)
    (h : store.upsert schedules spec createdBy scheduleId now = .ok (schedules', row, created)) (hne : other ≠ tenantId) :
    schedules'.only (·.tenantId = other) = schedules.only (·.tenantId = other) := by
  unfold ScheduleStore.upsert at h
  obtain ⟨valid, hc, h⟩ := bind_ok.1 h
  obtain ⟨sent, hsent, hten⟩ := checked_tenant keeps hc
  cases hsent
  obtain ⟨_, -, h⟩ := bind_ok.1 h
  split at h
  · cases h
    rfl
  · obtain ⟨_, -, h⟩ := bind_ok.1 h
    cases h
    refine Table.only_insert_other (decide_eq_false ?_)
    rw [show (store.createdRow valid createdBy scheduleId now).tenantId = valid.tenantId from rfl, hten, hmine]
    exact hne.symm

/-- A row of the tenant's, written over. -/
theorem schedule_put_others (hfind : schedules.find? row'.scheduleId = some row) (hmine : row.tenantId = tenantId)
    (hten : row'.tenantId = row.tenantId) (hne : other ≠ tenantId) :
    (schedules.put row').only (·.tenantId = other) = schedules.only (·.tenantId = other) := by
  refine Table.only_put_other (decide_eq_false ?_) fun b hb => decide_eq_false ?_
  · rw [hten, hmine]
    exact hne.symm
  · rw [hfind] at hb
    rw [← Option.some.inj hb, hmine]
    exact hne.symm

theorem update_others (keeps : store.KeepsTenant) (h : store.update schedules tenantId scheduleId change now = .ok schedules')
    (hne : other ≠ tenantId) : schedules'.only (·.tenantId = other) = schedules.only (·.tenantId = other) := by
  unfold ScheduleStore.update at h
  obtain ⟨row, hrow, h⟩ := bind_ok.1 h
  obtain ⟨hfind, hmine⟩ := ScheduleStore.row_ok.1 hrow
  have hkey : row.scheduleId = scheduleId := Table.key_of_find? hfind
  unfold ScheduleStore.commitUpdate at h
  obtain ⟨spec, hc, h⟩ := bind_ok.1 h
  rw [hkey, hfind] at h
  dsimp only at h
  obtain ⟨_, -, h⟩ := bind_ok.1 h
  obtain ⟨_, -, h⟩ := bind_ok.1 h
  cases h
  refine schedule_put_others ?_ hmine (updated_tenant keeps hc) hne
  rw [show (ScheduleRow.flushed row (store.updatedRow row spec now) row).scheduleId = scheduleId from hkey, hfind]

theorem schedule_delete_others (h : ScheduleStore.delete schedules tenantId scheduleId = .ok schedules') (hne : other ≠ tenantId) :
    schedules'.only (·.tenantId = other) = schedules.only (·.tenantId = other) := by
  unfold ScheduleStore.delete at h
  obtain ⟨row, hrow, h⟩ := bind_ok.1 h
  obtain ⟨hfind, hmine⟩ := ScheduleStore.row_ok.1 hrow
  cases h
  refine Table.only_erase_other fun b hb hsame => decide_eq_false ?_
  have hb' := Table.find?_of_mem hb
  rw [of_decide_eq_true hsame, Table.key_of_find? hfind, hfind] at hb'
  rw [← Option.some.inj hb', hmine]
  exact hne.symm

namespace Scheduler

variable {s s' : Scheduler} {fireTime : AwareDatetime} {at_ : Option AwareDatetime} {runId : String} {fault : Option AgentError}
  {fired : Fired} {lib : Libraries}

/-- A fire starts a run of the schedule's, or none. -/
theorem fireRow_db (h : s.fireRow store row fireTime runId fault now = .ok (s', fired)) : s'.db = s.db ∨
    ∃ run created, s.db.start (fireStart store.calendar row fireTime runId) true false now = .ok (s'.db, run, created) := by
  obtain ⟨error, -, rfl⟩ | ⟨db, run, created, hstart, rfl, -⟩ := fireRow_ok h
  · exact Or.inl rfl
  · exact Or.inr ⟨run, created, hstart⟩

theorem perform_start {db db' : Database} {start : RunStart} {queue strict created : Bool} {run : RunRecord}
    (h : db.start start queue strict now = .ok (db', run, created)) :
    AgentRuns.perform store.runs (.start start queue strict) now db = .ok (db', .run run created) :=
  answering_ok.2 ⟨(run, created), h, rfl⟩

theorem fireRow_tenanted (ht : s.db.Tenanted store.runs.lib) (h : s.fireRow store row fireTime runId fault now = .ok (s', fired)) :
    s'.db.Tenanted store.runs.lib := by
  obtain hsame | ⟨run, created, hstart⟩ := fireRow_db h
  · rw [hsame]
    exact ht
  · have happly := ht.apply now (.start (fireStart store.calendar row fireTime runId) true false)
    unfold AgentRuns.apply at happly
    rw [perform_start hstart] at happly
    exact happly

theorem fireRow_others (ht : s.db.Tenanted store.runs.lib) (hfind : s.schedules.find? row.scheduleId = some row)
    (hmine : row.tenantId = tenantId) (h : s.fireRow store row fireTime runId fault now = .ok (s', fired))
    (hne : other ≠ tenantId) : s'.of other = s.of other := by
  have hdb : s'.db.of other = s.db.of other := by
    obtain hsame | ⟨run, created, hstart⟩ := fireRow_db h
    · rw [hsame]
    · exact perform_others ht (show Op.By tenantId (.start (fireStart store.calendar row fireTime runId) true false) from hmine)
        (perform_start hstart) hne
  have hschedules : s'.schedules.only (·.tenantId = other) = s.schedules.only (·.tenantId = other) := by
    obtain ⟨error, -, rfl⟩ | ⟨db, run, created, -, rfl, -⟩ := fireRow_ok h
    · obtain ⟨hkey, hten⟩ := failureRow_same row error now
      exact schedule_put_others (hkey.symm ▸ hfind) hmine hten hne
    · have hfound : s.schedules.find? (store.successRow row fireTime.at_ run.runId now).scheduleId = some row := hfind
      exact schedule_put_others hfound hmine rfl hne
  unfold of
  rw [hdb, hschedules]

theorem fire_others (ht : s.db.Tenanted store.runs.lib)
    (h : s.fire store tenantId scheduleId at_ runId fault now = .ok (s', fired)) (hne : other ≠ tenantId) :
    s'.of other = s.of other := by
  unfold fire at h
  obtain ⟨row, hrow, h⟩ := bind_ok.1 h
  obtain ⟨_, -, h⟩ := bind_ok.1 h
  obtain ⟨_, -, h⟩ := bind_ok.1 h
  obtain ⟨hfind, hmine⟩ := ScheduleStore.row_ok.1 hrow
  exact fireRow_others ht (by rw [Table.key_of_find? hfind, hfind]) hmine h hne

end Scheduler

end

end AgentRuns
