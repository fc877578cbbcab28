import AgentRuns.Croniter
import AgentRuns.Patches

/-!
# Resuming a schedule

`_arm` asks for the first occurrence after now, `_rearm` keeps the tick the row has where the next one is still to come.
Which of them an update takes depends on what it changed, so the tick that is kept is one of the cadence as it is
(`Rearmed`, `OnTick`).  An operation in which croniter raises is rolled back as a whole (`stepRaising`).
-/

namespace AgentRuns

open Relational Fallible Successive Timed

/-! ## What an operation asks of croniter -/

/-- A call of `next_fire_at`. -/
structure NextFire where
  cadence : String
  after : Instant
  timezone : String

/-- Does it raise? -/
def NextFire.raises (croniter : Croniter) (call : NextFire) : Bool :=
  (croniter.nextFireAt call.cadence call.after call.timezone).toOption.isNone

/-- `_arm`'s call. -/
def ScheduleRow.call (row : ScheduleRow) (after : Instant) : NextFire := ⟨row.cadence, after, row.timezone⟩

namespace ScheduleStore

variable (store : ScheduleStore) (croniter : Croniter)

/-- Is the tick that the row has kept? -/
def keeps (row : ScheduleRow) (pending at_ : Instant) : Bool :=
  at_ < pending ∨ (store.calendar.nextFireAt row.cadence pending row.timezone).any (at_ < ·)

/-- `_rearm`'s calls: about the tick the row has, and about now where that is not kept. -/
def rearmCalls (row : ScheduleRow) (at_ : Instant) : List NextFire :=
  match row.nextFireAt with
  | none => [row.call at_]
  | some pending => row.call pending :: if store.keeps row pending at_ then [] else [row.call at_]

/-- An update's. -/
def updateCalls (row : ScheduleRow) (now : Instant) (spec : ScheduleSpec) : List NextFire :=
  if row.retimed spec then [(store.apply row spec).call now]
  else if row.reEnabled spec then store.rearmCalls (store.apply row spec) now
  else []

/-- Does the check of a spec raise, or a call that follows it? -/
def raises (fields : Option ScheduleSpec) (calls : ScheduleSpec → List NextFire) : Bool :=
  match fields.bind store.validate with
  | none => false
  | some spec =>
    match croniter.validateCadence store.runs.lib spec.cadence with
    | .ok cadence => (calls { spec with cadence := cadence }).any (·.raises croniter)
    | .error (.invalidCadence _) => false
    | .error _ => true

end ScheduleStore

namespace Scheduler

/-- Does croniter raise behind a fire? -/
def fireRaises (croniter : Croniter) (store : ScheduleStore) (s : Scheduler) (now : Instant) (op : ScheduleOp) : Bool :=
  match perform store s now op with
  | .ok (_, .fired result) =>
    (s.schedules.find? result.scheduleId).any fun row => (row.call (max result.fireTime now)).raises croniter
  | _ => false

/-- Does it in an operation? -/
def raises (croniter : Croniter) (store : ScheduleStore) (s : Scheduler) (now : Instant) : ScheduleOp → Bool
  | .upsert spec _ _ => store.raises croniter (some spec) fun spec => [⟨spec.cadence, now, spec.timezone⟩]
  | .update tenantId scheduleId change =>
    match ScheduleStore.row s.schedules tenantId scheduleId with
    | .error _ => false
    | .ok row => store.raises croniter (row.merged change) (store.updateCalls row now)
  | op => s.fireRaises croniter store now op

/-- The state after an operation; one in which croniter raises rolls back. -/
def stepRaising (croniter : Croniter) (store : ScheduleStore) (s : Scheduler) (now : Instant) (op : ScheduleOp) : Scheduler :=
  if s.raises croniter store now op then s else step store s now op

end Scheduler

/-! ## What is made of a clock -/

/-- What an operation makes of a schedule's clock. -/
inductive Rearmed (croniter : Croniter) (now : Instant) (row row' : ScheduleRow) : Prop
  | stood (cadence : row'.cadence = row.cadence) (timezone : row'.timezone = row.timezone)
      (clock : row'.nextFireAt = row.nextFireAt) (paused : row.enabled = false → row'.enabled = false)
  /-- from now, or from a later instant -/
  | armed (after : Instant) (hle : now ≤ after)
      (hnext : croniter.nextFireAt row'.cadence after row'.timezone = .ok row'.nextFireAt)
  /-- the tick it has is to come, or the one after it is -/
  | kept (pending : Instant) (following : Option Instant) (cadence : row'.cadence = row.cadence)
      (timezone : row'.timezone = row.timezone) (had : row.nextFireAt = some pending) (has : row'.nextFireAt = some pending)
      (hnext : croniter.nextFireAt row.cadence pending row.timezone = .ok following)
      (still : now < pending ∨ following.any (now < ·) = true)

/-- Its clock is a tick of its cadence in its zone, and stopped only where the cadence is manual. -/
structure ScheduleRow.OnTick (croniter : Croniter) (row : ScheduleRow) : Prop where
  stopped : row.nextFireAt = none ↔ bucket row.cadence = some none
  tick : ∀ t, row.nextFireAt = some t → croniter.Fires row.cadence row.timezone t

section
variable {croniter : Croniter} {store : ScheduleStore} {now : Instant} {row row' : ScheduleRow}

theorem armed_of_next {after : Instant} (h : croniter.nextFireAt row.cadence after row.timezone = .ok row.nextFireAt) :
    row.OnTick croniter := by
  rcases Croniter.nextFireAt_ok h with ⟨hnone, hb⟩ | ⟨t, ht, hb, hnext⟩
  · refine ⟨⟨fun _ => hb, fun _ => hnone⟩, fun t ht => ?_⟩
    rw [hnone] at ht
    cases ht
  · refine ⟨⟨fun hnone => ?_, fun hm => absurd hm hb⟩, fun u hu => ?_⟩
    · rw [ht] at hnone
      cases hnone
    · rw [ht] at hu
      cases hu
      exact hnext.mem

theorem Rearmed.onTick (h : Rearmed croniter now row row') (ha : row.OnTick croniter) : row'.OnTick croniter := by
  cases h with
  | stood hc hz hclock _ =>
    refine ⟨by rw [hclock, hc]; exact ha.stopped, fun t ht => ?_⟩
    rw [hc, hz]
    exact ha.tick t (hclock ▸ ht)
  | armed after _ hnext => exact armed_of_next hnext
  | kept pending following hc hz had has _ _ =>
    refine ⟨by rw [has, ← had, hc]; exact ha.stopped, fun t ht => ?_⟩
    rw [hc, hz]
    exact ha.tick t (had.trans (has.symm.trans ht))

/-- The latest occurrence that is not after an instant. -/
def Latest (croniter : Croniter) (row : ScheduleRow) (at_ t : Instant) : Prop :=
  IsGreatest {u | croniter.Fires row.cadence row.timezone u ∧ u ≤ at_} t

/-- What a schedule that is resumed fires next. -/
theorem Rearmed.resumed (h : Rearmed croniter now row row') (ha : row.OnTick croniter) (hpaused : row.enabled = false)
    (henabled : row'.enabled = true) (hb : bucket row'.cadence ≠ some none) :
    ∃ t, row'.nextFireAt = some t ∧ (now < t ∨ Latest croniter row' now t) := by
  cases h with
  | stood _ _ _ hp =>
    rw [hp hpaused] at henabled
    cases henabled
  | armed after hle hnext =>
    rcases Croniter.nextFireAt_ok hnext with ⟨-, hm⟩ | ⟨t, ht, -, hnext⟩
    · exact absurd hm hb
    · exact ⟨t, ht, .inl (lt_of_le_of_lt hle hnext.gt)⟩
  | kept pending following hc hz had has hnext hstill =>
    refine ⟨pending, has, ?_⟩
    by_cases hlt : now < pending
    · exact .inl hlt
    · have htick := ha.tick pending had
      have hfollowing := hstill.resolve_left hlt
      rcases Croniter.nextFireAt_ok hnext with ⟨rfl, -⟩ | ⟨t, rfl, -, hnext⟩
      · cases hfollowing
      · have hgt : now < t := by simpa using hfollowing
        right
        unfold Latest
        rw [hc, hz]
        refine ⟨⟨htick, not_lt.1 hlt⟩, fun u hu => ?_⟩
        exact hnext.le_of_lt hu.1 (lt_of_le_of_lt hu.2 hgt)

/-! ## What an operation makes of one -/

theorem NextFire.of_not_raises {call : NextFire} (h : call.raises croniter = false) :
    ∃ r, croniter.nextFireAt call.cadence call.after call.timezone = .ok r := by
  unfold NextFire.raises at h
  cases hr : croniter.nextFireAt call.cadence call.after call.timezone with
  | ok r => exact ⟨r, rfl⟩
  | error e =>
    rw [hr] at h
    cases h

variable (hagrees : croniter.Agrees store.calendar)
include hagrees

theorem nextFireAt_of_not_raises {call : NextFire} (h : call.raises croniter = false) :
    croniter.nextFireAt call.cadence call.after call.timezone =
      .ok (store.calendar.nextFireAt call.cadence call.after call.timezone) := by
  obtain ⟨r, hr⟩ := NextFire.of_not_raises h
  rw [hr, Croniter.nextFireAt_agrees hagrees hr]

/-- Where a spec is checked and nothing raises, what else is asked of croniter raises by itself. -/
theorem ScheduleStore.raises_eq {fields : Option ScheduleSpec} {calls : ScheduleSpec → List NextFire} {spec : ScheduleSpec}
    (hr : store.raises croniter fields calls = false) (hc : store.checked fields = .ok spec) (calls' : ScheduleSpec → List NextFire) :
    store.raises croniter fields calls' = (calls' spec).any (·.raises croniter) := by
  unfold ScheduleStore.raises at hr ⊢
  unfold ScheduleStore.checked at hc
  cases hf : fields.bind store.validate with
  | none =>
    rw [hf] at hc
    cases hc
  | some given =>
    rw [hf] at hr hc
    dsimp only at hr hc ⊢
    obtain ⟨cadence, hcadence, hc⟩ := bind_ok.1 hc
    cases hc
    cases hv : croniter.validateCadence store.runs.lib given.cadence with
    | ok cadence' =>
      have hsame : store.calendar.validateCadence store.runs.lib given.cadence = .ok cadence' :=
        Croniter.validateCadence_agrees hagrees (by rw [hv]; rfl)
      rw [hsame] at hcadence
      cases hcadence
      rfl
    | error e =>
      rw [hv] at hr
      cases e with
      | invalidCadence detail =>
        have hsame : store.calendar.validateCadence store.runs.lib given.cadence = .error (.unprocessable detail) :=
          Croniter.validateCadence_agrees hagrees (by rw [hv]; rfl)
        rw [hsame] at hcadence
        cases hcadence
      | badDate error => cases hr
      | zoneNotFound key => cases hr

/-- An operation that checks a spec and raises nothing has its calls answered. -/
theorem ScheduleStore.calls_answered {fields : Option ScheduleSpec} {calls : ScheduleSpec → List NextFire} {spec : ScheduleSpec}
    (hr : store.raises croniter fields calls = false) (hc : store.checked fields = .ok spec) :
    ∀ call ∈ calls spec, call.raises croniter = false := by
  rw [ScheduleStore.raises_eq hagrees hr hc] at hr
  intro call hcall
  exact Bool.eq_false_iff.2 (List.any_eq_false.1 hr call hcall)

omit hagrees in
/-- Only the cadence, the zone, the clock and whether it is enabled count. -/
theorem Rearmed.congr {row'' : ScheduleRow} (h : Rearmed croniter now row row') (hc : row''.cadence = row'.cadence)
    (hz : row''.timezone = row'.timezone) (hn : row''.nextFireAt = row'.nextFireAt) (he : row''.enabled = row'.enabled) :
    Rearmed croniter now row row'' := by
  cases h with
  | stood hc' hz' hn' hp => exact .stood (hc.trans hc') (hz.trans hz') (hn.trans hn') (fun hr => he.trans (hp hr))
  | armed after hle hnext => exact .armed after hle (by rw [hc, hz, hn]; exact hnext)
  | kept pending following hc' hz' had has hnext hstill =>
    exact .kept pending following (hc.trans hc') (hz.trans hz') had (hn.trans has) hnext hstill

/-- `_rearm`, of a row whose cadence, zone and tick are another one's. -/
theorem rearm_rearmed {applied : ScheduleRow} (hc : applied.cadence = row.cadence) (hz : applied.timezone = row.timezone)
    (hn : applied.nextFireAt = row.nextFireAt)
    (hcalls : ∀ call ∈ store.rearmCalls applied now, call.raises croniter = false) :
    Rearmed croniter now row (store.rearm applied now) := by
  unfold ScheduleStore.rearmCalls at hcalls
  unfold ScheduleStore.rearm
  cases hp : applied.nextFireAt with
  | none =>
    rw [hp] at hcalls
    exact .armed now le_rfl (nextFireAt_of_not_raises hagrees (hcalls _ List.mem_cons_self))
  | some pending =>
    rw [hp] at hcalls
    dsimp only at hcalls ⊢
    by_cases hkeep : now < pending ∨ (store.calendar.nextFireAt applied.cadence pending applied.timezone).any (now < ·) = true
    · rw [if_pos hkeep]
      refine .kept pending _ hc hz (hn.symm.trans hp) hp ?_ hkeep
      rw [← hc, ← hz]
      exact nextFireAt_of_not_raises hagrees (hcalls _ List.mem_cons_self)
    · have hkeeps : store.keeps applied pending now = false := decide_eq_false hkeep
      rw [hkeeps] at hcalls
      rw [if_neg hkeep]
      exact .armed now le_rfl (nextFireAt_of_not_raises hagrees (hcalls _ (List.mem_cons_of_mem _ List.mem_cons_self)))

/-- An update makes of a clock what is to be made of one. -/
theorem updatedRow_rearmed {spec : ScheduleSpec}
    (hcalls : ∀ call ∈ store.updateCalls row now spec, call.raises croniter = false) :
    Rearmed croniter now row (store.updatedRow row spec now) := by
  have hupdated := store.updatedRow_eq row spec now
  unfold ScheduleStore.updateCalls at hcalls
  by_cases hretimed : row.retimed spec = true
  · rw [if_pos hretimed] at hcalls
    rw [ScheduleStore.updatedClock, if_pos hretimed] at hupdated
    rw [hupdated]
    exact .armed now le_rfl (nextFireAt_of_not_raises hagrees (hcalls _ List.mem_cons_self))
  · rw [if_neg hretimed] at hcalls
    rw [ScheduleStore.updatedClock, if_neg hretimed] at hupdated
    have hsame : spec.cadence = row.cadence ∧ spec.timezone = row.timezone := by
      simpa [ScheduleRow.retimed] using hretimed
    by_cases hre : row.reEnabled spec = true
    · rw [if_pos hre] at hcalls
      have hrearmed : Rearmed croniter now row (store.rearm (store.apply row spec) now) :=
        rearm_rearmed hagrees hsame.1 hsame.2 rfl hcalls
      rw [store.rearm_eq] at hrearmed
      rw [hupdated, if_pos hre]
      exact hrearmed.congr rfl rfl rfl rfl
    · rw [if_neg hre] at hupdated
      rw [hupdated]
      refine .stood hsame.1 hsame.2 rfl fun hpaused => ?_
      show spec.enabled = false
      simpa [ScheduleRow.reEnabled, hpaused] using hre

end

/-! ## Steps -/

namespace Scheduler

section
variable {croniter : Croniter} {store : ScheduleStore} {s s' : Scheduler} {now : Instant} {op : ScheduleOp} {row' : ScheduleRow}
  {fired : Fired}

/-- A fire that queues no run leaves the schedules, or records a failure of one. -/
theorem perform_unfired (h : s.perform store now op = .ok (s', fired)) (hop : op.runId.isSome = true)
    (hnot : fired.result? = none) :
    s'.schedules = s.schedules ∨ ∃ row error, s.schedules.find? row.scheduleId = some row ∧
      s'.schedules = s.schedules.put (ScheduleStore.failureRow row error now) := by
  obtain ⟨runId, hop⟩ := Option.isSome_iff_exists.1 hop
  obtain ⟨rfl, -⟩ | ⟨row, fault, hrow, h⟩ := perform_fire hop h
  · exact .inl rfl
  obtain ⟨error, -, rfl⟩ | ⟨_, _, _, -, -, rfl⟩ := fireRow_ok h
  · exact .inr ⟨row, error, hrow, rfl⟩
  · cases hnot

/-- What a schedule is after an operation: as it was, its clock made something of, or new and armed from now. -/
def Follows (croniter : Croniter) (now : Instant) (before : Option ScheduleRow) (row' : ScheduleRow) : Prop :=
  before = some row' ∨ (∃ row, before = some row ∧ Rearmed croniter now row row') ∨
    (before = none ∧ croniter.nextFireAt row'.cadence now row'.timezone = .ok row'.nextFireAt)

variable (hagrees : croniter.Agrees store.calendar) {scheduleId : String}
include hagrees

theorem upsert_follows {spec : ScheduleSpec} {createdBy id : String} {created : Bool} {row : ScheduleRow}
    {schedules : Table ScheduleRow.scheduleId}
    (hr : store.raises croniter (some spec) (fun spec => [⟨spec.cadence, now, spec.timezone⟩]) = false)
    (h : store.upsert s.schedules spec createdBy id now = .ok (schedules, row, created))
    (hf : schedules.find? scheduleId = some row') : Follows croniter now (s.schedules.find? scheduleId) row' := by
  obtain ⟨checked, hchecked, h⟩ := bind_ok.1 h
  obtain ⟨_, -, h⟩ := bind_ok.1 h
  split at h
  · cases h
    exact .inl hf
  · obtain ⟨_, hfree, h⟩ := bind_ok.1 h
    cases h
    have hnone : s.schedules.find? id = none := Option.not_isSome_iff_eq_none.1 (refuse_ok.1 hfree)
    have hcall := ScheduleStore.calls_answered hagrees hr hchecked _ List.mem_cons_self
    rw [Table.find?_insert hnone] at hf
    split at hf
    · next hk =>
      cases hf
      have hk : id = scheduleId := hk
      rw [← hk]
      exact .inr (.inr ⟨hnone, nextFireAt_of_not_raises hagrees hcall⟩)
    · exact .inl hf

theorem update_follows {tenantId id : String} {change : ScheduleUpdate} {schedules : Table ScheduleRow.scheduleId}
    (hr : s.raises croniter store now (.update tenantId id change) = false)
    (h : store.update s.schedules tenantId id change now = .ok schedules)
    (hf : schedules.find? scheduleId = some row') : Follows croniter now (s.schedules.find? scheduleId) row' := by
  obtain ⟨row, hrow, h⟩ := bind_ok.1 h
  have hr' : store.raises croniter (row.merged change) (store.updateCalls row now) = false := by
    unfold raises at hr
    dsimp only at hr
    rw [hrow] at hr
    exact hr
  obtain ⟨hfound, -⟩ := ScheduleStore.row_ok.1 hrow
  have hself : s.schedules.find? row.scheduleId = some row := by rw [Table.key_of_find? hfound, hfound]
  obtain ⟨spec, current, hspec, hcurrent, rfl⟩ := ScheduleStore.commitUpdate_ok h
  rw [hself] at hcurrent
  cases hcurrent
  have hupdated := updatedRow_rearmed hagrees (ScheduleStore.calls_answered hagrees hr' hspec)
  have hwritten : Rearmed croniter now row (ScheduleRow.flushed row (store.updatedRow row spec now) row) :=
    hupdated.congr (column_self _ _) (column_self _ _) (column_self _ _) (column_self _ _)
  have hid : (ScheduleRow.flushed row (store.updatedRow row spec now) row).scheduleId = row.scheduleId := rfl
  rcases Table.of_find?_put hself hid hf with hsame | ⟨hbefore, rfl⟩
  · exact .inl hsame
  · exact .inr (.inl ⟨row, hbefore, hwritten⟩)

theorem fire_follows (hop : op.runId.isSome = true) (hr : s.raises croniter store now op = false)
    (hp : perform store s now op = .ok (s', fired)) (hf : s'.schedules.find? scheduleId = some row') :
    Follows croniter now (s.schedules.find? scheduleId) row' := by
  cases hresult : fired.result? with
  | none =>
    rcases perform_unfired hp hop hresult with he | ⟨row, error, hrow, he⟩
    · rw [he] at hf
      exact .inl hf
    · rw [he] at hf
      have hfailed : Rearmed croniter now row (ScheduleStore.failureRow row error now) := by
        unfold ScheduleStore.failureRow
        dsimp only
        split
        · exact .stood rfl rfl rfl fun _ => rfl
        · exact .stood rfl rfl rfl fun hpaused => hpaused
      have hid : (ScheduleStore.failureRow row error now).scheduleId = row.scheduleId := by
        unfold ScheduleStore.failureRow
        dsimp only
        split <;> rfl
      rcases Table.of_find?_put hrow hid hf with hsame | ⟨hbefore, rfl⟩
      · exact .inl hsame
      · exact .inr (.inl ⟨row, hbefore, hfailed⟩)
  | some result =>
    cases fired with
    | failed | idle => cases hresult
    | fired result' =>
      cases hresult
      obtain ⟨row, runId, fault, hrow, -, h⟩ := perform_fired hp
      have hr' : (row.call (max result.fireTime now)).raises croniter = false := by
        have hfire : s.fireRaises croniter store now op = false := by
          cases op with
          | fire | fireDue => exact hr
          | upsert | update | delete | op => cases hop
        unfold fireRaises at hfire
        rw [hp] at hfire
        dsimp only at hfire
        rw [hrow] at hfire
        exact hfire
      generalize op.at_.getD _ = fireTime at h
      obtain ⟨_, he, -⟩ | ⟨db, run, created, -, rfl, he⟩ := fireRow_ok h
      · cases he
      · cases he
        have hself : s.schedules.find? row.scheduleId = some row := hrow
        have hid : (store.successRow row fireTime.at_ run.runId now).scheduleId = row.scheduleId := rfl
        rcases Table.of_find?_put hself hid hf with hsame | ⟨hbefore, rfl⟩
        · exact .inl hsame
        · exact .inr (.inl ⟨row, hbefore, .armed _ (le_max_right _ now) (nextFireAt_of_not_raises hagrees hr')⟩)

/-- **One step.**  A schedule is as it was, its clock is made something of, or it is new and armed from now. -/
theorem stepRaising_follows (h : (stepRaising croniter store s now op).schedules.find? scheduleId = some row') :
    Follows croniter now (s.schedules.find? scheduleId) row' := by
  unfold stepRaising at h
  by_cases hraises : s.raises croniter store now op = true
  · rw [if_pos hraises] at h
    exact .inl h
  · rw [if_neg hraises] at h
    rw [Bool.not_eq_true] at hraises
    unfold step at h
    cases hp : perform store s now op with
    | error e =>
      rw [hp] at h
      exact .inl h
    | ok p =>
      obtain ⟨s', fired⟩ := p
      rw [hp, orElse_ok] at h
      cases op with
      | upsert spec createdBy id =>
        obtain ⟨⟨schedules, row, created⟩, hu, hp⟩ := bind_ok.1 hp
        cases hp
        exact upsert_follows hagrees hraises hu h
      | update tenantId id change =>
        obtain ⟨schedules, hu, hp⟩ := bind_ok.1 hp
        cases hp
        exact update_follows hagrees hraises hu h
      | delete tenantId id =>
        obtain ⟨schedules, hd, hp⟩ := bind_ok.1 hp
        cases hp
        obtain ⟨row, -, hd⟩ := bind_ok.1 hd
        cases hd
        have h : (s.schedules.erase (·.scheduleId = row.scheduleId)).find? scheduleId = some row' := h
        obtain ⟨hm, rfl⟩ := Table.find?_eq_some.1 h
        exact .inl (Table.find?_of_mem (Table.mem_erase.1 hm).1)
      | fire | fireDue => exact fire_follows hagrees rfl hraises hp h
      | op op =>
        cases hp
        exact .inl h

omit hagrees

/-! ## Ticks -/

/-- A fire, by the ticker or by hand, for the tick that a schedule's clock is at and that has come. -/
def tickFire (croniter : Croniter) (store : ScheduleStore) (s : Scheduler) (now : Instant) (op : ScheduleOp) : Option TickerFire :=
  if s.raises croniter store now op then none
  else ((perform store s now op).toOption.bind (·.2.result?)).bind fun result =>
    if s.clock result.scheduleId = some result.fireTime ∧ result.fireTime ≤ now then
      some ⟨now, result.scheduleId, result.fireTime⟩
    else none

/-- Those in a list of operations. -/
def tickFires (croniter : Croniter) (store : ScheduleStore) : Scheduler → List (Instant × ScheduleOp) → List TickerFire :=
  Alarms.rung (stepRaising croniter store) (tickFire croniter store)

/-- A clock stands or goes past now. -/
theorem Follows.clock {before : Option ScheduleRow} (h : Follows croniter now before row') {t : Instant}
    (ht : row'.nextFireAt = some t) : before.bind (·.nextFireAt) = some t ∨ now < t := by
  have hnew : ∀ after, now ≤ after → croniter.nextFireAt row'.cadence after row'.timezone = .ok row'.nextFireAt → now < t := by
    intro after hle hnext
    rcases Croniter.nextFireAt_ok hnext with ⟨hnone, -⟩ | ⟨u, hu, -, hnext⟩
    · rw [ht] at hnone
      cases hnone
    · rw [ht] at hu
      cases hu
      exact lt_of_le_of_lt hle hnext.gt
  rcases h with rfl | ⟨row, rfl, hr⟩ | ⟨-, hnext⟩
  · exact .inl ht
  · cases hr with
    | stood _ _ hclock _ => exact .inl (hclock.symm.trans ht)
    | armed after hle hnext => exact .inr (hnew after hle hnext)
    | kept pending _ _ _ had has _ _ => exact .inl (had.trans (has.symm.trans ht))
  · exact .inr (hnew now le_rfl hnext)

include hagrees

/-- The clocks are alarms, which the fires for their ticks ring. -/
theorem alarmsRaising : Alarms (stepRaising croniter store) clock (tickFire croniter store) TickerFire.scheduleId TickerFire.at_
    TickerFire.tick where
  stands := by
    intro s now op scheduleId t h
    obtain ⟨row', hrow', ht⟩ := Option.bind_eq_some_iff.1 h
    exact (stepRaising_follows hagrees hrow').clock ht
  rings := by
    intro s now op fire h
    unfold tickFire at h
    by_cases hraises : s.raises croniter store now op = true
    · rw [if_pos hraises] at h
      cases h
    rw [if_neg hraises] at h
    obtain ⟨result, hresult, hfire⟩ := Option.bind_eq_some_iff.1 h
    obtain ⟨⟨s', fired⟩, hs, hr⟩ := Option.bind_eq_some_iff.1 hresult
    split at hfire
    · next hdue =>
      cases hfire
      cases fired with
      | failed | idle => cases hr
      | fired result' =>
        cases hr
        have hp : perform store s now op = .ok (s', .fired result) := by
          cases hp : perform store s now op with
          | error e => rw [hp] at hs; cases hs
          | ok p => rw [hp] at hs; cases hs; rfl
        refine ⟨rfl, hdue.1, hdue.2, fun t ht => ?_⟩
        have hstep : stepRaising croniter store s now op = s' := by
          unfold stepRaising step
          rw [if_neg hraises, hp, orElse_ok]
        rw [hstep] at ht
        obtain ⟨row, runId, fault, hrow, -, hfired⟩ := perform_fired hp
        generalize op.at_.getD _ = fireTime at hfired
        obtain ⟨_, he, -⟩ | ⟨db, run, created, -, rfl, he⟩ := fireRow_ok hfired
        · cases he
        · cases he
          have hput : (s.schedules.put (store.successRow row fireTime.at_ run.runId now)).find? row.scheduleId =
              some (store.successRow row fireTime.at_ run.runId now) := Table.find?_put_self rfl hrow
          obtain ⟨row', hrow', ht'⟩ := Option.bind_eq_some_iff.1 ht
          have hsame := hput.symm.trans hrow'
          cases hsame
          exact lt_of_le_of_lt (le_max_right _ _) (Calendar.nextFireAt_gt ht')
    · cases hfire

/-! ## Runs -/

/-- Every schedule's clock is a tick of its cadence as it is. -/
theorem armed_step (ha : ∀ row ∈ s.schedules.rows, row.OnTick croniter) :
    ∀ row ∈ (stepRaising croniter store s now op).schedules.rows, row.OnTick croniter := by
  intro row' hrow'
  rcases stepRaising_follows hagrees (Table.find?_of_mem hrow') with hsame | ⟨row, hrow, hr⟩ | ⟨-, hnext⟩
  · exact ha row' (Table.mem_of_find? hsame)
  · exact hr.onTick (ha row (Table.mem_of_find? hrow))
  · exact armed_of_next hnext

theorem armed_run {t t' : Instant} {s' : Scheduler} (h : Run (stepRaising croniter store) anything t Scheduler.empty t' s') :
    ∀ row ∈ s'.schedules.rows, row.OnTick croniter :=
  h.invariant' (fun s => ∀ row ∈ s.schedules.rows, row.OnTick croniter) (fun _ _ _ ha _ => armed_step hagrees ha)
    fun _ hrow => absurd hrow List.not_mem_nil

omit hagrees in
theorem keysUnique_run {t t' : Instant} {s' : Scheduler} (h : Run (stepRaising croniter store) anything t Scheduler.empty t' s') :
    s'.db.KeysUnique := by
  refine h.invariant' (fun s => s.db.KeysUnique) (fun s now op hu _ => ?_) fun _ ha => by cases ha
  show (stepRaising croniter store s now op).db.KeysUnique
  unfold stepRaising
  split
  · exact hu
  · exact keysUnique_step hu

/-- What an operation that enables a paused schedule leaves its clock at. -/
theorem enabled_step (ha : ∀ row ∈ s.schedules.rows, row.OnTick croniter) {scheduleId : String} {row : ScheduleRow}
    (hrow : s.schedules.find? scheduleId = some row) (hpaused : row.enabled = false)
    (hrow' : (stepRaising croniter store s now op).schedules.find? scheduleId = some row') (henabled : row'.enabled = true)
    (hb : bucket row'.cadence ≠ some none) : ∃ next, row'.nextFireAt = some next ∧ (now < next ∨ Latest croniter row' now next) := by
  rcases stepRaising_follows hagrees hrow' with hsame | ⟨row₀, hrow₀, hr⟩ | ⟨hnone, -⟩
  · rw [hrow] at hsame
    cases hsame
    rw [hpaused] at henabled
    cases henabled
  · rw [hrow] at hrow₀
    cases hrow₀
    exact hr.resumed (ha row (Table.mem_of_find? hrow)) hpaused henabled hb
  · rw [hrow] at hnone
    cases hnone

end

end Scheduler

/-- **Resuming fires at most one missed tick.**  In any operations, one after another: every clock is a tick of its cadence in
its zone as they are, and stopped only where that is manual; one of a schedule that is enabled is past now or the latest
that is not; the fires for ticks go on to later ones, of those that came by an instant at most one is fired from
then on, and there is at most one run of a schedule and an instant. -/
theorem resumed_once {croniter : Croniter} {store : ScheduleStore} (hagrees : croniter.Agrees store.calendar) {t : Instant}
    {ops : List (Instant × ScheduleOp)} (h : Run.Admitted (Scheduler.stepRaising croniter store) anything t Scheduler.empty ops) :
    (∀ row ∈ (Run.after (Scheduler.stepRaising croniter store) Scheduler.empty ops).schedules.rows, row.OnTick croniter) ∧
      (∀ at_ op scheduleId row row',
        (Run.after (Scheduler.stepRaising croniter store) Scheduler.empty ops).schedules.find? scheduleId = some row →
        row.enabled = false →
        (Scheduler.stepRaising croniter store (Run.after (Scheduler.stepRaising croniter store) Scheduler.empty ops)
          at_ op).schedules.find? scheduleId = some row' →
        row'.enabled = true → bucket row'.cadence ≠ some none →
        ∃ next, row'.nextFireAt = some next ∧ (at_ < next ∨ Latest croniter row' at_ next)) ∧
      ((Scheduler.tickFires croniter store Scheduler.empty ops).Pairwise fun a b => a.scheduleId = b.scheduleId → a.tick < b.tick) ∧
      (∀ scheduleId back, ((Scheduler.tickFires croniter store Scheduler.empty ops).filter fun fire =>
        fire.scheduleId = scheduleId ∧ back ≤ fire.at_ ∧ fire.tick ≤ back).length ≤ 1) ∧
      ∀ tenantId scheduleId instant,
        ∀ a ∈ (Run.after (Scheduler.stepRaising croniter store) Scheduler.empty ops).db.runs.rows,
        ∀ b ∈ (Run.after (Scheduler.stepRaising croniter store) Scheduler.empty ops).db.runs.rows,
        (a.tenantId = tenantId ∧ a.idempotencyKey = some (idempotencyKey store.calendar scheduleId instant)) →
        (b.tenantId = tenantId ∧ b.idempotencyKey = some (idempotencyKey store.calendar scheduleId instant)) → a = b := by
  obtain ⟨t', hrun⟩ := Run.replay h
  have harmed := Scheduler.armed_run hagrees hrun
  have halarms := Scheduler.alarmsRaising hagrees
  refine ⟨harmed, fun at_ op scheduleId row row' hrow hpaused hrow' => Scheduler.enabled_step hagrees harmed hrow hpaused hrow',
    halarms.rung_increasing h, halarms.rung_late h, ?_⟩
  intro tenantId scheduleId instant a ha b hb hka hkb
  exact Scheduler.keysUnique_run hrun a ha b hb (hka.1.trans hkb.1.symm) (hka.2.trans hkb.2.symm) (by rw [hka.2]; rfl)

/-- Pauses a schedule, or resumes it. -/
def setEnabled (enabled : Bool) : ScheduleUpdate where
  agentId := none
  name := none
  cadence := none
  timezone := none
  input := none
  workspaceId := none
  enabled := some (some enabled)
  timeoutSeconds := none
  agentVersion := none
  priority := none
  concurrencyKey := none
  metadata := none

/-- The small deployment, on a croniter that raises. -/
def raisingSchedules : ScheduleStore :=
  ⟨smallStore, Croniter.ofFebruary.toCalendar spelledDatetime spelledDatetime_injective, some, fun _ => ""⟩

/-- An hourly schedule, paused before its first tick and resumed behind it, and a ticker. -/
def resuming : List (Instant × ScheduleOp) :=
  [(0, .upsert smallSpec "u" "s"), (100, .update "t" "s" (setEnabled false)), (5000, .update "t" "s" (setEnabled true)),
    (5001, .fireDue [] "r" none), (5002, .fireDue [] "q" none)]

/-- The tick it missed is fired, and once. -/
theorem resumed_once_late :
    (Scheduler.tickFires Croniter.ofFebruary raisingSchedules Scheduler.empty resuming).map (·.tick) = [3600] ∧
      ((Scheduler.tickFires Croniter.ofFebruary raisingSchedules Scheduler.empty resuming).filter fun fire =>
        fire.scheduleId = "s" ∧ 5000 ≤ fire.at_ ∧ fire.tick ≤ 5000).length ≤ 1 := by
  have hadmitted : Run.Admitted (Scheduler.stepRaising Croniter.ofFebruary raisingSchedules) anything 0 Scheduler.empty resuming := by
    norm_num [resuming, Run.Admitted, anything]
  exact ⟨by decide +kernel, (resumed_once (Croniter.agrees_toCalendar _ _) hadmitted).2.2.2.1 "s" 5000⟩

end AgentRuns
