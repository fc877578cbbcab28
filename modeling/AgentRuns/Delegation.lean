import AgentRuns.Identity
import AgentRuns.Tenancy

/-!
# Nobody acts as someone they may not act as

What the routes check of their caller (`api/deps.py`) before they call their stores: a start and a
new schedule name only a principal the key may act for, and a schedule is changed, deleted and fired
only by a key that may act as its `on_behalf_of`, which is set once, at creation.

A route's checks and the rest of its transaction are two steps, with anything in between
(`Delegating.step`).  Of every run there is, at any time, a caller was let through who named the
principal it acts as and may act for them: they started it, or made the schedule that fired it
(`authority_kept`).
-/

namespace AgentRuns

open Relational Fallible Timed

/-! ## The routes' checks -/

/-- The authenticated caller and the one tenant a request acts in. -/
structure Caller where
  credential : KeyInfo
  tenantId : String

namespace Caller

def principal (who : Caller) : String := who.credential.principal

/-- A body naming a tenant must name this one. -/
def requireTenant (who : Caller) (tenantId : String) : Except ServiceError Unit :=
  refuse (tenantId ≠ who.tenantId) (.forbidden "tenant_id is not the tenant this request acts in")

/-- Only a credential allowed to act as someone may name them. -/
def requireMayActFor (who : Caller) (lib : Libraries) (principal : Option String) : Except ServiceError Unit :=
  match principal with
  | none => .ok ()
  | some p =>
    refuse (who.credential.mayActFor p = false)
      (.forbidden s!"this credential may not act on behalf of {lib.pyRepr (.str p)}")

/-- The credential that answers or cancels. -/
def signsOp (who : Caller) : Op → Op
  | .resume tenantId runId resolution _ => .resume tenantId runId resolution who.credential
  | .cancel tenantId runId cancel _ => .cancel tenantId runId cancel who.credential
  | op => op

/-- What a route passes on of its caller. -/
def signs (who : Caller) : Request → Request
  | .op op => .op (who.signsOp op)
  | .createSchedule spec _ scheduleId => .createSchedule spec who.principal scheduleId
  | .createWebhook url events _ webhookId secret => .createWebhook url events who.principal webhookId secret
  | request => request

end Caller

/-- The schedule a request changes, deletes or fires. -/
def Request.administers : Request → Option String
  | .updateSchedule scheduleId _ => some scheduleId
  | .deleteSchedule scheduleId => some scheduleId
  | .fire scheduleId _ _ _ => some scheduleId
  | _ => none

/-- The id a new schedule is given. -/
def Request.mintsSchedule : Request → Option String
  | .createSchedule _ _ scheduleId => some scheduleId
  | _ => none

namespace Stores

/-- `_administered`: 404 before 403. -/
def administered (s : Stores) (lib : Libraries) (who : Caller) (scheduleId : String) : Except ServiceError Unit := do
  let schedule ← ScheduleStore.row s.schedules who.tenantId scheduleId
  who.requireMayActFor lib (some schedule.onBehalfOf)

/-- What a route checks before it calls its store. -/
def checks (s : Stores) (lib : Libraries) (who : Caller) : Request → Except ServiceError Unit
  | .op (.start start _ _) => do
    who.requireTenant start.tenantId
    who.requireMayActFor lib start.onBehalfOf
  | .createSchedule spec _ _ => do
    who.requireTenant spec.tenantId
    who.requireMayActFor lib (some spec.onBehalfOf)
  | .updateSchedule scheduleId _ => s.administered lib who scheduleId
  | .deleteSchedule scheduleId => s.administered lib who scheduleId
  | .fire scheduleId _ _ _ => s.administered lib who scheduleId
  | _ => .ok ()

end Stores

/-! ## The system -/

/-- The tables; the requests let through, in order, and which of them were served; the ids new
schedules were given (ghost). -/
structure Delegating where
  stores : Stores
  admitted : List (Caller × Request)
  served : List Nat
  minted : List String

/-- A route checks a caller's request; it goes on with the `i`-th that was let through; what is no
caller's. -/
inductive DelegatingAct where
  | asks (who : Caller) (request : Request)
  | serves (i : Nat)
  | elsewhere (act : StoresAct)

/-- The calls of the ticker, and a worker's claim, which may be of every tenant. -/
def Call.inNobodysName : Call → Bool
  | .op (.claim ..) => true
  | .op o => o.sweeps
  | other => other.ofTicker

def StoresAct.inNobodysName : StoresAct → Bool
  | .request _ _ => false
  | .call made => made.inNobodysName
  | .fireDue _ _ _ => true
  | .deleteRuns _ => true
  | .removeArtifacts _ => true

namespace Delegating

def empty : Delegating := ⟨Stores.empty, [], [], []⟩

def step (api : TenantApi) (s : Delegating) (now : Instant) : DelegatingAct → Delegating
  | .asks who request =>
    match s.stores.checks api.runs.lib who request with
    | .error _ => s
    | .ok _ => { s with admitted := s.admitted ++ [(who, who.signs request)] }
  | .serves i =>
    match s.admitted[i]? with
    | none => s
    | some (who, request) =>
      if s.served.contains i then s
      else
        { s with
          stores := s.stores.act api now (.request who.tenantId request)
          served := i :: s.served
          minted := request.mintsSchedule.toList ++ s.minted }
  | .elsewhere act => { s with stores := s.stores.act api now act }

/-- `new_id` gives a schedule an id of its own; the rest is the ticker's and the workers'. -/
def proper (s : Delegating) : DelegatingAct → Bool
  | .asks _ _ => true
  | .serves i => s.admitted[i]?.all fun x => x.2.mintsSchedule.all fun scheduleId => !s.minted.contains scheduleId
  | .elsewhere act => act.inNobodysName

def Proper (s : Delegating) (_ : Instant) (act : DelegatingAct) : Prop := s.proper act = true

instance (s : Delegating) (now : Instant) (act : DelegatingAct) : Decidable (s.Proper now act) :=
  inferInstanceAs (Decidable (_ = true))

end Delegating

/-- How a request brings a run that acts as `p`: it starts it, or makes the schedule whose tick it is. -/
inductive Request.Brings (calendar : Calendar) (row : RunRow) : Request → String → Prop
  | started {start : RunStart} {queue strict : Bool} {p : String} (starts : start.runId = row.runId)
      (names : start.onBehalfOf = some p) : Brings calendar row (.op (.start start queue strict)) p
  | fired {spec : ScheduleSpec} {createdBy scheduleId : String} {tick : Instant}
      (key : row.idempotencyKey = some (idempotencyKey calendar scheduleId tick)) :
      Brings calendar row (.createSchedule spec createdBy scheduleId) spec.onBehalfOf

/-- A caller of the run's tenant was let through who may act for `p`, with what brought the run. -/
def Delegating.Vouched (api : TenantApi) (s : Delegating) (row : RunRow) (p : String) : Prop :=
  ∃ who request, (who, request) ∈ s.admitted ∧ who.tenantId = row.tenantId ∧ who.credential.mayActFor p = true ∧
    request.Brings api.schedules.calendar row p

/-- Who made a schedule: a caller of its tenant who may act as its `on_behalf_of`. -/
def Delegating.Made (s : Delegating) (row : ScheduleRow) : Prop :=
  ∃ who spec, (who, Request.createSchedule spec who.principal row.scheduleId) ∈ s.admitted ∧ who.tenantId = row.tenantId ∧
    spec.onBehalfOf = row.onBehalfOf ∧ row.createdBy = some who.principal ∧ who.credential.mayActFor row.onBehalfOf = true

/-- Two rows of a schedule say the same of whose it is, whom it acts for and who made it. -/
def ScheduleRow.OwnedAs (row' row : ScheduleRow) : Prop :=
  row'.tenantId = row.tenantId ∧ row'.onBehalfOf = row.onBehalfOf ∧ row'.createdBy = row.createdBy

/-- `model_validate` leaves whom a schedule acts for as it was sent. -/
def ScheduleStore.KeepsPrincipal (store : ScheduleStore) : Prop :=
  ∀ fields spec, store.validate fields = some spec → spec.onBehalfOf = fields.onBehalfOf

/-! ## What a deployment does, its scheduler does -/

/-- What a tenant's request asks of runs and schedules. -/
def Request.op? (tenantId : String) : Request → Option ScheduleOp
  | .op o => some (.op o)
  | .createSchedule spec createdBy scheduleId => some (.upsert spec createdBy scheduleId)
  | .updateSchedule scheduleId change => some (.update tenantId scheduleId change)
  | .deleteSchedule scheduleId => some (.delete tenantId scheduleId)
  | .fire scheduleId at_ runId fault => some (.fire tenantId scheduleId at_ runId fault)
  | _ => none

def StoresAct.op? : StoresAct → Option ScheduleOp
  | .request tenantId asked => asked.op? tenantId
  | .call (.op o) => some (.op o)
  | .fireDue held runId fault => some (.fireDue held runId fault)
  | _ => none

section
variable {api : TenantApi} {store : ScheduleStore} {tenantId : String} {s s' : Stores} {now : Instant} {request : Request}

/-- A request does to runs and schedules what the scheduler's operation does, or nothing. -/
theorem request_scheduler (api : TenantApi) (s : Stores) (tenantId : String) (now : Instant) (request : Request) :
    (s.step api tenantId now request).scheduler = s.scheduler ∨ ∃ op, request.op? tenantId = some op ∧
      (s.step api tenantId now request).scheduler = s.scheduler.step api.schedules now op := by
  unfold Stores.step
  cases hp : s.perform api tenantId now request with
  | error e => exact .inl rfl
  | ok result =>
    obtain ⟨s', told⟩ := result
    show s'.scheduler = _ ∨ ∃ op, _ ∧ s'.scheduler = _
    cases request with
    | run | events | artifact | page | schedule | webhook =>
      obtain ⟨_, -, hp⟩ := bind_ok.1 hp
      cases hp
      exact .inl rfl
    | createWebhook =>
      obtain ⟨service, hcreate, hp⟩ := bind_ok.1 hp
      obtain ⟨_, -, hp⟩ := bind_ok.1 hp
      cases hp
      exact .inl (congrArg (Scheduler.mk · s.schedules) (Service.create_ok hcreate).1)
    | rotateSecret =>
      obtain ⟨service, hrotate, hp⟩ := bind_ok.1 hp
      obtain ⟨_, -, hp⟩ := bind_ok.1 hp
      cases hp
      exact .inl (congrArg (Scheduler.mk · s.schedules) (Service.rotateSecret_ok hrotate).1)
    | deleteWebhook =>
      obtain ⟨service, hdelete, hp⟩ := bind_ok.1 hp
      cases hp
      exact .inl (congrArg (Scheduler.mk · s.schedules) (Service.delete_ok hdelete).1)
    | redeliver deliveryId =>
      obtain ⟨service, hredeliver, hp⟩ := bind_ok.1 hp
      obtain ⟨_, -, hp⟩ := bind_ok.1 hp
      cases hp
      exact .inl (congrArg (Scheduler.mk · s.schedules) (Service.redeliver_row hredeliver).1)
    | op op =>
      obtain ⟨⟨service, answer⟩, hserve, hp⟩ := bind_ok.1 hp
      cases hp
      refine .inr ⟨_, rfl, congrArg (Scheduler.mk · s.schedules) ?_⟩
      have hdb := Service.step_db api.runs s.service now op
      rw [show s.service.step api.runs now (.op op) = service from congrArg (orElse s.service) hserve] at hdb
      exact hdb
    | createSchedule spec createdBy scheduleId =>
      obtain ⟨⟨schedules, row, created⟩, hupsert, hp⟩ := bind_ok.1 hp
      cases hp
      refine .inr ⟨_, rfl, ?_⟩
      show _ = orElse s.scheduler (s.scheduler.scheduling _ (api.schedules.upsert s.schedules spec createdBy scheduleId now))
      rw [hupsert]
      rfl
    | updateSchedule scheduleId change =>
      obtain ⟨schedules, hupdate, hp⟩ := bind_ok.1 hp
      obtain ⟨_, -, hp⟩ := bind_ok.1 hp
      cases hp
      refine .inr ⟨_, rfl, ?_⟩
      show _ = orElse s.scheduler (s.scheduler.scheduling id (api.schedules.update s.schedules tenantId scheduleId change now))
      rw [hupdate]
      rfl
    | deleteSchedule scheduleId =>
      obtain ⟨schedules, hdelete, hp⟩ := bind_ok.1 hp
      cases hp
      refine .inr ⟨_, rfl, ?_⟩
      show _ = orElse s.scheduler (s.scheduler.scheduling id (ScheduleStore.delete s.schedules tenantId scheduleId))
      rw [hdelete]
      rfl
    | fire scheduleId at_ runId fault =>
      obtain ⟨⟨scheduler, fired⟩, hfire, hp⟩ := bind_ok.1 hp
      cases hp
      refine .inr ⟨_, rfl, ?_⟩
      show _ = orElse s.scheduler (s.scheduler.fire api.schedules tenantId scheduleId at_ runId fault now)
      rw [hfire]
      rfl

/-- **The deployment refines its scheduler.**  What happens does to runs and schedules what one
operation of the scheduler does, or only purges runs. -/
theorem act_scheduler (api : TenantApi) (s : Stores) (now : Instant) (act : StoresAct) :
    ((s.act api now act).schedules = s.schedules ∧
      ∀ runId row, (s.act api now act).service.db.run? runId = some row → s.service.db.run? runId = some row) ∨
    ∃ op, act.op? = some op ∧ (s.act api now act).scheduler = s.scheduler.step api.schedules now op := by
  have unmoved : ∀ {s' : Stores}, s'.scheduler = s.scheduler →
      s'.schedules = s.schedules ∧ ∀ runId row, s'.service.db.run? runId = some row → s.service.db.run? runId = some row := by
    intro s' hsame
    obtain ⟨hdb, hschedules⟩ := Scheduler.mk.inj hsame
    exact ⟨hschedules, fun runId row hr => hdb ▸ hr⟩
  cases act with
  | request tenantId request => exact (request_scheduler api s tenantId now request).imp_left unmoved
  | call call =>
    cases call with
    | op op => exact .inr ⟨_, rfl, congrArg (Scheduler.mk · s.schedules) (Service.step_db api.runs s.service now op)⟩
    | _ =>
      refine .inl (unmoved (congrArg (Scheduler.mk · s.schedules) (Service.step_quiet api.runs s.service now _ ?_).1))
      intro op he
      cases he
  | fireDue held runId fault =>
    refine .inr ⟨_, rfl, ?_⟩
    unfold Stores.act Scheduler.step Scheduler.perform
    dsimp only
    cases s.scheduler.fireDue api.schedules held runId fault now <;> rfl
  | deleteRuns gone =>
    left
    unfold Stores.act
    dsimp only
    split
    · exact ⟨rfl, fun _ _ => id⟩
    · next db hdelete =>
      obtain ⟨_, -, hdelete⟩ := bind_ok.1 hdelete
      cases hdelete
      refine ⟨rfl, fun runId row hr => ?_⟩
      obtain ⟨hm, rfl⟩ := Table.find?_eq_some.1 hr
      exact Table.find?_of_mem (Table.mem_erase.1 hm).1
  | removeArtifacts artifactIds => exact .inl ⟨rfl, fun _ _ => id⟩

end

/-! ## What an operation makes of them -/

section
variable {store : ScheduleStore} {s : Scheduler} {now : Instant} {op : ScheduleOp} {row row' : ScheduleRow}

/-- Whom a schedule acts for, and who made it, stay. -/
theorem RowChange.owner (keeps : store.KeepsTenant) (settled : store.KeepsPrincipal) (h : RowChange store now op row row') :
    row'.OwnedAs row := by
  cases h with
  | @updated _ spec _ _ _ checked =>
    refine ⟨updated_tenant keeps checked, ?_, rfl⟩
    have hwrote : (store.updatedRow row spec now).onBehalfOf = row.onBehalfOf := by
      obtain ⟨fields, valid, hfields, hvalid, rfl⟩ := checked_ok checked
      rw [ScheduleStore.updatedRow_eq]
      exact (settled fields valid hvalid).trans (merged_fields hfields).2.2.1
    show ScheduleRow.column (· == ·) row.onBehalfOf (store.updatedRow row spec now).onBehalfOf row.onBehalfOf = row.onBehalfOf
    unfold ScheduleRow.column
    rw [hwrote, ite_self]
  | succeeded => exact ⟨rfl, rfl, rfl⟩
  | failed =>
    unfold ScheduleStore.failureRow
    dsimp only
    split <;> exact ⟨rfl, rfl, rfl⟩

/-- Only an upsert makes a schedule. -/
theorem Scheduler.step_ids {scheduleId : String} (hop : ∀ spec createdBy id, op ≠ .upsert spec createdBy id)
    (h : (s.step store now op).schedules.find? scheduleId = some row') : ∃ row, s.schedules.find? scheduleId = some row := by
  unfold Scheduler.step at h
  cases hp : s.perform store now op with
  | error e =>
    rw [hp] at h
    exact ⟨row', h⟩
  | ok p =>
    obtain ⟨s', fired⟩ := p
    rw [hp, orElse_ok] at h
    have written : ∀ {row₁ row₂ : ScheduleRow}, s.schedules.find? row₁.scheduleId = some row₁ →
        row₂.scheduleId = row₁.scheduleId → s'.schedules = s.schedules.put row₂ →
        ∃ row, s.schedules.find? scheduleId = some row := by
      intro row₁ row₂ hrow hid he
      rw [he] at h
      rcases Table.of_find?_put hrow hid h with h | ⟨h, -⟩ <;> exact ⟨_, h⟩
    cases op with
    | upsert spec createdBy id => exact absurd rfl (hop spec createdBy id)
    | update tenantId id change =>
      obtain ⟨row, spec, hrow, -, hs, -⟩ := perform_update hp
      obtain ⟨hfound, -⟩ := ScheduleStore.row_ok.1 hrow
      have hbefore : s.schedules.find? row.scheduleId = some row := by rw [Table.key_of_find? hfound, hfound]
      refine written hbefore ?_ hs
      rfl
    | delete tenantId id =>
      obtain ⟨schedules, hdelete, hp⟩ := bind_ok.1 hp
      cases hp
      obtain ⟨row, -, hdelete⟩ := bind_ok.1 hdelete
      cases hdelete
      obtain ⟨hm, rfl⟩ := Table.find?_eq_some.1 h
      exact ⟨row', Table.find?_of_mem (Table.mem_erase.1 hm).1⟩
    | fire | fireDue =>
      rcases perform_fires rfl hp with he | ⟨row₁, row₂, hrow, he, hid, -⟩
      · exact ⟨row', he ▸ h⟩
      · exact written hrow hid he
    | op o =>
      cases hp
      exact ⟨row', h⟩

/-- A schedule after an operation: as it was, changed, or made by an upsert. -/
theorem Scheduler.step_schedule {scheduleId : String} (h : (s.step store now op).schedules.find? scheduleId = some row') :
    s.schedules.find? scheduleId = some row' ∨
      (∃ row, s.schedules.find? scheduleId = some row ∧ RowChange store now op row row') ∨
      ∃ spec createdBy checked, op = .upsert spec createdBy scheduleId ∧ store.checked (some spec) = .ok checked ∧
        row' = store.createdRow checked createdBy scheduleId now := by
  by_cases hop : ∃ spec createdBy id, op = .upsert spec createdBy id
  · obtain ⟨spec, createdBy, id, rfl⟩ := hop
    unfold Scheduler.step at h
    cases hp : s.perform store now (.upsert spec createdBy id) with
    | error e =>
      rw [hp] at h
      exact .inl h
    | ok p =>
      obtain ⟨⟨schedules, row, created⟩, hupsert, he⟩ := bind_ok.1 hp
      rw [hp] at h
      cases he
      obtain ⟨checked, hchecked, -, ⟨-, rfl, -⟩ | ⟨-, rfl, hfree, rfl, -⟩⟩ := ScheduleStore.upsert_cases hupsert
      · exact .inl h
      · have h : (s.schedules.insert (store.createdRow checked createdBy id now)).find? scheduleId = some row' := h
        rw [Table.find?_insert hfree] at h
        split at h
        · next hid =>
          cases h
          have hid : id = scheduleId := hid
          subst hid
          exact .inr (.inr ⟨spec, createdBy, checked, rfl, hchecked, rfl⟩)
        · exact .inl h
  · rcases Scheduler.step_row h with h' | h' | ⟨hnone, -⟩
    · exact .inl h'
    · exact .inr (.inl h')
    · obtain ⟨row, hrow⟩ := Scheduler.step_ids (fun spec createdBy id he => hop ⟨spec, createdBy, id, he⟩) h
      rw [hnone] at hrow
      cases hrow

/-- A run keeps its tenant, its idempotency key and whom it acts for. -/
theorem Change.onBehalfOf {store : RunStore} {op : Op} {row row' : RunRow} (h : Change store now op row row') :
    row'.onBehalfOf = row.onBehalfOf := by
  cases h with
  | beat running holder => unfold RunRow.saved; split <;> rfl
  | _ => rfl

/-- A run after an operation: one before it, or one a start or a fire has started. -/
theorem Scheduler.step_run {runId : String} {run' : RunRow} (h : (s.step store now op).db.run? runId = some run') :
    (∃ run, s.db.run? runId = some run ∧ run'.runId = run.runId ∧ run'.tenantId = run.tenantId ∧
        run'.idempotencyKey = run.idempotencyKey ∧ run'.onBehalfOf = run.onBehalfOf) ∨
      ∃ start queue, run' = startedRow start queue now ∧ ((∃ strict, op = .op (.start start queue strict)) ∨
        ∃ row fireTime id, s.schedules.find? row.scheduleId = some row ∧ start = fireStart store.calendar row fireTime id) := by
  have applied : ∀ {o : Op}, (AgentRuns.apply store.runs s.db now o).run? runId = some run' →
      (∃ run, s.db.run? runId = some run ∧ run'.runId = run.runId ∧ run'.tenantId = run.tenantId ∧
        run'.idempotencyKey = run.idempotencyKey ∧ run'.onBehalfOf = run.onBehalfOf) ∨
      ∃ start queue strict, run' = startedRow start queue now ∧ o = .start start queue strict := by
    intro o h
    rcases apply_run h with hsame | ⟨run, hrun, hchange, -⟩ | ⟨-, start, queue, strict, rfl, rfl, -⟩
    · exact .inl ⟨run', hsame, rfl, rfl, rfl, rfl⟩
    · obtain ⟨hid, htenant, -, -, hkey⟩ := hchange.same
      exact .inl ⟨run, hrun, hid, htenant, hkey, hchange.onBehalfOf⟩
    · exact .inr ⟨start, queue, strict, rfl, rfl⟩
  unfold Scheduler.step at h
  cases hp : s.perform store now op with
  | error e =>
    rw [hp] at h
    exact .inl ⟨run', h, rfl, rfl, rfl, rfl⟩
  | ok p =>
    obtain ⟨s', fired⟩ := p
    rw [hp, orElse_ok] at h
    cases op with
    | upsert | update | delete =>
      obtain ⟨_, -, hp⟩ := bind_ok.1 hp
      cases hp
      exact .inl ⟨run', h, rfl, rfl, rfl, rfl⟩
    | op o =>
      cases hp
      refine (applied h).imp_right ?_
      rintro ⟨start, queue, strict, hrun, rfl⟩
      exact ⟨start, queue, hrun, .inl ⟨strict, rfl⟩⟩
    | fire | fireDue =>
      obtain ⟨rfl, -⟩ | ⟨row, fault, hrow, hfire⟩ := perform_fire rfl hp
      · exact .inl ⟨run', h, rfl, rfl, rfl, rfl⟩
      obtain ⟨_, -, rfl⟩ | ⟨db, run, created, hstart, rfl, -⟩ := fireRow_ok hfire
      · exact .inl ⟨run', h, rfl, rfl, rfl, rfl⟩
      · rw [← apply_start hstart] at h
        refine (applied h).imp_right ?_
        rintro ⟨start, queue, strict, hrun, he⟩
        cases he
        exact ⟨_, _, hrun, .inr ⟨row, _, _, hrow, rfl⟩⟩

end

/-! ## What the checks let through -/

section
variable {lib : Libraries} {who : Caller} {s : Stores} {request : Request}

theorem requireTenant_ok {tenantId : String} (h : who.requireTenant tenantId = .ok ()) : tenantId = who.tenantId :=
  not_not.1 (refuse_ok.1 h)

theorem requireMayActFor_ok {principal : Option String} (h : who.requireMayActFor lib principal = .ok ()) :
    ∀ p ∈ principal, who.credential.mayActFor p = true := by
  intro p hp
  cases hp
  have h : refuse (who.credential.mayActFor p = false) _ = .ok () := h
  simpa using refuse_ok.1 h

theorem administered_ok {scheduleId : String} (h : s.administered lib who scheduleId = .ok ()) :
    ∃ row, s.schedules.find? scheduleId = some row ∧ row.tenantId = who.tenantId ∧
      who.credential.mayActFor row.onBehalfOf = true := by
  obtain ⟨row, hrow, h⟩ := bind_ok.1 h
  obtain ⟨hfound, hmine⟩ := ScheduleStore.row_ok.1 hrow
  exact ⟨row, hfound, hmine, requireMayActFor_ok h _ rfl⟩

/-- What a request that was let through names of tenants and principals. -/
def Caller.Rightful (who : Caller) (request : Request) : Prop :=
  (∀ start queue strict, request = .op (.start start queue strict) → start.tenantId = who.tenantId ∧
    ∀ p ∈ start.onBehalfOf, who.credential.mayActFor p = true) ∧
  ∀ spec createdBy scheduleId, request = .createSchedule spec createdBy scheduleId → spec.tenantId = who.tenantId ∧
    createdBy = who.principal ∧ who.credential.mayActFor spec.onBehalfOf = true

theorem signs_rightful (h : s.checks lib who request = .ok ()) : who.Rightful (who.signs request) := by
  constructor
  · intro start queue strict he
    cases request with
    | op o =>
      cases o with
      | start started =>
        cases he
        obtain ⟨_, htenant, h⟩ := bind_ok.1 h
        exact ⟨requireTenant_ok htenant, requireMayActFor_ok h⟩
      | _ => cases he
    | _ => cases he
  · intro spec createdBy scheduleId he
    cases request with
    | createSchedule =>
      cases he
      obtain ⟨_, htenant, h⟩ := bind_ok.1 h
      exact ⟨requireTenant_ok htenant, rfl, requireMayActFor_ok h _ rfl⟩
    | _ => cases he

theorem signs_administers : (who.signs request).administers = request.administers := by
  cases request <;> rfl

theorem checks_administers {scheduleId : String} (h : s.checks lib who request = .ok ())
    (hnames : request.administers = some scheduleId) : s.administered lib who scheduleId = .ok () := by
  cases request with
  | updateSchedule | deleteSchedule | fire =>
    cases hnames
    exact h
  | _ => cases hnames

end

/-! ## Every run -/

namespace Delegating

variable {api : TenantApi} {s : Delegating} {now : Instant} {act : DelegatingAct}

/-- What the steps keep. -/
structure Inv (api : TenantApi) (s : Delegating) : Prop where
  rightful : ∀ x ∈ s.admitted, x.1.Rightful x.2
  minted : ∀ scheduleId row, s.stores.schedules.find? scheduleId = some row → scheduleId ∈ s.minted
  administered : ∀ x ∈ s.admitted, ∀ scheduleId, x.2.administers = some scheduleId → scheduleId ∈ s.minted ∧
    ∀ row, s.stores.schedules.find? scheduleId = some row →
      row.tenantId = x.1.tenantId ∧ x.1.credential.mayActFor row.onBehalfOf = true
  schedules : ∀ scheduleId row, s.stores.schedules.find? scheduleId = some row → s.Made row
  runs : ∀ runId row p, s.stores.service.db.run? runId = some row → row.onBehalfOf = some p → s.Vouched api row p

theorem inv_empty (api : TenantApi) : Inv api empty where
  rightful := fun _ h => (by cases h)
  minted := fun _ _ h => (by cases h)
  administered := fun _ h => (by cases h)
  schedules := fun _ _ h => (by cases h)
  runs := fun _ _ _ h => (by cases h)

/-- The tables change as by an operation that was let through. -/
theorem Inv.moves (keeps : api.schedules.KeepsTenant) (settled : api.schedules.KeepsPrincipal) (h : s.Inv api) {op : ScheduleOp}
    {stores : Stores} {served : List Nat} {minted : List String}
    (hstores : stores.scheduler = s.stores.scheduler.step api.schedules now op)
    (hstart : ∀ start queue strict, op = .op (.start start queue strict) →
      ∃ who, (who, .op (.start start queue strict)) ∈ s.admitted)
    (hupsert : ∀ spec createdBy scheduleId, op = .upsert spec createdBy scheduleId → scheduleId ∉ s.minted ∧
      scheduleId ∈ minted ∧ ∃ who, (who, .createSchedule spec createdBy scheduleId) ∈ s.admitted)
    (hminted : s.minted ⊆ minted) : Inv api ⟨stores, s.admitted, served, minted⟩ := by
  have hschedules : ∀ {scheduleId row'}, stores.schedules.find? scheduleId = some row' →
      (s.stores.schedules.find? scheduleId = some row' ∨
        ∃ row, s.stores.schedules.find? scheduleId = some row ∧ row'.OwnedAs row ∧ row'.scheduleId = row.scheduleId) ∨
      ∃ spec createdBy checked, op = .upsert spec createdBy scheduleId ∧ api.schedules.checked (some spec) = .ok checked ∧
        row' = api.schedules.createdRow checked createdBy scheduleId now := by
    intro scheduleId row' hrow
    rw [show stores.schedules = _ from congrArg Scheduler.schedules hstores] at hrow
    rcases Scheduler.step_schedule hrow with hsame | ⟨row, hbefore, hchange⟩ | hmade
    · exact .inl (.inl hsame)
    · exact .inl (.inr ⟨row, hbefore, hchange.owner keeps settled, hchange.scheduleId⟩)
    · exact .inr hmade
  refine ⟨h.rightful, ?_, ?_, ?_, ?_⟩
  · intro scheduleId row' hrow
    rcases hschedules hrow with (hsame | ⟨row, hbefore, -⟩) | ⟨spec, createdBy, -, he, -⟩
    · exact hminted (h.minted scheduleId row' hsame)
    · exact hminted (h.minted scheduleId row hbefore)
    · exact (hupsert spec createdBy scheduleId he).2.1
  · intro x hx scheduleId hnames
    obtain ⟨hknown, hmay⟩ := h.administered x hx scheduleId hnames
    refine ⟨hminted hknown, fun row' hrow => ?_⟩
    rcases hschedules hrow with (hsame | ⟨row, hbefore, ⟨htenant, hprincipal, -⟩, -⟩) | ⟨spec, createdBy, -, he, -⟩
    · exact hmay row' hsame
    · rw [htenant, hprincipal]
      exact hmay row hbefore
    · exact absurd hknown (hupsert spec createdBy scheduleId he).1
  · intro scheduleId row' hrow
    rcases hschedules hrow with (hsame | ⟨row, hbefore, ⟨htenant, hprincipal, hmaker⟩, hid⟩) |
      ⟨spec, createdBy, checked, he, hchecked, rfl⟩
    · exact h.schedules scheduleId row' hsame
    · obtain ⟨who, spec, hin, hmine, hnamed, hmade, hmay⟩ := h.schedules scheduleId row hbefore
      refine ⟨who, spec, hid ▸ hin, hmine.trans htenant.symm, hnamed.trans hprincipal.symm, hmaker.trans hmade, ?_⟩
      rw [hprincipal]
      exact hmay
    · obtain ⟨-, -, who, hin⟩ := hupsert spec createdBy scheduleId he
      have hrightful : who.Rightful _ := h.rightful _ hin
      obtain ⟨htenant, rfl, hmay⟩ := hrightful.2 spec createdBy scheduleId rfl
      obtain ⟨fields, valid, hfields, hvalid, rfl⟩ := checked_ok hchecked
      cases hfields
      have hprincipal : valid.onBehalfOf = spec.onBehalfOf := settled spec valid hvalid
      refine ⟨who, spec, hin, ?_, hprincipal.symm, rfl, ?_⟩
      · exact htenant.symm.trans (keeps spec valid hvalid).symm
      · show who.credential.mayActFor valid.onBehalfOf = true
        rw [hprincipal]
        exact hmay
  · intro runId run' p hrun hacts
    rw [show stores.service.db = _ from congrArg Scheduler.db hstores] at hrun
    rcases Scheduler.step_run hrun with ⟨run, hbefore, hid, htenant, hkey, hsame⟩ |
      ⟨start, queue, rfl, ⟨strict, he⟩ | ⟨row, tick, id, hrow, rfl⟩⟩
    · obtain ⟨who, request, hin, hmine, hmay, hbrings⟩ := h.runs runId run p hbefore (hsame.symm.trans hacts)
      refine ⟨who, request, hin, hmine.trans htenant.symm, hmay, ?_⟩
      cases hbrings with
      | started starts names => exact .started (starts.trans hid.symm) names
      | fired key => exact .fired (hkey.trans key)
    · obtain ⟨who, hin⟩ := hstart start queue strict he
      obtain ⟨htenant, hmay⟩ := (h.rightful _ hin).1 start queue strict rfl
      exact ⟨who, _, hin, htenant.symm, hmay p hacts, .started rfl hacts⟩
    · obtain ⟨who, spec, hin, hmine, hnamed, -, hmay⟩ := h.schedules row.scheduleId row hrow
      cases hacts
      refine ⟨who, _, hin, hmine, hmay, ?_⟩
      rw [← hnamed]
      exact .fired rfl

/-- Schedules stay, and runs may go. -/
theorem Inv.purged (h : s.Inv api) {stores : Stores} {served : List Nat} {minted : List String}
    (hschedules : stores.schedules = s.stores.schedules)
    (hruns : ∀ runId row, stores.service.db.run? runId = some row → s.stores.service.db.run? runId = some row)
    (hminted : s.minted ⊆ minted) : Inv api ⟨stores, s.admitted, served, minted⟩ := by
  refine ⟨h.rightful, fun scheduleId row hrow => ?_, fun x hx scheduleId hnames => ?_, fun scheduleId row hrow => ?_,
    fun runId row p hrun hacts => h.runs runId row p (hruns runId row hrun) hacts⟩
  · exact hminted (h.minted scheduleId row (hschedules ▸ hrow))
  · obtain ⟨hknown, hmay⟩ := h.administered x hx scheduleId hnames
    exact ⟨hminted hknown, fun row hrow => hmay row (hschedules ▸ hrow)⟩
  · exact h.schedules scheduleId row (hschedules ▸ hrow)

/-- A request is let through. -/
theorem Inv.admits (h : s.Inv api) {who : Caller} {request : Request} (hrightful : who.Rightful request)
    (hnames : ∀ scheduleId, request.administers = some scheduleId → ∃ row, s.stores.schedules.find? scheduleId = some row ∧
      row.tenantId = who.tenantId ∧ who.credential.mayActFor row.onBehalfOf = true) :
    Inv api { s with admitted := s.admitted ++ [(who, request)] } := by
  refine ⟨fun x hx => ?_, h.minted, fun x hx scheduleId hname => ?_, fun scheduleId row hrow => ?_,
    fun runId row p hrun hacts => ?_⟩
  · rcases List.mem_append.1 hx with hx | hx
    · exact h.rightful x hx
    · cases List.mem_singleton.1 hx
      exact hrightful
  · rcases List.mem_append.1 hx with hx | hx
    · exact h.administered x hx scheduleId hname
    · cases List.mem_singleton.1 hx
      obtain ⟨row, hrow, hmine, hmay⟩ := hnames scheduleId hname
      refine ⟨h.minted scheduleId row hrow, fun row' hrow' => ?_⟩
      cases hrow.symm.trans hrow'
      exact ⟨hmine, hmay⟩
  · obtain ⟨who', spec, hin, hmade⟩ := h.schedules scheduleId row hrow
    exact ⟨who', spec, List.mem_append_left _ hin, hmade⟩
  · obtain ⟨who', request', hin, hvouched⟩ := h.runs runId row p hrun hacts
    exact ⟨who', request', List.mem_append_left _ hin, hvouched⟩

theorem Inv.serves (keeps : api.schedules.KeepsTenant) (settled : api.schedules.KeepsPrincipal) (h : s.Inv api) {who : Caller}
    {request : Request} {served : List Nat} (hin : (who, request) ∈ s.admitted)
    (hfresh : ∀ scheduleId ∈ request.mintsSchedule, scheduleId ∉ s.minted) :
    Inv api ⟨s.stores.act api now (.request who.tenantId request), s.admitted, served,
      request.mintsSchedule.toList ++ s.minted⟩ := by
  have hminted : s.minted ⊆ request.mintsSchedule.toList ++ s.minted := List.subset_append_right _ _
  rcases act_scheduler api s.stores now (.request who.tenantId request) with ⟨hschedules, hruns⟩ | ⟨op, hop, hstores⟩
  · exact h.purged hschedules hruns hminted
  · have hop : request.op? who.tenantId = some op := hop
    refine h.moves keeps settled hstores (fun start queue strict he => ?_) (fun spec createdBy scheduleId he => ?_) hminted
    · rw [he] at hop
      cases request with
      | op o =>
        cases hop
        exact ⟨who, hin⟩
      | _ => cases hop
    · rw [he] at hop
      cases request with
      | createSchedule =>
        cases hop
        exact ⟨hfresh _ rfl, List.mem_cons_self, who, hin⟩
      | _ => cases hop

theorem Inv.elsewhere (keeps : api.schedules.KeepsTenant) (settled : api.schedules.KeepsPrincipal) (h : s.Inv api)
    {act : StoresAct} (hnobody : act.inNobodysName = true) : Inv api { s with stores := s.stores.act api now act } := by
  rcases act_scheduler api s.stores now act with ⟨hschedules, hruns⟩ | ⟨op, hop, hstores⟩
  · exact h.purged hschedules hruns (List.Subset.refl _)
  · refine h.moves keeps settled hstores (fun start queue strict he => ?_) (fun spec createdBy scheduleId he => ?_)
      (List.Subset.refl _)
    · rw [he] at hop
      cases act with
      | request => cases hnobody
      | call call =>
        cases call with
        | op o =>
          cases hop
          cases hnobody
        | _ => cases hop
      | _ => cases hop
    · rw [he] at hop
      cases act with
      | request => cases hnobody
      | call call => cases call <;> cases hop
      | _ => cases hop

theorem Proper.fresh {i : Nat} {who : Caller} {request : Request} (h : s.Proper now (.serves i))
    (hi : s.admitted[i]? = some (who, request)) : ∀ scheduleId ∈ request.mintsSchedule, scheduleId ∉ s.minted := by
  intro scheduleId hmints hknown
  have h : s.admitted[i]?.all _ = true := h
  rw [hi, Option.all_some, Option.mem_def.1 hmints, Option.all_some, List.contains_iff_mem.2 hknown] at h
  cases h

theorem Inv.step (keeps : api.schedules.KeepsTenant) (settled : api.schedules.KeepsPrincipal) (h : s.Inv api)
    (hok : s.Proper now act) : Inv api (s.step api now act) := by
  cases act with
  | asks who request =>
    unfold Delegating.step
    dsimp only
    split
    · exact h
    · next hchecks =>
      refine h.admits (signs_rightful hchecks) fun scheduleId hnames => ?_
      rw [signs_administers] at hnames
      exact administered_ok (checks_administers hchecks hnames)
  | serves i =>
    unfold Delegating.step
    dsimp only
    split
    · exact h
    · next who request hi =>
      split
      · exact h
      · exact h.serves keeps settled (List.mem_of_getElem? hi) (hok.fresh hi)
  | elsewhere act => exact h.elsewhere keeps settled hok

theorem Inv.run (keeps : api.schedules.KeepsTenant) (settled : api.schedules.KeepsPrincipal) {t : Instant}
    {l : List (Instant × DelegatingAct)} (h : s.Inv api) (hl : Run.Admitted (Delegating.step api) Proper t s l) :
    Inv api (Run.after (Delegating.step api) s l) :=
  (Run.replay_ends hl).invariant' (Inv api) (fun _ _ _ hs hok => hs.step keeps settled hok) h

/-- An id that was given is kept, and brings no other schedule. -/
theorem owner_step (keeps : api.schedules.KeepsTenant) (settled : api.schedules.KeepsPrincipal) (hok : s.Proper now act)
    {scheduleId : String} (hknown : scheduleId ∈ s.minted) : scheduleId ∈ (s.step api now act).minted ∧
      ∀ row', (s.step api now act).stores.schedules.find? scheduleId = some row' →
        ∃ row, s.stores.schedules.find? scheduleId = some row ∧ row'.OwnedAs row := by
  have same : ∀ row', s.stores.schedules.find? scheduleId = some row' →
      ∃ row, s.stores.schedules.find? scheduleId = some row ∧ row'.OwnedAs row :=
    fun row' hrow => ⟨row', hrow, rfl, rfl, rfl⟩
  have acted : ∀ (act : StoresAct), (∀ spec createdBy, act.op? ≠ some (.upsert spec createdBy scheduleId)) →
      ∀ row', (s.stores.act api now act).schedules.find? scheduleId = some row' →
        ∃ row, s.stores.schedules.find? scheduleId = some row ∧ row'.OwnedAs row := by
    intro act hnot row' hrow
    rcases act_scheduler api s.stores now act with ⟨hschedules, -⟩ | ⟨op, hop, hstores⟩
    · exact same row' (hschedules ▸ hrow)
    · rw [show (s.stores.act api now act).schedules = _ from congrArg Scheduler.schedules hstores] at hrow
      rcases Scheduler.step_schedule hrow with hsame | ⟨row, hbefore, hchange⟩ | ⟨spec, createdBy, -, rfl, -⟩
      · exact same row' hsame
      · exact ⟨row, hbefore, hchange.owner keeps settled⟩
      · exact absurd hop (hnot spec createdBy)
  cases act with
  | asks who request =>
    unfold Delegating.step
    dsimp only
    split <;> exact ⟨hknown, same⟩
  | serves i =>
    unfold Delegating.step
    dsimp only
    split
    · exact ⟨hknown, same⟩
    · next who request hi =>
      split
      · exact ⟨hknown, same⟩
      · refine ⟨List.mem_append_right _ hknown, acted _ fun spec createdBy hop => ?_⟩
        have hfresh := hok.fresh hi
        cases request with
        | createSchedule =>
          cases hop
          exact hfresh _ rfl hknown
        | _ => cases hop
  | elsewhere act =>
    have hnobody : act.inNobodysName = true := hok
    refine ⟨hknown, acted act fun spec createdBy hop => ?_⟩
    cases act with
    | request => cases hnobody
    | call call => cases call <;> cases hop
    | _ => cases hop

end Delegating

/-- **Nobody acts as someone they may not act as.**  Of each run that acts as somebody, a caller of
its tenant who may act for them was let through with its start, or with the schedule that fired it.
Who made a schedule may act as its `on_behalf_of`, which stays as it was, whatever is done since.
And who was let through to change, delete or fire one may act as that when the route goes on. -/
theorem authority_kept (api : TenantApi) (keeps : api.schedules.KeepsTenant) (settled : api.schedules.KeepsPrincipal)
    {t : Instant} {l : List (Instant × DelegatingAct)}
    (hl : Run.Admitted (Delegating.step api) Delegating.Proper t Delegating.empty l) :
    let s := Run.after (Delegating.step api) Delegating.empty l
    (∀ runId row p, s.stores.service.db.run? runId = some row → row.onBehalfOf = some p → s.Vouched api row p) ∧
    (∀ scheduleId row, s.stores.schedules.find? scheduleId = some row → s.Made row ∧
      ∀ l', Run.Admitted (Delegating.step api) Delegating.Proper (Run.ends t l) s l' → ∀ row',
        (Run.after (Delegating.step api) s l').stores.schedules.find? scheduleId = some row' → row'.OwnedAs row) ∧
    ∀ who request scheduleId row, (who, request) ∈ s.admitted → request.administers = some scheduleId →
      s.stores.schedules.find? scheduleId = some row →
        row.tenantId = who.tenantId ∧ who.credential.mayActFor row.onBehalfOf = true := by
  intro s
  have hinv : s.Inv api := (Delegating.inv_empty api).run keeps settled hl
  refine ⟨hinv.runs, fun scheduleId row hrow => ⟨hinv.schedules scheduleId row hrow, fun l' hl' => ?_⟩,
    fun who request scheduleId row hin hnames => (hinv.administered _ hin scheduleId hnames).2 row⟩
  refine ((Run.replay_ends hl').invariant' (fun s' => scheduleId ∈ s'.minted ∧ ∀ row',
    s'.stores.schedules.find? scheduleId = some row' → row'.OwnedAs row) ?_ ?_).2
  · rintro s' now act ⟨hknown, howner⟩ hok
    obtain ⟨hknown', hback⟩ := Delegating.owner_step keeps settled hok hknown
    refine ⟨hknown', fun row' hrow' => ?_⟩
    obtain ⟨before, hbefore, htenant, hprincipal, hmaker⟩ := hback row' hrow'
    obtain ⟨htenant₀, hprincipal₀, hmaker₀⟩ := howner before hbefore
    exact ⟨htenant.trans htenant₀, hprincipal.trans hprincipal₀, hmaker.trans hmaker₀⟩
  · refine ⟨hinv.minted scheduleId row hrow, fun row' hrow' => ?_⟩
    cases hrow.symm.trans hrow'
    exact ⟨rfl, rfl, rfl⟩

/-- A key that may act as one person makes a schedule that acts as them, and the ticker fires it. -/
def delegatedWork : List (Instant × DelegatingAct) :=
  [(0, .asks ⟨⟨"service:app", "service", ["u"]⟩, "t"⟩ (.createSchedule smallSpec "" "s")), (0, .serves 0),
    (3700, .elsewhere (.fireDue [] "r" none))]

/-- The run acts as them. -/
theorem authority_kept_delegated : ∃ row,
    (Run.after (Delegating.step smallTenants) Delegating.empty delegatedWork).stores.service.db.run? "r" = some row ∧
      (Run.after (Delegating.step smallTenants) Delegating.empty delegatedWork).Vouched smallTenants row "u" := by
  have hs : ((Run.after (Delegating.step smallTenants) Delegating.empty delegatedWork).stores.service.db.run? "r").any
      (·.onBehalfOf = some "u") = true := by decide +kernel
  obtain ⟨row, hrow, hacts⟩ := (Option.any_eq_true _ _).1 hs
  have hl : Run.Admitted (Delegating.step smallTenants) Delegating.Proper 0 Delegating.empty delegatedWork := by decide +kernel
  have settled : smallTenants.schedules.KeepsPrincipal := by
    rintro fields spec ⟨⟩
    rfl
  exact ⟨row, hrow, (authority_kept smallTenants smallTenants_documented.keeps settled hl).1 "r" row "u" hrow
    (of_decide_eq_true hacts)⟩

end AgentRuns
