import AgentRuns.TenantOutbox
import AgentRuns.TenantSchedules
import AgentRuns.Paging

/-!
# Tenants do not see each other

`Stores.perform` is what the routes do with a tenant's request, `s.of tenantId` the tenant's rows of every table.  A request works on
the tenant's rows as it does on all of them:

    (s.of tenantId).perform request  =  s.perform request, of which `·.of tenantId` is seen        (Stores.perform_of)

So over two states with the same rows of the tenant any requests answer the same, and leave the same rows of the tenant
(`TenantIsolated.runs`); another tenant's rows are as they were (`TenantIsolated.others`).  The exception is a start that names a
run of another tenant (`TenantIsolated.alien`).
-/

namespace AgentRuns

open Relational Fallible Timed

/-! ## Reading -/

/-- `RunStore.get`. -/
def Database.get (db : Database) (tenantId runId : String) (now : Instant) : Except ServiceError RunRecord :=
  match db.one tenantId runId with
  | none => .error (.notFound s!"no run {runId}")
  | some row => .ok (record row now)

/-- `ArtifactStore.get`. -/
def Database.artifact (db : Database) (tenantId artifactId : String) : Except ServiceError ArtifactRow :=
  match (db.artifacts.find? artifactId).filter (·.tenantId = tenantId) with
  | none => .error (.notFound s!"no artifact {artifactId}")
  | some row => .ok row

/-- A delivery of the tenant's. -/
def Service.delivery (s : Service) (tenantId deliveryId : String) : Except ServiceError DeliveryRow :=
  match (s.deliveries.find? deliveryId).filter (s.ofTenant tenantId) with
  | none => .error (.notFound s!"no delivery {deliveryId}")
  | some row => .ok row

/-! ## The requests -/

/-- What the routes call. -/
structure TenantApi where
  schedules : ScheduleStore
  collation : Collation
  datetimes : Datetimes

def TenantApi.runs (api : TenantApi) : RunStore := api.schedules.runs

/-- A request of a tenant: to one of the routes on runs, events and artifacts, to a listing, to the routes on schedules, or to those
on subscriptions and deliveries.  What the service mints for it is given: ids, secrets, what the database raises of a fire. -/
inductive Request where
  | op (op : Op)
  | run (runId : String)
  | events (runId : String) (after limit : Nat)
  | artifact (artifactId : String)
  | page (endpoint : Endpoint) (limit : PageLimit) (cursor : Option String)
  | createSchedule (spec : ScheduleSpec) (createdBy scheduleId : String)
  | schedule (scheduleId : String)
  | updateSchedule (scheduleId : String) (change : ScheduleUpdate)
  | deleteSchedule (scheduleId : String)
  | fire (scheduleId : String) (at_ : Option AwareDatetime) (runId : String) (fault : Option AgentError)
  | createWebhook (url : String) (events : List WebhookEvent) (createdBy webhookId secret : String)
  | webhook (webhookId : String)
  | rotateSecret (webhookId secret : String) (overlap : Rat)
  | deleteWebhook (webhookId : String)
  | redeliver (deliveryId : String)

/-- What it is answered. -/
inductive Told (api : TenantApi) (tenantId : String) where
  | answer (answer : Answer)
  | run (run : RunRecord)
  | events (entries : List RunEventEntry) (status : RunStatus)
  | artifact (row : ArtifactRow)
  | page (endpoint : Endpoint) (items : List (endpoint.listing api.collation tenantId).Item) (next : Option String)
  | schedule (row : ScheduleRow) (created : Bool)
  | fired (fired : Fired)
  | webhook (webhook : Webhook) (secret : Option String)
  | delivery (record : DeliveryRecord)
  | done

namespace Stores

/-- A new deployment. -/
def empty : Stores := ⟨Service.empty, Table.empty⟩

def scheduler (s : Stores) : Scheduler := ⟨s.service.db, s.schedules⟩

/-- The routes, for a credential of the tenant.  A row that a request changed is answered as it left it. -/
def perform (api : TenantApi) (tenantId : String) (s : Stores) (now : Instant) (request : Request) :
    Except ServiceError (Stores × Told api tenantId) :=
  match request with
  | .op op => do
    let (service, answer) ← s.service.serve api.runs now op
    .ok ({ s with service := service }, .answer answer)
  | .run runId => do
    let run ← s.service.db.get tenantId runId now
    .ok (s, .run run)
  | .events runId after limit => do
    let (entries, status) ← Database.readEvents s.service.db s.service.db tenantId runId after limit
    .ok (s, .events entries status)
  | .artifact artifactId => do
    let row ← s.service.db.artifact tenantId artifactId
    .ok (s, .artifact row)
  | .page endpoint limit cursor => do
    let (items, next) ← (endpoint.listing api.collation tenantId).request api.datetimes s limit cursor
    .ok (s, .page endpoint items next)
  | .createSchedule spec createdBy scheduleId => do
    let (schedules, row, created) ← api.schedules.upsert s.schedules spec createdBy scheduleId now
    .ok ({ s with schedules := schedules }, .schedule row created)
  | .schedule scheduleId => do
    let row ← ScheduleStore.row s.schedules tenantId scheduleId
    .ok (s, .schedule row false)
  | .updateSchedule scheduleId change => do
    let schedules ← api.schedules.update s.schedules tenantId scheduleId change now
    let row ← ScheduleStore.row schedules tenantId scheduleId
    .ok ({ s with schedules := schedules }, .schedule row false)
  | .deleteSchedule scheduleId => do
    let schedules ← ScheduleStore.delete s.schedules tenantId scheduleId
    .ok ({ s with schedules := schedules }, .done)
  | .fire scheduleId at_ runId fault => do
    let (scheduler, fired) ← s.scheduler.fire api.schedules tenantId scheduleId at_ runId fault now
    .ok (⟨{ s.service with db := scheduler.db }, scheduler.schedules⟩, .fired fired)
  | .createWebhook url events createdBy webhookId secret => do
    let service ← s.service.create tenantId url events createdBy webhookId secret now
    let hook ← service.subscription tenantId webhookId
    .ok ({ s with service := service }, .webhook hook.listed (some hook.secret))
  | .webhook webhookId => do
    let hook ← s.service.subscription tenantId webhookId
    .ok (s, .webhook hook.listed none)
  | .rotateSecret webhookId secret overlap => do
    let service ← s.service.rotateSecret tenantId webhookId secret overlap now
    let hook ← service.subscription tenantId webhookId
    .ok ({ s with service := service }, .webhook hook.listed (some hook.secret))
  | .deleteWebhook webhookId => do
    let service ← s.service.delete tenantId webhookId
    .ok ({ s with service := service }, .done)
  | .redeliver deliveryId => do
    let service ← s.service.redeliver tenantId deliveryId now
    let row ← service.delivery tenantId deliveryId
    .ok ({ s with service := service }, .delivery row.listed)

/-- The tables after a request; one that is refused rolls back. -/
def step (api : TenantApi) (tenantId : String) (s : Stores) (now : Instant) (request : Request) : Stores :=
  orElse s (s.perform api tenantId now request)

/-- What the tenant sees of it. -/
def told (api : TenantApi) (tenantId : String) (s : Stores) (now : Instant) (request : Request) :
    List (Except ServiceError (Told api tenantId)) := [answerOf (s.perform api tenantId now request)]

/-- The rows of a tenant. -/
def of (s : Stores) (tenantId : String) : Stores := ⟨s.service.of tenantId, s.schedules.only (·.tenantId = tenantId)⟩

end Stores

/-! ## Whose a request is -/

namespace Request

/-- The routes take a start, and a new schedule, for the credential's own tenant (`require_tenant`), and name it to the stores. -/
def By (tenantId : String) : Request → Prop
  | op o => o.By tenantId
  | createSchedule spec _ _ => spec.tenantId = tenantId
  | _ => True

/-- The run id a start names. -/
def named : Request → Option String
  | op o => o.named
  | _ => none

/-- The id minted for it is not of a row of another tenant. -/
def Fresh (tenantId : String) (s : Stores) : Request → Prop
  | op o => o.Fresh tenantId s.service.db
  | createSchedule _ _ scheduleId => ∀ row, s.schedules.find? scheduleId = some row → row.tenantId = tenantId
  | fire _ _ runId _ => s.service.db.alien tenantId runId = false
  | createWebhook _ _ _ webhookId _ => ∀ hook, s.service.webhooks.find? webhookId = some hook → hook.tenantId = tenantId
  | _ => True

end Request

/-! ## A request works on the tenant's rows -/

/-- What the packages are documented to do: an id is that of its parts alone, and the contracts leave a schedule its tenant. -/
structure TenantApi.Documented (api : TenantApi) : Prop where
  resolutions : Function.Injective (api.runs.lib.stableId "res_")
  deliveries : Function.Injective (api.runs.lib.stableId "dlv_")
  keeps : api.schedules.KeepsTenant

section
variable {api : TenantApi} {tenantId other : String} {s s' : Stores} {now : Instant} {request : Request}

theorem get_of (db : Database) (tenantId runId : String) (now : Instant) :
    (db.of tenantId).get tenantId runId now = db.get tenantId runId now := by
  unfold Database.get
  rw [Database.one_of]

theorem artifact_of (db : Database) (tenantId artifactId : String) :
    (db.of tenantId).artifact tenantId artifactId = db.artifact tenantId artifactId := by
  unfold Database.artifact
  rw [show (db.of tenantId).artifacts.find? artifactId = _ from Table.find?_only _ _ _, Option.filter_filter]
  simp

theorem readEvents_of {lib : Libraries} {db : Database} (ht : db.Tenanted lib) (tenantId runId : String) (after limit : Nat) :
    Database.readEvents (db.of tenantId) (db.of tenantId) tenantId runId after limit =
      Database.readEvents db db tenantId runId after limit := by
  unfold Database.readEvents
  rw [Database.one_of]
  cases hone : db.one tenantId runId with
  | none => rfl
  | some row =>
    unfold Database.eventsAfter
    rw [Database.log_of ht ⟨row, Database.one_eq_some.1 hone⟩]

theorem delivery_of (s : Service) (tenantId deliveryId : String) :
    (s.of tenantId).delivery tenantId deliveryId = s.delivery tenantId deliveryId := by
  unfold Service.delivery
  rw [Service.find?_deliveries_of, Service.ofTenant_of, Option.filter_filter]
  simp

theorem filter_part {α : Type} (p q : α → Bool) (rows : List α) :
    (rows.filter p).filter (fun a => p a && q a) = rows.filter fun a => p a && q a := by
  rw [List.filter_filter]
  refine List.filter_congr fun a _ => ?_
  rw [Bool.and_eq_left_iff_imp]
  exact fun h => (Bool.and_eq_true_iff.1 h).1

/-- A listing is of the tenant's rows. -/
theorem listing_rows_of (collation : Collation) (s : Stores) (tenantId : String) (endpoint : Endpoint) :
    (endpoint.listing collation tenantId).rows (s.of tenantId) = (endpoint.listing collation tenantId).rows s := by
  cases endpoint with
  | runs filter => exact congrArg Except.ok (filter_part _ _ _)
  | resolutions runId =>
    show (match (s.service.db.of tenantId).one tenantId runId with | none => _ | some _ => _) =
      match s.service.db.one tenantId runId with | none => _ | some _ => _
    rw [Database.one_of]
    cases s.service.db.one tenantId runId with
    | none => rfl
    | some row => exact congrArg Except.ok (filter_part _ _ _)
  | schedules filter => exact congrArg Except.ok (filter_part _ _ _)
  | webhooks =>
    refine congrArg Except.ok (List.filter_filter.trans (List.filter_congr fun row _ => ?_))
    exact Bool.and_self _
  | deliveries filter =>
    show Except.ok ((s.service.deliveries.rows.filter (s.service.ofTenant tenantId)).filter fun row =>
      (s.service.of tenantId).ofTenant tenantId row && filter.takes row) = _
    rw [Service.ofTenant_of]
    exact congrArg Except.ok (filter_part _ _ _)

theorem request_of (api : TenantApi) (s : Stores) (tenantId : String) (endpoint : Endpoint) (limit : PageLimit)
    (cursor : Option String) : (endpoint.listing api.collation tenantId).request api.datetimes (s.of tenantId) limit cursor =
      (endpoint.listing api.collation tenantId).request api.datetimes s limit cursor := by
  unfold Listing.request Listing.page
  rw [listing_rows_of]

/-- **A request works on the tenant's rows alone.** -/
theorem Stores.perform_of (hapi : api.Documented) (ht : s.service.Tenanted api.runs.lib) (hby : request.By tenantId)
    (hfresh : request.Fresh tenantId s) (hnamed : request.named.all (fun runId => !s.service.db.alien tenantId runId) = true) :
    (s.of tenantId).perform api tenantId now request = seen (·.of tenantId) (s.perform api tenantId now request) := by
  cases request with
  | op op =>
    show ((s.service.of tenantId).serve api.runs now op >>= _) = _
    rw [Service.serve_of hapi.resolutions hapi.deliveries ht hby hnamed hfresh]
    show _ = seen _ (s.service.serve api.runs now op >>= _)
    cases s.service.serve api.runs now op <;> rfl
  | run runId =>
    show ((s.service.db.of tenantId).get tenantId runId now >>= _) = seen _ (s.service.db.get tenantId runId now >>= _)
    rw [get_of]
    cases s.service.db.get tenantId runId now <;> rfl
  | events runId after limit =>
    show (Database.readEvents (s.service.db.of tenantId) (s.service.db.of tenantId) tenantId runId after limit >>= _) =
      seen _ (Database.readEvents s.service.db s.service.db tenantId runId after limit >>= _)
    rw [readEvents_of ht.db]
    cases Database.readEvents s.service.db s.service.db tenantId runId after limit <;> rfl
  | artifact artifactId =>
    show ((s.service.db.of tenantId).artifact tenantId artifactId >>= _) =
      seen _ (s.service.db.artifact tenantId artifactId >>= _)
    rw [artifact_of]
    cases s.service.db.artifact tenantId artifactId <;> rfl
  | page endpoint limit cursor =>
    show ((endpoint.listing api.collation tenantId).request api.datetimes (s.of tenantId) limit cursor >>= _) =
      seen _ ((endpoint.listing api.collation tenantId).request api.datetimes s limit cursor >>= _)
    rw [request_of]
    cases (endpoint.listing api.collation tenantId).request api.datetimes s limit cursor <;> rfl
  | createSchedule spec createdBy scheduleId =>
    show (api.schedules.upsert (s.schedules.only _) spec createdBy scheduleId now >>= _) =
      seen _ (api.schedules.upsert s.schedules spec createdBy scheduleId now >>= _)
    rw [upsert_of hapi.keeps hby hfresh]
    cases api.schedules.upsert s.schedules spec createdBy scheduleId now <;> rfl
  | schedule scheduleId =>
    show (ScheduleStore.row (s.schedules.only _) tenantId scheduleId >>= _) =
      seen _ (ScheduleStore.row s.schedules tenantId scheduleId >>= _)
    rw [row_of]
    cases ScheduleStore.row s.schedules tenantId scheduleId <;> rfl
  | updateSchedule scheduleId change =>
    show (api.schedules.update (s.schedules.only _) tenantId scheduleId change now >>= _) =
      seen _ (api.schedules.update s.schedules tenantId scheduleId change now >>= _)
    rw [update_of hapi.keeps]
    cases api.schedules.update s.schedules tenantId scheduleId change now with
    | error e => rfl
    | ok schedules =>
      show (ScheduleStore.row (schedules.only _) tenantId scheduleId >>= _) =
        seen _ (ScheduleStore.row schedules tenantId scheduleId >>= _)
      rw [row_of]
      cases ScheduleStore.row schedules tenantId scheduleId <;> rfl
  | deleteSchedule scheduleId =>
    show (ScheduleStore.delete (s.schedules.only _) tenantId scheduleId >>= _) =
      seen _ (ScheduleStore.delete s.schedules tenantId scheduleId >>= _)
    rw [schedule_delete_of]
    cases ScheduleStore.delete s.schedules tenantId scheduleId <;> rfl
  | fire scheduleId at_ runId fault =>
    show ((s.scheduler.of tenantId).fire api.schedules tenantId scheduleId at_ runId fault now >>= _) =
      seen _ (s.scheduler.fire api.schedules tenantId scheduleId at_ runId fault now >>= _)
    have hfree : s.scheduler.db.alien tenantId runId = false := hfresh
    rw [Scheduler.fire_of hfree]
    cases s.scheduler.fire api.schedules tenantId scheduleId at_ runId fault now <;> rfl
  | createWebhook url events createdBy webhookId secret =>
    show ((s.service.of tenantId).create tenantId url events createdBy webhookId secret now >>= _) =
      seen _ (s.service.create tenantId url events createdBy webhookId secret now >>= _)
    rw [Service.create_of ht hfresh]
    cases s.service.create tenantId url events createdBy webhookId secret now with
    | error e => rfl
    | ok service =>
      show ((service.of tenantId).subscription tenantId webhookId >>= _) =
        seen _ (service.subscription tenantId webhookId >>= _)
      rw [Service.subscription_of]
      cases service.subscription tenantId webhookId <;> rfl
  | webhook webhookId =>
    show ((s.service.of tenantId).subscription tenantId webhookId >>= _) =
      seen _ (s.service.subscription tenantId webhookId >>= _)
    rw [Service.subscription_of]
    cases s.service.subscription tenantId webhookId <;> rfl
  | rotateSecret webhookId secret overlap =>
    show ((s.service.of tenantId).rotateSecret tenantId webhookId secret overlap now >>= _) =
      seen _ (s.service.rotateSecret tenantId webhookId secret overlap now >>= _)
    rw [Service.rotateSecret_of]
    cases s.service.rotateSecret tenantId webhookId secret overlap now with
    | error e => rfl
    | ok service =>
      show ((service.of tenantId).subscription tenantId webhookId >>= _) =
        seen _ (service.subscription tenantId webhookId >>= _)
      rw [Service.subscription_of]
      cases service.subscription tenantId webhookId <;> rfl
  | deleteWebhook webhookId =>
    show ((s.service.of tenantId).delete tenantId webhookId >>= _) = seen _ (s.service.delete tenantId webhookId >>= _)
    rw [Service.delete_of]
    cases s.service.delete tenantId webhookId <;> rfl
  | redeliver deliveryId =>
    show ((s.service.of tenantId).redeliver tenantId deliveryId now >>= _) =
      seen _ (s.service.redeliver tenantId deliveryId now >>= _)
    rw [Service.redeliver_of]
    cases s.service.redeliver tenantId deliveryId now with
    | error e => rfl
    | ok service =>
      show ((service.of tenantId).delivery tenantId deliveryId >>= _) =
        seen _ (service.delivery tenantId deliveryId >>= _)
      rw [delivery_of]
      cases service.delivery tenantId deliveryId <;> rfl

/-! ## It leaves the others' -/

theorem Stores.of_service {service : Service} (h : service.of other = s.service.of other) :
    Stores.of { s with service := service } other = s.of other := congrArg (Stores.mk · (s.schedules.only (·.tenantId = other))) h

theorem Stores.of_schedules {schedules : Table ScheduleRow.scheduleId}
    (h : schedules.only (·.tenantId = other) = s.schedules.only (·.tenantId = other)) :
    Stores.of { s with schedules := schedules } other = s.of other := congrArg (Stores.mk (s.service.of other)) h

/-- **A request leaves every other tenant's rows.** -/
theorem Stores.perform_others (keeps : api.schedules.KeepsTenant) (ht : s.service.Tenanted api.runs.lib)
    (hby : request.By tenantId) {told : Told api tenantId} (h : s.perform api tenantId now request = .ok (s', told))
    (hne : other ≠ tenantId) : s'.of other = s.of other := by
  cases request with
  | run | events | artifact | page | schedule | webhook =>
    obtain ⟨_, -, h⟩ := bind_ok.1 h
    cases h
    rfl
  | op op =>
    obtain ⟨⟨service, answer⟩, hserve, h⟩ := bind_ok.1 h
    cases h
    exact Stores.of_service (Service.serve_others ht hby hserve hne)
  | createSchedule spec createdBy scheduleId =>
    obtain ⟨⟨schedules, row, created⟩, hupsert, h⟩ := bind_ok.1 h
    cases h
    exact Stores.of_schedules (upsert_others keeps hby hupsert hne)
  | updateSchedule scheduleId change =>
    obtain ⟨schedules, hupdate, h⟩ := bind_ok.1 h
    obtain ⟨_, -, h⟩ := bind_ok.1 h
    cases h
    exact Stores.of_schedules (update_others keeps hupdate hne)
  | deleteSchedule scheduleId =>
    obtain ⟨schedules, hdelete, h⟩ := bind_ok.1 h
    cases h
    exact Stores.of_schedules (schedule_delete_others hdelete hne)
  | fire scheduleId at_ runId fault =>
    obtain ⟨⟨scheduler, fired⟩, hfire, h⟩ := bind_ok.1 h
    cases h
    obtain ⟨hdb, hschedules⟩ := Scheduler.mk.inj (Scheduler.fire_others ht.db hfire hne)
    show Stores.mk (Service.mk (scheduler.db.of other) _ _) (scheduler.schedules.only _) = Stores.mk _ _
    rw [hdb, hschedules]
    rfl
  | createWebhook url events createdBy webhookId secret =>
    obtain ⟨service, hcreate, h⟩ := bind_ok.1 h
    obtain ⟨_, -, h⟩ := bind_ok.1 h
    cases h
    exact Stores.of_service (Service.create_others ht hcreate hne)
  | rotateSecret webhookId secret overlap =>
    obtain ⟨service, hrotate, h⟩ := bind_ok.1 h
    obtain ⟨_, -, h⟩ := bind_ok.1 h
    cases h
    exact Stores.of_service (Service.rotateSecret_others hrotate hne)
  | deleteWebhook webhookId =>
    obtain ⟨service, hdelete, h⟩ := bind_ok.1 h
    cases h
    exact Stores.of_service (Service.delete_others hdelete hne)
  | redeliver deliveryId =>
    obtain ⟨service, hredeliver, h⟩ := bind_ok.1 h
    obtain ⟨_, -, h⟩ := bind_ok.1 h
    cases h
    exact Stores.of_service (Service.redeliver_others hredeliver hne)

theorem Stores.step_others (keeps : api.schedules.KeepsTenant) (ht : s.service.Tenanted api.runs.lib) (hby : request.By tenantId)
    (hne : other ≠ tenantId) : (s.step api tenantId now request).of other = s.of other := by
  unfold Stores.step
  cases hp : s.perform api tenantId now request with
  | error e => rfl
  | ok result => exact Stores.perform_others keeps ht hby hp hne

/-! ## What hangs on a run stays its tenant's -/

/-- A call's service, where the call is not refused. -/
theorem Service.Tenanted.served {store : RunStore} {service service' : Service} (ht : service.Tenanted store.lib) (now : Instant)
    (call : Call) (h : service.step store now call = service') : service'.Tenanted store.lib := h ▸ ht.step now call

theorem Service.Tenanted.fired {service : Service} {scheduler : Scheduler} {fired : Fired} {store : ScheduleStore}
    {schedules : Table ScheduleRow.scheduleId} {row : ScheduleRow} {fireTime : AwareDatetime} {runId : String}
    {fault : Option AgentError} (ht : service.Tenanted store.runs.lib)
    (h : Scheduler.fireRow ⟨service.db, schedules⟩ store row fireTime runId fault now = .ok (scheduler, fired)) :
    Service.Tenanted store.runs.lib { service with db := scheduler.db } :=
  ⟨Scheduler.fireRow_tenanted ht.db h, ht.hooked, ht.named⟩

theorem Stores.perform_tenanted (ht : s.service.Tenanted api.runs.lib) {told : Told api tenantId}
    (h : s.perform api tenantId now request = .ok (s', told)) : s'.service.Tenanted api.runs.lib := by
  cases request with
  | run | events | artifact | page | schedule | webhook =>
    obtain ⟨_, -, h⟩ := bind_ok.1 h
    cases h
    exact ht
  | createSchedule | deleteSchedule =>
    obtain ⟨_, -, h⟩ := bind_ok.1 h
    cases h
    exact ht
  | updateSchedule =>
    obtain ⟨_, -, h⟩ := bind_ok.1 h
    obtain ⟨_, -, h⟩ := bind_ok.1 h
    cases h
    exact ht
  | op op =>
    obtain ⟨⟨service, answer⟩, hserve, h⟩ := bind_ok.1 h
    cases h
    refine ht.served now (.op op) ?_
    show orElse s.service (s.service.serve api.runs now op) = service
    rw [hserve]
    rfl
  | fire scheduleId at_ runId fault =>
    obtain ⟨⟨scheduler, fired⟩, hfire, h⟩ := bind_ok.1 h
    cases h
    unfold Scheduler.fire at hfire
    obtain ⟨row, -, hfire⟩ := bind_ok.1 hfire
    obtain ⟨_, -, hfire⟩ := bind_ok.1 hfire
    obtain ⟨_, -, hfire⟩ := bind_ok.1 hfire
    exact ht.fired hfire
  | createWebhook url events createdBy webhookId secret =>
    obtain ⟨service, hcreate, h⟩ := bind_ok.1 h
    obtain ⟨_, -, h⟩ := bind_ok.1 h
    cases h
    refine ht.served now (.create tenantId url events createdBy webhookId secret) ?_
    unfold Service.step
    dsimp only
    rw [hcreate]
  | rotateSecret webhookId secret overlap =>
    obtain ⟨service, hrotate, h⟩ := bind_ok.1 h
    obtain ⟨_, -, h⟩ := bind_ok.1 h
    cases h
    refine ht.served now (.rotateSecret tenantId webhookId secret overlap) ?_
    unfold Service.step
    dsimp only
    rw [hrotate]
  | deleteWebhook webhookId =>
    obtain ⟨service, hdelete, h⟩ := bind_ok.1 h
    cases h
    refine ht.served now (.delete tenantId webhookId) ?_
    unfold Service.step
    dsimp only
    rw [hdelete]
  | redeliver deliveryId =>
    obtain ⟨service, hredeliver, h⟩ := bind_ok.1 h
    obtain ⟨_, -, h⟩ := bind_ok.1 h
    cases h
    refine ht.served now (.redeliver tenantId deliveryId) ?_
    unfold Service.step
    dsimp only
    rw [hredeliver]

theorem Stores.step_tenanted (ht : s.service.Tenanted api.runs.lib) (tenantId : String) (now : Instant) (request : Request) :
    (s.step api tenantId now request).service.Tenanted api.runs.lib := by
  unfold Stores.step
  cases hp : s.perform api tenantId now request with
  | error e => exact ht
  | ok result => exact Stores.perform_tenanted ht hp

end

/-! ## The deployment -/

/-- What may happen to the tables: a tenant's request, whatever it names; a worker's call or one of the ticker's; a fire of what is
due; runs and artifacts whose retention is over. -/
inductive StoresAct where
  | request (tenantId : String) (request : Request)
  | call (call : Call)
  | fireDue (held : List String) (runId : String) (fault : Option AgentError)
  | deleteRuns (gone : List String)
  | removeArtifacts (artifactIds : List String)

namespace Stores

def act (api : TenantApi) (s : Stores) (now : Instant) : StoresAct → Stores
  | .request tenantId request => s.step api tenantId now request
  | .call call => { s with service := s.service.step api.runs now call }
  | .fireDue held runId fault =>
    match s.scheduler.fireDue api.schedules held runId fault now with
    | .error _ => s
    | .ok (scheduler, _) => ⟨{ s.service with db := scheduler.db }, scheduler.schedules⟩
  | .deleteRuns gone =>
    match s.service.db.deleteRuns gone with
    | .error _ => s
    | .ok db => { s with service := { s.service with db := db } }
  | .removeArtifacts artifactIds => { s with service := { s.service with db := s.service.db.removeArtifacts artifactIds } }

theorem empty_tenanted (lib : Libraries) : empty.service.Tenanted lib where
  db := ⟨fun _ h => (by cases h), fun _ h => (by cases h), fun _ h => (by cases h)⟩
  hooked := fun _ h => (by cases h)
  named := fun _ h => (by cases h)

theorem act_tenanted {api : TenantApi} {s : Stores} (ht : s.service.Tenanted api.runs.lib) (now : Instant) (act : StoresAct) :
    (s.act api now act).service.Tenanted api.runs.lib := by
  cases act with
  | request tenantId request => exact step_tenanted ht tenantId now request
  | call call => exact ht.step now call
  | fireDue held runId fault =>
    unfold Stores.act
    dsimp only
    split
    · exact ht
    · next scheduler fired hfire =>
      unfold Scheduler.fireDue at hfire
      split at hfire
      · cases hfire
        exact ht
      · split at hfire
        · cases hfire
          exact ht
        · exact ht.fired hfire
  | deleteRuns gone =>
    unfold Stores.act
    dsimp only
    split
    · exact ht
    · next db hdelete => exact ⟨ht.db.deleteRuns hdelete, ht.hooked, ht.named⟩
  | removeArtifacts artifactIds => exact ⟨ht.db.removeArtifacts artifactIds, ht.hooked, ht.named⟩

/-- **Every state of a deployment.** -/
theorem reached_tenanted {api : TenantApi} {t t' : Instant} {s : Stores} (h : Run (act api) anything t empty t' s) :
    s.service.Tenanted api.runs.lib :=
  h.invariant' (·.service.Tenanted api.runs.lib) (fun _ now a ht _ => act_tenanted ht now a) (empty_tenanted _)

/-! ## Requests, one after another -/

/-- The other tenants' rows of `s` are those of `s₀`. -/
def OthersAs (tenantId : String) (s₀ s : Stores) : Prop := ∀ other, other ≠ tenantId → s.of other = s₀.of other

section
variable {api : TenantApi} {tenantId : String} {s₀ s : Stores} {now : Instant} {request : Request}

theorem OthersAs.step (keeps : api.schedules.KeepsTenant) (ht : s.service.Tenanted api.runs.lib) (hby : request.By tenantId)
    (h : OthersAs tenantId s₀ s) : OthersAs tenantId s₀ (s.step api tenantId now request) :=
  fun other hne => (step_others keeps ht hby hne).trans (h other hne)

/-- A row of another tenant's is one of `s₀`. -/
theorem OthersAs.run? (h : OthersAs tenantId s₀ s) {runId : String} {row : RunRow} (hr : s.service.db.run? runId = some row)
    (hne : row.tenantId ≠ tenantId) : s₀.service.db.run? runId = some row := by
  have hruns : s.service.db.runs.only (·.tenantId = row.tenantId) = s₀.service.db.runs.only (·.tenantId = row.tenantId) :=
    congrArg (·.service.db.runs) (h row.tenantId hne)
  exact Table.find?_of_only hruns (decide_eq_true rfl) hr

theorem OthersAs.symm (h : OthersAs tenantId s₀ s) : OthersAs tenantId s s₀ := fun other hne => (h other hne).symm

theorem OthersAs.alien (h : OthersAs tenantId s₀ s) (runId : String) :
    s.service.db.alien tenantId runId = s₀.service.db.alien tenantId runId := by
  have hle : ∀ {s₀ s : Stores}, OthersAs tenantId s₀ s → s.service.db.alien tenantId runId = true →
      s₀.service.db.alien tenantId runId = true := by
    intro s₀ s h ha
    obtain ⟨row, hr, hne⟩ := (Option.any_eq_true _ _).1 ha
    exact (Option.any_eq_true _ _).2 ⟨row, h.run? hr (of_decide_eq_true hne), hne⟩
  rw [Bool.eq_iff_iff]
  exact ⟨hle h, hle h.symm⟩

/-- What was minted for a request is still of no other tenant. -/
theorem OthersAs.fresh (h : OthersAs tenantId s₀ s) (hfresh : request.Fresh tenantId s₀) : request.Fresh tenantId s := by
  cases request with
  | op op =>
    cases op with
    | upload =>
      exact fun a ha => Table.owner_of_only (fun other hne => congrArg (·.service.db.artifacts) (h other hne)) hfresh ha
    | _ => trivial
  | createSchedule => exact fun row hr => Table.owner_of_only (fun other hne => congrArg (·.schedules) (h other hne)) hfresh hr
  | fire scheduleId at_ runId fault => exact (h.alien runId).trans hfresh
  | createWebhook =>
    exact fun hook hw => Table.owner_of_only (fun other hne => congrArg (·.service.webhooks) (h other hne)) hfresh hw
  | _ => trivial

/-! ## A start that names a run of another tenant -/

/-- What it is answered is a matter of the tenant's rows, and it changes nothing. -/
theorem perform_alien {start : RunStart} {queue strict : Bool} (hmine : start.tenantId = tenantId)
    (halien : s.service.db.alien tenantId start.runId = true) :
    s.perform api tenantId now (.op (.start start queue strict)) = (do
      refuse ((startedRow start queue now).fits = false) (.internal "the database refused a value")
      let found ← (s.of tenantId).service.db.startedBefore start queue strict now
      .ok (s, .answer (.run found false))) := by
  show (s.service.silently (answering _ (s.service.db.start start queue strict now)) >>= _) = _
  rw [Database.start_alien hmine halien]
  unfold refuse
  split
  · rfl
  · rw [ok_bind, ok_bind]
    show _ = ((s.service.db.of tenantId).startedBefore start queue strict now >>= _)
    cases (s.service.db.of tenantId).startedBefore start queue strict now <;> rfl

/-- Named by no key of the tenant's, it is refused. -/
theorem startedBefore_alien {db : Database} {start : RunStart} {queue strict : Bool} (hmine : start.tenantId = tenantId)
    (halien : db.alien tenantId start.runId = true)
    (hkey : ∀ key, start.idempotencyKey = some key → key ≠ "" → db.keyed tenantId (some key) = none) :
    (db.of tenantId).startedBefore start queue strict now =
      .error (.conflict "this run_id cannot be used: send another, or none and one is minted") := by
  have hone : db.one tenantId start.runId = none := by
    obtain ⟨row, hr, hne⟩ := (Option.any_eq_true _ _).1 halien
    unfold Database.one
    rw [show db.run? start.runId = some row from hr]
    exact Option.filter_some_neg (by simpa using hne)
  rw [Database.startedBefore_of hmine]
  subst hmine
  unfold Database.startedBefore
  rw [hone]
  cases hk : start.idempotencyKey with
  | none => rfl
  | some key =>
    by_cases he : key = ""
    · dsimp only
      rw [if_pos he]
    · dsimp only
      rw [if_neg he, hkey key hk he]

/-- Two states with the same rows of the tenant, a request of whose run both or neither is another tenant's. -/
theorem perform_same {s' : Stores} (hapi : api.Documented) (ht : s.service.Tenanted api.runs.lib)
    (ht' : s'.service.Tenanted api.runs.lib) (hs : s.of tenantId = s'.of tenantId) (hby : request.By tenantId)
    (hfresh : request.Fresh tenantId s) (hfresh' : request.Fresh tenantId s')
    (hnamed : ∀ runId, request.named = some runId → s.service.db.alien tenantId runId = s'.service.db.alien tenantId runId) :
    seen (·.of tenantId) (s.perform api tenantId now request) = seen (·.of tenantId) (s'.perform api tenantId now request) := by
  by_cases hmine : request.named.all (fun runId => !s.service.db.alien tenantId runId) = true
  · have hmine' : request.named.all (fun runId => !s'.service.db.alien tenantId runId) = true := by
      cases hn : request.named with
      | none => rfl
      | some runId =>
        rw [hn] at hmine
        rw [Option.all_some, ← hnamed runId hn]
        exact hmine
    rw [← perform_of hapi ht hby hfresh hmine, ← perform_of hapi ht' hby hfresh' hmine', hs]
  · -- only a start names a run
    cases request with
    | op op =>
      cases op with
      | start start queue strict =>
        have halien : s.service.db.alien tenantId start.runId = true := by
          rw [show Request.named (.op (.start start queue strict)) = some start.runId from rfl, Option.all_some] at hmine
          simpa using hmine
        rw [perform_alien hby halien, perform_alien hby ((hnamed start.runId rfl).symm.trans halien), hs]
        simp only [seen_bind, seen_ok, hs]
      | _ => exact absurd rfl hmine
    | _ => exact absurd rfl hmine

end

end Stores

/-! ## Isolation -/

/-- The tenant's requests, whatever the others' rows. -/
structure TenantIsolated (api : TenantApi) (tenantId : String) : Prop where
  /-- the states of a deployment are `Tenanted` -/
  reached : ∀ t t' s, Run (Stores.act api) anything t Stores.empty t' s → s.service.Tenanted api.runs.lib
  /-- two states with the same rows of the tenant: where each start names a run of another tenant in both or in neither, the answers
  are the same, and so are the tenant's rows afterwards -/
  runs : ∀ s₁ s₂ : Stores, s₁.service.Tenanted api.runs.lib → s₂.service.Tenanted api.runs.lib →
    s₁.of tenantId = s₂.of tenantId → ∀ l : List (Instant × Request),
    (∀ x ∈ l, x.2.By tenantId ∧ x.2.Fresh tenantId s₁ ∧ x.2.Fresh tenantId s₂ ∧ ∀ runId, x.2.named = some runId →
      s₁.service.db.alien tenantId runId = s₂.service.db.alien tenantId runId) →
    Run.trace (Stores.step api tenantId) (Stores.told api tenantId) s₁ l =
        Run.trace (Stores.step api tenantId) (Stores.told api tenantId) s₂ l ∧
      (Run.after (Stores.step api tenantId) s₁ l).of tenantId = (Run.after (Stores.step api tenantId) s₂ l).of tenantId
  /-- no request changes a row of another tenant -/
  others : ∀ s : Stores, s.service.Tenanted api.runs.lib → ∀ l : List (Instant × Request), (∀ x ∈ l, x.2.By tenantId) →
    ∀ other, other ≠ tenantId → (Run.after (Stores.step api tenantId) s l).of other = s.of other
  /-- a start that names a run of another tenant changes nothing; with no run under its idempotency key, and a row the database
  takes, it is refused in the same words whoever holds the run and whatever that is -/
  alien : ∀ (s : Stores) (now : Instant) (start : RunStart) (queue strict : Bool), start.tenantId = tenantId →
    s.service.db.alien tenantId start.runId = true →
    s.step api tenantId now (.op (.start start queue strict)) = s ∧
      ((startedRow start queue now).fits = true →
        (∀ key, start.idempotencyKey = some key → key ≠ "" → s.service.db.keyed tenantId (some key) = none) →
        s.perform api tenantId now (.op (.start start queue strict)) =
          .error (.conflict "this run_id cannot be used: send another, or none and one is minted"))

/-- **Tenants do not see each other.** -/
theorem tenants_isolated (api : TenantApi) (hapi : api.Documented) (tenantId : String) : TenantIsolated api tenantId where
  reached _ _ _ h := Stores.reached_tenanted h
  runs s₁ s₂ ht₁ ht₂ hs l hl := by
    -- the two runs side by side, each with the other tenants' rows it began with
    let R : Stores → Stores → Prop := fun s s' => (s.service.Tenanted api.runs.lib ∧ s'.service.Tenanted api.runs.lib) ∧
      s.of tenantId = s'.of tenantId ∧ Stores.OthersAs tenantId s₁ s ∧ Stores.OthersAs tenantId s₂ s'
    let ok : Instant → Request → Prop := fun _ request => request.By tenantId ∧ request.Fresh tenantId s₁ ∧
      request.Fresh tenantId s₂ ∧ ∀ runId, request.named = some runId →
        s₁.service.db.alien tenantId runId = s₂.service.db.alien tenantId runId
    have hstep : ∀ s s' now request, R s s' → ok now request →
        Stores.told api tenantId s now request = Stores.told api tenantId s' now request ∧
          R (s.step api tenantId now request) (s'.step api tenantId now request) := by
      rintro s s' now request ⟨⟨ht, ht'⟩, hsame, ho, ho'⟩ ⟨hby, hfresh₁, hfresh₂, hnamed⟩
      have hnamed' : ∀ runId, request.named = some runId →
          s.service.db.alien tenantId runId = s'.service.db.alien tenantId runId := by
        intro runId hn
        rw [ho.alien, ho'.alien, hnamed runId hn]
      have hperform : seen (·.of tenantId) (s.perform api tenantId now request) =
          seen (·.of tenantId) (s'.perform api tenantId now request) :=
        Stores.perform_same hapi ht ht' hsame hby (ho.fresh hfresh₁) (ho'.fresh hfresh₂) hnamed'
      obtain ⟨hanswer, hview⟩ := same_answer hsame hperform
      exact ⟨congrArg (fun a => [a]) hanswer,
        ⟨Stores.step_tenanted ht tenantId now request, Stores.step_tenanted ht' tenantId now request⟩, hview,
        ho.step hapi.keeps ht hby, ho'.step hapi.keeps ht' hby⟩
    obtain ⟨htrace, -, hsame, -⟩ := Run.lockstep hstep l ⟨⟨ht₁, ht₂⟩, hs, fun _ _ => rfl, fun _ _ => rfl⟩ hl
    exact ⟨htrace, hsame⟩
  others s ht l hl := by
    let P : Stores → Prop := fun s' => s'.service.Tenanted api.runs.lib ∧ Stores.OthersAs tenantId s s'
    have hstep : ∀ (s' : Stores) (now : Instant) (request : Request), P s' → request.By tenantId →
        P (s'.step api tenantId now request) :=
      fun s' now request ⟨ht', ho⟩ hby => ⟨Stores.step_tenanted ht' tenantId now request, ho.step hapi.keeps ht' hby⟩
    exact (Run.after_kept hstep l ⟨ht, fun _ _ => rfl⟩ hl).2
  alien s now start queue strict hmine halien := by
    have hperform := @Stores.perform_alien api tenantId s now start queue strict hmine halien
    refine ⟨?_, fun hfits hkey => ?_⟩
    · unfold Stores.step
      rw [hperform]
      unfold refuse
      split
      · rfl
      · rw [ok_bind]
        cases (s.of tenantId).service.db.startedBefore start queue strict now <;> rfl
    · rw [hperform, refuse_of_not _ (by simp [hfits]), ok_bind]
      show ((s.service.db.of tenantId).startedBefore start queue strict now >>= _) = _
      rw [Stores.startedBefore_alien hmine halien hkey]
      rfl

/-- A small deployment. -/
def smallTenants : TenantApi := ⟨smallSchedules, plainCollation, spelledDatetimes⟩

theorem smallTenants_documented : smallTenants.Documented where
  resolutions := spelled_injective "res_"
  deliveries := spelled_injective "dlv_"
  keeps := by
    rintro fields spec ⟨⟩
    rfl

/-- A start of a tenant, under an idempotency key. -/
def startOf (tenantId runId : String) (key : Option String) : Request :=
  .op (.start { smallStart with tenantId := tenantId, runId := runId, idempotencyKey := key } false true)

/-- Run `"q"` is of tenant `"t"`, run `"r"` of another. -/
def taken (other : String) : List (Instant × StoresAct) :=
  [(0, .request "t" (startOf "t" "q" (some "k"))), (1, .request other (startOf other "r" none))]

def Stores.taken (other : String) : Stores := Run.after (Stores.act smallTenants) Stores.empty (AgentRuns.taken other)

theorem taken_reached (other : String) : ∃ t, Run (Stores.act smallTenants) anything 0 Stores.empty t (Stores.taken other) := by
  refine Run.replay ?_
  norm_num [taken, Run.Admitted, anything]

/-- Tenant `"t"` asks for `"r"` under no key and under that of its own run, and lists its runs. -/
def askingTaken : List (Instant × Request) :=
  [(2, startOf "t" "r" none), (3, startOf "t" "r" (some "k")), (4, .page (.runs everyRun) ⟨1, Nat.one_pos⟩ none)]

/-- It is answered the same whether `"u"` or `"v"` has `"r"`, and its first start is refused. -/
theorem tenants_isolated_taken :
    Run.trace (Stores.step smallTenants "t") (Stores.told smallTenants "t") (.taken "u") askingTaken =
        Run.trace (Stores.step smallTenants "t") (Stores.told smallTenants "t") (.taken "v") askingTaken ∧
      (Run.after (Stores.step smallTenants "t") (.taken "u") askingTaken).of "u" = (Stores.taken "u").of "u" ∧
      ((Stores.taken "u").service.db.run? "r").map RunRow.tenantId = some "u" ∧
      ((Stores.taken "v").service.db.run? "r").map RunRow.tenantId = some "v" ∧
      (Stores.taken "u").perform smallTenants "t" 2 (startOf "t" "r" none) =
        .error (.conflict "this run_id cannot be used: send another, or none and one is minted") := by
  have h := tenants_isolated smallTenants smallTenants_documented "t"
  have ht : ∀ other, (Stores.taken other).service.Tenanted smallTenants.runs.lib := by
    intro other
    obtain ⟨t, hreach⟩ := taken_reached other
    exact h.reached 0 t _ hreach
  have hasked : ∀ x ∈ askingTaken, x.2.By "t" ∧ x.2.Fresh "t" (.taken "u") ∧ x.2.Fresh "t" (.taken "v") ∧
      ∀ runId, x.2.named = some runId →
        (Stores.taken "u").service.db.alien "t" runId = (Stores.taken "v").service.db.alien "t" runId := by
    intro x hx
    simp only [askingTaken, List.mem_cons, List.not_mem_nil, or_false] at hx
    rcases hx with rfl | rfl | rfl
    · exact ⟨rfl, trivial, trivial, fun runId hn => by cases hn; rfl⟩
    · exact ⟨rfl, trivial, trivial, fun runId hn => by cases hn; rfl⟩
    · exact ⟨trivial, trivial, trivial, fun runId hn => by cases hn⟩
  refine ⟨(h.runs _ _ (ht "u") (ht "v") rfl askingTaken hasked).1,
    h.others _ (ht "u") askingTaken (fun x hx => (hasked x hx).1) "u" (by decide), rfl, rfl, ?_⟩
  refine (h.alien _ 2 _ false true rfl rfl).2 (by decide +kernel) fun key hkey => ?_
  cases hkey

/-- Under the key of its own run, the start that names the other's is answered with its own. -/
theorem alien_start_answered : ¬ ∀ (api : TenantApi) (t t' : Instant) (s : Stores),
    Run (Stores.act api) anything t Stores.empty t' s → ∀ (now : Instant) (start : RunStart) (queue strict : Bool),
      (startedRow start queue now).fits = true → s.service.db.alien start.tenantId start.runId = true →
      s.perform api start.tenantId now (.op (.start start queue strict)) =
        .error (.conflict "this run_id cannot be used: send another, or none and one is minted") := by
  intro h
  obtain ⟨t, hreach⟩ := taken_reached "u"
  have hrefused := h smallTenants 0 t _ hreach 2
    { smallStart with tenantId := "t", runId := "r", idempotencyKey := some "k" } false true (by decide +kernel) rfl
  have hanswered : ((Stores.taken "u").perform smallTenants "t" 2 (startOf "t" "r" (some "k"))).toOption.isSome = true := by
    decide +kernel
  rw [show (Stores.taken "u").perform smallTenants "t" 2 (startOf "t" "r" (some "k")) = _ from hrefused] at hanswered
  cases hanswered

end AgentRuns
