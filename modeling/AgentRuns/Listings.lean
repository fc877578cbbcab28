import AgentRuns.Cursors
import AgentRuns.Keyset
import AgentRuns.Sending
import AgentRuns.Firing
import Mathlib.Data.List.Lex
import Mathlib.Data.Prod.Lex

/-!
# The listings

Five listings answer a page and the position after it, each over its own rows and columns: the runs of a tenant, a run's
resolutions, schedules, subscriptions and deliveries.  The route turns the position into the cursor of the next page, and a
cursor it is sent back.
-/

namespace AgentRuns

open Relational Fallible JsonText

/-! ## Pages -/

/-- `Page`. -/
structure Page (β : Type) where
  items : List β
  /-- where the next page starts, or `None` when this is the last one -/
  after : Option Position

/-- `page_of`: `limit + 1` fetched rows into a page and the position after it. -/
def pageOf {α β : Type} (rows : List α) (limit : Nat) (item : α → β) (position : α → Position) : Page β :=
  let kept := rows.take limit
  { items := kept.map item
    after := if limit < rows.length then kept.getLast?.map position else none }

/-- `LimitQuery`.  Its upper bound, `MAX_PAGE`, plays no part. -/
structure PageLimit where
  rows : Nat
  pos : 0 < rows

/-- How the database orders texts: by their sort keys, equal texts only having one. -/
structure Collation where
  sortKey : List Nat → List Nat
  injective : Function.Injective sortKey

/-- Where a position stands, oldest first. -/
def Collation.oldest (collation : Collation) (p : Position) : Instant ×ₗ List Nat := toLex (p.instant, collation.sortKey p.id)

/-- Where it stands, newest first: both columns descending. -/
def Collation.newest (collation : Collation) (p : Position) : (Instant ×ₗ List Nat)ᵒᵈ := OrderDual.toDual (collation.oldest p)

theorem Collation.oldest_injective (collation : Collation) : Function.Injective collation.oldest := by
  intro p q h
  have hpair : (p.instant, collation.sortKey p.id) = (q.instant, collation.sortKey q.id) := h
  obtain ⟨hinstant, hid⟩ := Prod.mk.inj hpair
  have := collation.injective hid
  cases p
  cases q
  simp_all

/-- A listing over states of `σ`: its query before the position, and the two columns it is ordered by. -/
structure Listing (σ : Type) where
  Row : Type
  Item : Type
  Key : Type
  order : LinearOrder Key
  fields : CursorFields
  rows : σ → Except ServiceError (List Row)
  instant : Row → Instant
  id : Row → String
  place : Position → Key
  item : Row → Item
  place_injective : Function.Injective place
  /-- the id is the primary key -/
  distinct : ∀ {s rows'}, rows s = .ok rows' → (rows'.map id).Nodup
  /-- a listing is refused only where what it lists is not there -/
  absent : ∀ {s e}, rows s = .error e → e.code = .NOT_FOUND

namespace Listing

variable {σ : Type} (l : Listing σ)

instance : LinearOrder l.Key := l.order

def position (row : l.Row) : Position := Position.of (l.instant row) (l.id row)

def key (row : l.Row) : l.Key := l.place (l.position row)

/-- The store's listing. -/
def page (s : σ) (limit : PageLimit) (after : Option Position) : Except ServiceError (Page l.Item) := do
  let rows ← l.rows s
  .ok (pageOf (Keyset.fetch l.key limit.rows rows (after.map l.place)) limit.rows l.item l.position)

/-- `CursorQuery`: the request is refused before the route is reached. -/
def tooLong : ServiceError := .unprocessable "the request is invalid"

/-- The route: the items, and the cursor of the link to the next page. -/
def request (datetimes : Datetimes) (s : σ) (limit : PageLimit) (cursor : Option String) :
    Except ServiceError (List l.Item × Option String) := do
  refuse (cursor.any fun c => cursorMaxChars < c.length) tooLong
  let after ← decodeCursor datetimes l.fields cursor
  let page ← l.page s limit after
  .ok (page.items, page.after.map (encodeCursor datetimes l.fields))

end Listing

/-! ## The five listings -/

/-- The tables the listings read. -/
structure Stores where
  service : Service
  schedules : Table ScheduleRow.scheduleId

/-- The filters of `GET /v1/runs`. -/
structure RunFilter where
  status : Option RunStatus
  assignee : Option String
  agentId : Option String
  threadId : Option String
  parentRunId : Option String
  topLevel : Bool

def RunFilter.takes (filter : RunFilter) (row : RunRow) : Bool :=
  filter.status.all (row.status = ·) && filter.assignee.all (row.assignee = some ·) && filter.agentId.all (row.agentId = ·) &&
    filter.threadId.all (row.threadId = some ·) && filter.parentRunId.all (row.parentRunId = some ·) &&
    (!filter.topLevel || row.parentRunId.isNone)

/-- A run as a listing shows it. -/
def RunRow.summary (row : RunRow) : RunSummary where
  runId := row.runId
  agentId := row.agentId
  status := row.status
  awaiting := row.awaiting
  assignee := row.assignee
  deadline := row.deadline
  threadId := row.threadId
  updatedAt := row.updatedAt

/-- `RunStore.list`. -/
def RunStore.list (collation : Collation) (tenantId : String) (filter : RunFilter) : Listing Stores where
  Row := RunRow
  Item := RunSummary
  Key := (Instant ×ₗ List Nat)ᵒᵈ
  order := inferInstance
  fields := ⟨"created_at", "run_id", by decide⟩
  rows s := .ok (s.service.db.runs.rows.filter fun row => row.tenantId = tenantId && filter.takes row)
  instant := (·.createdAt)
  id := (·.runId)
  place := collation.newest
  item := RunRow.summary
  place_injective := collation.oldest_injective
  distinct h := by
    cases h
    exact Table.keys_nodup _ _
  absent h := by cases h

/-- An answered interrupt. -/
structure ResolutionEntry where
  interrupt : Interrupt
  resolution : InterruptResolution
  attempt : Nat
  recordedAt : Instant

/-- `RunStore.resolutions`. -/
def RunStore.resolutions (collation : Collation) (tenantId runId : String) : Listing Stores where
  Row := ResolutionRow
  Item := ResolutionEntry
  Key := Instant ×ₗ List Nat
  order := inferInstance
  fields := ⟨"recorded_at", "resolution_id", by decide⟩
  rows s :=
    match s.service.db.one tenantId runId with
    | none => .error (.notFound s!"no run {runId}")
    | some _ => .ok (s.service.db.resolutions.rows.filter fun row => row.tenantId = tenantId && row.runId = runId)
  instant := (·.recordedAt)
  id := (·.resolutionId)
  place := collation.oldest
  item row := ⟨row.interrupt, row.resolution, row.attempt, row.recordedAt⟩
  place_injective := collation.oldest_injective
  distinct h := by
    split at h
    · cases h
    · cases h
      exact Table.keys_nodup _ _
  absent h := by
    split at h
    · cases h
      rfl
    · cases h

/-- The filters of `GET /v1/schedules`. -/
structure ScheduleFilter where
  enabled : Option Bool
  agentId : Option String
  onBehalfOf : Option String

def ScheduleFilter.takes (filter : ScheduleFilter) (row : ScheduleRow) : Bool :=
  filter.enabled.all (row.enabled = ·) && filter.agentId.all (row.agentId = ·) && filter.onBehalfOf.all (row.onBehalfOf = ·)

/-- `ScheduleStore.list`. -/
def ScheduleStore.list (collation : Collation) (tenantId : String) (filter : ScheduleFilter) : Listing Stores where
  Row := ScheduleRow
  Item := ScheduleRow
  Key := (Instant ×ₗ List Nat)ᵒᵈ
  order := inferInstance
  fields := ⟨"created_at", "schedule_id", by decide⟩
  rows s := .ok (s.schedules.rows.filter fun row => row.tenantId = tenantId && filter.takes row)
  instant := (·.createdAt)
  id := (·.scheduleId)
  place := collation.newest
  item row := row
  place_injective := collation.oldest_injective
  distinct h := by
    cases h
    exact Table.keys_nodup _ _
  absent h := by cases h

/-- A subscription as listed: never its secret. -/
structure Webhook where
  webhookId : String
  url : String
  events : List WebhookEvent
  createdBy : String
  createdAt : Instant
  previousSecretExpiresAt : Option Instant

/-- `_webhook`. -/
def WebhookRow.listed (row : WebhookRow) : Webhook :=
  ⟨row.webhookId, row.url, row.events, row.createdBy, row.createdAt, row.previousSecretExpiresAt⟩

/-- `WebhookStore.list`. -/
def WebhookStore.list (collation : Collation) (tenantId : String) : Listing Stores where
  Row := WebhookRow
  Item := Webhook
  Key := Instant ×ₗ List Nat
  order := inferInstance
  fields := ⟨"created_at", "webhook_id", by decide⟩
  rows s := .ok (s.service.webhooks.rows.filter fun row => row.tenantId = tenantId)
  instant := (·.createdAt)
  id := (·.webhookId)
  place := collation.oldest
  item := WebhookRow.listed
  place_injective := collation.oldest_injective
  distinct h := by
    cases h
    exact Table.keys_nodup _ _
  absent h := by cases h

/-- The filters of `GET /v1/webhooks/deliveries`. -/
structure DeliveryFilter where
  state : Option DeliveryState
  webhookId : Option String

def DeliveryFilter.takes (filter : DeliveryFilter) (row : DeliveryRow) : Bool :=
  filter.state.all (fun state => if state = .DEAD then row.deadAt.isSome else row.deadAt.isNone) &&
    filter.webhookId.all (row.webhookId = ·)

/-- The join with the subscriptions: the delivery is of one of this tenant's. -/
def Service.ofTenant (s : Service) (tenantId : String) (row : DeliveryRow) : Bool :=
  (s.webhooks.find? row.webhookId).any (·.tenantId = tenantId)

/-- `WebhookStore.deliveries`. -/
def WebhookStore.deliveries (collation : Collation) (tenantId : String) (filter : DeliveryFilter) : Listing Stores where
  Row := DeliveryRow
  Item := DeliveryRecord
  Key := (Instant ×ₗ List Nat)ᵒᵈ
  order := inferInstance
  fields := ⟨"created_at", "delivery_id", by decide⟩
  rows s := .ok (s.service.deliveries.rows.filter fun row => s.service.ofTenant tenantId row && filter.takes row)
  instant := (·.createdAt)
  id := (·.deliveryId)
  place := collation.newest
  item := DeliveryRow.listed
  place_injective := collation.oldest_injective
  distinct h := by
    cases h
    exact Table.keys_nodup _ _
  absent h := by cases h

/-- The routes that page, and what each is asked. -/
inductive Endpoint where
  | runs (filter : RunFilter)
  | resolutions (runId : String)
  | schedules (filter : ScheduleFilter)
  | webhooks
  | deliveries (filter : DeliveryFilter)

def Endpoint.listing (collation : Collation) (tenantId : String) : Endpoint → Listing Stores
  | runs filter => RunStore.list collation tenantId filter
  | resolutions runId => RunStore.resolutions collation tenantId runId
  | schedules filter => ScheduleStore.list collation tenantId filter
  | webhooks => WebhookStore.list collation tenantId
  | deliveries filter => WebhookStore.deliveries collation tenantId filter

end AgentRuns
