import AgentRuns.Operations

/-!
# Webhooks and the outbox

`domain/webhooks.py` and `store/webhooks.py`: the subscriptions of a tenant, and the outbox of
deliveries owed to them.  `announce` writes the event a run warrants for every subscription that wants
it, in the transaction of the change that caused it: the routes that move a run and the ticker's sweeps
(`Service.serve`).  The rest of the calls settle what is in the outbox, and write nothing new to it.
-/

namespace AgentRuns

open Relational Fallible

/-! ## Constants -/

def maxWebhooksPerTenant : Nat := 20
/-- `WEBHOOK_LEASE`, twice the time one send may take. -/
def webhookLease : Rat := 2 * 10
def webhookAttempts : Nat := 7
def webhookRetryBase : Rat := 15
def webhookRetryCap : Rat := 600

/-! ## Events -/

/-- A run event a subscription may hear. -/
inductive WebhookEvent where
  | PAUSED | ESCALATED | FINISHED
deriving DecidableEq

def WebhookEvent.value : WebhookEvent → String
  | PAUSED => "run.paused"
  | ESCALATED => "run.escalated"
  | FINISHED => "run.finished"

theorem WebhookEvent.value_injective : Function.Injective WebhookEvent.value := by
  intro a b h
  cases a <;> cases b <;> first | rfl | exact absurd h (by decide)

/-- What a run's current status announces: a pause or an ending. -/
def eventOf (run : RunRecord) : Option WebhookEvent :=
  if run.status = .PAUSED then some .PAUSED
  else if run.status.final then some .FINISHED
  else none

/-- A run as a listing shows it. -/
structure RunSummary where
  runId : String
  agentId : String
  status : RunStatus
  awaiting : Option Interrupt
  assignee : Option String
  deadline : Option Instant
  threadId : Option String
  updatedAt : Instant

/-- What a delivery carries. -/
structure Envelope where
  eventId : String
  type : WebhookEvent
  tenantId : String
  workspaceId : Option String
  occurredAt : Instant
  run : RunSummary

/-- The id of an event of a run: the same however often it is written. -/
def eventId (lib : Libraries) (run : RunRecord) (event : WebhookEvent) : String :=
  lib.stableId "whd_" [.text run.runId, .number run.attempt, .text run.status.value, .text event.value,
    .ofOption (run.awaiting.bind (·.assignee))]

def envelope (lib : Libraries) (run : RunRecord) (event : WebhookEvent) : Envelope where
  eventId := eventId lib run event
  type := event
  tenantId := run.tenantId
  workspaceId := run.workspaceId
  occurredAt := run.updatedAt
  run :=
    { runId := run.runId
      agentId := run.agentId
      status := run.status
      awaiting := run.awaiting
      assignee := run.awaiting.bind (·.assignee)
      deadline := run.deadline
      threadId := none
      updatedAt := run.updatedAt }

/-! ## Rows -/

/-- A row of `webhooks`. -/
structure WebhookRow where
  webhookId : String
  tenantId : String
  url : String
  events : List WebhookEvent
  secret : String
  previousSecret : Option String
  previousSecretExpiresAt : Option Instant
  createdBy : String
  createdAt : Instant

/-- A row of `webhook_deliveries`. -/
structure DeliveryRow where
  /-- `stable_id(event_id, webhook_id)` -/
  deliveryId : String
  webhookId : String
  payload : Envelope
  attempts : Nat
  nextAttemptAt : Instant
  lastError : Option String
  /-- when it was given up on -/
  deadAt : Option Instant
  createdAt : Instant

def deliveryId (lib : Libraries) (eventId webhookId : String) : String :=
  lib.stableId "dlv_" [.text eventId, .text webhookId]

/-- The database with its webhooks. -/
structure Service where
  db : Database
  webhooks : Table WebhookRow.webhookId
  deliveries : Table DeliveryRow.deliveryId

namespace Service

/-- A new deployment. -/
def empty : Service := ⟨Database.empty, Table.empty, Table.empty⟩

/-! ## Subscriptions -/

def subscription (s : Service) (tenantId webhookId : String) : Except ServiceError WebhookRow :=
  match (s.webhooks.find? webhookId).filter (·.tenantId = tenantId) with
  | none => .error (.notFound s!"no webhook {webhookId}")
  | some hook => .ok hook

/-- `WebhookStore.create`, its id and secret minted. -/
def create (s : Service) (tenantId url : String) (events : List WebhookEvent) (createdBy webhookId secret : String)
    (now : Instant) : Except ServiceError Service := do
  refuse (maxWebhooksPerTenant ≤ s.webhooks.rows.countP (·.tenantId = tenantId))
    (.conflict s!"a tenant has at most {maxWebhooksPerTenant} webhook subscriptions")
  refuse ((s.webhooks.find? webhookId).isSome) (.internal "duplicate key value violates unique constraint")
  .ok { s with
    webhooks := s.webhooks.insert
      { webhookId := webhookId
        tenantId := tenantId
        url := url
        events := events
        secret := secret
        previousSecret := none
        previousSecretExpiresAt := none
        createdBy := createdBy
        createdAt := now } }

def rotateSecret (s : Service) (tenantId webhookId secret : String) (overlap : Rat) (now : Instant) :
    Except ServiceError Service := do
  let hook ← s.subscription tenantId webhookId
  .ok { s with
    webhooks := s.webhooks.put
      { hook with
        previousSecret := some hook.secret
        secret := secret
        previousSecretExpiresAt := some (now + overlap) } }

/-- The subscription goes, and with it every delivery still owed to it. -/
def delete (s : Service) (tenantId webhookId : String) : Except ServiceError Service := do
  let hook ← s.subscription tenantId webhookId
  .ok { s with
    webhooks := s.webhooks.erase (·.webhookId = hook.webhookId)
    deliveries := s.deliveries.erase (·.webhookId = hook.webhookId) }

/-! ## The outbox -/

/-- The row that owes an event of a run to a subscription. -/
def newDelivery (lib : Libraries) (run : RunRecord) (event : WebhookEvent) (now : Instant) (hook : WebhookRow) :
    DeliveryRow where
  deliveryId := deliveryId lib (envelope lib run event).eventId hook.webhookId
  webhookId := hook.webhookId
  payload := envelope lib run event
  attempts := 0
  nextAttemptAt := now
  lastError := none
  deadAt := none
  createdAt := now

/-- The rows that owe it to every subscription wanting it. -/
def owed (lib : Libraries) (webhooks : Table WebhookRow.webhookId) (run : RunRecord) (event : WebhookEvent)
    (now : Instant) : List DeliveryRow :=
  (webhooks.rows.filter fun hook => hook.tenantId = run.tenantId && hook.events.contains event).map
    (newDelivery lib run event now)

/-- `announce`: `event` overrides the one the run's status announces. -/
def announce (s : Service) (lib : Libraries) (run : RunRecord) (event : Option WebhookEvent) (now : Instant) : Service :=
  match event.or (eventOf run) with
  | none => s
  | some event => { s with deliveries := s.deliveries.insertAll (owed lib s.webhooks run event now) }

/-- One delivery a ticker holds, with where it goes and what signs it. -/
structure Delivery where
  deliveryId : String
  url : String
  secret : String
  payload : Envelope
  attempts : Nat
  previousSecret : Option String

/-- The due deliveries nobody else holds, at most `limit`. -/
def due (s : Service) (held : List String) (limit : Nat) (now : Instant) : List DeliveryRow :=
  (((s.deliveries.rows.filter fun row => row.deadAt.isNone && row.nextAttemptAt ≤ now).insertionSort fun a b =>
    a.nextAttemptAt ≤ b.nextAttemptAt).filter fun row => !held.contains row.deliveryId).take limit

/-- `claim_due`: each held for a lease and counted as attempted. -/
def claimDue (s : Service) (held : List String) (limit : Nat) (now : Instant) : Service × List Delivery :=
  let rows := (s.due held limit now).map fun row =>
    { row with attempts := row.attempts + 1, nextAttemptAt := now + webhookLease }
  ({ s with deliveries := s.deliveries.putAll rows },
    rows.filterMap fun row => (s.webhooks.find? row.webhookId).map fun hook =>
      { deliveryId := row.deliveryId
        url := hook.url
        secret := hook.secret
        payload := row.payload
        attempts := row.attempts
        previousSecret := if now < hook.previousSecretExpiresAt.getD now then hook.previousSecret else none })

/-- How an attempt went: accepted, or why not and whether another one is worth making. -/
structure Attempt where
  error : Option String
  retry : Bool

/-- `settle`: whether the delivery died. -/
def settle (s : Service) (delivery : Delivery) (attempt : Attempt) (now : Instant) : Service × Bool :=
  if attempt.error.isNone then ({ s with deliveries := s.deliveries.erase (·.deliveryId = delivery.deliveryId) }, false)
  else
    match s.deliveries.find? delivery.deliveryId with
    | none => (s, false)
    | some row =>
      let row := { row with lastError := attempt.error }
      if attempt.retry ∧ delivery.attempts < webhookAttempts then
        let wait := backoff webhookRetryBase delivery.attempts webhookRetryCap
        ({ s with deliveries := s.deliveries.put { row with nextAttemptAt := now + wait } }, row.deadAt.isSome)
      else ({ s with deliveries := s.deliveries.put { row with deadAt := some now } }, true)

/-- `redeliver`: a dead delivery is owed again. -/
def redeliver (s : Service) (tenantId deliveryId : String) (now : Instant) : Except ServiceError Service :=
  let mine := (s.deliveries.find? deliveryId).filter fun row =>
    (s.webhooks.find? row.webhookId).any (·.tenantId = tenantId)
  match mine with
  | none => .error (.notFound s!"no delivery {deliveryId}")
  | some row =>
    if row.deadAt.isNone then
      .error (.conflict s!"delivery {deliveryId} is still owed: it is being tried already")
    else
      .ok { s with deliveries := s.deliveries.put { row with deadAt := none, attempts := 0, nextAttemptAt := now } }

/-- `drop_dead`: how many deliveries that died before `before` went. -/
def dropDead (s : Service) (held : List String) (before : Instant) (limit : Nat) : Service × Nat :=
  let expired := (((s.deliveries.rows.filter fun row => row.deadAt.any (· < before)).insertionSort fun a b =>
    a.deadAt.getD 0 ≤ b.deadAt.getD 0).filter fun row => !held.contains row.deliveryId).take limit
  ({ s with deliveries := s.deliveries.erase fun row => (expired.map (·.deliveryId)).contains row.deliveryId },
    expired.length)

/-! ## The routes and the ticker -/

/-- What the routes that move a run do with the operation's answer: a change is announced. -/
def moving (s : Service) (lib : Libraries) (now : Instant) (moved : Except ServiceError (Database × RunRecord × Bool)) :
    Except ServiceError (Service × Answer) := do
  let (db, run, changed) ← moved
  let s := { s with db := db }
  .ok (if changed then s.announce lib run none now else s, .run run changed)

def pause (s : Service) (store : RunStore) (tenantId runId : String) (body : RunPause) (workerId : Option String)
    (now : Instant) : Except ServiceError (Service × Answer) :=
  s.moving store.lib now (store.pause s.db tenantId runId body workerId now)

def resume (s : Service) (store : RunStore) (tenantId runId : String) (body : InterruptResolution) (answerer : KeyInfo)
    (now : Instant) : Except ServiceError (Service × Answer) :=
  s.moving store.lib now (store.resume s.db tenantId runId body answerer now)

def cancel (s : Service) (store : RunStore) (tenantId runId : String) (body : RunCancel) (canceller : KeyInfo)
    (now : Instant) : Except ServiceError (Service × Answer) :=
  s.moving store.lib now (s.db.cancel tenantId runId body canceller now)

def finish (s : Service) (store : RunStore) (tenantId runId : String) (body : RunFinish) (workerId : Option String)
    (draw : Draw) (now : Instant) : Except ServiceError (Service × Answer) :=
  s.moving store.lib now (s.db.finish tenantId runId body workerId draw now)

def release (s : Service) (store : RunStore) (tenantId runId : String) (body : ReleaseRequest) (now : Instant) :
    Except ServiceError (Service × Answer) :=
  s.moving store.lib now (s.db.release tenantId runId body now)

/-- `_sweep_runs`: a run a sweep leaves `PAUSED` was escalated; any other announces what its status does. -/
def sweepRuns (s : Service) (lib : Libraries) (now : Instant)
    (swept : Except ServiceError (Database × List RunRecord)) : Except ServiceError (Service × Answer) := do
  let (db, moved) ← swept
  .ok (moved.foldl (fun s run => s.announce lib run (if run.status = .PAUSED then some .ESCALATED else none) now)
    { s with db := db }, .moved moved)

/-- The routes that move no run on announce nothing. -/
def silently (s : Service) (done : Except ServiceError (Database × Answer)) : Except ServiceError (Service × Answer) := do
  let (db, answer) ← done
  .ok ({ s with db := db }, answer)

/-- One route call, or one step of the ticker: the operation, and what it announces with it. -/
def serve (s : Service) (store : RunStore) (now : Instant) (op : Op) : Except ServiceError (Service × Answer) :=
  match op with
  | .pause tenantId runId body workerId => s.pause store tenantId runId body workerId now
  | .resume tenantId runId body answerer => s.resume store tenantId runId body answerer now
  | .cancel tenantId runId body canceller => s.cancel store tenantId runId body canceller now
  | .finish tenantId runId body workerId draw => s.finish store tenantId runId body workerId draw now
  | .release tenantId runId body => s.release store tenantId runId body now
  | .timeOutPastDeadline held limit => s.sweepRuns store.lib now (store.timeOutPastDeadline s.db held limit now)
  | .timeOutOverworked held limit => s.sweepRuns store.lib now (store.timeOutOverworked s.db held limit now)
  | .requeueLapsed held limit draws => s.sweepRuns store.lib now (s.db.requeueLapsed held limit draws now)
  | .escalateOverdue held limit => s.sweepRuns store.lib now (store.escalateOverdue s.db held limit now)
  | op => s.silently (perform store op now s.db)

end Service

/-- A call of the service: one that works on runs, or one on subscriptions and deliveries. -/
inductive Call where
  | op (op : Op)
  | create (tenantId url : String) (events : List WebhookEvent) (createdBy webhookId secret : String)
  | rotateSecret (tenantId webhookId secret : String) (overlap : Rat)
  | delete (tenantId webhookId : String)
  | claimDue (held : List String) (limit : Nat)
  | settle (delivery : Service.Delivery) (attempt : Service.Attempt)
  | redeliver (tenantId deliveryId : String)
  | dropDead (held : List String) (before : Instant) (limit : Nat)

/-- The service after a call; one that is refused rolls back. -/
def Service.step (store : RunStore) (s : Service) (now : Instant) (call : Call) : Service :=
  let rolled (result : Except ServiceError Service) : Service :=
    match result with
    | .error _ => s
    | .ok s' => s'
  match call with
  | .op op => orElse s (s.serve store now op)
  | .create tenantId url events createdBy webhookId secret =>
    rolled (s.create tenantId url events createdBy webhookId secret now)
  | .rotateSecret tenantId webhookId secret overlap => rolled (s.rotateSecret tenantId webhookId secret overlap now)
  | .delete tenantId webhookId => rolled (s.delete tenantId webhookId)
  | .claimDue held limit => (s.claimDue held limit now).1
  | .settle delivery attempt => (s.settle delivery attempt now).1
  | .redeliver tenantId deliveryId => rolled (s.redeliver tenantId deliveryId now)
  | .dropDead held before limit => (s.dropDead held before limit).1

end AgentRuns
