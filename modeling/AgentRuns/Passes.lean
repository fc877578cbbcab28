import AgentRuns.Sender
import AgentRuns.Spelled

/-!
# One pass over the outbox

`_send_webhooks`, the step of a tick that delivers: the batch it claimed is sent with no transaction open, and settled
in one transaction, a statement at a time.  Routes and other tickers commit in between (`PassAct.other`), and wait for the
rows the transaction wrote.  `settle` reads a row and then flushes what it changed of it: a row that went in
between is a `StaleDataError`, which nothing catches, as nothing catches what `send` lets through.

Either way the step raises: the batch is rolled back, and the rest of the tick is not begun.
-/

namespace AgentRuns

open Relational Fallible Timed Service

/-! ## A tick -/

/-- The steps of a tick. -/
inductive TickStep where
  | fireDue | timeOutPastDeadline | timeOutOverworked | requeueLapsed | escalateOverdue | sendWebhooks | dropDead
  | purgeArtifacts | purgeRuns
deriving DecidableEq

namespace TickStep

/-- The steps before the webhooks are sent. -/
def before : List TickStep := [fireDue, timeOutPastDeadline, timeOutOverworked, requeueLapsed, escalateOverdue]

def order : List TickStep := before ++ [sendWebhooks, dropDead, purgeArtifacts, purgeRuns]

end TickStep

/-- The steps a tick begins: one that raises is the last of them. -/
def begun (raises : TickStep → Option Raised) : List TickStep → List TickStep
  | [] => []
  | step :: steps => step :: if (raises step).isSome then [] else begun raises steps

/-- Steps that raise nothing let the next one begin. -/
theorem begun_append {raises : TickStep → Option Raised} {steps : List TickStep} (later : List TickStep)
    (h : ∀ step ∈ steps, raises step = none) : begun raises (steps ++ later) = steps ++ begun raises later := by
  induction steps with
  | nil => rfl
  | cons step steps ih =>
    show step :: (if (raises step).isSome then [] else begun raises (steps ++ later)) = _
    rw [h step List.mem_cons_self, ih fun s hs => h s (List.mem_cons_of_mem _ hs)]
    rfl

/-! ## The pass -/

/-- What a delivery's turn comes to. -/
inductive Turn where
  /-- it is not in the outbox any more -/
  | gone
  /-- it is as its settle would leave it -/
  | same
  /-- its row is deleted, or updated -/
  | wrote (row : Option DeliveryRow)

inductive PassStage where
  | sending | settling | settled
  | raised (e : Raised)
deriving DecidableEq

def PassStage.raised? : PassStage → Option Raised
  | raised e => some e
  | _ => none

structure Pass where
  service : Service
  /-- when its tick began -/
  now : Instant
  due : List Delivery
  /-- those still to settle -/
  left : List (Delivery × Attempt)
  /-- the row `get` read of the first of them -/
  read : Option DeliveryRow
  done : List (String × Turn)
  stage : PassStage

inductive PassAct where
  | send
  /-- `DELETE` of an accepted delivery -/
  | remove
  | get
  | flush
  | commit
  /-- a call of somebody else commits -/
  | other (call : Call)

/-- What `settle` makes of a row whose attempt failed. -/
def settledRow (delivery : Delivery) (attempt : Attempt) (now : Instant) (row : DeliveryRow) : DeliveryRow :=
  if attempt.retry ∧ delivery.attempts < webhookAttempts then
    { row with
      lastError := attempt.error
      nextAttemptAt := now + backoff webhookRetryBase delivery.attempts webhookRetryCap }
  else { row with lastError := attempt.error, deadAt := some now }

namespace DeliveryRow

/-- Did `settle` change no column? -/
def unchanged (read wrote : DeliveryRow) : Bool :=
  wrote.lastError == read.lastError && wrote.nextAttemptAt == read.nextAttemptAt && wrote.deadAt == read.deadAt

/-- The `UPDATE` the ORM flushes: the columns that changed, over the row as it is. -/
def flushed (read wrote current : DeliveryRow) : DeliveryRow :=
  { current with
    lastError := ScheduleRow.column (· == ·) read.lastError wrote.lastError current.lastError
    nextAttemptAt := ScheduleRow.column (· == ·) read.nextAttemptAt wrote.nextAttemptAt current.nextAttemptAt
    deadAt := ScheduleRow.column (· == ·) read.deadAt wrote.deadAt current.deadAt }

end DeliveryRow

/-- Would the call lock the delivery? The tickers' claims and drops skip what is locked. -/
def Call.locks (s : Service) (deliveryId : String) : Call → Bool
  | .delete _ webhookId => (s.deliveries.find? deliveryId).any (·.webhookId = webhookId)
  | .settle delivery _ => delivery.deliveryId = deliveryId
  | .redeliver _ id => id = deliveryId
  | .claimDue held _ | .dropDead held _ _ => !held.contains deliveryId
  | .op _ | .create .. | .rotateSecret .. => false

/-- Somebody else's call leaves the rows it does not lock. -/
theorem Call.keeps {store : RunStore} {s : Service} {now : Instant} {call : Call} {id : String}
    (hrow : (s.deliveries.find? id).isSome = true) (hfree : call.locks s id = false) :
    ((s.step store now call).deliveries.find? id).isSome = true := by
  cases call with
  | op op =>
    rcases (serve_row store now s op id).2 with he | ⟨hnone, -⟩
    · rw [he]
      exact hrow
    · rw [hnone] at hrow
      cases hrow
  | create tenantId url events createdBy webhookId secret =>
    cases h : s.create tenantId url events createdBy webhookId secret now with
    | error e => simpa only [Service.step, h] using hrow
    | ok s' => simpa only [Service.step, h, (create_ok h).2.1] using hrow
  | rotateSecret tenantId webhookId secret overlap =>
    cases h : s.rotateSecret tenantId webhookId secret overlap now with
    | error e => simpa only [Service.step, h] using hrow
    | ok s' => simpa only [Service.step, h, (rotateSecret_ok h).2.1] using hrow
  | delete tenantId webhookId =>
    cases h : s.delete tenantId webhookId with
    | error e => simpa only [Service.step, h] using hrow
    | ok s' =>
      obtain ⟨row, hfind⟩ := Option.isSome_iff_exists.1 hrow
      simp only [Call.locks, hfind, Option.any_some, decide_eq_false_iff_not] at hfree
      simp only [Service.step, h, (delete_ok h).2.2, Table.find?_erase, hfind]
      simp [hfree]
  | claimDue locked limit =>
    rcases @claimDue_row now s locked limit id with ⟨he, -⟩ | ⟨row, -, -, he⟩
    · show ((s.claimDue locked limit now).1.deliveries.find? id).isSome = true
      rw [he]
      exact hrow
    · show ((s.claimDue locked limit now).1.deliveries.find? id).isSome = true
      rw [he]
      rfl
  | settle delivery attempt =>
    have hne : delivery.deliveryId ≠ id := by simpa [Call.locks] using hfree
    show ((s.settle delivery attempt now).1.deliveries.find? id).isSome = true
    rw [settle_row, if_neg hne]
    exact hrow
  | redeliver tenantId deliveryId =>
    cases h : s.redeliver tenantId deliveryId now with
    | error e => simpa only [Service.step, h] using hrow
    | ok s' =>
      obtain ⟨-, -, row, -, -, hput⟩ := redeliver_row h
      simp only [Service.step, h, hput, Table.find?_put]
      split <;> simpa using hrow
  | dropDead locked before limit =>
    have hin : locked.contains id = true := by simpa [Call.locks] using hfree
    obtain ⟨row, hfind⟩ := Option.isSome_iff_exists.1 hrow
    have hkey : row.deliveryId = id := Table.key_of_find? hfind
    show ((s.dropDead locked before limit).1.deliveries.find? id).isSome = true
    unfold Service.dropDead
    dsimp only
    rw [Table.find?_erase, hfind, Option.filter_some, if_pos]
    · rfl
    · -- what is locked is skipped
      rw [Bool.not_eq_true', List.contains_eq_mem, decide_eq_false_iff_not, hkey]
      intro hmem
      obtain ⟨r, hr, rfl⟩ := List.mem_map.1 hmem
      have hskip := (List.mem_filter.1 (List.mem_of_mem_take hr)).2
      rw [hin] at hskip
      cases hskip

namespace Pass

/-- The batch is claimed; with none due there is nothing to do. -/
def start (s : Service) (locked : List String) (limit : Nat) (now : Instant) : Pass :=
  let (service, due) := s.claimDue locked limit now
  ⟨service, now, due, [], none, [], if due.isEmpty then .settled else .sending⟩

/-- The ids of the rows the transaction wrote. -/
def written (p : Pass) : List String :=
  p.done.filterMap fun x => match x.2 with
    | .wrote _ => some x.1
    | _ => none

/-- The first delivery's turn is over. -/
def turn (p : Pass) (turn : Turn) : Pass :=
  match p.left with
  | [] => p
  | (delivery, _) :: left => { p with left := left, read := none, done := p.done ++ [(delivery.deliveryId, turn)] }

/-- The ids of those it deleted. -/
def removed (p : Pass) : List String :=
  p.done.filterMap fun x => match x.2 with
    | .wrote none => some x.1
    | _ => none

/-- The rows it updated. -/
def updated (p : Pass) : List DeliveryRow :=
  p.done.filterMap fun x => match x.2 with
    | .wrote row => row
    | _ => none

/-- The outbox with what the transaction wrote. -/
def applied (p : Pass) : Table DeliveryRow.deliveryId :=
  (p.service.deliveries.erase fun row => p.removed.contains row.deliveryId).putAll p.updated

/-! ### The statements -/

def send (p : Pass) (sender : WebhookSender) (web : Web) (wires : String → Wire) : Pass :=
  match p.stage with
  | .sending =>
    match sender.sendAll web wires p.due with
    | .error e => { p with stage := .raised e }
    | .ok sents => { p with left := p.due.zip (sents.map Sent.attempt), read := none, stage := .settling }
  | _ => p

def remove (p : Pass) : Pass :=
  match p.stage, p.left with
  | .settling, (delivery, attempt) :: _ =>
    if attempt.error.isSome then p
    else p.turn (if (p.service.deliveries.find? delivery.deliveryId).isSome then .wrote none else .gone)
  | _, _ => p

def get (p : Pass) : Pass :=
  match p.stage, p.left, p.read with
  | .settling, (delivery, attempt) :: _, none =>
    if attempt.error.isNone then p
    else
      match p.service.deliveries.find? delivery.deliveryId with
      | none => p.turn .gone
      | some row => { p with read := some row }
  | _, _, _ => p

/-- What the next flush writes: the row it read, and that row settled. -/
def flushing (p : Pass) : Option (Delivery × DeliveryRow × DeliveryRow) :=
  match p.stage, p.left, p.read with
  | .settling, (delivery, attempt) :: _, some row => some (delivery, row, settledRow delivery attempt p.now row)
  | _, _, _ => none

def flush (p : Pass) : Pass :=
  match p.flushing with
  | none => p
  | some (delivery, row, wrote) =>
    if row.unchanged wrote then p.turn .same
    else
      match p.service.deliveries.find? delivery.deliveryId with
      | none =>
        { p with stage := .raised (.other "StaleDataError"
            "UPDATE statement on table 'webhook_deliveries' expected to update 1 row(s); 0 were matched.") }
      | some current => p.turn (.wrote (some (row.flushed wrote current)))

def commit (p : Pass) : Pass :=
  match p.stage, p.left with
  | .settling, [] => { p with service := { p.service with deliveries := p.applied }, stage := .settled }
  | _, _ => p

/-- A call of somebody else; it waits where the transaction wrote what it would lock.  The pass is watched until it is
over. -/
def other (p : Pass) (store : RunStore) (now : Instant) (call : Call) : Pass :=
  match p.stage with
  | .sending | .settling =>
    if p.written.any fun id => call.locks p.service id then p
    else { p with service := p.service.step store now call }
  | _ => p

def step (store : RunStore) (sender : WebhookSender) (web : Web) (wires : String → Wire) (p : Pass) (now : Instant)
    (act : PassAct) : Pass :=
  match act with
  | .send => p.send sender web wires
  | .remove => p.remove
  | .get => p.get
  | .flush => p.flush
  | .commit => p.commit
  | .other call => p.other store now call

/-! ## How it ends -/

/-- What a flush updates is there. -/
def Undisturbed (p : Pass) (_ : Instant) (act : PassAct) : Prop :=
  act = .flush → ∀ delivery row wrote, p.flushing = some (delivery, row, wrote) → row.unchanged wrote = false →
    (p.service.deliveries.find? delivery.deliveryId).isSome = true

section
variable {store : RunStore} {sender : WebhookSender} {web : Web} {wires : String → Wire} {p : Pass} {now : Instant}
  {act : PassAct}

/-- A flush needs a transaction. -/
theorem flushing_settling {delivery : Delivery} {row wrote : DeliveryRow} (h : p.flushing = some (delivery, row, wrote)) :
    p.stage = .settling ∧ p.read = some row ∧ ∃ attempt left, p.left = (delivery, attempt) :: left ∧
      wrote = settledRow delivery attempt p.now row := by
  unfold flushing at h
  split at h
  · next d attempt left row' hstage hleft hread =>
    cases h
    exact ⟨hstage, hread, attempt, left, hleft, rfl⟩
  · cases h

theorem undisturbed_of_ne (hact : act ≠ .flush) : Undisturbed p now act := fun h => absurd h hact

theorem undisturbed_of_stage (hstage : p.stage ≠ .settling) : Undisturbed p now act :=
  fun _ _ _ _ h => absurd (flushing_settling h).1 hstage

@[simp] theorem turn_stage (p : Pass) (turn : Turn) : (p.turn turn).stage = p.stage := by
  unfold Pass.turn
  split <;> rfl

@[simp] theorem turn_due (p : Pass) (turn : Turn) : (p.turn turn).due = p.due := by
  unfold Pass.turn
  split <;> rfl

theorem remove_stage (p : Pass) : p.remove.stage = p.stage ∧ p.remove.due = p.due := by
  unfold remove
  split
  · split
    · exact ⟨rfl, rfl⟩
    · exact ⟨turn_stage p _, turn_due p _⟩
  · exact ⟨rfl, rfl⟩

theorem get_stage (p : Pass) : p.get.stage = p.stage ∧ p.get.due = p.due := by
  unfold get
  split
  · split
    · exact ⟨rfl, rfl⟩
    · split
      · exact ⟨turn_stage p _, turn_due p _⟩
      · exact ⟨rfl, rfl⟩
  · exact ⟨rfl, rfl⟩

theorem other_stage (p : Pass) (store : RunStore) (now : Instant) (call : Call) :
    (p.other store now call).stage = p.stage ∧ (p.other store now call).due = p.due := by
  unfold other
  split
  · split <;> exact ⟨rfl, rfl⟩
  · split <;> exact ⟨rfl, rfl⟩
  · exact ⟨rfl, rfl⟩

/-- A flush goes through where what it updates is there, and raises where it is not. -/
theorem flush_stage (p : Pass) (now : Instant) : p.flush.due = p.due ∧
    ((p.flush.stage = p.stage ∧ Undisturbed p now .flush) ∨
      (p.stage = .settling ∧ (∃ e, p.flush.stage = .raised e) ∧ ¬ Undisturbed p now .flush)) := by
  unfold flush
  split
  · next hnone =>
    exact ⟨rfl, Or.inl ⟨rfl, fun _ _ _ _ h => by rw [hnone] at h; cases h⟩⟩
  · next delivery row wrote hsome =>
    obtain ⟨hstage, -⟩ := flushing_settling hsome
    split
    · next hsame =>
      refine ⟨turn_due p _, Or.inl ⟨turn_stage p _, fun _ d r w h hne => ?_⟩⟩
      rw [hsome] at h
      cases h
      rw [hsame] at hne
      cases hne
    · next hne =>
      split
      · next hgone =>
        refine ⟨rfl, Or.inr ⟨hstage, ⟨_, rfl⟩, fun hu => ?_⟩⟩
        have := hu rfl delivery row wrote hsome (by simpa using hne)
        rw [hgone] at this
        cases this
      · next current hthere =>
        refine ⟨turn_due p _, Or.inl ⟨turn_stage p _, fun _ d r w h _ => ?_⟩⟩
        rw [hsome] at h
        cases h
        rw [hthere]
        rfl

/-- A step leaves the stage of the pass, or takes it on. -/
theorem step_stage (store : RunStore) (sender : WebhookSender) (web : Web) (wires : String → Wire) (p : Pass) (now : Instant)
    (act : PassAct) :
    (p.step store sender web wires now act).due = p.due ∧
      (((p.step store sender web wires now act).stage = p.stage ∧ Undisturbed p now act) ∨
        (p.stage = .sending ∧ Undisturbed p now act ∧
          ((∃ e, sender.sendAll web wires p.due = .error e ∧ (p.step store sender web wires now act).stage = .raised e) ∨
            ∃ sents, sender.sendAll web wires p.due = .ok sents ∧
              (p.step store sender web wires now act).stage = .settling)) ∨
        (p.stage = .settling ∧ Undisturbed p now act ∧ (p.step store sender web wires now act).stage = .settled) ∨
        (p.stage = .settling ∧ ¬ Undisturbed p now act ∧ ∃ e, (p.step store sender web wires now act).stage = .raised e)) := by
  cases act with
  | send =>
    have hu : Undisturbed p now .send := undisturbed_of_ne (by simp)
    have hstep : p.step store sender web wires now .send = p.send sender web wires := rfl
    rw [hstep]
    unfold send
    split
    · next hstage =>
      split
      · next e he => exact ⟨rfl, Or.inr (Or.inl ⟨hstage, hu, Or.inl ⟨e, he, rfl⟩⟩)⟩
      · next sents he => exact ⟨rfl, Or.inr (Or.inl ⟨hstage, hu, Or.inr ⟨sents, he, rfl⟩⟩)⟩
    · exact ⟨rfl, Or.inl ⟨rfl, hu⟩⟩
  | remove =>
    obtain ⟨hstage, hdue⟩ := remove_stage p
    exact ⟨hdue, Or.inl ⟨hstage, undisturbed_of_ne (by simp)⟩⟩
  | get =>
    obtain ⟨hstage, hdue⟩ := get_stage p
    exact ⟨hdue, Or.inl ⟨hstage, undisturbed_of_ne (by simp)⟩⟩
  | flush =>
    obtain ⟨hdue, ⟨hstage, hu⟩ | ⟨hstage, hraised, hu⟩⟩ := flush_stage p now
    · exact ⟨hdue, Or.inl ⟨hstage, hu⟩⟩
    · exact ⟨hdue, Or.inr (Or.inr (Or.inr ⟨hstage, hu, hraised⟩))⟩
  | commit =>
    have hu : Undisturbed p now .commit := undisturbed_of_ne (by simp)
    have hstep : p.step store sender web wires now .commit = p.commit := rfl
    rw [hstep]
    unfold commit
    split
    · next hstage _ => exact ⟨rfl, Or.inr (Or.inr (Or.inl ⟨hstage, hu, rfl⟩))⟩
    · exact ⟨rfl, Or.inl ⟨rfl, hu⟩⟩
  | other call =>
    obtain ⟨hstage, hdue⟩ := other_stage p store now call
    exact ⟨hdue, Or.inl ⟨hstage, undisturbed_of_ne (by simp)⟩⟩

/-- A pass that is over stays so. -/
theorem after_over (l : List (Instant × PassAct)) : ∀ {p : Pass}, p.stage ≠ .sending → p.stage ≠ .settling →
    (Run.after (step store sender web wires) p l).stage = p.stage ∧ Run.Each (step store sender web wires) Undisturbed p l := by
  induction l with
  | nil => intro p _ _; exact ⟨rfl, trivial⟩
  | cons x l ih =>
    intro p hsending hsettling
    obtain ⟨-, ⟨hstage, hu⟩ | ⟨hstage, -⟩ | ⟨hstage, -⟩ | ⟨hstage, -⟩⟩ := step_stage store sender web wires p x.1 x.2
    · obtain ⟨hafter, heach⟩ := @ih (p.step store sender web wires x.1 x.2) (by rw [hstage]; exact hsending)
        (by rw [hstage]; exact hsettling)
      exact ⟨hafter.trans hstage, hu, heach⟩
    · exact absurd hstage hsending
    · exact absurd hstage hsettling
    · exact absurd hstage hsettling

/-- A batch that was sent is rolled back exactly where a flush misses what it updates. -/
theorem raised_iff {sents : List Sent} (l : List (Instant × PassAct)) : ∀ {p : Pass},
    sender.sendAll web wires p.due = .ok sents → (∀ e, p.stage ≠ .raised e) →
      ((∃ e, (Run.after (step store sender web wires) p l).stage = .raised e) ↔
        ¬ Run.Each (step store sender web wires) Undisturbed p l) := by
  induction l with
  | nil =>
    intro p _ hne
    exact ⟨fun ⟨e, he⟩ => absurd he (hne e), fun h => absurd trivial h⟩
  | cons x l ih =>
    intro p hsent hne
    show (∃ e, (Run.after (Pass.step store sender web wires) (p.step store sender web wires x.1 x.2) l).stage = .raised e) ↔
      ¬ (Undisturbed p x.1 x.2 ∧ Run.Each (Pass.step store sender web wires) Undisturbed (p.step store sender web wires x.1 x.2) l)
    obtain ⟨hdue, hcase⟩ := step_stage store sender web wires p x.1 x.2
    rw [← hdue] at hsent
    rcases hcase with ⟨hstage, hu⟩ | ⟨-, hu, ⟨e, he, -⟩ | ⟨-, -, hstage⟩⟩ | ⟨-, hu, hstage⟩ | ⟨-, hu, e, hstage⟩
    · rw [ih hsent (by rw [hstage]; exact hne)]
      simp [hu]
    · rw [← hdue, hsent] at he
      cases he
    · rw [ih hsent (by rw [hstage]; simp)]
      simp [hu]
    · rw [ih hsent (by rw [hstage]; simp)]
      simp [hu]
    · obtain ⟨hafter, -⟩ := @after_over store sender web wires l (p.step store sender web wires x.1 x.2)
        (by rw [hstage]; simp) (by rw [hstage]; simp)
      rw [hafter, hstage]
      simp [hu]

/-- A batch of which one send raises is not settled. -/
theorem not_settled {e : Raised} (l : List (Instant × PassAct)) : ∀ {p : Pass}, sender.sendAll web wires p.due = .error e →
    p.stage = .sending → (Run.after (step store sender web wires) p l).stage ≠ .settled := by
  induction l with
  | nil =>
    intro p _ hstage
    show p.stage ≠ _
    rw [hstage]
    simp
  | cons x l ih =>
    intro p herr hsending
    show (Run.after (Pass.step store sender web wires) (p.step store sender web wires x.1 x.2) l).stage ≠ _
    obtain ⟨hdue, hcase⟩ := step_stage store sender web wires p x.1 x.2
    rcases hcase with ⟨hstage, -⟩ | ⟨-, -, ⟨e', -, hstage⟩ | ⟨sents, hok, -⟩⟩ | ⟨hstage, -⟩ | ⟨hstage, -⟩
    · exact ih (by rw [hdue]; exact herr) (hstage.trans hsending)
    · obtain ⟨hafter, -⟩ := @after_over store sender web wires l (p.step store sender web wires x.1 x.2)
        (by rw [hstage]; simp) (by rw [hstage]; simp)
      rw [hafter, hstage]
      simp
    · rw [herr] at hok
      cases hok
    · rw [hsending] at hstage
      cases hstage
    · rw [hsending] at hstage
      cases hstage

end

/-! ## What it leaves -/

/-- The turn is that of a delivery with this attempt. -/
def TurnOf (now : Instant) (delivery : Delivery) (attempt : Attempt) : Turn → Prop
  | .gone => True
  | .same => attempt.error.isSome = true
  | .wrote none => attempt.error.isNone = true
  | .wrote (some row) => attempt.error.isSome = true ∧
      ∃ read current, row = DeliveryRow.flushed read (settledRow delivery attempt now read) current

/-- The delivery was sent, and this was its attempt. -/
def Tried (sender : WebhookSender) (web : Web) (wires : String → Wire) (delivery : Delivery) (attempt : Attempt) : Prop :=
  ∃ sent, sender.send web (wires delivery.deliveryId) delivery.url = .ok sent ∧ attempt = sent.attempt

/-- A delivery's turn, under its id. -/
def Turned (sender : WebhookSender) (web : Web) (wires : String → Wire) (now : Instant) (delivery : Delivery)
    (x : String × Turn) : Prop :=
  x.1 = delivery.deliveryId ∧ ∃ attempt, Tried sender web wires delivery attempt ∧ TurnOf now delivery attempt x.2

/-- The turns of a transaction under way, and of one that committed. -/
structure Inv (sender : WebhookSender) (web : Web) (wires : String → Wire) (due : List Delivery) (p : Pass) : Prop where
  batch : p.due = due
  nodup : (due.map Delivery.deliveryId).Nodup
  sending : p.stage = .sending → p.done = []
  settling : p.stage = .settling → ∃ front back, due = front ++ back ∧
    List.Forall₂ (Turned sender web wires p.now) front p.done ∧
    List.Forall₂ (fun d x => x.1 = d ∧ Tried sender web wires d x.2) back p.left
  locked : p.stage = .settling → ∀ id row, (id, Turn.wrote row) ∈ p.done →
    (p.service.deliveries.find? id).isSome = true ∧ ∀ r, row = some r → r.deliveryId = id
  settled : p.stage = .settled → List.Forall₂ (Turned sender web wires p.now) due p.done ∧
    ∀ id row, (id, Turn.wrote row) ∈ p.done → p.service.deliveries.find? id = row

section
variable {store : RunStore} {sender : WebhookSender} {web : Web} {wires : String → Wire} {due : List Delivery} {p : Pass}
  {now : Instant} {act : PassAct}

/-- The next delivery has its turn. -/
theorem Inv.turn (hi : Inv sender web wires due p) (hstage : p.stage = .settling) {delivery : Delivery} {attempt : Attempt}
    {left : List (Delivery × Attempt)} (hleft : p.left = (delivery, attempt) :: left) {turn : Turn}
    (hturn : TurnOf p.now delivery attempt turn)
    (hlock : ∀ row, turn = .wrote row → (p.service.deliveries.find? delivery.deliveryId).isSome = true ∧
      ∀ r, row = some r → r.deliveryId = delivery.deliveryId) : Inv sender web wires due (p.turn turn) := by
  obtain ⟨front, back, hdue, hdone, hback⟩ := hi.settling hstage
  rw [hleft] at hback
  cases hback with
  | @cons d _ back _ hd hback =>
    obtain ⟨rfl, htried⟩ := hd
    have hp : p.turn turn = { p with left := left, read := none, done := p.done ++ [(delivery.deliveryId, turn)] } := by
      unfold Pass.turn
      rw [hleft]
    rw [hp]
    refine ⟨hi.batch, hi.nodup, fun hs => ?_, fun _ => ?_, fun _ id row hmem => ?_, fun hs => ?_⟩
    · rw [hstage] at hs
      cases hs
    · refine ⟨front ++ [delivery], back, by rw [hdue, List.append_assoc]; rfl, ?_, hback⟩
      exact List.rel_append hdone (.cons ⟨rfl, attempt, htried, hturn⟩ .nil)
    · rcases List.mem_append.1 hmem with hmem | hmem
      · exact hi.locked hstage id row hmem
      · obtain ⟨rfl, rfl⟩ := Prod.mk.inj (List.mem_singleton.1 hmem)
        exact hlock row rfl
    · rw [hstage] at hs
      cases hs

theorem Inv.remove (hi : Inv sender web wires due p) : Inv sender web wires due p.remove := by
  unfold Pass.remove
  split
  · next delivery attempt left hstage hleft =>
    split
    · exact hi
    · next haccepted =>
      have hnone : attempt.error.isNone = true := by simpa using haccepted
      cases hfind : p.service.deliveries.find? delivery.deliveryId with
      | none => exact hi.turn hstage hleft trivial fun row h => (by cases h)
      | some row =>
        refine hi.turn hstage hleft hnone fun row' h => ?_
        cases h
        rw [hfind]
        exact ⟨rfl, fun r hr => by cases hr⟩
  · exact hi

theorem Inv.get (hi : Inv sender web wires due p) : Inv sender web wires due p.get := by
  unfold Pass.get
  split
  · next delivery attempt left hstage hleft _ =>
    split
    · exact hi
    · split
      · exact hi.turn hstage hleft trivial fun row h => (by cases h)
      · exact ⟨hi.batch, hi.nodup, hi.sending, hi.settling, hi.locked, hi.settled⟩
  · exact hi

/-- Only a failed delivery's row is read. -/
structure Reading (p : Pass) : Prop where
  failed : p.read ≠ none → ∀ delivery attempt left, p.left = (delivery, attempt) :: left → attempt.error.isSome = true

theorem Inv.flush (hi : Inv sender web wires due p) (hr : Reading p) : Inv sender web wires due p.flush := by
  unfold Pass.flush
  split
  · exact hi
  · next delivery row wrote hflushing =>
    obtain ⟨hstage, hread, attempt, left, hleft, rfl⟩ := flushing_settling hflushing
    have hfailed : attempt.error.isSome = true := hr.failed (by rw [hread]; simp) delivery attempt left hleft
    split
    · exact hi.turn hstage hleft hfailed fun row' h => (by cases h)
    · split
      · refine ⟨hi.batch, hi.nodup, fun hs => ?_, fun hs => ?_, fun hs => ?_, fun hs => ?_⟩ <;> cases hs
      · next current hfind =>
        refine hi.turn hstage hleft ⟨hfailed, row, current, rfl⟩ fun row' h => ?_
        cases h
        rw [hfind]
        refine ⟨rfl, fun r hr => ?_⟩
        cases hr
        show current.deliveryId = _
        exact Table.key_of_find? hfind

/-- What is sent is left to settle. -/
theorem tried_zip {deliveries : List Delivery} {sents : List Sent} (h : sender.sendAll web wires deliveries = .ok sents) :
    List.Forall₂ (fun d x => x.1 = d ∧ Tried sender web wires d x.2) deliveries (deliveries.zip (sents.map Sent.attempt)) := by
  have hall := each_ok.1 h
  clear h
  induction hall with
  | nil => exact .nil
  | cons hsent _ ih => exact .cons ⟨rfl, _, hsent, rfl⟩ ih

theorem Inv.send (hi : Inv sender web wires due p) : Inv sender web wires due (p.send sender web wires) := by
  unfold Pass.send
  split
  · next hstage =>
    split
    · refine ⟨hi.batch, hi.nodup, fun hs => ?_, fun hs => ?_, fun hs => ?_, fun hs => ?_⟩ <;> cases hs
    · next sents hsents =>
      refine ⟨hi.batch, hi.nodup, fun hs => (by cases hs), fun _ => ?_, fun _ id row hmem => ?_, fun hs => (by cases hs)⟩
      · refine ⟨[], due, rfl, ?_, ?_⟩
        · show List.Forall₂ _ [] p.done
          rw [hi.sending hstage]
          exact .nil
        · rw [← hi.batch]
          exact tried_zip hsents
      · have hmem' : (id, Turn.wrote row) ∈ p.done := hmem
        rw [hi.sending hstage] at hmem'
        cases hmem'
  · exact hi

theorem Inv.other (hi : Inv sender web wires due p) (call : Call) : Inv sender web wires due (p.other store now call) := by
  unfold Pass.other
  split
  · next hstage =>
    have hdone : p.done = [] := hi.sending hstage
    split
    · exact hi
    · refine ⟨hi.batch, hi.nodup, fun _ => hdone, fun hs => ?_, fun _ id row hmem => ?_, fun hs => ?_⟩
      · rw [hstage] at hs
        cases hs
      · have hmem' : (id, Turn.wrote row) ∈ p.done := hmem
        rw [hdone] at hmem'
        cases hmem'
      · rw [hstage] at hs
        cases hs
  · next hstage =>
    split
    · exact hi
    · next hfree =>
      refine ⟨hi.batch, hi.nodup, fun hs => ?_, fun _ => hi.settling hstage, fun _ id row hmem => ?_, fun hs => ?_⟩
      · rw [hstage] at hs
        cases hs
      · obtain ⟨hthere, hkey⟩ := hi.locked hstage id row hmem
        have hwritten : id ∈ p.written := List.mem_filterMap.2 ⟨(id, .wrote row), hmem, rfl⟩
        have hlocks : call.locks p.service id = false := by
          cases h : call.locks p.service id with
          | false => rfl
          | true => exact absurd (List.any_eq_true.2 ⟨id, hwritten, h⟩) hfree
        exact ⟨call.keeps hthere hlocks, hkey⟩
      · rw [hstage] at hs
        cases hs
  · exact hi

theorem mem_removed {id : String} : id ∈ p.removed ↔ (id, Turn.wrote none) ∈ p.done := by
  unfold removed
  rw [List.mem_filterMap]
  constructor
  · rintro ⟨x, hx, h⟩
    split at h
    · next hw =>
      cases h
      rw [← hw]
      exact hx
    · cases h
  · exact fun h => ⟨_, h, rfl⟩

theorem mem_updated {row : DeliveryRow} : row ∈ p.updated ↔ ∃ id, (id, Turn.wrote (some row)) ∈ p.done := by
  unfold updated
  rw [List.mem_filterMap]
  constructor
  · rintro ⟨x, hx, h⟩
    split at h
    · next row' hw =>
      subst h
      exact ⟨x.1, by rw [← hw]; exact hx⟩
    · cases h
  · rintro ⟨id, h⟩
    exact ⟨_, h, rfl⟩

/-- Each has its own id. -/
theorem updated_nodup (hnodup : (p.done.map Prod.fst).Nodup)
    (hkey : ∀ id row, (id, Turn.wrote (some row)) ∈ p.done → row.deliveryId = id) :
    (p.updated.map DeliveryRow.deliveryId).Nodup := by
  have hsub : (p.updated.map DeliveryRow.deliveryId).Sublist (p.done.map Prod.fst) := by
    unfold updated
    generalize p.done = done at hkey
    induction done with
    | nil => exact .slnil
    | cons x done ih =>
      have ih := ih fun id row h => hkey id row (List.mem_cons_of_mem _ h)
      obtain ⟨id, turn⟩ := x
      cases turn with
      | gone | same => exact ih.cons id
      | wrote row =>
        cases row with
        | none => exact ih.cons id
        | some row =>
          have hid : row.deliveryId = id := hkey id row List.mem_cons_self
          subst hid
          exact ih.cons_cons row.deliveryId
  exact hsub.nodup hnodup

/-- What the transaction wrote is what it leaves. -/
theorem applied_row (hnodup : (p.done.map Prod.fst).Nodup)
    (hlock : ∀ id row, (id, Turn.wrote row) ∈ p.done → (p.service.deliveries.find? id).isSome = true ∧
      ∀ r, row = some r → r.deliveryId = id) {id : String} {row : Option DeliveryRow} (h : (id, Turn.wrote row) ∈ p.done) :
    p.applied.find? id = row := by
  have hone : ∀ {turn turn'}, (id, turn) ∈ p.done → (id, turn') ∈ p.done → turn = turn' := by
    intro turn turn' ht ht'
    exact congrArg Prod.snd (List.inj_on_of_nodup_map hnodup ht ht' rfl)
  have hrows : (p.updated.map DeliveryRow.deliveryId).Nodup :=
    updated_nodup hnodup fun id row hmem => (hlock id (some row) hmem).2 row rfl
  unfold applied
  cases row with
  | none =>
    rw [Table.find?_putAll_of_ne, Table.find?_erase]
    · cases hfind : p.service.deliveries.find? id with
      | none => rfl
      | some old =>
        have hkey : old.deliveryId = id := Table.key_of_find? hfind
        have hin : id ∈ p.removed := mem_removed.2 h
        rw [Option.filter_some, if_neg]
        rw [hkey]
        simpa using hin
    · intro r hr
      obtain ⟨id', hr'⟩ := mem_updated.1 hr
      rw [(hlock id' _ hr').2 r rfl]
      rintro rfl
      have := hone h hr'
      cases this
  | some r =>
    obtain ⟨hthere, hkey⟩ := hlock id (some r) h
    obtain ⟨old, hold⟩ := Option.isSome_iff_exists.1 hthere
    have hid : r.deliveryId = id := hkey r rfl
    have hkept : (p.service.deliveries.erase fun row => p.removed.contains row.deliveryId).find? r.deliveryId = some old := by
      rw [Table.find?_erase, hid, hold, Option.filter_some, if_pos]
      have hold' : old.deliveryId = id := Table.key_of_find? hold
      rw [hold']
      have hnot : id ∉ p.removed := by
        intro hin
        have := hone h (mem_removed.1 hin)
        cases this
      simpa using hnot
    rw [← hid]
    exact Table.find?_putAll_of_mem hrows (mem_updated.2 ⟨id, h⟩) hkept

theorem Turned.ids {done : List (String × Turn)} (h : List.Forall₂ (Turned sender web wires now) due done) :
    done.map Prod.fst = due.map Delivery.deliveryId := by
  induction h with
  | nil => rfl
  | cons hturned _ ih => rw [List.map_cons, List.map_cons, ih, hturned.1]

theorem Inv.commit (hi : Inv sender web wires due p) : Inv sender web wires due p.commit := by
  unfold Pass.commit
  split
  · next hstage hleft =>
    obtain ⟨front, back, hdue, hdone, hback⟩ := hi.settling hstage
    rw [hleft] at hback
    cases hback
    rw [List.append_nil] at hdue
    subst hdue
    refine ⟨hi.batch, hi.nodup, fun hs => (by cases hs), fun hs => (by cases hs), fun hs => (by cases hs), fun _ =>
      ⟨hdone, fun id row hmem => ?_⟩⟩
    exact applied_row (by rw [Turned.ids hdone]; exact hi.nodup) (hi.locked hstage) hmem
  · exact hi

theorem Reading.turn (turn : Turn) (hr : Reading p) : Reading (p.turn turn) := by
  unfold Pass.turn
  split
  · exact hr
  · exact ⟨fun h => absurd rfl h⟩

theorem Reading.step (hr : Reading p) : Reading (p.step store sender web wires now act) := by
  cases act with
  | send =>
    show Reading (p.send sender web wires)
    unfold Pass.send
    split
    · split
      · exact ⟨hr.failed⟩
      · exact ⟨fun h => absurd rfl h⟩
    · exact hr
  | remove =>
    show Reading p.remove
    unfold Pass.remove
    split
    · split
      · exact hr
      · exact hr.turn _
    · exact hr
  | get =>
    show Reading p.get
    unfold Pass.get
    split
    · next delivery attempt left hstage hleft _ =>
      split
      · exact hr
      · next hfailed =>
        split
        · exact hr.turn _
        · refine ⟨fun _ d a rest h => ?_⟩
          have h' : p.left = (d, a) :: rest := h
          rw [hleft] at h'
          cases h'
          simpa [Option.isNone_iff_eq_none, Option.isSome_iff_ne_none] using hfailed
    · exact hr
  | flush =>
    show Reading p.flush
    unfold Pass.flush
    split
    · exact hr
    · split
      · exact hr.turn _
      · split
        · exact ⟨hr.failed⟩
        · exact hr.turn _
  | commit =>
    show Reading p.commit
    unfold Pass.commit
    split
    · exact ⟨hr.failed⟩
    · exact hr
  | other call =>
    show Reading (p.other store now call)
    unfold Pass.other
    split
    · split
      · exact hr
      · exact ⟨hr.failed⟩
    · split
      · exact hr
      · exact ⟨hr.failed⟩
    · exact hr

/-- **Step.** -/
theorem Inv.step (hi : Inv sender web wires due p) (hr : Reading p) :
    Inv sender web wires due (p.step store sender web wires now act) := by
  cases act with
  | send => exact hi.send
  | remove => exact hi.remove
  | get => exact hi.get
  | flush => exact hi.flush hr
  | commit => exact hi.commit
  | other call => exact hi.other call

/-- **Run.** -/
theorem Inv.after (l : List (Instant × PassAct)) : ∀ {p : Pass}, Inv sender web wires due p → Reading p →
    Inv sender web wires due (Run.after (Pass.step store sender web wires) p l) := by
  induction l with
  | nil => intro p hi _; exact hi
  | cons x l ih =>
    intro p hi hr
    exact ih (hi.step hr) hr.step

/-- A delivery that is gone at its turn was not in the outbox then. -/
theorem gone_turn {id : String} {turn : Turn} (h : (id, Turn.gone) ∈ (p.turn turn).done) : (id, Turn.gone) ∈ p.done ∨
    turn = .gone ∧ ∃ delivery attempt left, p.left = (delivery, attempt) :: left ∧ id = delivery.deliveryId := by
  unfold Pass.turn at h
  split at h
  · exact Or.inl h
  · next delivery attempt left hleft =>
    rcases List.mem_append.1 h with h | h
    · exact Or.inl h
    · obtain ⟨rfl, rfl⟩ := Prod.mk.inj (List.mem_singleton.1 h)
      exact Or.inr ⟨rfl, delivery, attempt, left, hleft, rfl⟩

theorem gone_step {id : String} (h : (id, Turn.gone) ∈ (p.step store sender web wires now act).done) :
    (id, Turn.gone) ∈ p.done ∨ p.service.deliveries.find? id = none := by
  cases act with
  | send =>
    refine Or.inl ?_
    have h' : (id, Turn.gone) ∈ (p.send sender web wires).done := h
    unfold Pass.send at h'
    split at h'
    · split at h' <;> exact h'
    · exact h'
  | remove =>
    have h' : (id, Turn.gone) ∈ p.remove.done := h
    unfold Pass.remove at h'
    split at h'
    · next delivery attempt left _ hleft =>
      split at h'
      · exact Or.inl h'
      · rcases gone_turn h' with h' | ⟨hgone, d, a, rest, hleft', rfl⟩
        · exact Or.inl h'
        · rw [hleft] at hleft'
          cases hleft'
          split at hgone
          · cases hgone
          · next hnone => exact Or.inr (Option.not_isSome_iff_eq_none.1 hnone)
    · exact Or.inl h'
  | get =>
    have h' : (id, Turn.gone) ∈ p.get.done := h
    unfold Pass.get at h'
    split at h'
    · next delivery attempt left _ hleft _ =>
      split at h'
      · exact Or.inl h'
      · split at h'
        · next hnone =>
          rcases gone_turn h' with h' | ⟨-, d, a, rest, hleft', rfl⟩
          · exact Or.inl h'
          · rw [hleft] at hleft'
            cases hleft'
            exact Or.inr hnone
        · exact Or.inl h'
    · exact Or.inl h'
  | flush =>
    have h' : (id, Turn.gone) ∈ p.flush.done := h
    unfold Pass.flush at h'
    refine Or.inl ?_
    split at h'
    · exact h'
    · split at h'
      · exact (gone_turn h').resolve_right fun hgone => by cases hgone.1
      · split at h'
        · exact h'
        · exact (gone_turn h').resolve_right fun hgone => by cases hgone.1
  | commit =>
    refine Or.inl ?_
    have h' : (id, Turn.gone) ∈ p.commit.done := h
    unfold Pass.commit at h'
    split at h' <;> exact h'
  | other call =>
    refine Or.inl ?_
    have h' : (id, Turn.gone) ∈ (p.other store now call).done := h
    unfold Pass.other at h'
    split at h'
    · split at h' <;> exact h'
    · split at h' <;> exact h'
    · exact h'

theorem gone_run {id : String} (l : List (Instant × PassAct)) : ∀ {p : Pass},
    (id, Turn.gone) ∈ (Run.after (Pass.step store sender web wires) p l).done → (id, Turn.gone) ∈ p.done ∨
      ∃ l₁ l₂, l = l₁ ++ l₂ ∧
        (Run.after (Pass.step store sender web wires) p l₁).service.deliveries.find? id = none := by
  induction l with
  | nil => intro p h; exact Or.inl h
  | cons x l ih =>
    intro p h
    rcases ih h with h | ⟨l₁, l₂, rfl, hnone⟩
    · rcases gone_step h with h | hnone
      · exact Or.inl h
      · exact Or.inr ⟨[], x :: l, rfl, hnone⟩
    · exact Or.inr ⟨x :: l₁, l₂, rfl, hnone⟩

/-- A batch is of distinct deliveries. -/
theorem claimed_nodup (s : Service) (locked : List String) (limit : Nat) (now : Instant) :
    ((s.claimDue locked limit now).2.map Delivery.deliveryId).Nodup := by
  have hsub : ((s.claimDue locked limit now).2.map Delivery.deliveryId).Sublist
      ((s.due locked limit now).map (·.deliveryId)) := by
    show ((((s.due locked limit now).map _).filterMap _).map Delivery.deliveryId).Sublist _
    generalize s.due locked limit now = rows
    induction rows with
    | nil => exact .slnil
    | cons row rows ih =>
      rw [List.map_cons, List.map_cons]
      cases hook : s.webhooks.find? row.webhookId with
      | none =>
        rw [List.filterMap_cons_none (by rw [hook]; rfl)]
        exact ih.cons _
      | some hook' =>
        rw [List.filterMap_cons_some (by rw [hook]; rfl)]
        exact ih.cons_cons _
  exact hsub.nodup (s.due_nodup locked limit)

theorem Inv.start (s : Service) (locked : List String) (limit : Nat) (now : Instant) :
    Inv sender web wires (s.claimDue locked limit now).2 (Pass.start s locked limit now) := by
  refine ⟨rfl, claimed_nodup s locked limit now, fun _ => rfl, fun hs => ?_, fun hs => ?_, fun hs => ?_⟩
  · have : (if (s.claimDue locked limit now).2.isEmpty then PassStage.settled else .sending) = .settling := hs
    split at this <;> cases this
  · have : (if (s.claimDue locked limit now).2.isEmpty then PassStage.settled else .sending) = .settling := hs
    split at this <;> cases this
  · have : (if (s.claimDue locked limit now).2.isEmpty then PassStage.settled else .sending) = .settled := hs
    split at this
    · next hempty =>
      rw [List.isEmpty_iff.1 hempty]
      exact ⟨.nil, fun id row hmem => by cases hmem⟩
    · cases this

theorem turn_now (p : Pass) (turn : Turn) : (p.turn turn).now = p.now := by
  unfold Pass.turn
  split <;> rfl

theorem step_now : (p.step store sender web wires now act).now = p.now := by
  cases act with
  | send =>
    show (p.send sender web wires).now = _
    unfold Pass.send
    split
    · split <;> rfl
    · rfl
  | remove =>
    show p.remove.now = _
    unfold Pass.remove
    split
    · split
      · rfl
      · exact turn_now p _
    · rfl
  | get =>
    show p.get.now = _
    unfold Pass.get
    split
    · split
      · rfl
      · split
        · exact turn_now p _
        · rfl
    · rfl
  | flush =>
    show p.flush.now = _
    unfold Pass.flush
    split
    · rfl
    · split
      · exact turn_now p _
      · split
        · rfl
        · exact turn_now p _
  | commit =>
    show p.commit.now = _
    unfold Pass.commit
    split <;> rfl
  | other call =>
    show (p.other store now call).now = _
    unfold Pass.other
    split
    · split <;> rfl
    · split <;> rfl
    · rfl

theorem after_now (l : List (Instant × PassAct)) : ∀ {p : Pass},
    (Run.after (Pass.step store sender web wires) p l).now = p.now := by
  induction l with
  | nil => intro p; rfl
  | cons x l ih => intro p; exact ih.trans step_now

end

/-- The pass raises nothing, and settles each delivery of its batch: as its own attempt went, unless it is not in the
outbox any more at its turn; and the tick goes on. -/
structure Delivered (store : RunStore) (sender : WebhookSender) (web : Web) (wires : String → Wire) (p : Pass)
    (l : List (Instant × PassAct)) : Prop where
  settled : (Run.after (step store sender web wires) p l).stage = .settled
  turns : List.Forall₂ (Turned sender web wires p.now) p.due (Run.after (step store sender web wires) p l).done
  rows : ∀ id row, (id, Turn.wrote row) ∈ (Run.after (step store sender web wires) p l).done →
    (Run.after (step store sender web wires) p l).service.deliveries.find? id = row
  gone : ∀ id, (id, Turn.gone) ∈ (Run.after (step store sender web wires) p l).done →
    ∃ l₁ l₂, l = l₁ ++ l₂ ∧ (Run.after (step store sender web wires) p l₁).service.deliveries.find? id = none
  later : ∀ raises : TickStep → Option Raised,
    raises .sendWebhooks = (Run.after (step store sender web wires) p l).stage.raised? →
      (∀ step ∈ TickStep.before, raises step = none) → .dropDead ∈ begun raises TickStep.order

/-- A send to the URL raises nothing that `send` does not catch. -/
def Deliverable (sender : WebhookSender) (web : Web) (wire : Wire) (url : String) : Prop :=
  ∀ parsed, web.urlparse url = .ok parsed → (schemes sender.allowHttp).contains parsed.scheme = true →
    sender.Sendable web wire url parsed

/-- What was claimed is sent when every delivery of it can be. -/
theorem sendAll_ok_iff {sender : WebhookSender} {web : Web} {wires : String → Wire} {due : List Delivery}
    (hurls : ∀ d ∈ due, AcceptedUrl web d.url) : (∃ sents, sender.sendAll web wires due = .ok sents) ↔
      ∀ d ∈ due, Deliverable sender web (wires d.deliveryId) d.url := by
  have hone : ∀ d ∈ due, (Deliverable sender web (wires d.deliveryId) d.url ↔
      ∃ sent, sender.send web (wires d.deliveryId) d.url = .ok sent) := by
    intro d hd
    obtain ⟨allowHttp, haccepted⟩ := hurls d hd
    unfold checkUrl at haccepted
    split at haccepted
    · cases haccepted
    · next parsed hparsed =>
      rw [WebhookSender.send_ok_iff hparsed]
      constructor
      · exact fun h hscheme => h parsed hparsed hscheme
      · intro h parsed' hparsed' hscheme
        rw [hparsed] at hparsed'
        cases hparsed'
        exact h hscheme
  constructor
  · rintro ⟨sents, hsents⟩ d hd
    obtain ⟨sent, -, hsent⟩ := exists_of_mem_left (each_ok.1 hsents) hd
    exact (hone d hd).2 ⟨sent, hsent⟩
  · exact fun h => each_total fun d hd => (hone d hd).1 (h d hd)

/-- **A batch is settled, each delivery by its own attempt, exactly where nothing raises.**  A pass that is over, over any
batch of subscriptions whose URLs were accepted and among any calls of others, is delivered if and only if every URL
could be sent to, and no row went between the two statements of its settle. -/
theorem pass_delivered_iff {store : RunStore} {sender : WebhookSender} {web : Web} {wires : String → Wire} {s : Service}
    {locked : List String} {limit : Nat} {now : Instant}
    (hurls : ∀ d ∈ (s.claimDue locked limit now).2, AcceptedUrl web d.url) {l : List (Instant × PassAct)}
    (hover : (Run.after (step store sender web wires) (start s locked limit now) l).stage = .settled ∨
      ∃ e, (Run.after (step store sender web wires) (start s locked limit now) l).stage = .raised e) :
    Delivered store sender web wires (start s locked limit now) l ↔
      (∀ d ∈ (s.claimDue locked limit now).2, Deliverable sender web (wires d.deliveryId) d.url) ∧
        Run.Each (step store sender web wires) Undisturbed (start s locked limit now) l := by
  have hsends : (∃ sents, sender.sendAll web wires (s.claimDue locked limit now).2 = .ok sents) ↔
      ∀ d ∈ (s.claimDue locked limit now).2, Deliverable sender web (wires d.deliveryId) d.url := sendAll_ok_iff hurls
  have hnotRaised : ∀ e, (start s locked limit now).stage ≠ .raised e := by
    intro e
    show (if (s.claimDue locked limit now).2.isEmpty then PassStage.settled else .sending) ≠ _
    split <;> simp
  have hinv : Inv sender web wires (s.claimDue locked limit now).2
      (Run.after (step store sender web wires) (start s locked limit now) l) :=
    (Inv.start s locked limit now).after l ⟨fun h => absurd rfl h⟩
  constructor
  · intro h
    have hok : ∃ sents, sender.sendAll web wires (s.claimDue locked limit now).2 = .ok sents := by
      cases hsend : sender.sendAll web wires (s.claimDue locked limit now).2 with
      | ok sents => exact ⟨sents, rfl⟩
      | error e =>
        have hsending : (start s locked limit now).stage = .sending := by
          show (if (s.claimDue locked limit now).2.isEmpty then PassStage.settled else .sending) = _
          rw [if_neg]
          intro hempty
          rw [List.isEmpty_iff.1 hempty] at hsend
          cases hsend
        exact absurd h.settled (not_settled (p := start s locked limit now) l hsend hsending)
    obtain ⟨sents, hsents⟩ := hok
    refine ⟨hsends.1 ⟨sents, hsents⟩, ?_⟩
    by_contra hne
    obtain ⟨e, he⟩ := (raised_iff (p := start s locked limit now) l hsents hnotRaised).2 hne
    rw [h.settled] at he
    cases he
  · rintro ⟨hdeliverable, heach⟩
    obtain ⟨sents, hsents⟩ := hsends.2 hdeliverable
    have hsettled : (Run.after (step store sender web wires) (start s locked limit now) l).stage = .settled := by
      rcases hover with h | h
      · exact h
      · exact absurd heach ((raised_iff (p := start s locked limit now) l hsents hnotRaised).1 h)
    obtain ⟨hturns, hrows⟩ := hinv.settled hsettled
    rw [after_now] at hturns
    refine ⟨hsettled, hturns, hrows, fun id hgone => ?_, fun raises hraises hbefore => ?_⟩
    · rcases gone_run l hgone with h | h
      · cases h
      · exact h
    · rw [TickStep.order, begun_append _ hbefore]
      have hnone : raises .sendWebhooks = none := by
        rw [hraises, hsettled]
        rfl
      simp [begun, hnone]

/-- A paused run's deliveries, to a receiver and to a URL with a port that is no number. -/
def twoReceivers (second : String) : List (Instant × Call) :=
  [(0, .create "t" "https://a.example/hook" [.PAUSED] "service:app" "w1" "s1"),
    (0, .create "t" second [.PAUSED] "service:app" "w2" "s2"), (1, .op (.start smallStart false true)),
    (2, .op (.pause "t" "r" smallPause none))]

theorem twoReceivers_admitted (second : String) :
    Run.Admitted (Service.step smallStore) anything 0 Service.empty (twoReceivers second) := by
  norm_num [twoReceivers, Run.Admitted, anything]

/-- What the two parsers make of the URLs. -/
def smallWeb : Web where
  urlparse url :=
    if url = "https://a.example/hook" then .ok ⟨"https", some "a.example"⟩
    else .ok ⟨"https", some "b.example"⟩
  httpxUrl url :=
    if url = "https://a.example/hook" then .ok ⟨"https", "a.example", none, "/hook"⟩
    else if url = "https://b.example/hook" then .ok ⟨"https", "b.example", none, "/hook"⟩
    else .error "Invalid port: 'port'"

theorem smallWeb_accepted (url : String) : AcceptedUrl smallWeb url := by
  refine ⟨false, ?_⟩
  unfold checkUrl smallWeb
  dsimp only
  by_cases h : url = "https://a.example/hook"
  · simp only [h, if_true]
    rfl
  · simp only [h, if_false]
    rfl

/-- A public address, where every request is accepted. -/
def smallWire (_ : String) : Wire where
  getaddrinfo _ := .ok [⟨⟨"93.184.216.34", true, false⟩, none⟩]
  post _ := .ok 200

/-- Both are sent; the second one's subscription is deleted meanwhile. -/
theorem twoReceivers_delivered : ∃ (s : Service) (l : List (Instant × PassAct)),
    (Delivered smallStore ⟨false, false⟩ smallWeb smallWire (start s [] 10 10) l ↔
      (∀ d ∈ (s.claimDue [] 10 10).2, Deliverable ⟨false, false⟩ smallWeb (smallWire d.deliveryId) d.url) ∧
        Run.Each (step smallStore ⟨false, false⟩ smallWeb smallWire) Undisturbed (start s [] 10 10) l) ∧
      (Run.after (step smallStore ⟨false, false⟩ smallWeb smallWire) (start s [] 10 10) l).stage = .settled ∧
      (s.claimDue [] 10 10).2.length = 2 := by
  let s := Run.after (Service.step smallStore) Service.empty (twoReceivers "https://b.example/hook")
  let l : List (Instant × PassAct) :=
    [(10, .send), (11, .remove), (11, .other (.delete "t" "w2")), (12, .remove), (12, .commit)]
  have hsettled : (Run.after (step smallStore ⟨false, false⟩ smallWeb smallWire) (start s [] 10 10) l).stage = .settled := by
    decide +kernel
  exact ⟨s, l, pass_delivered_iff (fun d _ => smallWeb_accepted d.url) (Or.inl hsettled), hsettled, by decide +kernel⟩

/-- A URL that was accepted, and that `httpx.URL` does not take, stops its whole batch and the tick. -/
theorem batch_stopped : ∃ (s : Service) (l : List (Instant × PassAct)),
    (∃ t, Run (Service.step smallStore) anything 0 Service.empty t s) ∧
    (∀ d ∈ (s.claimDue [] 10 10).2, AcceptedUrl smallWeb d.url) ∧ (s.claimDue [] 10 10).2.length = 2 ∧
    (Run.after (step smallStore ⟨false, false⟩ smallWeb smallWire) (start s [] 10 10) l).stage =
      .raised (.other "InvalidURL" "Invalid port: 'port'") ∧
    TickStep.dropDead ∉ begun (fun step => if step = .sendWebhooks then
      (Run.after (Pass.step smallStore ⟨false, false⟩ smallWeb smallWire) (start s [] 10 10) l).stage.raised? else none)
        TickStep.order := by
  refine ⟨Run.after (Service.step smallStore) Service.empty (twoReceivers "https://b.example:port/hook"), [(10, .send)],
    Run.replay (twoReceivers_admitted _), fun d _ => smallWeb_accepted d.url, ?_, ?_, ?_⟩ <;> decide +kernel

end Pass

end AgentRuns
