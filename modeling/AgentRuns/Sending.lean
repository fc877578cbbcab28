import AgentRuns.Deliveries

/-!
# Sending what is owed

The tickers' side of the outbox (`Ticker._send_webhooks`, `WebhookSender.send`): a tick claims what is due
in one transaction, posts it with none open, and settles each delivery in another; a ticker that dies
between the two leaves the delivery claimed.  `Sending` is the service with the deliveries its tickers
hold, and the routes' calls, the claims, the settles and the drops of any number of tickers interleave.

`Fate` says what one of them makes of the row of a delivery (`fate`), and so what takes a row out of the
outbox.
-/

namespace AgentRuns

open Relational Fallible Timed Service

/-! ## One attempt -/

/-- How the POST of a delivery went. -/
inductive Sent where
  /-- not a URL scheme this deployment delivers to -/
  | refusedScheme
  /-- the host does not resolve -/
  | unresolved (error : String)
  /-- the host resolves to an address that is not public -/
  | refusedAddress (error : String)
  | unreachable (error : String)
  | answered (status : Nat)

/-- `WEBHOOK_RETRYABLE`. -/
def webhookRetryable : List Nat := [408, 429, 500, 502, 503, 504]

/-- The receiver took it: it answered with a 2xx. -/
def Sent.accepted : Sent → Bool
  | .answered status => 200 ≤ status && status < 300
  | _ => false

/-- What `send` makes of it. -/
def Sent.attempt : Sent → Attempt
  | .refusedScheme => ⟨some "refused: this deployment delivers only to https URLs", false⟩
  | .unresolved error => ⟨some s!"unreachable: the host does not resolve ({error})", true⟩
  | .refusedAddress error => ⟨some s!"refused: {error}", false⟩
  | .unreachable error => ⟨some s!"unreachable: {error}", true⟩
  | .answered status =>
    if (Sent.answered status).accepted then ⟨none, false⟩
    else ⟨some s!"answered {status}", webhookRetryable.contains status⟩

theorem Sent.attempt_error (sent : Sent) : sent.attempt.error.isNone = sent.accepted := by
  cases sent with
  | answered status =>
    unfold Sent.attempt
    cases h : (Sent.answered status).accepted <;> simp [h]
  | _ => rfl

/-! ## How a delivery is listed -/

inductive DeliveryState where
  | PENDING | DEAD
deriving DecidableEq

/-- A delivery in the outbox, as listed. -/
structure DeliveryRecord where
  deliveryId : String
  webhookId : String
  eventId : String
  type : WebhookEvent
  runId : String
  state : DeliveryState
  attempts : Nat
  lastError : Option String
  nextAttemptAt : Option Instant
  deadAt : Option Instant
  createdAt : Instant

/-- `_delivery`. -/
def DeliveryRow.listed (row : DeliveryRow) : DeliveryRecord where
  deliveryId := row.deliveryId
  webhookId := row.webhookId
  eventId := row.payload.eventId
  type := row.payload.type
  runId := row.payload.run.runId
  state := if row.deadAt.isSome then .DEAD else .PENDING
  attempts := row.attempts
  lastError := row.lastError
  nextAttemptAt := if row.deadAt.isSome then none else some row.nextAttemptAt
  deadAt := row.deadAt
  createdAt := row.createdAt

/-! ## The tickers -/

/-- A delivery a ticker holds, and the time of the tick that claimed it. -/
structure HeldDelivery where
  delivery : Delivery
  now : Instant

/-- The service, what its tickers hold, and the ids its subscriptions were given. -/
structure Sending where
  service : Service
  held : List HeldDelivery
  minted : List String

/-- The calls of the outbox that only a ticker makes. -/
def Call.ofTicker : Call → Bool
  | .claimDue .. | .settle .. | .dropDead .. => true
  | _ => false

/-- The id a new subscription is given. -/
def Call.mints : Call → Option String
  | .create _ _ _ _ webhookId _ => some webhookId
  | _ => none

/-- What happens next; a ticker's own transactions carry the time of their tick. -/
inductive SendAct where
  /-- a route's call, or a sweep -/
  | route (now : Instant) (call : Call) (ours : call.ofTicker = false)
  | claim (now : Instant) (locked : List String) (limit : Nat)
  /-- a held delivery was sent, and is settled -/
  | settle (i : Nat) (sent : Sent)
  | dropDead (now : Instant) (locked : List String) (limit : Nat)

namespace Sending

/-- A new deployment. -/
def empty : Sending := ⟨Service.empty, [], []⟩

/-- The row that owes a delivery. -/
def row? (s : Sending) (deliveryId : String) : Option DeliveryRow := s.service.deliveries.find? deliveryId

def holds (deliveryId : String) (h : HeldDelivery) : Bool := h.delivery.deliveryId = deliveryId

def claimed (s : Sending) (now : Instant) (locked : List String) (limit : Nat) : List HeldDelivery :=
  (s.service.claimDue locked limit now).2.map (⟨·, now⟩)

/-- `retention` is the deployment's `dead_retention`. -/
def step (store : RunStore) (retention : Rat) (s : Sending) (_ : Instant) : SendAct → Sending
  | .route now call _ => { s with service := s.service.step store now call, minted := call.mints.toList ++ s.minted }
  | .claim now locked limit =>
    { s with service := (s.service.claimDue locked limit now).1, held := s.held ++ s.claimed now locked limit }
  | .settle i sent =>
    match s.held[i]? with
    | none => s
    | some h => { s with service := (s.service.settle h.delivery sent.attempt h.now).1, held := s.held.eraseIdx i }
  | .dropDead now locked limit => { s with service := (s.service.dropDead locked (now - retention) limit).1 }

/-! ## What becomes of a row -/

/-- What an act makes of the row of a delivery. -/
inductive Fate (store : RunStore) (retention : Rat) (s : Sending) : SendAct → Option DeliveryRow → Option DeliveryRow → Prop
  | kept {act : SendAct} {row : Option DeliveryRow} : Fate store retention s act row row
  | written {now : Instant} {op : Op} {ours} {run : RunRecord} {event : WebhookEvent} {hook : WebhookRow}
      (mem : hook ∈ s.service.webhooks.rows) :
      Fate store retention s (.route now (.op op) ours) none (some (newDelivery store.lib run event now hook))
  | unsubscribed {now : Instant} {tenantId : String} {row : DeliveryRow} {ours} :
      Fate store retention s (.route now (.delete tenantId row.webhookId) ours) (some row) none
  | redelivered {now : Instant} {tenantId : String} {row : DeliveryRow} {ours} (dead : row.deadAt.isSome) :
      Fate store retention s (.route now (.redeliver tenantId row.deliveryId) ours) (some row)
        (some { row with deadAt := none, attempts := 0, nextAttemptAt := now })
  | claimed {now : Instant} {locked : List String} {limit : Nat} {row : DeliveryRow} (alive : row.deadAt = none)
      (due : row.nextAttemptAt ≤ now) :
      Fate store retention s (.claim now locked limit) (some row)
        (some { row with attempts := row.attempts + 1, nextAttemptAt := now + webhookLease })
  | accepted {i : Nat} {sent : Sent} {h : HeldDelivery} {row : DeliveryRow} (held : s.held[i]? = some h)
      (same : h.delivery.deliveryId = row.deliveryId) (took : sent.accepted = true) :
      Fate store retention s (.settle i sent) (some row) none
  | retried {i : Nat} {sent : Sent} {h : HeldDelivery} {row : DeliveryRow} (held : s.held[i]? = some h)
      (same : h.delivery.deliveryId = row.deliveryId) (failed : sent.accepted = false)
      (again : sent.attempt.retry = true ∧ h.delivery.attempts < webhookAttempts) :
      Fate store retention s (.settle i sent) (some row)
        (some { row with
          lastError := sent.attempt.error
          nextAttemptAt := h.now + backoff webhookRetryBase h.delivery.attempts webhookRetryCap })
  | died {i : Nat} {sent : Sent} {h : HeldDelivery} {row : DeliveryRow} (held : s.held[i]? = some h)
      (same : h.delivery.deliveryId = row.deliveryId) (failed : sent.accepted = false)
      (last : ¬(sent.attempt.retry = true ∧ h.delivery.attempts < webhookAttempts)) :
      Fate store retention s (.settle i sent) (some row)
        (some { row with lastError := sent.attempt.error, deadAt := some h.now })
  | retired {now : Instant} {locked : List String} {limit : Nat} {row : DeliveryRow} {dead : Instant}
      (died : row.deadAt = some dead) (past : dead < now - retention) :
      Fate store retention s (.dropDead now locked limit) (some row) none

end Sending

/-! ## The calls, one by one -/

section
variable {store : RunStore} {retention : Rat} {s : Sending} {w now : Instant} {d : String}

namespace Service

theorem mem_due {s : Service} {locked : List String} {limit : Nat} {row : DeliveryRow} (h : row ∈ s.due locked limit now) :
    row ∈ s.deliveries.rows ∧ row.deadAt = none ∧ row.nextAttemptAt ≤ now := by
  have hsorted := List.mem_of_mem_filter (List.mem_of_mem_take h)
  have hrow := (List.perm_insertionSort _ _).mem_iff.1 hsorted
  simpa [List.mem_filter] using hrow

theorem due_nodup (s : Service) (locked : List String) (limit : Nat) :
    ((s.due locked limit now).map (·.deliveryId)).Nodup := by
  have hsub : ((s.due locked limit now).map (·.deliveryId)).Sublist _ :=
    ((List.take_sublist _ _).trans List.filter_sublist).map _
  refine hsub.nodup (((List.perm_insertionSort _ _).map _).nodup_iff.2 ?_)
  exact s.deliveries.keys_nodup _

/-- A claim takes a due row, or leaves it. -/
theorem claimDue_row (s : Service) (locked : List String) (limit : Nat) (d : String) :
    (s.claimDue locked limit now).1.deliveries.find? d = s.deliveries.find? d ∧
        d ∉ (s.due locked limit now).map (·.deliveryId) ∨
      ∃ row ∈ s.due locked limit now, s.deliveries.find? d = some row ∧
        (s.claimDue locked limit now).1.deliveries.find? d =
          some { row with attempts := row.attempts + 1, nextAttemptAt := now + webhookLease } := by
  let claim := fun row : DeliveryRow => { row with attempts := row.attempts + 1, nextAttemptAt := now + webhookLease }
  have hkeys : ((s.due locked limit now).map claim).map (·.deliveryId) = (s.due locked limit now).map (·.deliveryId) := by
    rw [List.map_map]
    rfl
  by_cases hd : d ∈ (s.due locked limit now).map (·.deliveryId)
  · obtain ⟨row, hrow, rfl⟩ := List.mem_map.1 hd
    have hfind := Table.find?_of_mem (mem_due hrow).1
    refine Or.inr ⟨row, hrow, hfind, ?_⟩
    exact Table.find?_putAll_of_mem (a := claim row) (by rw [hkeys]; exact s.due_nodup locked limit)
      (List.mem_map.2 ⟨row, hrow, rfl⟩) hfind
  · refine Or.inl ⟨Table.find?_putAll_of_ne fun row hrow he => hd ?_, hd⟩
    rw [← hkeys, ← he]
    exact List.mem_map.2 ⟨row, hrow, rfl⟩

theorem settle_row (s : Service) (delivery : Delivery) (attempt : Attempt) (now : Instant) (d : String) :
    (s.settle delivery attempt now).1.deliveries.find? d =
      if delivery.deliveryId = d then
        (s.deliveries.find? d).bind fun row =>
          if attempt.error.isNone then none
          else if attempt.retry ∧ delivery.attempts < webhookAttempts then
            some { row with
              lastError := attempt.error
              nextAttemptAt := now + backoff webhookRetryBase delivery.attempts webhookRetryCap }
          else some { row with lastError := attempt.error, deadAt := some now }
      else s.deliveries.find? d := by
  by_cases hd : delivery.deliveryId = d
  · subst hd
    rw [if_pos rfl]
    unfold settle
    by_cases he : attempt.error.isNone = true
    · rw [if_pos he, Table.find?_erase_self]
      simp [he]
    · rw [if_neg he]
      cases hrow : s.deliveries.find? delivery.deliveryId with
      | none => exact hrow
      | some row =>
        have hkey : row.deliveryId = delivery.deliveryId := Table.key_of_find? hrow
        show _ = if _ then none else _
        rw [if_neg he]
        dsimp only
        split <;> exact Table.find?_put_self hkey hrow
  · rw [if_neg hd]
    unfold settle
    split
    · exact Table.find?_erase_of_ne _ (Ne.symm hd)
    · split
      · rfl
      · next row hrow =>
        have hkey : row.deliveryId = delivery.deliveryId := Table.key_of_find? hrow
        dsimp only
        split <;> exact Table.find?_put_of_ne (by rw [hkey]; exact hd)

/-- An operation writes new rows, or none. -/
theorem serve_row (store : RunStore) (now : Instant) (s : Service) (op : Op) (d : String) :
    (s.step store now (.op op)).webhooks = s.webhooks ∧
      ((s.step store now (.op op)).deliveries.find? d = s.deliveries.find? d ∨
        s.deliveries.find? d = none ∧ ∃ run event, ∃ hook ∈ s.webhooks.rows,
          (s.step store now (.op op)).deliveries.find? d = some (newDelivery store.lib run event now hook)) := by
  show (orElse s (s.serve store now op)).webhooks = _ ∧ ((orElse s (s.serve store now op)).deliveries.find? d = _ ∨ _ ∧
    ∃ run event, ∃ hook ∈ s.webhooks.rows, (orElse s (s.serve store now op)).deliveries.find? d = _)
  cases hserve : s.serve store now op with
  | error e => exact ⟨rfl, Or.inl rfl⟩
  | ok x =>
    obtain ⟨s', answer⟩ := x
    have hserved := serve_served hserve
    refine ⟨hserved.hooks, ?_⟩
    show s'.deliveries.find? d = _ ∨ _ ∧ ∃ run event, ∃ hook ∈ s.webhooks.rows, s'.deliveries.find? d = _
    rw [hserved.wrote, Table.find?_insertAll]
    cases hrow : s.deliveries.find? d with
    | some row => exact Or.inl rfl
    | none =>
      rw [Option.none_or]
      cases hnew : (owing store.lib s.webhooks now (op.announced answer)).find? fun row => row.deliveryId = d with
      | none => exact Or.inl rfl
      | some row =>
        obtain ⟨p, -, hmem⟩ := List.mem_flatMap.1 (List.mem_of_find?_eq_some hnew)
        obtain ⟨hook, hhook, -, -, rfl⟩ := mem_owed.1 hmem
        exact Or.inr ⟨rfl, p.1, p.2, hook, hhook, rfl⟩

/-- Only what died before goes. -/
theorem dropDead_row (s : Service) (locked : List String) (before : Instant) (limit : Nat) (d : String) :
    (s.dropDead locked before limit).1.deliveries.find? d = s.deliveries.find? d ∨
      ∃ row dead, s.deliveries.find? d = some row ∧ row.deadAt = some dead ∧ dead < before ∧
        (s.dropDead locked before limit).1.deliveries.find? d = none := by
  unfold dropDead
  dsimp only
  rw [Table.find?_erase]
  cases hrow : s.deliveries.find? d with
  | none => exact Or.inl rfl
  | some row =>
    by_cases hin : row.deliveryId ∈ List.map (·.deliveryId) ((((s.deliveries.rows.filter fun row =>
        row.deadAt.any (· < before)).insertionSort fun a b => a.deadAt.getD 0 ≤ b.deadAt.getD 0).filter fun row =>
        !locked.contains row.deliveryId).take limit)
    · obtain ⟨row', hrow', hid⟩ := List.mem_map.1 hin
      have hsorted := List.mem_of_mem_filter (List.mem_of_mem_take hrow')
      obtain ⟨hmem, hdead⟩ := List.mem_filter.1 ((List.perm_insertionSort _ _).mem_iff.1 hsorted)
      obtain rfl : row' = row := Option.some.inj ((Table.find?_of_mem hmem).symm.trans
        ((congrArg s.deliveries.find? (hid.trans (Table.key_of_find? hrow))).trans hrow))
      obtain ⟨dead, hd, hlt⟩ := (Option.any_eq_true _ _).1 hdead
      exact Or.inr ⟨row', dead, rfl, hd, of_decide_eq_true hlt, Option.filter_some_neg (by simpa using hin)⟩
    · exact Or.inl (Option.filter_some_pos (by simpa using hin))

end Service

/-! ## One act -/

namespace Sending

theorem step_settle {i : Nat} {sent : Sent} {h : HeldDelivery} (hheld : s.held[i]? = some h) :
    s.step store retention w (.settle i sent) =
      { s with service := (s.service.settle h.delivery sent.attempt h.now).1, held := s.held.eraseIdx i } := by
  simp only [step, hheld]

theorem step_settle_none {i : Nat} {sent : Sent} (hheld : s.held[i]? = none) :
    s.step store retention w (.settle i sent) = s := by
  simp only [step, hheld]

theorem Fate.unchanged {act : SendAct} {row row' : Option DeliveryRow} (h : row' = row) :
    Fate store retention s act row row' := h ▸ .kept

/-- A subscription takes its own rows with it, and no other. -/
theorem fate_delete (tenantId webhookId : String) (ours) :
    Fate store retention s (.route now (.delete tenantId webhookId) ours) (s.row? d)
      ((s.step store retention w (.route now (.delete tenantId webhookId) ours)).row? d) := by
  cases h : s.service.delete tenantId webhookId with
  | error e =>
    refine .unchanged ?_
    simp only [row?, step, Service.step, h]
  | ok s' =>
    have hafter : (s.step store retention w (.route now (.delete tenantId webhookId) ours)).row? d =
        (s.row? d).filter fun row => !(row.webhookId = webhookId : Bool) := by
      simp only [row?, step, Service.step, h, (delete_ok h).2.2, Table.find?_erase]
    rw [hafter]
    cases hrow : s.row? d with
    | none => exact .kept
    | some row =>
      by_cases hw : row.webhookId = webhookId
      · subst hw
        rw [Option.filter_some_neg (by simp)]
        exact .unsubscribed
      · rw [Option.filter_some_pos (by simp [hw])]
        exact .kept

/-- Only the row that is named, when it is dead, is owed again. -/
theorem fate_redeliver (tenantId deliveryId : String) (ours) :
    Fate store retention s (.route now (.redeliver tenantId deliveryId) ours) (s.row? d)
      ((s.step store retention w (.route now (.redeliver tenantId deliveryId) ours)).row? d) := by
  cases h : s.service.redeliver tenantId deliveryId now with
  | error e =>
    refine .unchanged ?_
    simp only [row?, step, Service.step, h]
  | ok s' =>
    obtain ⟨-, -, row, hrow, hdead, hput⟩ := redeliver_row h
    have hkey : row.deliveryId = deliveryId := Table.key_of_find? hrow
    have hafter : (s.step store retention w (.route now (.redeliver tenantId deliveryId) ours)).row? d =
        (s.service.deliveries.put { row with deadAt := none, attempts := 0, nextAttemptAt := now }).find? d := by
      simp only [row?, step, Service.step, h, hput]
    rw [hafter]
    by_cases hd : deliveryId = d
    · subst hd
      rw [show s.row? deliveryId = some row from hrow,
        Table.find?_put_self (a := { row with deadAt := none, attempts := 0, nextAttemptAt := now }) hkey hrow]
      subst hkey
      exact .redelivered hdead
    · exact .unchanged (Table.find?_put_of_ne (fun he => hd (hkey.symm.trans he)))

/-- A route's call, or a sweep. -/
theorem fate_route (call : Call) (ours : call.ofTicker = false) :
    Fate store retention s (.route now call ours) (s.row? d) ((s.step store retention w (.route now call ours)).row? d) := by
  cases call with
  | op op =>
    rcases (serve_row store now s.service op d).2 with he | ⟨hnone, run, event, hook, hhook, he⟩
    · exact .unchanged he
    · have hbefore : s.row? d = none := hnone
      have hafter : (s.step store retention w (.route now (.op op) ours)).row? d = _ := he
      rw [hbefore, hafter]
      exact .written hhook
  | create tenantId url events createdBy webhookId secret =>
    refine .unchanged ?_
    show (Service.step store s.service now (.create ..)).deliveries.find? d = s.service.deliveries.find? d
    unfold Service.step
    dsimp only
    split
    · rfl
    · next s' h => rw [(create_ok h).2.1]
  | rotateSecret tenantId webhookId secret overlap =>
    refine .unchanged ?_
    show (Service.step store s.service now (.rotateSecret ..)).deliveries.find? d = s.service.deliveries.find? d
    unfold Service.step
    dsimp only
    split
    · rfl
    · next s' h => rw [(rotateSecret_ok h).2.1]
  | delete tenantId webhookId => exact fate_delete tenantId webhookId ours
  | redeliver tenantId deliveryId => exact fate_redeliver tenantId deliveryId ours
  | claimDue | settle | dropDead => cases ours

theorem fate_settle (i : Nat) (sent : Sent) :
    Fate store retention s (.settle i sent) (s.row? d) ((s.step store retention w (.settle i sent)).row? d) := by
  cases hheld : s.held[i]? with
  | none => exact .unchanged (by rw [step_settle_none hheld])
  | some h =>
    rw [step_settle hheld]
    show Fate store retention s _ _ ((s.service.settle h.delivery sent.attempt h.now).1.deliveries.find? d)
    rw [settle_row]
    by_cases hd : h.delivery.deliveryId = d
    · rw [if_pos hd]
      cases hrow : s.row? d with
      | none =>
        rw [show s.service.deliveries.find? d = none from hrow]
        exact .kept
      | some row =>
        have hsame : h.delivery.deliveryId = row.deliveryId := hd.trans (Table.key_of_find? hrow).symm
        rw [show s.service.deliveries.find? d = some row from hrow, Option.bind_some, Sent.attempt_error]
        cases htook : sent.accepted with
        | true => exact .accepted hheld hsame htook
        | false =>
          rw [if_neg (by simp)]
          by_cases hagain : sent.attempt.retry = true ∧ h.delivery.attempts < webhookAttempts
          · rw [if_pos hagain]
            exact .retried hheld hsame htook hagain
          · rw [if_neg hagain]
            exact .died hheld hsame htook hagain
    · rw [if_neg hd]
      exact .kept

/-- **Step.** -/
theorem fate (store : RunStore) (retention : Rat) (s : Sending) (w : Instant) (act : SendAct) (d : String) :
    Fate store retention s act (s.row? d) ((s.step store retention w act).row? d) := by
  cases act with
  | route now call ours => exact fate_route call ours
  | claim now locked limit =>
    rcases claimDue_row s.service locked limit d with ⟨he, -⟩ | ⟨row, hdue, hrow, he⟩
    · exact .unchanged he
    · obtain ⟨-, halive, hle⟩ := mem_due hdue
      have hbefore : s.row? d = some row := hrow
      have hafter : (s.step store retention w (.claim now locked limit)).row? d = _ := he
      rw [hbefore, hafter]
      exact .claimed halive hle
  | settle i sent => exact fate_settle i sent
  | dropDead now locked limit =>
    rcases dropDead_row s.service locked (now - retention) limit d with he | ⟨row, dead, hrow, hdead, hlt, he⟩
    · exact .unchanged he
    · rw [show s.row? d = some row from hrow,
        show (s.step store retention w (.dropDead now locked limit)).row? d = none from he]
      exact .retired hdead hlt

/-- What a ticker holds of a row it claimed. -/
def handed (s : Service) (now : Instant) (row : DeliveryRow) : Option HeldDelivery :=
  (s.webhooks.find? row.webhookId).map fun hook =>
    ⟨{ deliveryId := row.deliveryId
       url := hook.url
       secret := hook.secret
       payload := row.payload
       attempts := row.attempts + 1
       previousSecret := if now < hook.previousSecretExpiresAt.getD now then hook.previousSecret else none }, now⟩

theorem claimed_eq (s : Sending) (locked : List String) (limit : Nat) :
    s.claimed now locked limit = (s.service.due locked limit now).filterMap (handed s.service now) := by
  unfold claimed claimDue
  dsimp only
  rw [List.filterMap_map, List.map_filterMap]
  refine congrArg (List.filterMap · _) (funext fun row => ?_)
  show Option.map _ (Option.map _ _) = Option.map _ _
  rw [Option.map_map]
  rfl

theorem handed_filter (s : Service) (now : Instant) (rows : List DeliveryRow) (d : String) :
    (rows.filterMap (handed s now)).filter (holds d) = (rows.filter fun row => row.deliveryId = d).filterMap (handed s now) := by
  rw [List.filter_filterMap, List.filterMap_filter]
  refine congrArg (List.filterMap · _) (funext fun row => ?_)
  unfold handed holds
  cases s.webhooks.find? row.webhookId with
  | none => by_cases hd : row.deliveryId = d <;> simp [hd]
  | some hook => by_cases hd : row.deliveryId = d <;> simp [hd]

/-- Of a delivery a claim hands out the row it took, once. -/
theorem claimed_hand (hooked : ∀ row ∈ s.service.deliveries.rows, (s.service.webhooks.find? row.webhookId).isSome)
    (now : Instant) (locked : List String) (limit : Nat) (d : String) :
    (d ∉ (s.service.due locked limit now).map (·.deliveryId) → (s.claimed now locked limit).filter (holds d) = []) ∧
      ∀ row ∈ s.service.due locked limit now, row.deliveryId = d → ∃ h : HeldDelivery, h.now = now ∧
        h.delivery.attempts = row.attempts + 1 ∧ (s.claimed now locked limit).filter (holds d) = [h] := by
  rw [claimed_eq, handed_filter]
  constructor
  · intro hd
    rw [List.filter_eq_nil_iff.2]
    · rfl
    · intro row hrow hid
      exact hd (List.mem_map.2 ⟨row, hrow, of_decide_eq_true hid⟩)
  · rintro row hrow rfl
    obtain ⟨hook, hhook⟩ := Option.isSome_iff_exists.1 (hooked row (mem_due hrow).1)
    rw [Table.filter_key (s.service.due_nodup locked limit) hrow]
    rw [List.filterMap_cons, handed, hhook]
    exact ⟨_, rfl, rfl, rfl⟩

/-- A row leaves the outbox because a receiver accepted it, because its subscription was deleted, or because it
was dead past the retention. -/
theorem leaves {act : SendAct} {row : DeliveryRow} (h : s.row? d = some row)
    (h' : (s.step store retention w act).row? d = none) :
    (∃ i sent h, act = .settle i sent ∧ s.held[i]? = some h ∧ h.delivery.deliveryId = d ∧ sent.accepted = true) ∨
      (∃ now tenantId ours, act = .route now (.delete tenantId row.webhookId) ours) ∨
      ∃ now locked limit dead, act = .dropDead now locked limit ∧ row.deadAt = some dead ∧ dead < now - retention := by
  have hkey : row.deliveryId = d := Table.key_of_find? h
  have hf := fate store retention s w act d
  rw [h, h'] at hf
  cases hf with
  | unsubscribed => exact Or.inr (Or.inl ⟨_, _, _, rfl⟩)
  | accepted held same took => exact Or.inl ⟨_, _, _, rfl, held, same.trans hkey, took⟩
  | retired died past => exact Or.inr (Or.inr ⟨_, _, _, _, rfl, died, past⟩)

end Sending

end

end AgentRuns
