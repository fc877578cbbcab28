import AgentRuns.Announcements

/-!
# Each delivery is written once

The id of an event is made of the run, its attempt and the event, and the event of a delivery is past
(`Stands`).  So no delivery is dropped for one that was written before, two transitions never share an
id, and each transition writes one row for each subscription that wants it (`outbox_exactly_once`).
-/

namespace AgentRuns

open Relational Fallible Timed

/-! ## What a served operation writes -/

namespace Service

/-- The rows that owe the announced events. -/
def owing (lib : Libraries) (webhooks : Table WebhookRow.webhookId) (now : Instant)
    (told : List (RunRecord × WebhookEvent)) : List DeliveryRow :=
  told.flatMap fun p => owed lib webhooks p.1 p.2 now

/-- A call that was served: the operation, and what it announced. -/
structure Served (store : RunStore) (now : Instant) (op : Op) (s s' : Service) (answer : Answer) : Prop where
  performed : perform store op now s.db = .ok (s'.db, answer)
  hooks : s'.webhooks = s.webhooks
  wrote : s'.deliveries = s.deliveries.insertAll (owing store.lib s.webhooks now (op.announced answer))

section
variable {store : RunStore} {lib : Libraries} {now : Instant} {op : Op} {s s' : Service} {answer : Answer}

theorem announce_eq (s : Service) (lib : Libraries) (run : RunRecord) (event : Option WebhookEvent) (now : Instant) :
    s.announce lib run event now = { s with
      deliveries := s.deliveries.insertAll
        (owing lib s.webhooks now ((event.or (eventOf run)).map (run, ·)).toList) } := by
  unfold announce
  cases event.or (eventOf run) with
  | none => rfl
  | some event => simp [owing]

theorem announce_all (f : RunRecord → Option WebhookEvent) (runs : List RunRecord) : ∀ s : Service,
    runs.foldl (fun s run => s.announce lib run (f run) now) s = { s with
      deliveries := s.deliveries.insertAll
        (owing lib s.webhooks now (runs.filterMap fun run => ((f run).or (eventOf run)).map (run, ·))) } := by
  induction runs with
  | nil => intro s; rfl
  | cons run runs ih =>
    intro s
    rw [List.foldl_cons, ih, announce_eq]
    dsimp only
    rw [← Table.insertAll_append, owing, owing, ← List.flatMap_append]
    cases h : ((f run).or (eventOf run)).map (run, ·) <;> simp [h, owing]

theorem moving_served {moved : Except ServiceError (Database × RunRecord × Bool)} (hm : op.movesRun = true)
    (hp : perform store op now s.db = answering (fun a => .run a.1 a.2) moved)
    (h : s.moving store.lib now moved = .ok (s', answer)) : Served store now op s s' answer := by
  obtain ⟨⟨db, run, changed⟩, rfl, h⟩ := bind_ok.1 h
  have htells : op.tells run = eventOf run := by
    unfold Op.tells
    rw [if_pos hm]
  cases changed with
  | false =>
    cases h
    exact ⟨hp, rfl, rfl⟩
  | true =>
    cases h
    simp only [if_true, announce_eq]
    refine ⟨hp, rfl, ?_⟩
    simp [Op.announced, htells]

theorem sweepRuns_served {swept : Except ServiceError (Database × List RunRecord)} (hm : op.movesRun = false)
    (hs : op.sweeps = true) (hp : perform store op now s.db = answering .moved swept)
    (h : s.sweepRuns store.lib now swept = .ok (s', answer)) : Served store now op s s' answer := by
  obtain ⟨⟨db, runs⟩, rfl, h⟩ := bind_ok.1 h
  have htells : ∀ run, op.tells run =
      (if run.status = .PAUSED then some WebhookEvent.ESCALATED else none).or (eventOf run) := by
    intro run
    simp [Op.tells, hm, hs]
  cases h
  rw [announce_all]
  refine ⟨hp, rfl, ?_⟩
  simp only [Op.announced, htells]

theorem silently_served (hm : op.movesRun = false) (hs : op.sweeps = false)
    (h : s.silently (perform store op now s.db) = .ok (s', answer)) : Served store now op s s' answer := by
  obtain ⟨⟨db, answer⟩, hp, h⟩ := bind_ok.1 h
  cases h
  refine ⟨hp, rfl, ?_⟩
  rw [Op.announced_silent hm hs]
  rfl

theorem serve_served (h : s.serve store now op = .ok (s', answer)) : Served store now op s s' answer := by
  cases op with
  | pause | resume | cancel | finish | release => exact moving_served rfl rfl h
  | timeOutPastDeadline | timeOutOverworked | requeueLapsed | escalateOverdue =>
    exact sweepRuns_served rfl rfl rfl h
  | _ => exact silently_served rfl rfl h

/-- What the store refuses is refused. -/
theorem serve_refused {error : ServiceError} (h : s.serve store now op = .error error) :
    perform store op now s.db = .error error := by
  have moving : ∀ {moved : Except ServiceError (Database × RunRecord × Bool)},
      s.moving store.lib now moved = .error error → answering (fun a => Answer.run a.1 a.2) moved = .error error := by
    rintro (_ | _) hx
    · cases hx
      rfl
    · cases hx
  have sweeping : ∀ {swept : Except ServiceError (Database × List RunRecord)},
      s.sweepRuns store.lib now swept = .error error → answering Answer.moved swept = .error error := by
    rintro (_ | _) hx
    · cases hx
      rfl
    · cases hx
  have silently : ∀ {done : Except ServiceError (Database × Answer)}, s.silently done = .error error →
      done = .error error := by
    rintro (_ | _) hx
    · cases hx
      rfl
    · cases hx
  cases op with
  | pause | resume | cancel | finish | release => exact moving h
  | timeOutPastDeadline | timeOutOverworked | requeueLapsed | escalateOverdue => exact sweeping h
  | _ => exact silently h

/-- The database under a step: the operation's, if the call is one. -/
theorem step_db (store : RunStore) (s : Service) (now : Instant) (op : Op) :
    (s.step store now (.op op)).db = apply store s.db now op := by
  show (orElse s (s.serve store now op)).db = orElse s.db (perform store op now s.db)
  cases h : s.serve store now op with
  | ok x =>
    rw [(serve_served h).performed]
    rfl
  | error e =>
    rw [serve_refused h]
    rfl

/-! ## The other calls -/

theorem create_ok {tenantId url createdBy webhookId secret : String} {events : List WebhookEvent}
    (h : s.create tenantId url events createdBy webhookId secret now = .ok s') :
    s'.db = s.db ∧ s'.deliveries = s.deliveries ∧ ∃ hook : WebhookRow, hook.webhookId = webhookId ∧
      s.webhooks.find? webhookId = none ∧ s'.webhooks = s.webhooks.insert hook := by
  obtain ⟨_, -, h⟩ := bind_ok.1 h
  obtain ⟨_, hnew, h⟩ := bind_ok.1 h
  cases h
  refine ⟨rfl, rfl, _, rfl, ?_, rfl⟩
  cases hf : s.webhooks.find? webhookId with
  | none => rfl
  | some hook => rw [hf] at hnew; cases hnew

theorem rotateSecret_ok {tenantId webhookId secret : String} {overlap : Rat}
    (h : s.rotateSecret tenantId webhookId secret overlap now = .ok s') :
    s'.db = s.db ∧ s'.deliveries = s.deliveries ∧ ∃ hook : WebhookRow, s'.webhooks = s.webhooks.put hook := by
  obtain ⟨hook, -, h⟩ := bind_ok.1 h
  cases h
  exact ⟨rfl, rfl, _, rfl⟩

theorem delete_ok {tenantId webhookId : String} (h : s.delete tenantId webhookId = .ok s') :
    s'.db = s.db ∧ s'.webhooks = s.webhooks.erase (·.webhookId = webhookId) ∧
      s'.deliveries = s.deliveries.erase (·.webhookId = webhookId) := by
  obtain ⟨hook, hhook, h⟩ := bind_ok.1 h
  cases h
  have hkey : hook.webhookId = webhookId := by
    unfold subscription at hhook
    split at hhook
    · cases hhook
    · next found hfound =>
      cases hhook
      exact Table.key_of_find? (Option.filter_eq_some_iff.1 hfound).1
  rw [hkey]
  exact ⟨rfl, rfl, rfl⟩

/-- The tenant's own row, when it is dead, is owed again. -/
theorem redeliver_row {tenantId deliveryId : String} (h : s.redeliver tenantId deliveryId now = .ok s') :
    s'.db = s.db ∧ s'.webhooks = s.webhooks ∧
      ∃ row, s.deliveries.find? deliveryId = some row ∧ row.deadAt.isSome = true ∧
        s'.deliveries = s.deliveries.put { row with deadAt := none, attempts := 0, nextAttemptAt := now } := by
  unfold redeliver at h
  dsimp only at h
  split at h
  · cases h
  · next row hrow =>
    split at h
    · cases h
    · next hdead =>
      cases h
      refine ⟨rfl, rfl, row, (Option.filter_eq_some_iff.1 hrow).1, ?_, rfl⟩
      cases hd : row.deadAt with
      | none => rw [hd] at hdead; exact absurd rfl hdead
      | some dead => rfl

/-- What every delivery keeps while it is owed. -/
def sameDelivery (d d' : DeliveryRow) : Prop :=
  d'.deliveryId = d.deliveryId ∧ d'.webhookId = d.webhookId ∧ d'.payload = d.payload

section
variable {rows : Table DeliveryRow.deliveryId} {d d' : DeliveryRow}

theorem same_kept (h : d' ∈ rows.rows) : ∃ d ∈ rows.rows, sameDelivery d d' := ⟨d', h, rfl, rfl, rfl⟩

theorem same_erased {p : DeliveryRow → Bool} (h : d' ∈ (rows.erase p).rows) : ∃ d ∈ rows.rows, sameDelivery d d' :=
  same_kept (Table.mem_erase.1 h).1

theorem same_putAll {rows' : List DeliveryRow} (hrows : ∀ d' ∈ rows', ∃ d ∈ rows.rows, sameDelivery d d')
    (h : d' ∈ (rows.putAll rows').rows) : ∃ d ∈ rows.rows, sameDelivery d d' := by
  rcases Table.mem_putAll h with h | ⟨h, -⟩
  · exact hrows d' h
  · exact same_kept h

theorem same_put {row row' : DeliveryRow} (hrow : row ∈ rows.rows) (hsame : sameDelivery row row')
    (h : d' ∈ (rows.put row').rows) : ∃ d ∈ rows.rows, sameDelivery d d' := by
  rw [← Table.putAll_singleton] at h
  refine same_putAll (fun d hd => ?_) h
  rw [List.mem_singleton.1 hd]
  exact ⟨row, hrow, hsame⟩

end

theorem settle_same (s : Service) (delivery : Delivery) (attempt : Attempt) (now : Instant) :
    (s.settle delivery attempt now).1.db = s.db ∧
      ∀ d' ∈ (s.settle delivery attempt now).1.deliveries.rows, ∃ d ∈ s.deliveries.rows, sameDelivery d d' := by
  unfold settle
  split
  · exact ⟨rfl, fun _ => same_erased⟩
  · split
    · exact ⟨rfl, fun _ => same_kept⟩
    · next row hrow =>
      have hput : ∀ {row' d' : DeliveryRow}, sameDelivery row row' → d' ∈ (s.deliveries.put row').rows →
          ∃ d ∈ s.deliveries.rows, sameDelivery d d' := same_put (Table.mem_of_find? hrow)
      dsimp only
      split
      · exact ⟨rfl, fun _ => hput ⟨rfl, rfl, rfl⟩⟩
      · exact ⟨rfl, fun _ => hput ⟨rfl, rfl, rfl⟩⟩

/-- The other calls leave the runs alone, and write no delivery. -/
theorem step_quiet (store : RunStore) (s : Service) (now : Instant) (call : Call) (hcall : ∀ op, call ≠ .op op) :
    (s.step store now call).db = s.db ∧
      ∀ d' ∈ (s.step store now call).deliveries.rows, ∃ d ∈ s.deliveries.rows, sameDelivery d d' := by
  cases call with
  | op op => exact absurd rfl (hcall op)
  | create tenantId url events createdBy webhookId secret =>
    unfold step
    dsimp only
    split
    · exact ⟨rfl, fun _ => same_kept⟩
    · next s' h =>
      obtain ⟨hdb, hrows, -⟩ := create_ok h
      exact ⟨hdb, fun _ hd' => same_kept (hrows ▸ hd')⟩
  | rotateSecret tenantId webhookId secret overlap =>
    unfold step
    dsimp only
    split
    · exact ⟨rfl, fun _ => same_kept⟩
    · next s' h =>
      obtain ⟨hdb, hrows, -⟩ := rotateSecret_ok h
      exact ⟨hdb, fun _ hd' => same_kept (hrows ▸ hd')⟩
  | delete tenantId webhookId =>
    unfold step
    dsimp only
    split
    · exact ⟨rfl, fun _ => same_kept⟩
    · next s' h =>
      obtain ⟨hdb, -, hrows⟩ := delete_ok h
      exact ⟨hdb, fun _ hd' => same_erased (hrows ▸ hd')⟩
  | claimDue held limit =>
    refine ⟨rfl, fun d' hd' => same_putAll (fun d' hd' => ?_) hd'⟩
    obtain ⟨d, hd, rfl⟩ := List.mem_map.1 hd'
    refine ⟨d, ?_, rfl, rfl, rfl⟩
    have hsorted := List.mem_of_mem_filter (List.mem_of_mem_take hd)
    exact List.mem_of_mem_filter ((List.perm_insertionSort _ _).mem_iff.1 hsorted)
  | settle delivery attempt => exact settle_same s delivery attempt now
  | redeliver tenantId deliveryId =>
    unfold step
    dsimp only
    split
    · exact ⟨rfl, fun _ => same_kept⟩
    · next s' h =>
      obtain ⟨hdb, -, row, hrow, -, hput⟩ := redeliver_row h
      refine ⟨hdb, fun _ hd' => ?_⟩
      rw [hput] at hd'
      refine same_put (Table.mem_of_find? hrow) ?_ hd'
      exact ⟨rfl, rfl, rfl⟩
  | dropDead held before limit => exact ⟨rfl, fun _ => same_erased⟩

end

end Service

/-! ## Ids -/

section
open Service
variable {store : RunStore} {t before now : Instant} {s s' : Service} {call : Call} {db : Database}
  {event event' : WebhookEvent} {d : DeliveryRow}

theorem eventId_injective {lib : Libraries} (hev : Function.Injective (lib.stableId "whd_")) {run run' : RunRecord}
    (h : eventId lib run event = eventId lib run' event') :
    run.runId = run'.runId ∧ run.attempt = run'.attempt ∧ event = event' := by
  have hparts := hev h
  simp only [List.cons.injEq, Part.text.injEq, Part.number.injEq] at hparts
  exact ⟨hparts.1, hparts.2.1, WebhookEvent.value_injective hparts.2.2.2.1⟩

theorem deliveryId_injective {lib : Libraries} (hdl : Function.Injective (lib.stableId "dlv_")) {e e' w w' : String}
    (h : deliveryId lib e w = deliveryId lib e' w') : e = e' ∧ w = w' := by
  have hparts := hdl h
  simp only [List.cons.injEq, Part.text.injEq] at hparts
  exact ⟨hparts.1, hparts.2.1⟩

/-- Behind a delivery stands an event of a run that is past. -/
structure Stands (lib : Libraries) (db : Database) (d : DeliveryRow) : Prop where
  id : d.deliveryId = deliveryId lib d.payload.eventId d.webhookId
  event : ∃ run event row, d.payload = envelope lib run event ∧ db.run? run.runId = some row ∧
    Past row run.attempt event

theorem Stands.same {lib : Libraries} {d' : DeliveryRow} (h : Stands lib db d) (hd : sameDelivery d d') :
    Stands lib db d' := by
  obtain ⟨hid, hw, hp⟩ := hd
  refine ⟨?_, ?_⟩
  · rw [hid, hw, hp]
    exact h.id
  · rw [hp]
    exact h.event

theorem past_apply (store : RunStore) (now : Instant) (op : Op) {r : String} {row : RunRow} {attempt : Nat} (hr : db.run? r = some row)
    (hp : Past row attempt event) :
    ∃ row', (apply store db now op).run? r = some row' ∧ Past row' attempt event := by
  obtain ⟨row', hr', rfl | hc⟩ := run_apply store now op hr
  · exact ⟨row', hr', hp⟩
  · exact ⟨row', hr', hc.past hp⟩

theorem Stands.apply {op : Op} (h : Stands store.lib db d) : Stands store.lib (apply store db now op) d := by
  obtain ⟨hid, run, event, row, hpayload, hr, hp⟩ := h
  obtain ⟨row', hr', hp'⟩ := past_apply store now op hr hp
  exact ⟨hid, run, event, row', hpayload, hr', hp'⟩

/-! ## One step -/

/-- The deliveries written between `s` and `s'` are those of the transitions of the runs, one for each
subscription that wants to hear of it. -/
structure Announced (store : RunStore) (now : Instant) (s s' : Service) (added : List DeliveryRow) : Prop where
  rows : s'.deliveries.rows = s.deliveries.rows ++ added
  each : ∀ r row row' event, s.db.run? r = some row → s'.db.run? r = some row' → Transition row row' event →
    ∀ hook ∈ s.webhooks.rows, hook.tenantId = row'.tenantId → event ∈ hook.events →
      newDelivery store.lib (record row' now) event now hook ∈ added ∧
        ∀ d ∈ added, d.webhookId = hook.webhookId → d.payload.run.runId = r →
          d = newDelivery store.lib (record row' now) event now hook
  only : ∀ d ∈ added, ∃ r row row' event hook, s.db.run? r = some row ∧ s'.db.run? r = some row' ∧
    Transition row row' event ∧ hook ∈ s.webhooks.rows ∧ hook.tenantId = row'.tenantId ∧ event ∈ hook.events ∧
    d = newDelivery store.lib (record row' now) event now hook

theorem Announced.refused (hi : ∀ r row, s.db.run? r = some row → RowInv row) : Announced store now s s [] := by
  refine ⟨(List.append_nil _).symm, ?_, by simp⟩
  intro r row row' event hr hr' ht
  rw [hr] at hr'
  cases hr'
  exact absurd ht (Transition.irreflexive (hi r row hr))

theorem mem_owed {lib : Libraries} {webhooks : Table WebhookRow.webhookId} {run : RunRecord} :
    d ∈ owed lib webhooks run event now ↔
      ∃ hook ∈ webhooks.rows, hook.tenantId = run.tenantId ∧ event ∈ hook.events ∧
        newDelivery lib run event now hook = d := by
  simp [owed, List.mem_map, List.mem_filter, and_assoc]

theorem owed_nodup {lib : Libraries} (hdl : Function.Injective (lib.stableId "dlv_"))
    (webhooks : Table WebhookRow.webhookId) (run : RunRecord) :
    ((owed lib webhooks run event now).map DeliveryRow.deliveryId).Nodup := by
  rw [owed, List.map_map]
  have hhooks : ((webhooks.rows.filter fun hook => hook.tenantId = run.tenantId && hook.events.contains event).map
      WebhookRow.webhookId).Nodup := (List.Sublist.map _ List.filter_sublist).nodup webhooks.nodup
  have hids := hhooks.map fun w w' (h : deliveryId lib (eventId lib run event) w =
    deliveryId lib (eventId lib run event) w') => (deliveryId_injective hdl h).2
  rwa [List.map_map] at hids

/-- The deliveries of an operation are new, no two with one id. -/
theorem owing_rows (hev : Function.Injective (store.lib.stableId "whd_"))
    (hdl : Function.Injective (store.lib.stableId "dlv_")) {op : Op} {db' : Database} {answer : Answer} {rows' : List RunRow}
    (hm : Moves store now op s.db db' answer rows') (hs : ∀ d ∈ s.deliveries.rows, Stands store.lib s.db d) :
    (s.deliveries.insertAll (owing store.lib s.webhooks now (op.announced answer))).rows =
      s.deliveries.rows ++ owing store.lib s.webhooks now (op.announced answer) := by
  have hruns : (op.announced answer).Pairwise fun p q => p.1.runId ≠ q.1.runId := by
    rw [hm.announced, List.pairwise_filterMap]
    refine (List.pairwise_map.1 hm.once).imp ?_
    intro row row' hne p hp q hq
    obtain ⟨_, -, rfl⟩ := Option.map_eq_some_iff.1 hp
    obtain ⟨_, -, rfl⟩ := Option.map_eq_some_iff.1 hq
    exact hne
  refine Table.rows_insertAll ?_ ?_
  · rw [owing, List.map_flatMap, List.nodup_flatMap]
    refine ⟨fun p _ => owed_nodup hdl _ _, hruns.imp ?_⟩
    intro p q hne
    refine List.disjoint_left.2 fun id hp hq => ?_
    obtain ⟨d, hd, rfl⟩ := List.mem_map.1 hp
    obtain ⟨d', hd', he⟩ := List.mem_map.1 hq
    obtain ⟨hook, -, -, -, rfl⟩ := mem_owed.1 hd
    obtain ⟨hook', -, -, -, rfl⟩ := mem_owed.1 hd'
    exact hne (eventId_injective hev (deliveryId_injective hdl he).1).1.symm
  · intro d hd
    rw [Table.find?_eq_none]
    intro hmem
    obtain ⟨d₀, hd₀, he⟩ := List.mem_map.1 hmem
    obtain ⟨p, hp, hd⟩ := List.mem_flatMap.1 hd
    obtain ⟨hook, -, -, -, rfl⟩ := mem_owed.1 hd
    rw [hm.announced] at hp
    obtain ⟨row', hrow', hp⟩ := List.mem_filterMap.1 hp
    obtain ⟨event, htells, rfl⟩ := Option.map_eq_some_iff.1 hp
    obtain ⟨row, hr, -, hc⟩ := hm.back row' hrow'
    -- the delivery that was there stands for the same event of the same attempt, and that is past
    obtain ⟨hid, run, event₀, row₀, hpayload, hr₀, hpast⟩ := hs d₀ hd₀
    rw [hid] at he
    have hsame := (deliveryId_injective hdl he).1
    rw [hpayload] at hsame
    obtain ⟨hrun, hattempt, rfl⟩ := eventId_injective hev hsame
    rw [hrun] at hr₀
    cases hr₀.symm.trans hr
    exact hpast.fresh hc (hc.tells.1 htells) hattempt

/-- **One operation.**  The deliveries it writes are those of its transitions. -/
theorem Service.Served.announced (hev : Function.Injective (store.lib.stableId "whd_"))
    (hdl : Function.Injective (store.lib.stableId "dlv_")) {op : Op} {answer : Answer}
    (h : Served store now op s s' answer) (hi : ∀ r row, s.db.run? r = some row → RowInv row)
    (hs : ∀ d ∈ s.deliveries.rows, Stands store.lib s.db d) :
    Announced store now s s' (owing store.lib s.webhooks now (op.announced answer)) := by
  obtain ⟨rows', hm⟩ := perform_moves h.performed
  -- what is owed, run by run
  have hadded : ∀ d, d ∈ owing store.lib s.webhooks now (op.announced answer) ↔
      ∃ row' ∈ rows', ∃ event, op.tells (record row' now) = some event ∧
        d ∈ owed store.lib s.webhooks (record row' now) event now := by
    intro d
    rw [owing, hm.announced, List.mem_flatMap]
    constructor
    · rintro ⟨p, hp, hd⟩
      obtain ⟨row', hrow', hp⟩ := List.mem_filterMap.1 hp
      obtain ⟨event, htells, rfl⟩ := Option.map_eq_some_iff.1 hp
      exact ⟨row', hrow', event, htells, hd⟩
    · rintro ⟨row', hrow', event, htells, hd⟩
      exact ⟨(record row' now, event), List.mem_filterMap.2 ⟨row', hrow', by rw [htells]; rfl⟩, hd⟩
  refine ⟨by rw [h.wrote]; exact owing_rows hev hdl hm hs, ?_, ?_⟩
  · intro r row row' event hr hr' ht hook hhook htenant hwants
    rcases hm.rest r row row' hr hr' with rfl | hrow'
    · exact absurd ht (Transition.irreflexive (hi r row' hr))
    have hkey : row'.runId = r := Table.key_of_find? hr'
    subst hkey
    obtain ⟨row₀, hr₀, -, hc⟩ := hm.back row' hrow'
    cases hr.symm.trans hr₀
    have htells := hc.tells.2 ht
    refine ⟨(hadded _).2 ⟨row', hrow', event, htells, mem_owed.2 ⟨hook, hhook, htenant, hwants, rfl⟩⟩, ?_⟩
    intro d hd hw hrun
    obtain ⟨row₁, hrow₁, event₁, htells₁, hd⟩ := (hadded d).1 hd
    obtain ⟨hook₁, hhook₁, -, -, rfl⟩ := mem_owed.1 hd
    obtain rfl : row₁ = row' := List.inj_on_of_nodup_map hm.once hrow₁ hrow' hrun
    obtain rfl : hook₁ = hook := List.inj_on_of_nodup_map s.webhooks.nodup hhook₁ hhook hw
    obtain rfl : event₁ = event := Option.some.inj (htells₁.symm.trans htells)
    rfl
  · intro d hd
    obtain ⟨row', hrow', event, htells, hd⟩ := (hadded d).1 hd
    obtain ⟨hook, hhook, htenant, hwants, rfl⟩ := mem_owed.1 hd
    obtain ⟨row, hr, hr', hc⟩ := hm.back row' hrow'
    exact ⟨_, row, row', event, hook, hr, hr', hc.tells.1 htells, hhook, htenant, hwants, rfl⟩

/-! ## Histories -/

/-- What every history of the service keeps. -/
structure OutboxInv (store : RunStore) (t : Instant) (s : Service) : Prop where
  reached : ∃ before ≤ t, ReachedAt store before s.db
  stands : ∀ d ∈ s.deliveries.rows, Stands store.lib s.db d

namespace OutboxInv

theorem rowInv (h : OutboxInv store t s) {r : String} {row : RunRow} (hr : s.db.run? r = some row) : RowInv row := by
  obtain ⟨before, -, hreach⟩ := h.reached
  exact Reached.inv ⟨before, hreach⟩ hr

theorem announced (hev : Function.Injective (store.lib.stableId "whd_"))
    (hdl : Function.Injective (store.lib.stableId "dlv_")) (h : OutboxInv store t s) (now : Instant) (op : Op) :
    ∃ added, Announced store now s (s.step store now (.op op)) added := by
  show ∃ added, Announced store now s (orElse s (s.serve store now op)) added
  cases hserve : s.serve store now op with
  | error e => exact ⟨[], .refused fun r row hr => h.rowInv hr⟩
  | ok x => exact ⟨_, (serve_served hserve).announced hev hdl (fun r row hr => h.rowInv hr) h.stands⟩

theorem step (hev : Function.Injective (store.lib.stableId "whd_")) (hdl : Function.Injective (store.lib.stableId "dlv_"))
    (h : OutboxInv store t s) (hle : t ≤ now) (call : Call) : OutboxInv store now (s.step store now call) := by
  obtain ⟨before, hbefore, hreach⟩ := h.reached
  by_cases hcall : ∃ op, call = .op op
  · obtain ⟨op, rfl⟩ := hcall
    have hreach' : ReachedAt store now (s.step store now (.op op)).db := by
      rw [step_db]
      exact hreach.tail (hbefore.trans hle) op
    refine ⟨⟨now, le_refl now, hreach'⟩, fun d hd => ?_⟩
    obtain ⟨added, ha⟩ := h.announced hev hdl now op
    rw [ha.rows] at hd
    rcases List.mem_append.1 hd with hd | hd
    · rw [step_db]
      exact (h.stands d hd).apply
    · obtain ⟨r, row, row', event, hook, -, hr', ht, -, -, -, rfl⟩ := ha.only d hd
      obtain rfl : row'.runId = r := Table.key_of_find? hr'
      refine ⟨rfl, record row' now, event, row', rfl, hr', ?_⟩
      exact ht.past (Reached.inv ⟨now, hreach'⟩ hr')
  · obtain ⟨hdb, hkept⟩ := step_quiet store s now call fun op he => hcall ⟨op, he⟩
    refine ⟨⟨before, hbefore.trans hle, hdb ▸ hreach⟩, fun d' hd' => ?_⟩
    obtain ⟨d, hd, hsame⟩ := hkept d' hd'
    rw [hdb]
    exact (h.stands d hd).same hsame

theorem of_run (hev : Function.Injective (store.lib.stableId "whd_")) (hdl : Function.Injective (store.lib.stableId "dlv_"))
    (h : Run (Service.step store) anything t Service.empty before s) : OutboxInv store before s := by
  refine h.invariant (OutboxInv store) (fun t s now call hi hle _ => hi.step hev hdl hle call) ⟨⟨t, le_refl t, t, .refl⟩, ?_⟩
  intro d hd
  cases hd

end OutboxInv

/-- In the step `call` the run `r` goes through `event`, and `id` is the id of that. -/
def Tells (store : RunStore) (now : Instant) (s : Service) (call : Call) (r : String) (event : WebhookEvent)
    (id : String) : Prop :=
  ∃ row row', s.db.run? r = some row ∧ (s.step store now call).db.run? r = some row' ∧ Transition row row' event ∧
    id = eventId store.lib (record row' now) event

/-- Two transitions of one step differ in their id. -/
theorem Tells.same_step (hev : Function.Injective (store.lib.stableId "whd_")) {r r' id : String}
    (h : Tells store now s call r event id) (h' : Tells store now s call r' event' id) : r' = r ∧ event' = event := by
  obtain ⟨row, row', -, hr, -, rfl⟩ := h
  obtain ⟨row₁, row₁', -, hr₁, -, he⟩ := h'
  obtain ⟨hrun, -, hevent⟩ := eventId_injective hev he
  have hk : row'.runId = r := Table.key_of_find? hr
  have hk₁ : row₁'.runId = r' := Table.key_of_find? hr₁
  exact ⟨hk₁.symm.trans (Eq.trans hrun.symm hk), hevent.symm⟩

/-- What is past stays past. -/
theorem Run.past {ok : Service → Instant → Call → Prop} (h : Run (Service.step store) ok t s before s') {r : String}
    {row : RunRow} {attempt : Nat} (hr : s.db.run? r = some row) (hp : Past row attempt event) :
    ∃ row', s'.db.run? r = some row' ∧ Past row' attempt event := by
  refine h.invariant' (fun s => ∃ row, s.db.run? r = some row ∧ Past row attempt event) ?_ ⟨row, hr, hp⟩
  rintro s now call ⟨row, hr, hp⟩ -
  by_cases hcall : ∃ op, call = .op op
  · obtain ⟨op, rfl⟩ := hcall
    rw [step_db]
    exact past_apply store now op hr hp
  · rw [(step_quiet store s now call fun op he => hcall ⟨op, he⟩).1]
    exact ⟨row, hr, hp⟩

/-- A later transition has another id. -/
theorem Tells.later (hev : Function.Injective (store.lib.stableId "whd_")) {r r' id : String} {later now' : Instant}
    {call' : Call} (hi : ∀ r row, (s.step store now call).db.run? r = some row → RowInv row)
    (hi' : ∀ r row, s'.db.run? r = some row → RowInv row) (h : Tells store now s call r event id)
    (hrun : Run (Service.step store) anything now (s.step store now call) later s') :
    ¬Tells store now' s' call' r' event' id := by
  rintro ⟨row₁, row₁', hr₁, hr₁', ht₁, he⟩
  obtain ⟨row, row', -, hr', ht, rfl⟩ := h
  obtain ⟨hrunId, hattempt, rfl⟩ := eventId_injective hev he
  obtain rfl : r' = r := by
    have hk : row'.runId = r := Table.key_of_find? hr'
    have hk₁ : row₁'.runId = r' := Table.key_of_find? hr₁'
    exact hk₁.symm.trans (Eq.trans hrunId.symm hk)
  obtain ⟨row₂, hr₂, hpast⟩ := Run.past hrun hr' (ht.past (hi _ _ hr'))
  rw [hr₁] at hr₂
  cases hr₂
  by_cases hcall : ∃ op, call' = .op op
  · obtain ⟨op, rfl⟩ := hcall
    rw [step_db] at hr₁'
    obtain ⟨row₃, hr₃, rfl | hc⟩ := run_apply store now' op hr₁
    · rw [hr₃] at hr₁'
      cases hr₁'
      exact Transition.irreflexive (hi' _ _ hr₁) ht₁
    · rw [hr₃] at hr₁'
      cases hr₁'
      exact hpast.fresh hc ht₁ hattempt
  · rw [(step_quiet store s' now' call' fun op he => hcall ⟨op, he⟩).1, hr₁] at hr₁'
    cases hr₁'
    exact Transition.irreflexive (hi' _ _ hr₁) ht₁

/-- What a call does to the outbox. -/
structure ExactlyOnce (store : RunStore) (now : Instant) (s : Service) (call : Call) : Prop where
  /-- an operation writes the deliveries of its transitions, and no other -/
  written : ∀ op, call = .op op → ∃ added, Announced store now s (s.step store now call) added
  /-- any other call moves no run and writes none -/
  quiet : (∀ op, call ≠ .op op) → (s.step store now call).db = s.db ∧
    ∀ d' ∈ (s.step store now call).deliveries.rows, ∃ d ∈ s.deliveries.rows, sameDelivery d d'
  /-- two transitions of the step have two ids -/
  apart : ∀ r r' event event' id, Tells store now s call r event id → Tells store now s call r' event' id →
    r' = r ∧ event' = event
  /-- no later transition has the id of one of the step -/
  never : ∀ r event id, Tells store now s call r event id → ∀ later s', Run (Service.step store) anything now
    (s.step store now call) later s' → ∀ now' call' r' event', ¬Tells store now' s' call' r' event' id

/-- **Exactly once.**  In every history of route calls and ticker steps, the step that takes a run through
an event writes one delivery for each subscription of its tenant that wants it, under one event id, and
writes nothing else; no two transitions of the history share an event id. -/
theorem outbox_exactly_once (hev : Function.Injective (store.lib.stableId "whd_"))
    (hdl : Function.Injective (store.lib.stableId "dlv_"))
    (h : Run (Service.step store) anything t Service.empty before s) (hle : before ≤ now) (call : Call) :
    ExactlyOnce store now s call := by
  have hinv := OutboxInv.of_run hev hdl h
  refine ⟨?_, step_quiet store s now call, fun r r' event event' id => Tells.same_step hev, ?_⟩
  · rintro op rfl
    exact hinv.announced hev hdl now op
  · intro r event id htells later s' hrun now' call' r' event'
    have hstep := hinv.step hev hdl hle call
    have hinv' := OutboxInv.of_run hev hdl ((h.tail now call hle trivial).trans hrun)
    exact htells.later hev (fun r row hr => hstep.rowInv hr) (fun r row hr => hinv'.rowInv hr) hrun

end

/-- Two subscriptions, and a run in its caller's process. -/
def subscribedWork : List (Instant × Call) :=
  [(0, .create "t" "u" [.PAUSED] "service:app" "w1" "s1"), (0, .create "t" "u" [.PAUSED, .FINISHED] "service:app" "w2" "s2"),
    (1, .op (.start smallStart false true))]

theorem subscribedWork_admitted : Run.Admitted (Service.step smallStore) anything 0 Service.empty subscribedWork := by
  norm_num [subscribedWork, Run.Admitted, anything]

/-- Its pause is owed to both, and sent again to neither. -/
theorem outbox_exactly_once_pause : ∃ s : Service, ExactlyOnce smallStore 2 s (.op (.pause "t" "r" smallPause none)) ∧
    s.deliveries.rows = [] ∧
    ((s.step smallStore 2 (.op (.pause "t" "r" smallPause none))).deliveries.rows.map DeliveryRow.webhookId) =
      ["w1", "w2"] ∧
    (((s.step smallStore 2 (.op (.pause "t" "r" smallPause none))).step smallStore 3
      (.op (.pause "t" "r" smallPause none))).deliveries.rows.length = 2) := by
  have hs : (let s := Run.after (Service.step smallStore) Service.empty subscribedWork
      let s' := s.step smallStore 2 (.op (.pause "t" "r" smallPause none))
      s.deliveries.rows.isEmpty ∧ s'.deliveries.rows.map DeliveryRow.webhookId = ["w1", "w2"] ∧
        (s'.step smallStore 3 (.op (.pause "t" "r" smallPause none))).deliveries.rows.length = 2) := by
    decide +kernel
  obtain ⟨hnone, hpaused, hagain⟩ := hs
  have h : Run (Service.step smallStore) anything 0 Service.empty 1 _ := Run.replay_ends subscribedWork_admitted
  exact ⟨_, outbox_exactly_once (spelled_injective "whd_") (spelled_injective "dlv_") h (by norm_num) _,
    List.isEmpty_iff.1 hnone, hpaused, hagain⟩

end AgentRuns
