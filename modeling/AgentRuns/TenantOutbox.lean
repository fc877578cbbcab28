import AgentRuns.Tenants
import AgentRuns.Listings

/-!
# The subscriptions and deliveries of a tenant

A delivery names no tenant: it is of the tenant whose subscription it is owed to (`Service.ofTenant`).  So a subscription that comes,
or goes, must leave whose the others' deliveries are; and the announcement of a run writes only where a row of the same subscription
stands, by the ids (`Tenanted`).
-/

namespace AgentRuns

open Relational Fallible

namespace Service

/-- The rows of a tenant. -/
def of (s : Service) (tenantId : String) : Service where
  db := s.db.of tenantId
  webhooks := s.webhooks.only (·.tenantId = tenantId)
  deliveries := s.deliveries.only (s.ofTenant tenantId)

/-- A delivery is owed to a subscription that is there, and its id names that. -/
structure Tenanted (lib : Libraries) (s : Service) : Prop where
  db : s.db.Tenanted lib
  hooked : ∀ d ∈ s.deliveries.rows, (s.webhooks.find? d.webhookId).isSome = true
  named : ∀ d ∈ s.deliveries.rows, ∃ event, d.deliveryId = deliveryId lib event d.webhookId

section
variable {store : RunStore} {lib : Libraries} {s s' : Service} {tenantId other webhookId : String} {now : Instant}
  {run : RunRecord} {event : WebhookEvent} {hook : WebhookRow} {answer : Answer} {op : Op}

/-! ## Whose a delivery is -/

theorem ofTenant_congr {d d' : DeliveryRow} (h : d'.webhookId = d.webhookId) : s.ofTenant tenantId d' = s.ofTenant tenantId d := by
  unfold ofTenant
  rw [h]

theorem ofTenant_of_find? {d : DeliveryRow} (h : s.webhooks.find? d.webhookId = some hook) :
    s.ofTenant tenantId d = decide (hook.tenantId = tenantId) := by
  unfold ofTenant
  rw [h, Option.any_some]

theorem find?_hooks_of (s : Service) (tenantId webhookId : String) :
    (s.of tenantId).webhooks.find? webhookId = (s.webhooks.find? webhookId).filter (·.tenantId = tenantId) :=
  Table.find?_only s.webhooks _ webhookId

theorem ofTenant_of (s : Service) (tenantId : String) : (s.of tenantId).ofTenant tenantId = s.ofTenant tenantId := by
  funext d
  unfold ofTenant
  rw [find?_hooks_of]
  cases s.webhooks.find? d.webhookId with
  | none => rfl
  | some hook => by_cases h : hook.tenantId = tenantId <;> simp [h]

theorem find?_deliveries_of (s : Service) (tenantId deliveryId : String) :
    (s.of tenantId).deliveries.find? deliveryId = (s.deliveries.find? deliveryId).filter (s.ofTenant tenantId) :=
  Table.find?_only s.deliveries _ deliveryId

theorem subscription_of (s : Service) (tenantId webhookId : String) :
    (s.of tenantId).subscription tenantId webhookId = s.subscription tenantId webhookId := by
  unfold subscription
  rw [find?_hooks_of, Option.filter_filter]
  simp

theorem subscription_ok (h : s.subscription tenantId webhookId = .ok hook) :
    s.webhooks.find? webhookId = some hook ∧ hook.webhookId = webhookId ∧ hook.tenantId = tenantId := by
  unfold subscription at h
  split at h
  · cases h
  · next found hfound =>
    cases h
    obtain ⟨hfind, hmine⟩ := Option.filter_eq_some_iff.1 hfound
    exact ⟨hfind, Table.key_of_find? hfind, by simpa using hmine⟩

/-- A subscription that comes has no deliveries yet. -/
theorem ofTenant_insert (hhooked : ∀ d ∈ s.deliveries.rows, (s.webhooks.find? d.webhookId).isSome = true)
    (hnew : s.webhooks.find? hook.webhookId = none) (d : DeliveryRow) (hd : d ∈ s.deliveries.rows) :
    Service.ofTenant { s with webhooks := s.webhooks.insert hook } tenantId d = s.ofTenant tenantId d := by
  have hne : hook.webhookId ≠ d.webhookId := by
    intro he
    have := hhooked d hd
    rw [← he, hnew] at this
    cases this
  unfold ofTenant
  rw [Table.find?_insert_of_ne hne]

/-- One that is written over stays its tenant's. -/
theorem ofTenant_put {hook' : WebhookRow} (hfind : s.webhooks.find? hook'.webhookId = some hook)
    (hten : hook'.tenantId = hook.tenantId) (d : DeliveryRow) :
    Service.ofTenant { s with webhooks := s.webhooks.put hook' } tenantId d = s.ofTenant tenantId d := by
  unfold ofTenant
  by_cases he : hook'.webhookId = d.webhookId
  · rw [Table.find?_put_self he (he ▸ hfind), ← he, hfind, Option.any_some, Option.any_some, hten]
  · rw [Table.find?_put_of_ne he]

/-- One that goes takes its own deliveries. -/
theorem ofTenant_erase {d : DeliveryRow} (h : d.webhookId ≠ webhookId) :
    Service.ofTenant { s with webhooks := s.webhooks.erase (·.webhookId = webhookId) } tenantId d = s.ofTenant tenantId d := by
  unfold ofTenant
  rw [Table.find?_erase_of_ne _ h]

/-! ## The calls -/

theorem create_of {url createdBy secret : String} {events : List WebhookEvent} (ht : s.Tenanted lib)
    (hfresh : ∀ hook, s.webhooks.find? webhookId = some hook → hook.tenantId = tenantId) :
    (s.of tenantId).create tenantId url events createdBy webhookId secret now =
      (s.create tenantId url events createdBy webhookId secret now).map (·.of tenantId) := by
  have hfind : (s.of tenantId).webhooks.find? webhookId = s.webhooks.find? webhookId := by
    rw [find?_hooks_of]
    cases hw : s.webhooks.find? webhookId with
    | none => rfl
    | some hook => exact Option.filter_some_pos (decide_eq_true (hfresh hook hw))
  have hcount : (s.of tenantId).webhooks.rows.countP (·.tenantId = tenantId) = s.webhooks.rows.countP (·.tenantId = tenantId) := by
    show (s.webhooks.rows.filter _).countP _ = _
    rw [List.countP_filter]
    simp
  unfold create
  rw [hcount, hfind]
  by_cases hfull : maxWebhooksPerTenant ≤ s.webhooks.rows.countP (·.tenantId = tenantId)
  · rw [refuse_of _ hfull]
    rfl
  · rw [refuse_of_not _ hfull, ok_bind, ok_bind]
    cases hnew : s.webhooks.find? webhookId with
    | some hook => rfl
    | none =>
      let hook : WebhookRow := ⟨webhookId, tenantId, url, events, secret, none, none, createdBy, now⟩
      have hinsert : (s.webhooks.insert hook).only (·.tenantId = tenantId) = (s.of tenantId).webhooks.insert hook :=
        Table.only_insert (decide_eq_true rfl) fun hook' hw => decide_eq_true (hfresh hook' hw)
      have hdeliveries : s.deliveries.only (Service.ofTenant { s with webhooks := s.webhooks.insert hook } tenantId) =
          s.deliveries.only (s.ofTenant tenantId) := Table.only_congr (ofTenant_insert ht.hooked hnew)
      show Except.ok { (s.of tenantId) with webhooks := (s.of tenantId).webhooks.insert hook } =
        Except.ok (Service.of { s with webhooks := s.webhooks.insert hook } tenantId)
      unfold of at hinsert ⊢
      rw [hinsert, hdeliveries]

theorem rotateSecret_of {secret : String} {overlap : Rat} :
    (s.of tenantId).rotateSecret tenantId webhookId secret overlap now =
      (s.rotateSecret tenantId webhookId secret overlap now).map (·.of tenantId) := by
  unfold rotateSecret
  rw [subscription_of]
  cases hs : s.subscription tenantId webhookId with
  | error e => rfl
  | ok hook =>
    obtain ⟨hfind, hkey, hmine⟩ := subscription_ok hs
    let hook' : WebhookRow :=
      { hook with previousSecret := some hook.secret, secret := secret, previousSecretExpiresAt := some (now + overlap) }
    have hfind' : s.webhooks.find? hook'.webhookId = some hook := by
      show s.webhooks.find? hook.webhookId = _
      rw [hkey, hfind]
    have hput : (s.webhooks.put hook').only (·.tenantId = tenantId) = (s.of tenantId).webhooks.put hook' := by
      refine Table.only_put fun b hb => ?_
      rw [hfind'] at hb
      rw [← Option.some.inj hb]
    have hdeliveries : s.deliveries.only (Service.ofTenant { s with webhooks := s.webhooks.put hook' } tenantId) =
        s.deliveries.only (s.ofTenant tenantId) := Table.only_congr fun d _ => ofTenant_put hfind' rfl d
    show Except.ok { (s.of tenantId) with webhooks := (s.of tenantId).webhooks.put hook' } =
      Except.ok (Service.of { s with webhooks := s.webhooks.put hook' } tenantId)
    unfold of at hput ⊢
    rw [hput, hdeliveries]

/-- The deliveries a delete leaves, of each tenant. -/
theorem deliveries_erase (s : Service) (tenantId webhookId : String) : (s.deliveries.erase (·.webhookId = webhookId)).only
    (Service.ofTenant { s with
      webhooks := s.webhooks.erase (·.webhookId = webhookId)
      deliveries := s.deliveries.erase (·.webhookId = webhookId) } tenantId) =
    (s.deliveries.only (s.ofTenant tenantId)).erase (·.webhookId = webhookId) := by
  rw [← Table.only_erase]
  refine Table.only_congr fun d hd => @ofTenant_erase s tenantId webhookId d ?_
  simpa using (Table.mem_erase.1 hd).2

theorem delete_of : (s.of tenantId).delete tenantId webhookId = (s.delete tenantId webhookId).map (·.of tenantId) := by
  unfold delete
  rw [subscription_of]
  cases hs : s.subscription tenantId webhookId with
  | error e => rfl
  | ok hook =>
    show Except.ok { (s.of tenantId) with
        webhooks := (s.of tenantId).webhooks.erase (·.webhookId = hook.webhookId)
        deliveries := (s.of tenantId).deliveries.erase (·.webhookId = hook.webhookId) } =
      Except.ok (Service.of { s with
        webhooks := s.webhooks.erase (·.webhookId = hook.webhookId)
        deliveries := s.deliveries.erase (·.webhookId = hook.webhookId) } tenantId)
    have hdeliveries := deliveries_erase s tenantId hook.webhookId
    unfold of
    dsimp only
    rw [Table.only_erase, ← hdeliveries]

theorem redeliver_of {deliveryId : String} : (s.of tenantId).redeliver tenantId deliveryId now =
    (s.redeliver tenantId deliveryId now).map (·.of tenantId) := by
  have hmine : (((s.of tenantId).deliveries.find? deliveryId).filter fun row =>
      ((s.of tenantId).webhooks.find? row.webhookId).any (·.tenantId = tenantId)) =
        (s.deliveries.find? deliveryId).filter (s.ofTenant tenantId) := by
    show ((s.of tenantId).deliveries.find? deliveryId).filter ((s.of tenantId).ofTenant tenantId) = _
    rw [ofTenant_of, find?_deliveries_of, Option.filter_filter]
    simp
  have hall : ((s.deliveries.find? deliveryId).filter fun row => (s.webhooks.find? row.webhookId).any (·.tenantId = tenantId)) =
      (s.deliveries.find? deliveryId).filter (s.ofTenant tenantId) := rfl
  unfold redeliver
  dsimp only
  rw [hmine, hall]
  cases hrow : (s.deliveries.find? deliveryId).filter (s.ofTenant tenantId) with
  | none => rfl
  | some row =>
    obtain ⟨hfind, -⟩ := Option.filter_eq_some_iff.1 hrow
    dsimp only
    split
    · rfl
    · have hput : (s.deliveries.put { row with deadAt := none, attempts := 0, nextAttemptAt := now }).only (s.ofTenant tenantId) =
          (s.of tenantId).deliveries.put { row with deadAt := none, attempts := 0, nextAttemptAt := now } := by
        refine Table.only_put fun b hb => ?_
        rw [Table.key_of_find? hfind, hfind] at hb
        rw [← Option.some.inj hb]
        exact ofTenant_congr rfl
      show Except.ok _ = Except.ok _
      unfold of at hput ⊢
      rw [← hput]
      rfl

/-! ## What is announced -/

theorem owed_of (hmine : run.tenantId = tenantId) :
    owed lib (s.of tenantId).webhooks run event now = owed lib s.webhooks run event now := by
  show ((s.webhooks.rows.filter _).filter _).map _ = (s.webhooks.rows.filter _).map _
  rw [List.filter_filter]
  congr 1
  refine List.filter_congr fun hook _ => ?_
  rw [Bool.and_eq_left_iff_imp, hmine]
  intro h
  exact (Bool.and_eq_true_iff.1 h).1

theorem owing_of {told : List (RunRecord × WebhookEvent)} (hmine : ∀ p ∈ told, p.1.tenantId = tenantId) :
    owing lib (s.of tenantId).webhooks now told = owing lib s.webhooks now told :=
  List.flatMap_congr fun p hp => owed_of (hmine p hp)

/-- What is written of the tenant's runs is owed to its subscriptions. -/
theorem mem_owing {told : List (RunRecord × WebhookEvent)} (hmine : ∀ p ∈ told, p.1.tenantId = tenantId) {d : DeliveryRow}
    (hd : d ∈ owing lib s.webhooks now told) : ∃ hook event, s.webhooks.find? d.webhookId = some hook ∧
      hook.tenantId = tenantId ∧ d.deliveryId = deliveryId lib event d.webhookId := by
  obtain ⟨p, hp, hd⟩ := List.mem_flatMap.1 hd
  obtain ⟨hook, hhook, hten, -, rfl⟩ := mem_owed.1 hd
  exact ⟨hook, _, Table.find?_of_mem hhook, hten.trans (hmine p hp), rfl⟩

theorem Tenanted.insertAll (hdl : Function.Injective (lib.stableId "dlv_")) (ht : s.Tenanted lib)
    {told : List (RunRecord × WebhookEvent)} (hmine : ∀ p ∈ told, p.1.tenantId = tenantId) :
    (s.deliveries.insertAll (owing lib s.webhooks now told)).only (s.ofTenant tenantId) =
      (s.of tenantId).deliveries.insertAll (owing lib (s.of tenantId).webhooks now told) := by
  rw [owing_of hmine]
  refine Table.only_insertAll (fun d hd => ?_) fun d hd b hb => ?_
  · obtain ⟨hook, _, hfind, hten, -⟩ := mem_owing hmine hd
    rw [ofTenant_of_find? hfind, decide_eq_true hten]
  · -- the row that is there has the id of one of the same subscription
    obtain ⟨hook, event, hfind, hten, hid⟩ := mem_owing hmine hd
    obtain ⟨hb, hkey⟩ := Table.find?_eq_some.1 hb
    obtain ⟨event', hid'⟩ := ht.named b hb
    have hsame : b.webhookId = d.webhookId := (deliveryId_injective hdl (hid'.symm.trans (hkey.trans hid))).2
    rw [ofTenant_of_find? (hsame ▸ hfind), decide_eq_true hten]

theorem insertAll_others {told : List (RunRecord × WebhookEvent)} (hmine : ∀ p ∈ told, p.1.tenantId = tenantId)
    (hne : other ≠ tenantId) : (s.deliveries.insertAll (owing lib s.webhooks now told)).only (s.ofTenant other) =
      s.deliveries.only (s.ofTenant other) := by
  refine Table.only_insertAll_other fun d hd => ?_
  obtain ⟨hook, _, hfind, hten, -⟩ := mem_owing hmine hd
  rw [ofTenant_of_find? hfind, hten]
  exact decide_eq_false hne.symm

theorem changing_own {db db' : Database} {runId : String} {decide : RunRow → Except ServiceError (Option RunRow)} {changed : Bool}
    (hd : Database.Keeps decide) (h : db.changing tenantId runId now decide = .ok (db', run, changed)) :
    run.tenantId = tenantId := by
  obtain ⟨row, ⟨-, hmine⟩, ⟨-, -, rfl, -⟩ | ⟨row', hdec, -, -, rfl, -⟩⟩ := Database.changing_ok.1 h
  · exact hmine
  · exact (hd row row' hdec).2.trans hmine

/-- What the caller announces of the tenant's operation is of its runs. -/
theorem announced_own {db db' : Database} (hby : op.By tenantId) (h : perform store op now db = .ok (db', answer)) :
    ∀ p ∈ op.announced answer, p.1.tenantId = tenantId := by
  have hmoved : ∀ {run changed}, run.tenantId = tenantId →
      ∀ p ∈ op.announced (.run run changed), p.1.tenantId = tenantId := by
    intro run changed hrun p hp
    cases changed with
    | false => cases hp
    | true =>
      obtain ⟨event, -, rfl⟩ := Option.map_eq_some_iff.1 (Option.mem_toList.1 hp)
      exact hrun
  cases op with
  | pause tenantId' runId pause workerId =>
    cases hby
    obtain ⟨⟨run, changed⟩, hp, rfl⟩ := answering_ok.1 h
    exact hmoved (changing_own (Database.pause_keeps store pause workerId) (Database.pause_changing hp))
  | resume tenantId' runId resolution answerer =>
    cases hby
    obtain ⟨⟨run, changed⟩, hp, rfl⟩ := answering_ok.1 h
    obtain ⟨row, ⟨-, hmine⟩, -, ⟨-, -, -, rfl, -⟩ | ⟨asked, row', ha, hsame, hm, -, -, -, rfl, -⟩⟩ := resume_ok hp
    · exact hmoved hmine
    · have hchange : Change store now (.resume tenantId runId resolution answerer) row row' := resumeRow_change ha hsame hm
      exact hmoved (hchange.tenantId.trans hmine)
  | cancel tenantId' runId body canceller =>
    cases hby
    obtain ⟨⟨run, changed⟩, hp, rfl⟩ := answering_ok.1 h
    exact hmoved (changing_own (Database.cancel_keeps store body canceller) hp)
  | finish tenantId' runId ending workerId draw =>
    cases hby
    obtain ⟨⟨run, changed⟩, hp, rfl⟩ := answering_ok.1 h
    exact hmoved (changing_own (Database.finish_keeps store ending workerId draw) hp)
  | release tenantId' runId request =>
    cases hby
    obtain ⟨⟨run, changed⟩, hp, rfl⟩ := answering_ok.1 h
    exact hmoved (changing_own (Database.release_keeps store request) (Database.release_changing hp))
  | start | heartbeat | upload | appendEvents =>
    rw [Op.announced_silent rfl rfl]
    exact fun p hp => (by cases hp)
  | _ => cases hby

/-- **A tenant's operation, with what is announced of it, works on its rows alone.** -/
theorem serve_of (hres : Function.Injective (store.lib.stableId "res_")) (hdl : Function.Injective (store.lib.stableId "dlv_"))
    (ht : s.Tenanted store.lib) (hby : op.By tenantId)
    (hnamed : op.named.all (fun runId => !s.db.alien tenantId runId) = true) (hfresh : op.Fresh tenantId s.db) :
    (s.of tenantId).serve store now op = seen (·.of tenantId) (s.serve store now op) := by
  have hperform : perform store op now (s.db.of tenantId) = seen (·.of tenantId) (perform store op now s.db) :=
    perform_of hres ht.db hby hnamed hfresh
  cases hserve : s.serve store now op with
  | error e =>
    rw [serve_refused hserve, seen_error] at hperform
    rw [seen_error]
    cases hserve' : (s.of tenantId).serve store now op with
    | error e' => rw [Except.error.inj ((serve_refused hserve').symm.trans hperform)]
    | ok result => cases (serve_served hserve').performed.symm.trans hperform
  | ok result =>
    obtain ⟨s', answer⟩ := result
    have hserved := serve_served hserve
    rw [hserved.performed, seen_ok] at hperform
    rw [seen_ok]
    cases hserve' : (s.of tenantId).serve store now op with
    | error e => cases (serve_refused hserve').symm.trans hperform
    | ok result' =>
      obtain ⟨s'', answer'⟩ := result'
      have hserved' := serve_served hserve'
      obtain ⟨hdb, rfl⟩ := Prod.mk.inj (Except.ok.inj (hserved'.performed.symm.trans hperform))
      have hmine := announced_own hby hserved.performed
      have hof : s'' = s'.of tenantId := by
        cases s''
        cases s'
        obtain ⟨-, hhooks, hwrote⟩ := hserved
        obtain ⟨-, hhooks', hwrote'⟩ := hserved'
        dsimp only at hdb hhooks hwrote hhooks' hwrote'
        subst hdb hhooks hwrote hhooks' hwrote'
        show Service.mk _ _ _ = Service.mk _ _ _
        congr 1
        exact (ht.insertAll hdl hmine).symm
      rw [hof]

/-! ## The other tenants -/

theorem create_others {url createdBy secret : String} {events : List WebhookEvent} (ht : s.Tenanted lib)
    (h : s.create tenantId url events createdBy webhookId secret now = .ok s') (hne : other ≠ tenantId) :
    s'.of other = s.of other := by
  obtain ⟨_, -, h⟩ := bind_ok.1 h
  obtain ⟨_, hfree, h⟩ := bind_ok.1 h
  cases h
  have hnew : s.webhooks.find? webhookId = none := by simpa using refuse_ok.1 hfree
  let hook : WebhookRow := ⟨webhookId, tenantId, url, events, secret, none, none, createdBy, now⟩
  have hinsert : (s.webhooks.insert hook).only (·.tenantId = other) = s.webhooks.only (·.tenantId = other) :=
    Table.only_insert_other (decide_eq_false hne.symm)
  have hdeliveries : s.deliveries.only (Service.ofTenant { s with webhooks := s.webhooks.insert hook } other) =
      s.deliveries.only (s.ofTenant other) := Table.only_congr (ofTenant_insert ht.hooked hnew)
  show Service.of { s with webhooks := s.webhooks.insert hook } other = s.of other
  unfold of
  rw [hinsert, hdeliveries]

theorem rotateSecret_others {secret : String} {overlap : Rat}
    (h : s.rotateSecret tenantId webhookId secret overlap now = .ok s') (hne : other ≠ tenantId) : s'.of other = s.of other := by
  obtain ⟨hook, hs, h⟩ := bind_ok.1 h
  cases h
  obtain ⟨hfind, hkey, hmine⟩ := subscription_ok hs
  let hook' : WebhookRow :=
    { hook with previousSecret := some hook.secret, secret := secret, previousSecretExpiresAt := some (now + overlap) }
  have hfind' : s.webhooks.find? hook'.webhookId = some hook := by
    show s.webhooks.find? hook.webhookId = _
    rw [hkey, hfind]
  have hout : decide (hook.tenantId = other) = false := decide_eq_false (by rw [hmine]; exact hne.symm)
  have hput : (s.webhooks.put hook').only (·.tenantId = other) = s.webhooks.only (·.tenantId = other) := by
    refine Table.only_put_other hout fun b hb => ?_
    rw [hfind'] at hb
    rw [← Option.some.inj hb]
    exact hout
  have hdeliveries : s.deliveries.only (Service.ofTenant { s with webhooks := s.webhooks.put hook' } other) =
      s.deliveries.only (s.ofTenant other) := Table.only_congr fun d _ => ofTenant_put hfind' rfl d
  show Service.of { s with webhooks := s.webhooks.put hook' } other = s.of other
  unfold of
  rw [hput, hdeliveries]

theorem delete_others (h : s.delete tenantId webhookId = .ok s') (hne : other ≠ tenantId) : s'.of other = s.of other := by
  obtain ⟨hook, hs, h⟩ := bind_ok.1 h
  cases h
  obtain ⟨hfind, hkey, hmine⟩ := subscription_ok hs
  have hhooks : (s.webhooks.erase (·.webhookId = hook.webhookId)).only (·.tenantId = other) =
      s.webhooks.only (·.tenantId = other) := by
    refine Table.only_erase_other fun b hb hsame => decide_eq_false ?_
    rw [decide_eq_true_iff] at hsame
    have hb' := Table.find?_of_mem hb
    rw [hsame, hkey, hfind] at hb'
    rw [← Option.some.inj hb', hmine]
    exact hne.symm
  have hdeliveries : (s.deliveries.only (s.ofTenant other)).erase (·.webhookId = hook.webhookId) =
      s.deliveries.only (s.ofTenant other) := by
    rw [← Table.only_erase]
    refine Table.only_erase_other fun d _ hsame => ?_
    rw [decide_eq_true_iff] at hsame
    rw [ofTenant_of_find? (show s.webhooks.find? d.webhookId = some hook by rw [hsame, hkey, hfind]), hmine]
    exact decide_eq_false hne.symm
  unfold of
  dsimp only
  rw [hhooks, deliveries_erase, hdeliveries]

theorem redeliver_others {deliveryId : String} (h : s.redeliver tenantId deliveryId now = .ok s') (hne : other ≠ tenantId) :
    s'.of other = s.of other := by
  unfold redeliver at h
  dsimp only at h
  split at h
  · cases h
  · next row hrow =>
    obtain ⟨hfind, hmine⟩ := Option.filter_eq_some_iff.1 hrow
    split at h
    · cases h
    · cases h
      have hout : s.ofTenant other row = false := by
        obtain ⟨hook, hhook, hten⟩ := (Option.any_eq_true _ _).1 hmine
        rw [ofTenant_of_find? hhook, of_decide_eq_true hten]
        exact decide_eq_false hne.symm
      have hput : (s.deliveries.put { row with deadAt := none, attempts := 0, nextAttemptAt := now }).only (s.ofTenant other) =
          s.deliveries.only (s.ofTenant other) := by
        refine Table.only_put_other ((ofTenant_congr rfl).trans hout) fun b hb => ?_
        rw [Table.key_of_find? hfind, hfind] at hb
        rw [← Option.some.inj hb, hout]
      show Service.mk _ _ (Table.only _ (s.ofTenant other)) = Service.mk _ _ _
      rw [hput]

theorem serve_others (ht : s.Tenanted store.lib) (hby : op.By tenantId) (h : s.serve store now op = .ok (s', answer))
    (hne : other ≠ tenantId) : s'.of other = s.of other := by
  obtain ⟨hperformed, hhooks, hwrote⟩ := serve_served h
  have hdb := perform_others ht.db hby hperformed hne
  have hdeliveries := @insertAll_others store.lib s tenantId other now _ (announced_own hby hperformed) hne
  cases s'
  dsimp only at hdb hhooks hwrote
  subst hhooks hwrote
  show Service.mk (Database.of _ other) _ (Table.only _ (s.ofTenant other)) = _
  rw [hdb, hdeliveries]
  rfl

/-! ## It stays so -/

theorem Tenanted.same {d d' : DeliveryRow} (h : sameDelivery d d')
    (hd : (s.webhooks.find? d.webhookId).isSome = true ∧ ∃ event, d.deliveryId = deliveryId lib event d.webhookId) :
    (s.webhooks.find? d'.webhookId).isSome = true ∧ ∃ event, d'.deliveryId = deliveryId lib event d'.webhookId := by
  obtain ⟨hid, hw, -⟩ := h
  rw [hid, hw]
  exact hd

/-- The subscriptions a call leaves: those that were there, but for the one that a delete takes with its deliveries. -/
theorem step_hooks (store : RunStore) (s : Service) (now : Instant) (call : Call) {d : DeliveryRow}
    (hd : d ∈ (s.step store now call).deliveries.rows) (h : (s.webhooks.find? d.webhookId).isSome = true) :
    ((s.step store now call).webhooks.find? d.webhookId).isSome = true := by
  cases call with
  | op op =>
    rw [(serve_row store now s op "").1]
    exact h
  | create tenantId url events createdBy webhookId secret =>
    unfold step at hd ⊢
    dsimp only at hd ⊢
    split
    · exact h
    · next s' hcreate =>
      obtain ⟨-, -, hook, hid, hnew, hhooks⟩ := create_ok hcreate
      rw [hhooks, Table.find?_insert (hid ▸ hnew)]
      split
      · rfl
      · exact h
  | rotateSecret tenantId webhookId secret overlap =>
    unfold step at hd ⊢
    dsimp only at hd ⊢
    split
    · exact h
    · next s' hrotate =>
      obtain ⟨-, -, hook, hhooks⟩ := rotateSecret_ok hrotate
      rw [hhooks, Table.find?_put]
      split
      · rw [Option.isSome_map]
        exact h
      · exact h
  | delete tenantId webhookId =>
    unfold step at hd ⊢
    dsimp only at hd ⊢
    split
    · exact h
    · next s' hdelete =>
      rw [hdelete] at hd
      obtain ⟨-, hhooks, hrows⟩ := delete_ok hdelete
      dsimp only at hd
      rw [hrows] at hd
      rw [hhooks, Table.find?_erase_of_ne _ (by simpa using (Table.mem_erase.1 hd).2)]
      exact h
  | claimDue held limit => exact h
  | settle delivery attempt =>
    show ((s.settle delivery attempt now).1.webhooks.find? d.webhookId).isSome = true
    unfold settle
    split
    · exact h
    · split
      · exact h
      · dsimp only
        split <;> exact h
  | redeliver tenantId deliveryId =>
    unfold step at hd ⊢
    dsimp only at hd ⊢
    split
    · exact h
    · next s' hredeliver =>
      rw [(redeliver_row hredeliver).2.1]
      exact h
  | dropDead held before limit => exact h

/-- **Every call leaves each delivery its subscription, and its name.** -/
theorem Tenanted.step (ht : s.Tenanted store.lib) (now : Instant) (call : Call) : (s.step store now call).Tenanted store.lib := by
  have hall : ∀ d ∈ (s.step store now call).deliveries.rows, (s.webhooks.find? d.webhookId).isSome = true ∧
      ∃ event, d.deliveryId = deliveryId store.lib event d.webhookId := by
    intro d hd
    cases hop : call with
    | op op =>
      subst hop
      have hfind := Table.find?_of_mem hd
      rcases (serve_row store now s op d.deliveryId).2 with hsame | ⟨-, run, event, hook, hhook, hnew⟩
      · rw [hsame] at hfind
        exact ⟨ht.hooked d (Table.mem_of_find? hfind), ht.named d (Table.mem_of_find? hfind)⟩
      · obtain rfl := Option.some.inj (hfind.symm.trans hnew)
        refine ⟨?_, _, rfl⟩
        rw [show (newDelivery store.lib run event now hook).webhookId = hook.webhookId from rfl, Table.find?_of_mem hhook]
        rfl
    | _ =>
      have hquiet := (step_quiet store s now call (by rw [hop]; exact fun op h => by cases h)).2 d hd
      obtain ⟨d', hd', hsame⟩ := hquiet
      exact Tenanted.same hsame ⟨ht.hooked d' hd', ht.named d' hd'⟩
  refine ⟨?_, fun d hd => step_hooks store s now call hd (hall d hd).1, fun d hd => (hall d hd).2⟩
  cases hop : call with
  | op op =>
    rw [step_db]
    exact ht.db.apply now op
  | _ =>
    rw [← hop, (step_quiet store s now call (by rw [hop]; exact fun op h => by cases h)).1]
    exact ht.db

end

end Service

end AgentRuns
