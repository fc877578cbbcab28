import AgentRuns.Sending
import AgentRuns.Spelled
import Mathlib.Tactic.Linarith

/-!
# Dead letters

How a delivery ends.  A row's attempts are the claims of it since it was written (`Paced`), and while every
claim of it is settled before its lease ends, nobody else claims it, so it is tried
`WEBHOOK_ATTEMPTS` times at most and is dead after the last one that fails (`deliveries_kept`).  A row that
is still owed comes due again, whoever held it (`comes_due`).
-/

namespace AgentRuns

open Relational Fallible Timed Service

namespace Sending

/-- What the tickers hold of a delivery. -/
def hand (s : Sending) (d : String) : List HeldDelivery := s.held.filter (holds d)

/-- How often an act claims a delivery. -/
def claims (d : String) (s : Sending) : SendAct → Nat
  | .claim now locked limit => (s.claimed now locked limit).countP (holds d)
  | _ => 0

/-- How often a delivery was claimed since its row was written, over a list of acts; `n` times before them. -/
def tried (store : RunStore) (retention : Rat) (d : String) (s : Sending) (n : Nat) : List (Instant × SendAct) → Nat
  | [] => n
  | (w, act) :: l =>
    let s' := s.step store retention w act
    tried store retention d s' (if (s'.row? d).isSome then n + claims d s act else 0) l

end Sending

/-- The time an act carries. -/
def SendAct.stamp : SendAct → Option Instant
  | .route now _ _ | .claim now _ _ | .dropDead now _ _ => some now
  | .settle .. => none

/-- The id it gives a new subscription. -/
def SendAct.mints : SendAct → Option String
  | .route _ call _ => call.mints
  | _ => none

/-- The delivery it redelivers. -/
def SendAct.redelivers : SendAct → Option String
  | .route _ (.redeliver _ deliveryId) _ => some deliveryId
  | _ => none

/-- Every claim of the delivery is settled before its lease ends, and nobody redelivers it; a tick's time has come
when it acts, and a new subscription has an id of its own. -/
structure Sending.Prompt (d : String) (s : Sending) (w : Instant) (act : SendAct) : Prop where
  settled : ∀ h ∈ s.held, h.delivery.deliveryId = d → w < h.now + webhookLease
  once : act.redelivers ≠ some d
  stamped : ∀ now ∈ act.stamp, now ≤ w
  fresh : ∀ id ∈ act.mints, id ∉ s.minted

instance (d : String) (s : Sending) (w : Instant) (act : SendAct) : Decidable (s.Prompt d w act) :=
  decidable_of_iff ((∀ h ∈ s.held, h.delivery.deliveryId = d → w < h.now + webhookLease) ∧ act.redelivers ≠ some d ∧
      (∀ now ∈ act.stamp, now ≤ w) ∧ ∀ id ∈ act.mints, id ∉ s.minted)
    ⟨fun ⟨h1, h2, h3, h4⟩ => ⟨h1, h2, h3, h4⟩, fun h => ⟨h.1, h.2, h.3, h.4⟩⟩

namespace Sending

section
variable {store : RunStore} {retention : Rat} {s : Sending} {t w now : Instant} {d : String} {act : SendAct} {n : Nat}

/-! ## Subscriptions -/

/-- Every row has its subscription, and is named after it; every subscription has an id that was minted. -/
structure Owned (lib : Libraries) (s : Sending) : Prop where
  hooked : ∀ row ∈ s.service.deliveries.rows, (s.service.webhooks.find? row.webhookId).isSome
  minted : ∀ hook ∈ s.service.webhooks.rows, hook.webhookId ∈ s.minted
  named : ∀ row ∈ s.service.deliveries.rows, ∃ e, row.deliveryId = deliveryId lib e row.webhookId

/-- What an act makes of the subscriptions. -/
inductive Hooks (s : Sending) : SendAct → Table WebhookRow.webhookId → Prop
  | kept {act : SendAct} : Hooks s act s.service.webhooks
  | created {now : Instant} {tenantId url createdBy webhookId secret : String} {events : List WebhookEvent} {ours}
      {hook : WebhookRow} (key : hook.webhookId = webhookId) (new : s.service.webhooks.find? webhookId = none) :
      Hooks s (.route now (.create tenantId url events createdBy webhookId secret) ours) (s.service.webhooks.insert hook)
  | rotated {now : Instant} {tenantId webhookId secret : String} {overlap : Rat} {ours} {hook : WebhookRow} :
      Hooks s (.route now (.rotateSecret tenantId webhookId secret overlap) ours) (s.service.webhooks.put hook)
  | deleted {now : Instant} {tenantId webhookId : String} {ours} :
      Hooks s (.route now (.delete tenantId webhookId) ours) (s.service.webhooks.erase (·.webhookId = webhookId))

/-- A subscription goes with its deliveries, or both stay. -/
theorem step_delete (store : RunStore) (retention : Rat) (s : Sending) (w now : Instant) {tenantId webhookId : String} {ours} :
    (s.step store retention w (.route now (.delete tenantId webhookId) ours)).service = s.service ∨
      (s.step store retention w (.route now (.delete tenantId webhookId) ours)).service.webhooks =
          s.service.webhooks.erase (·.webhookId = webhookId) ∧
        (s.step store retention w (.route now (.delete tenantId webhookId) ours)).service.deliveries =
          s.service.deliveries.erase (·.webhookId = webhookId) := by
  cases h : s.service.delete tenantId webhookId with
  | error e => exact Or.inl (by simp only [step, Service.step, h])
  | ok s' =>
    obtain ⟨-, hw, hd⟩ := delete_ok h
    exact Or.inr ⟨by simp only [step, Service.step, h, hw], by simp only [step, Service.step, h, hd]⟩

theorem hooks (store : RunStore) (retention : Rat) (s : Sending) (w : Instant) (act : SendAct) :
    Hooks s act (s.step store retention w act).service.webhooks := by
  -- an act that leaves them
  have kept : ∀ {act : SendAct} {hooks : Table WebhookRow.webhookId}, hooks = s.service.webhooks → Hooks s act hooks :=
    fun he => he ▸ .kept
  cases act with
  | route now call ours =>
    cases call with
    | op op => exact kept (serve_row store now s.service op "").1
    | create tenantId url events createdBy webhookId secret =>
      cases h : s.service.create tenantId url events createdBy webhookId secret now with
      | error e => exact kept (by simp only [step, Service.step, h])
      | ok s' =>
        obtain ⟨-, -, hook, hkey, hnew, he⟩ := create_ok h
        rw [show (s.step store retention w (.route now (.create ..) ours)).service.webhooks = s.service.webhooks.insert hook by
          simp only [step, Service.step, h, he]]
        exact .created hkey hnew
    | rotateSecret tenantId webhookId secret overlap =>
      cases h : s.service.rotateSecret tenantId webhookId secret overlap now with
      | error e => exact kept (by simp only [step, Service.step, h])
      | ok s' =>
        obtain ⟨-, -, hook, he⟩ := rotateSecret_ok h
        rw [show (s.step store retention w (.route now (.rotateSecret ..) ours)).service.webhooks = s.service.webhooks.put hook by
          simp only [step, Service.step, h, he]]
        exact .rotated
    | delete tenantId webhookId =>
      rcases step_delete store retention s w now with he | ⟨he, -⟩
      · exact kept (by rw [he])
      · rw [he]
        exact .deleted
    | redeliver tenantId deliveryId =>
      cases h : s.service.redeliver tenantId deliveryId now with
      | error e => exact kept (by simp only [step, Service.step, h])
      | ok s' => exact kept (by simp only [step, Service.step, h, (redeliver_row h).2.1])
    | claimDue | settle | dropDead => cases ours
  | claim | dropDead => exact .kept
  | settle i sent =>
    cases hheld : s.held[i]? with
    | none => exact kept (by rw [step_settle_none hheld])
    | some h =>
      refine kept ?_
      rw [step_settle hheld]
      show (s.service.settle h.delivery sent.attempt h.now).1.webhooks = _
      unfold settle
      split
      · rfl
      · split
        · rfl
        · dsimp only
          split <;> rfl

theorem minted_step {id : String} (h : id ∈ s.minted) : id ∈ (s.step store retention w act).minted := by
  cases act with
  | route now call ours => exact List.mem_append_right _ h
  | settle i sent =>
    cases hheld : s.held[i]? with
    | none => rwa [step_settle_none hheld]
    | some held => rwa [step_settle hheld]
  | claim | dropDead => exact h

/-- A subscription that went does not come back. -/
theorem gone_step {id : String} (fresh : ∀ id ∈ act.mints, id ∉ s.minted) (hm : id ∈ s.minted) (hn : s.service.webhooks.find? id = none) :
    (s.step store retention w act).service.webhooks.find? id = none := by
  have h := hooks store retention s w act
  generalize (s.step store retention w act).service.webhooks = after at h
  cases h with
  | kept => exact hn
  | created key new =>
    refine (Table.find?_insert_of_ne fun he => ?_).trans hn
    exact fresh _ rfl (key.symm.trans he ▸ hm)
  | rotated => rw [Table.find?_put, hn, Option.map_none, ite_self]
  | deleted => rw [Table.find?_erase, hn, Option.filter_none]

/-- Every row was there, or is a new one. -/
theorem row_from {row' : DeliveryRow} (h : row' ∈ (s.step store retention w act).service.deliveries.rows) :
    (∃ row ∈ s.service.deliveries.rows, row'.deliveryId = row.deliveryId ∧ row'.webhookId = row.webhookId) ∨
      ∃ run event now, ∃ hook ∈ s.service.webhooks.rows, row' = newDelivery store.lib run event now hook := by
  have hafter : (s.step store retention w act).row? row'.deliveryId = some row' := Table.find?_of_mem h
  have hf := fate store retention s w act row'.deliveryId
  rw [hafter] at hf
  have from_ : ∀ {row : DeliveryRow}, s.row? row'.deliveryId = some row → row'.webhookId = row.webhookId →
      ∃ row ∈ s.service.deliveries.rows, row'.deliveryId = row.deliveryId ∧ row'.webhookId = row.webhookId :=
    fun hb hw => ⟨_, Table.mem_of_find? hb, (Table.key_of_find? hb).symm, hw⟩
  generalize hb : s.row? row'.deliveryId = before at hf
  cases hf with
  | kept => exact Or.inl (from_ hb rfl)
  | written mem => exact Or.inr ⟨_, _, _, _, mem, rfl⟩
  | redelivered | claimed | retried | died => exact Or.inl (from_ hb rfl)

/-- **Step.** -/
theorem Owned.step (ho : s.Owned store.lib) : (s.step store retention w act).Owned store.lib := by
  have hh := hooks store retention s w act
  refine ⟨fun row' hrow' => ?_, fun hook hhook => ?_, fun row' hrow' => ?_⟩
  · have hbefore : (s.service.webhooks.find? row'.webhookId).isSome := by
      rcases row_from hrow' with ⟨row, hrow, -, hw⟩ | ⟨run, event, now, hook, hhook, rfl⟩
      · rw [hw]
        exact ho.hooked row hrow
      · rw [show (newDelivery store.lib run event now hook).webhookId = hook.webhookId from rfl, Table.find?_of_mem hhook]
        rfl
    generalize hk : (s.step store retention w act).service.webhooks = after at hh
    cases hh with
    | kept => exact hbefore
    | created key new =>
      rw [Table.find?_insert_of_ne, hbefore]
      intro he
      rw [← he, key, new] at hbefore
      cases hbefore
    | rotated =>
      rw [Table.find?_put]
      split
      · rw [Option.isSome_map]
        exact hbefore
      · exact hbefore
    | deleted =>
      rcases step_delete store retention s w _ with he | ⟨-, he⟩
      · rw [← hk, he]
        exact hbefore
      · rw [he] at hrow'
        have hne := (Table.mem_erase.1 hrow').2
        rw [Table.find?_erase_of_ne _ (by simpa using hne)]
        exact hbefore
  · generalize (s.step store retention w act).service.webhooks = after at hh hhook
    cases hh with
    | kept => exact minted_step (ho.minted hook hhook)
    | created key new =>
      rw [Table.rows_insert (by rw [key, new])] at hhook
      rcases List.mem_append.1 hhook with hhook | hhook
      · exact minted_step (ho.minted hook hhook)
      · rw [List.mem_singleton.1 hhook, key]
        exact List.mem_cons_self
    | rotated =>
      rcases Table.mem_put.1 hhook with ⟨rfl, hkey⟩ | ⟨hhook, -⟩
      · obtain ⟨old, hold, he⟩ := List.mem_map.1 hkey
        exact minted_step (he ▸ ho.minted old hold)
      · exact minted_step (ho.minted hook hhook)
    | deleted => exact minted_step (ho.minted hook (Table.mem_erase.1 hhook).1)
  · rcases row_from hrow' with ⟨row, hrow, hid, hw⟩ | ⟨run, event, now, hook, -, rfl⟩
    · obtain ⟨e, he⟩ := ho.named row hrow
      exact ⟨e, by rw [hid, he, hw]⟩
    · exact ⟨_, rfl⟩

/-! ## The attempts of one delivery -/

/-- Where a delivery stands that was claimed `n` times since its row was written, each claim settled in time. -/
structure Paced (lib : Libraries) (d : String) (n : Nat) (s : Sending) : Prop where
  /-- no row: what is still held of it went with its subscription -/
  absent : s.row? d = none → n = 0 ∧ (s.hand d ≠ [] → ∃ e, ∃ webhookId ∈ s.minted, d = deliveryId lib e webhookId ∧
    s.service.webhooks.find? webhookId = none)
  counted : ∀ row, s.row? d = some row → row.attempts = n ∧ n ≤ webhookAttempts
  resting : ∀ row, s.row? d = some row → s.hand d = [] → row.deadAt = none → n < webhookAttempts
  /-- one ticker holds it, within its lease -/
  sending : ∀ row, s.row? d = some row → s.hand d ≠ [] → row.deadAt = none ∧ ∃ h, s.hand d = [h] ∧
    h.delivery.attempts = n ∧ row.nextAttemptAt = h.now + webhookLease

/-- The row stays as it is, and so does what is held of it. -/
theorem Paced.still {s' : Sending} (hp : Paced store.lib d n s) (hr : s'.row? d = s.row? d) (hh : s'.hand d = s.hand d)
    (hm : ∀ id ∈ s.minted, s.service.webhooks.find? id = none → id ∈ s'.minted ∧ s'.service.webhooks.find? id = none) :
    Paced store.lib d (if (s'.row? d).isSome then n else 0) s' := by
  have hn : (if (s'.row? d).isSome then n else 0) = n := by
    split
    · rfl
    · next hs => exact (hp.absent (hr.symm.trans (Option.not_isSome_iff_eq_none.1 hs))).1.symm
  rw [hn]
  refine ⟨fun hn => ?_, fun row hrow => ?_, fun row hrow he => ?_, fun row hrow he => ?_⟩
  · obtain ⟨h0, hgone⟩ := hp.absent (hr ▸ hn)
    refine ⟨h0, fun he => ?_⟩
    obtain ⟨e, id, hid, hd, hnone⟩ := hgone (hh ▸ he)
    exact ⟨e, id, (hm id hid hnone).1, hd, (hm id hid hnone).2⟩
  · exact hp.counted row (hr ▸ hrow)
  · exact hp.resting row (hr ▸ hrow) (hh ▸ he)
  · rw [hh]
    exact hp.sending row (hr ▸ hrow) (hh ▸ he)

/-- A row nobody holds. -/
theorem Paced.of_resting (hh : s.hand d = []) (ha : s.row? d = none → n = 0)
    (hc : ∀ row, s.row? d = some row → row.attempts = n ∧ n ≤ webhookAttempts ∧ (row.deadAt = none → n < webhookAttempts)) :
    Paced store.lib d n s :=
  ⟨fun hn => ⟨ha hn, fun he => absurd hh he⟩, fun row hr => ⟨(hc row hr).1, (hc row hr).2.1⟩, fun row hr _ => (hc row hr).2.2,
    fun _ _ he => absurd hh he⟩

theorem Paced.empty (lib : Libraries) (d : String) : Paced lib d 0 Sending.empty :=
  ⟨fun _ => ⟨rfl, fun he => absurd rfl he⟩, fun _ hr => (by cases hr), fun _ hr => (by cases hr), fun _ hr => (by cases hr)⟩

/-- What is held after a settle. -/
theorem hand_settle (store : RunStore) (retention : Rat) (w : Instant) (sent : Sent) (d : String) {i : Nat} {h : HeldDelivery}
    (hheld : s.held[i]? = some h) :
    ∃ before after, s.hand d = before ++ (if holds d h then [h] else []) ++ after ∧
      (s.step store retention w (.settle i sent)).hand d = before ++ after := by
  obtain ⟨hi, he⟩ := List.getElem?_eq_some_iff.1 hheld
  refine ⟨(s.held.take i).filter (holds d), (s.held.drop (i + 1)).filter (holds d), ?_, ?_⟩
  · unfold hand
    conv => lhs; rw [← List.take_append_drop i s.held, List.drop_eq_getElem_cons hi, he]
    rw [List.filter_append, List.filter_cons]
    cases holds d h <;> simp
  · rw [step_settle hheld]
    show (s.held.eraseIdx i).filter (holds d) = _
    rw [List.eraseIdx_eq_take_drop_succ, List.filter_append]

/-- A route's call, or a sweep: it may write the row, or take it with its subscription. -/
theorem Paced.route {call : Call} {ours : call.ofTicker = false} (hdl : Function.Injective (store.lib.stableId "dlv_"))
    (ho : s.Owned store.lib) (hp : Paced store.lib d n s) (hok : s.Prompt d w (.route now call ours)) :
    Paced store.lib d (if ((s.step store retention w (.route now call ours)).row? d).isSome then n else 0)
      (s.step store retention w (.route now call ours)) := by
  have hgone : ∀ id ∈ s.minted, s.service.webhooks.find? id = none →
      id ∈ (s.step store retention w (.route now call ours)).minted ∧
        (s.step store retention w (.route now call ours)).service.webhooks.find? id = none :=
    fun id hid hn => ⟨minted_step hid, gone_step hok.fresh hid hn⟩
  have hf := fate store retention s w (.route now call ours) d
  generalize hb : s.row? d = before at hf
  generalize ha : (s.step store retention w (.route now call ours)).row? d = after at hf
  cases hf with
  | kept =>
    have hstill := hp.still (ha.trans hb.symm) rfl hgone
    rwa [ha] at hstill
  | written mem =>
    -- nothing is held of a row that is written: its subscription is there
    obtain ⟨h0, hheld⟩ := hp.absent hb
    have hkey := Table.key_of_find? ha
    have hnone : s.hand d = [] := by
      by_contra hne
      obtain ⟨e, id, -, hd, hn⟩ := hheld hne
      rw [← (deliveryId_injective hdl (hkey.trans hd)).2, Table.find?_of_mem mem] at hn
      cases hn
    subst h0
    rw [ite_self]
    refine Paced.of_resting hnone (fun _ => rfl) fun row hr => ?_
    obtain rfl := Option.some.inj (ha.symm.trans hr)
    exact ⟨rfl, Nat.zero_le _, fun _ => by decide⟩
  | @unsubscribed _ tenantId row =>
    refine ⟨fun _ => ⟨rfl, fun _ => ?_⟩, fun row' hr' => ?_, fun row' hr' => ?_, fun row' hr' => ?_⟩
    · obtain ⟨e, he⟩ := ho.named row (Table.mem_of_find? hb)
      obtain ⟨hook, hhook⟩ := Option.isSome_iff_exists.1 (ho.hooked row (Table.mem_of_find? hb))
      have hid : row.webhookId ∈ s.minted := Table.key_of_find? hhook ▸ ho.minted hook (Table.mem_of_find? hhook)
      refine ⟨e, row.webhookId, minted_step hid, (Table.key_of_find? hb).symm.trans he, ?_⟩
      rcases step_delete store retention s w _ with hs | ⟨hs, -⟩
      · rw [row?, hs] at ha
        rw [row?, ha] at hb
        cases hb
      · rw [hs, Table.find?_erase_self]
    all_goals
      rw [ha] at hr'
      cases hr'
  | redelivered dead =>
    exact absurd (congrArg some (Table.key_of_find? hb)) hok.once

/-- A claim: only a row nobody holds is claimed again. -/
theorem Paced.claim {locked : List String} {limit : Nat} (ho : s.Owned store.lib) (hp : Paced store.lib d n s)
    (hok : s.Prompt d w (.claim now locked limit)) :
    Paced store.lib d (if ((s.step store retention w (.claim now locked limit)).row? d).isSome then
        n + claims d s (.claim now locked limit) else 0)
      (s.step store retention w (.claim now locked limit)) := by
  have hhand : (s.step store retention w (.claim now locked limit)).hand d =
      s.hand d ++ (s.claimed now locked limit).filter (holds d) := List.filter_append _ _
  have hclaims : claims d s (.claim now locked limit) = ((s.claimed now locked limit).filter (holds d)).length :=
    List.countP_eq_length_filter
  obtain ⟨hskip, htake⟩ := claimed_hand ho.hooked now locked limit d
  rcases claimDue_row s.service locked limit d with ⟨he, hd⟩ | ⟨row, hdue, hrow, he⟩
  · rw [hskip hd] at hhand hclaims
    rw [List.append_nil] at hhand
    rw [hclaims, List.length_nil, Nat.add_zero]
    exact hp.still he hhand fun id hid hn => ⟨hid, hn⟩
  · obtain ⟨-, halive, hle⟩ := mem_due hdue
    obtain ⟨h, hnow, hattempts, hnew⟩ := htake row hdue (Table.key_of_find? hrow)
    have hnone : s.hand d = [] := by
      by_contra hne
      obtain ⟨-, held, hheld, -, hnext⟩ := hp.sending row hrow hne
      obtain ⟨hmem, hid⟩ := List.mem_filter.1 (show held ∈ s.hand d by rw [hheld]; exact List.mem_singleton_self held)
      have hlease := hok.settled held hmem (of_decide_eq_true hid)
      have hstamp := hok.stamped now rfl
      linarith
    rw [hnew] at hhand hclaims
    rw [hnone, List.nil_append] at hhand
    have hafter : (s.step store retention w (.claim now locked limit)).row? d = _ := he
    rw [hafter, hclaims, Option.isSome_some, if_pos rfl, List.length_singleton]
    obtain ⟨hcount, -⟩ := hp.counted row hrow
    have hlt := hp.resting row hrow hnone halive
    refine ⟨fun hn => ?_, fun row' hr' => ?_, fun row' hr' he' => ?_, fun row' hr' _ => ?_⟩
    · rw [hafter] at hn
      cases hn
    · obtain rfl := Option.some.inj (hafter.symm.trans hr')
      exact ⟨congrArg (· + 1) hcount, hlt⟩
    · rw [hhand] at he'
      cases he'
    · obtain rfl := Option.some.inj (hafter.symm.trans hr')
      exact ⟨halive, h, hhand, by rw [hattempts, hcount], by rw [hnow]⟩

/-- A drop takes no row that is held. -/
theorem Paced.dropDead {locked : List String} {limit : Nat} (hp : Paced store.lib d n s) :
    Paced store.lib d (if ((s.step store retention w (.dropDead now locked limit)).row? d).isSome then n else 0)
      (s.step store retention w (.dropDead now locked limit)) := by
  rcases dropDead_row s.service locked (now - retention) limit d with he | ⟨row, dead, hrow, hdead, -, he⟩
  · exact hp.still he rfl fun id hid hn => ⟨hid, hn⟩
  · have hafter : (s.step store retention w (.dropDead now locked limit)).row? d = none := he
    have hnone : s.hand d = [] := by
      by_contra hne
      rw [(hp.sending row hrow hne).1] at hdead
      cases hdead
    rw [hafter]
    refine Paced.of_resting hnone (fun _ => rfl) fun row' hr' => ?_
    rw [hafter] at hr'
    cases hr'

/-- A settle: what was held is not held any more, and the row goes, waits with attempts left, or is dead. -/
theorem Paced.settle {i : Nat} {sent : Sent} (hp : Paced store.lib d n s) :
    Paced store.lib d (if ((s.step store retention w (.settle i sent)).row? d).isSome then n else 0)
      (s.step store retention w (.settle i sent)) := by
  have hgone : ∀ id ∈ s.minted, s.service.webhooks.find? id = none →
      id ∈ (s.step store retention w (.settle i sent)).minted ∧
        (s.step store retention w (.settle i sent)).service.webhooks.find? id = none := by
    intro id hid hn
    have h := hooks store retention s w (.settle i sent)
    generalize (s.step store retention w (.settle i sent)).service.webhooks = after at h
    cases h with
    | kept => exact ⟨minted_step hid, hn⟩
  cases hheld : s.held[i]? with
  | none => exact hp.still (by rw [step_settle_none hheld]) (by rw [step_settle_none hheld]) hgone
  | some h =>
    obtain ⟨front, back, hbefore, hafter⟩ := hand_settle store retention w sent d hheld
    have hrow : (s.step store retention w (.settle i sent)).row? d = _ :=
      (congrArg (·.row? d) (step_settle hheld)).trans (settle_row s.service h.delivery sent.attempt h.now d)
    by_cases hd : h.delivery.deliveryId = d
    · rw [show holds d h = true from decide_eq_true hd, if_pos rfl] at hbefore
      rw [if_pos hd] at hrow
      cases hfind : s.row? d with
      | none =>
        have hnone : (s.step store retention w (.settle i sent)).row? d = none := by
          rw [hrow, show s.service.deliveries.find? d = none from hfind]
          rfl
        obtain ⟨h0, hheld⟩ := hp.absent hfind
        rw [hnone]
        refine ⟨fun _ => ⟨rfl, fun _ => ?_⟩, fun row hr => ?_, fun row hr => ?_, fun row hr => ?_⟩
        · obtain ⟨e, id, hid, hd, hn⟩ := hheld (by rw [hbefore]; simp)
          exact ⟨e, id, (hgone id hid hn).1, hd, (hgone id hid hn).2⟩
        all_goals
          rw [hnone] at hr
          cases hr
      | some row =>
        obtain ⟨halive, h', hone, hattempts, -⟩ := hp.sending row hfind (by rw [hbefore]; simp)
        obtain ⟨rfl, rfl, rfl⟩ : front = [] ∧ h = h' ∧ back = [] := by
          rw [hbefore] at hone
          cases front with
          | nil => simpa using hone
          | cons x front => simp at hone
        obtain ⟨hcount, hle⟩ := hp.counted row hfind
        rw [show s.service.deliveries.find? d = some row from hfind, Option.bind_some] at hrow
        refine Paced.of_resting hafter (fun hn => ?_) fun row' hr' => ?_
        · rw [hn]
          rfl
        · rw [hr', Option.isSome_some, if_pos rfl]
          rw [hr'] at hrow
          split at hrow
          · cases hrow
          · split at hrow
            · next hagain =>
              obtain rfl := Option.some.inj hrow
              exact ⟨hcount, hle, fun _ => hattempts ▸ hagain.2⟩
            · obtain rfl := Option.some.inj hrow
              exact ⟨hcount, hle, fun hn => by cases hn⟩
    · rw [show holds d h = false from decide_eq_false hd] at hbefore
      refine hp.still (hrow.trans (if_neg hd)) ?_ hgone
      rw [hafter, hbefore]
      simp

/-- **Step.** -/
theorem Paced.step (hdl : Function.Injective (store.lib.stableId "dlv_")) (ho : s.Owned store.lib) (hp : Paced store.lib d n s)
    (hok : s.Prompt d w act) :
    Paced store.lib d (if ((s.step store retention w act).row? d).isSome then n + claims d s act else 0)
      (s.step store retention w act) := by
  cases act with
  | route now call ours => exact hp.route hdl ho hok
  | claim now locked limit => exact hp.claim ho hok
  | settle i sent => exact hp.settle
  | dropDead now locked limit => exact hp.dropDead

/-- **Run.** -/
theorem Paced.run (hdl : Function.Injective (store.lib.stableId "dlv_")) (ops : List (Instant × SendAct)) : ∀ {t s n},
    s.Owned store.lib → Paced store.lib d n s → Run.Admitted (Sending.step store retention) (Prompt d) t s ops →
    Paced store.lib d (tried store retention d s n ops) (Run.after (Sending.step store retention) s ops) := by
  induction ops with
  | nil => exact fun _ hp _ => hp
  | cons x ops ih => exact fun ho hp ha => ih ho.step (hp.step hdl ho ha.1.2) ha.2

/-- A delivery that was claimed `n` times: never too often, and dead after the last claim of it that failed. -/
structure Bounded (store : RunStore) (retention : Rat) (d : String) (n : Nat) (s : Sending) (row : DeliveryRow) : Prop where
  attempts : row.attempts = n
  bound : n ≤ webhookAttempts
  dead : s.hand d = [] → n = webhookAttempts → row.deadAt.isSome
  failed : ∀ w i h sent row', s.held[i]? = some h → h.delivery.deliveryId = d → sent.accepted = false →
    (s.step store retention w (.settle i sent)).row? d = some row' →
      (row'.deadAt.isSome ↔ ¬(sent.attempt.retry = true ∧ n < webhookAttempts))

theorem Paced.bounded (hp : Paced store.lib d n s) {row : DeliveryRow} (hr : s.row? d = some row) :
    Bounded store retention d n s row := by
  obtain ⟨hcount, hle⟩ := hp.counted row hr
  refine ⟨hcount, hle, fun hh hn => ?_, fun w i h sent row' hheld hd hfailed hr' => ?_⟩
  · cases hdead : row.deadAt with
    | none => exact absurd (hp.resting row hr hh hdead) (hn ▸ lt_irrefl _)
    | some dead => rfl
  · have hmem : h ∈ s.hand d := List.mem_filter.2 ⟨List.mem_of_getElem? hheld, decide_eq_true hd⟩
    obtain ⟨halive, h', hone, hattempts, -⟩ := hp.sending row hr (List.ne_nil_of_mem hmem)
    rw [hone] at hmem
    obtain rfl := List.mem_singleton.1 hmem
    rw [step_settle hheld, row?, settle_row, if_pos hd, show s.service.deliveries.find? d = some row from hr,
      Option.bind_some, Sent.attempt_error, hfailed, if_neg (by simp), hattempts] at hr'
    split at hr'
    · next hagain =>
      obtain rfl := Option.some.inj hr'
      simp [halive, hagain]
    · next hlast =>
      obtain rfl := Option.some.inj hr'
      simp [hlast]

/-! ## What is owed comes due -/

/-- No row that is owed waits longer than the cap from now, whoever holds it. -/
structure Soon (w : Instant) (s : Sending) : Prop where
  held : ∀ h ∈ s.held, h.now ≤ w
  rows : ∀ d row, s.row? d = some row → row.deadAt = none → row.nextAttemptAt ≤ w + webhookRetryCap

theorem Soon.step (h : Soon t s) (hle : t ≤ w) (hs : ∀ now ∈ act.stamp, now ≤ w) :
    Soon w (s.step store retention w act) := by
  have hcap : (0 : Rat) ≤ webhookRetryCap := by decide
  refine ⟨fun x hx => ?_, fun d row' hr' halive => ?_⟩
  · cases act with
    | route | dropDead => exact (h.held x hx).trans hle
    | claim now locked limit =>
      rcases List.mem_append.1 hx with hx | hx
      · exact (h.held x hx).trans hle
      · obtain ⟨delivery, -, rfl⟩ := List.mem_map.1 hx
        exact hs now rfl
    | settle i sent =>
      cases hheld : s.held[i]? with
      | none =>
        rw [step_settle_none hheld] at hx
        exact (h.held x hx).trans hle
      | some held =>
        rw [step_settle hheld] at hx
        exact (h.held x ((List.eraseIdx_sublist _ _).mem hx)).trans hle
  · have hf := fate store retention s w act d
    rw [hr'] at hf
    generalize hb : s.row? d = before at hf
    cases hf with
    | kept =>
      have := h.rows d row' hb halive
      linarith
    | written =>
      show (_ : Rat) ≤ _
      have := hs _ rfl
      simp only [newDelivery]
      linarith
    | redelivered | claimed =>
      have := hs _ rfl
      have hlease : webhookLease ≤ webhookRetryCap := by norm_num [webhookLease, webhookRetryCap]
      dsimp only
      linarith
    | @retried i sent held row hheld =>
      have := (h.held held (List.mem_of_getElem? hheld)).trans hle
      have hwait : backoff webhookRetryBase held.delivery.attempts webhookRetryCap ≤ webhookRetryCap := min_le_right _ _
      dsimp only
      linarith
    | died => cases halive

/-- **Nothing owed is skipped.**  Whoever held it and let go of it, a row that is not dead is due again. -/
theorem comes_due (ops : List (Instant × SendAct)) (ha : Run.Admitted (Sending.step store retention)
      (fun _ w act => ∀ now ∈ act.stamp, now ≤ w) t Sending.empty ops) {row : DeliveryRow}
    (hr : (Run.after (Sending.step store retention) Sending.empty ops).row? d = some row) (halive : row.deadAt = none)
    (hle : Run.ends t ops + webhookRetryCap ≤ now) :
    row ∈ (Run.after (Sending.step store retention) Sending.empty ops).service.due []
      (Run.after (Sending.step store retention) Sending.empty ops).service.deliveries.rows.length now := by
  have hsoon : Soon (Run.ends t ops) (Run.after (Sending.step store retention) Sending.empty ops) :=
    (Run.replay_ends ha).invariant (fun w s => Soon w s) (fun _ _ _ _ h hle hs => h.step hle hs)
      ⟨fun _ hx => (by cases hx), fun _ _ hr => (by cases hr)⟩
  have hnext := (hsoon.rows d row hr halive).trans hle
  generalize Run.after (Sending.step store retention) Sending.empty ops = s at hr ⊢
  unfold due
  rw [List.take_of_length_le]
  · refine List.mem_filter.2 ⟨(List.perm_insertionSort _ _).mem_iff.2 (List.mem_filter.2 ⟨Table.mem_of_find? hr, ?_⟩), rfl⟩
    rw [halive, decide_eq_true hnext]
    rfl
  · refine (List.length_filter_le _ _).trans ?_
    rw [List.length_insertionSort]
    exact List.length_filter_le _ _

/-- **Deliveries are kept, and bounded.**  Whatever interleaves: a row leaves the outbox only because a receiver
accepted it, its subscription was deleted, or it was dead past the retention; no dead row is due; an owed one comes due
again.  And a delivery whose claims are all settled in time, and which nobody redelivers, is tried
`WEBHOOK_ATTEMPTS` times at most, and is dead after the last one that failed. -/
theorem deliveries_kept (store : RunStore) (retention : Rat) (hdl : Function.Injective (store.lib.stableId "dlv_")) :
    (∀ (s : Sending) (w : Instant) (act : SendAct) (d : String) (row : DeliveryRow), s.row? d = some row → (s.step store retention w act).row? d = none →
      (∃ i sent h, act = .settle i sent ∧ s.held[i]? = some h ∧ h.delivery.deliveryId = d ∧ sent.accepted = true) ∨
        (∃ now tenantId ours, act = .route now (.delete tenantId row.webhookId) ours) ∨
        ∃ now locked limit dead, act = .dropDead now locked limit ∧ row.deadAt = some dead ∧ dead < now - retention) ∧
      (∀ (s : Sending) now locked limit, ∀ row ∈ s.service.due locked limit now,
        row.deadAt = none ∧ row.listed.state = .PENDING) ∧
      (∀ row : DeliveryRow, row.listed.state = .DEAD ↔ row.listed.nextAttemptAt = none) ∧
      (∀ t ops, Run.Admitted (Sending.step store retention) (fun _ w act => ∀ now ∈ act.stamp, now ≤ w) t Sending.empty ops →
        let s := Run.after (Sending.step store retention) Sending.empty ops
        ∀ d row, s.row? d = some row → row.deadAt = none → ∀ now, Run.ends t ops + webhookRetryCap ≤ now →
          row ∈ s.service.due [] s.service.deliveries.rows.length now) ∧
      ∀ d t ops, Run.Admitted (Sending.step store retention) (Prompt d) t Sending.empty ops →
        let s := Run.after (Sending.step store retention) Sending.empty ops
        ∀ row, s.row? d = some row → Bounded store retention d (tried store retention d Sending.empty 0 ops) s row := by
  refine ⟨fun s w act d row => leaves, fun s now locked limit row hrow => ?_, fun row => ?_, fun t ops ha => ?_,
    fun d t ops ha => ?_⟩
  · obtain ⟨-, halive, -⟩ := mem_due hrow
    exact ⟨halive, by simp [DeliveryRow.listed, halive]⟩
  · cases hdead : row.deadAt <;> simp [DeliveryRow.listed, hdead]
  · exact fun d row hr halive now hle => comes_due ops ha hr halive hle
  · have ho : Owned store.lib Sending.empty :=
      ⟨fun _ hr => (by cases hr), fun _ hr => (by cases hr), fun _ hr => (by cases hr)⟩
    exact fun row hr => (Paced.run hdl ops ho (.empty _ d) ha).bounded hr

end

/-- A paused run's delivery, which every receiver answers with a 500. -/
def refusedWork : List (Instant × SendAct) :=
  [(0, .route 0 (.create "t" "u" [.PAUSED] "service:app" "w" "s") rfl), (1, .route 1 (.op (.start smallStart false true)) rfl),
    (2, .route 2 (.op (.pause "t" "r" smallPause none)) rfl)] ++
    ([10, 100, 200, 400, 700, 1200, 2000] : List Instant).flatMap fun now =>
      [(now, .claim now [] 10), (now + 1, .settle 0 (.answered 500))]

theorem refusedWork_dead : ∃ d row, Bounded smallStore 3600 d 7 (Run.after (step smallStore 3600) Sending.empty refusedWork) row ∧
    row.deadAt = some 2000 := by
  have hs : (Run.after (step smallStore 3600) Sending.empty refusedWork).service.deliveries.rows.any (fun row =>
      row.deadAt = some 2000 ∧ tried smallStore 3600 row.deliveryId Sending.empty 0 refusedWork = 7 ∧
        Run.Admitted (step smallStore 3600) (Prompt row.deliveryId) 0 Sending.empty refusedWork) = true := by
    decide +kernel
  obtain ⟨row, hrow, h⟩ := List.any_eq_true.1 hs
  obtain ⟨hdead, htried, ha⟩ := of_decide_eq_true h
  have hkept := (deliveries_kept smallStore 3600 (spelled_injective "dlv_")).2.2.2.2 row.deliveryId 0 refusedWork ha
    row (Table.find?_of_mem hrow)
  exact ⟨row.deliveryId, row, htried ▸ hkept, hdead⟩

end Sending

end AgentRuns
