import AgentRuns.Deliveries

/-!
# Calls that are sent again

`sdk/.../_transport.py`: `Transport.send` sends a call again when it failed on the way, whatever the call
is, and cannot tell a call that never arrived from one whose answer was lost.  What that does to the
webhook routes: a call the server ran more than once leaves what it leaves when run once

* always, for a delete and a redelivery (`again_quiet`);
* for a subscription, exactly if the tenant has no room for another one;
* for a rotation, exactly if there is no such subscription to rotate.
-/

namespace AgentRuns

open Relational Fallible

/-! ## Answers -/

/-- The `status_code` of an error. -/
def ServiceError.status (error : ServiceError) : Nat :=
  match error.code with
  | .VALIDATION => 422
  | .AUTHORIZATION => 403
  | .NOT_FOUND => 404
  | .CONFLICT => 409
  | .LEASE_LOST => 409
  | .PAYLOAD_TOO_LARGE => 413
  | .INTERNAL => 500

/-- `RETRY_STATUSES`. -/
def retryStatuses : List Nat := [429, 502, 503, 504]

/-- `_again`, of an answer's status and of what its problem says under `retryable`. -/
def again (status : Nat) (retryable : Option Bool) : Bool :=
  retryStatuses.contains status && retryable.getD (retryStatuses.contains status)

theorem ServiceError.not_again (error : ServiceError) (retryable : Option Bool) : again error.status retryable = false := by
  unfold again
  rw [show retryStatuses.contains error.status = false by unfold status; cases error.code <;> rfl, Bool.false_and]

/-! ## The webhook routes that write -/

/-- What a service mints and reads for one run of a call. -/
structure Minted where
  now : Instant
  webhookId : String
  secret : String

inductive WebhookWrite where
  | create (tenantId url : String) (events : List WebhookEvent) (createdBy : String)
  | rotateSecret (tenantId webhookId : String) (overlap : Rat)
  | delete (tenantId webhookId : String)
  | redeliver (tenantId deliveryId : String)

namespace WebhookWrite

/-- The route's transaction. -/
def run (write : WebhookWrite) (s : Service) (minted : Minted) : Except ServiceError Service :=
  match write with
  | create tenantId url events createdBy =>
    s.create tenantId url events createdBy minted.webhookId minted.secret minted.now
  | rotateSecret tenantId webhookId overlap => s.rotateSecret tenantId webhookId minted.secret overlap minted.now
  | delete tenantId webhookId => s.delete tenantId webhookId
  | redeliver tenantId deliveryId => s.redeliver tenantId deliveryId minted.now

/-- The service after one run; a refused one rolls back. -/
def after (write : WebhookWrite) (s : Service) (minted : Minted) : Service :=
  match write.run s minted with
  | .error _ => s
  | .ok s' => s'

end WebhookWrite

/-! ## The transport -/

namespace Transport

/-- What comes back of a call the service ran: its own answer, none that can be read (a transport error, or
another of `httpx.HTTPError`), or the answer of something on the way. -/
inductive Reply where
  | own
  | lost
  | broken
  | replaced (status : Nat) (retryable : Option Bool)

/-- What becomes of one attempt: it never arrives, is turned away before the service runs it, or is run. -/
inductive Trip where
  | unsent
  | turnedAway (status : Nat) (retryable : Option Bool)
  | ran (minted : Minted) (reply : Reply)

/-- How a call ends for its caller, or that it is still under way. -/
inductive Ending where
  | returned
  | raised
  | waiting

/-- The service, and what it minted for each run of the call. -/
structure Server where
  service : Service
  runs : List Minted

/-- One attempt: what the service makes of it, and how it ends the call, unless it is worth another one. -/
def attempt (write : WebhookWrite) (trip : Trip) (server : Server) : Server × Option Ending :=
  let failing (status : Nat) (retryable : Option Bool) : Option Ending :=
    if again status retryable then none else some .raised
  match trip with
  | .unsent => (server, none)
  | .turnedAway status retryable => (server, failing status retryable)
  | .ran minted reply =>
    (⟨write.after server.service minted, server.runs ++ [minted]⟩,
      match reply with
      | .own =>
        match write.run server.service minted with
        | .ok _ => some .returned
        | .error error => failing error.status none
      | .lost => none
      | .broken => some .raised
      | .replaced status retryable => if 400 ≤ status then failing status retryable else some .returned)

/-- `send`: attempts until one settles the call, at most `left` of them after this one. -/
def send (write : WebhookWrite) : Nat → List Trip → Server → Server × Ending
  | _, [], server => (server, .waiting)
  | left, trip :: trips, server =>
    match attempt write trip server with
    | (server', some ending) => (server', ending)
    | (server', none) =>
      match left with
      | 0 => (server', .raised)
      | left + 1 => send write left trips server'

variable {write : WebhookWrite} {s : Service}

theorem attempt_service (trip : Trip) (server : Server) (h : server.service = server.runs.foldl write.after s) :
    (attempt write trip server).1.service = (attempt write trip server).1.runs.foldl write.after s := by
  cases trip with
  | unsent => exact h
  | turnedAway => exact h
  | ran minted reply =>
    show write.after server.service minted = (server.runs ++ [minted]).foldl write.after s
    rw [List.foldl_append, ← h]
    rfl

/-- The service is left as the runs of the call leave it, one after another. -/
theorem send_service (trips : List Trip) : ∀ (left : Nat) (server : Server),
    server.service = server.runs.foldl write.after s →
      (send write left trips server).1.service = (send write left trips server).1.runs.foldl write.after s := by
  induction trips with
  | nil =>
    intro left server h
    unfold send
    exact h
  | cons trip trips ih =>
    intro left server h
    have hattempt := attempt_service trip server h
    unfold send
    cases ha : attempt write trip server with
    | mk server' ending =>
      rw [ha] at hattempt
      cases ending with
      | some ending => exact hattempt
      | none =>
        cases left with
        | zero => exact hattempt
        | succ left => exact ih left server' hattempt

end Transport

/-! ## What a second run does -/

namespace Service

variable {s s' : Service} {tenantId webhookId deliveryId url createdBy secret : String} {events : List WebhookEvent}
  {now : Instant}

theorem create_full (h : maxWebhooksPerTenant ≤ s.webhooks.rows.countP (·.tenantId = tenantId)) :
    s.create tenantId url events createdBy webhookId secret now =
      .error (.conflict s!"a tenant has at most {maxWebhooksPerTenant} webhook subscriptions") := by
  unfold create
  rw [refuse_of _ h, error_bind]

/-- The subscription a create writes. -/
def created (tenantId url : String) (events : List WebhookEvent) (createdBy webhookId secret : String)
    (now : Instant) : WebhookRow :=
  ⟨webhookId, tenantId, url, events, secret, none, none, createdBy, now⟩

theorem create_room (h : ¬ maxWebhooksPerTenant ≤ s.webhooks.rows.countP (·.tenantId = tenantId))
    (hnew : s.webhooks.find? webhookId = none) :
    s.create tenantId url events createdBy webhookId secret now = .ok { s with
      webhooks := s.webhooks.insert (created tenantId url events createdBy webhookId secret now) } := by
  unfold create
  rw [refuse_of_not _ h, ok_bind, hnew, refuse_of_not _ (by simp), ok_bind]
  rfl

theorem create_taken (h : ¬ maxWebhooksPerTenant ≤ s.webhooks.rows.countP (·.tenantId = tenantId))
    (htaken : (s.webhooks.find? webhookId).isSome = true) :
    s.create tenantId url events createdBy webhookId secret now =
      .error (.internal "duplicate key value violates unique constraint") := by
  unfold create
  rw [refuse_of_not _ h, ok_bind, refuse_of _ htaken, error_bind]

theorem subscription_none (h : (s.webhooks.find? webhookId).filter (·.tenantId = tenantId) = none) :
    s.subscription tenantId webhookId = .error (.notFound s!"no webhook {webhookId}") := by
  unfold subscription
  rw [h]

theorem subscription_error {error : ServiceError} (h : s.subscription tenantId webhookId = .error error) :
    (s.webhooks.find? webhookId).filter (·.tenantId = tenantId) = none := by
  unfold subscription at h
  split at h
  · next hnone => exact hnone
  · cases h

end Service

namespace WebhookWrite

variable {write : WebhookWrite} {s s' : Service} {minted : Minted}

theorem after_ok (h : write.run s minted = .ok s') : write.after s minted = s' := by
  unfold after
  rw [h]

theorem after_error {error : ServiceError} (h : write.run s minted = .error error) : write.after s minted = s := by
  unfold after
  rw [h]

/-- What the service mints is new: an id no subscription has, a secret none was given. -/
structure Fresh (s : Service) (runs : List Minted) : Prop where
  newIds : ∀ minted ∈ runs, s.webhooks.find? minted.webhookId = none
  distinct : (runs.map (·.webhookId)).Nodup
  newSecrets : ∀ minted ∈ runs, ∀ hook ∈ s.webhooks.rows, hook.secret ≠ minted.secret

/-- When a second run of a call changes nothing: a subscription leaves no room for another, and a rotation finds
no subscription. -/
def Repeatable (s : Service) : WebhookWrite → Prop
  | create tenantId _ _ _ => maxWebhooksPerTenant ≤ s.webhooks.rows.countP (·.tenantId = tenantId) + 1
  | rotateSecret tenantId webhookId _ => (s.webhooks.find? webhookId).filter (·.tenantId = tenantId) = none
  | delete .. => True
  | redeliver .. => True

instance (s : Service) : DecidablePred (Repeatable s) := fun write => by
  cases write <;> unfold Repeatable <;> infer_instance

/-- Every run of the call is refused. -/
def Spent (write : WebhookWrite) (s : Service) : Prop := ∀ minted, ∃ error, write.run s minted = .error error

theorem foldl_spent (h : write.Spent s) (runs : List Minted) : runs.foldl write.after s = s := by
  induction runs with
  | nil => rfl
  | cons minted runs ih =>
    obtain ⟨error, he⟩ := h minted
    rw [List.foldl_cons, after_error he, ih]

section
variable {tenantId url createdBy : String} {events : List WebhookEvent}

theorem create_after_full (h : maxWebhooksPerTenant ≤ s.webhooks.rows.countP (·.tenantId = tenantId)) :
    (create tenantId url events createdBy).after s minted = s :=
  after_error (show (create tenantId url events createdBy).run s minted = _ from Service.create_full h)

theorem create_after_room (h : ¬ maxWebhooksPerTenant ≤ s.webhooks.rows.countP (·.tenantId = tenantId))
    (hnew : s.webhooks.find? minted.webhookId = none) :
    ((create tenantId url events createdBy).after s minted).webhooks.rows =
      s.webhooks.rows ++ [Service.created tenantId url events createdBy minted.webhookId minted.secret minted.now] := by
  rw [after_ok (show (create tenantId url events createdBy).run s minted = _ from Service.create_room h hnew)]
  exact Table.rows_insert hnew

theorem create_counts (h : ¬ maxWebhooksPerTenant ≤ s.webhooks.rows.countP (·.tenantId = tenantId))
    (hnew : s.webhooks.find? minted.webhookId = none) :
    ((create tenantId url events createdBy).after s minted).webhooks.rows.countP (·.tenantId = tenantId) =
      s.webhooks.rows.countP (·.tenantId = tenantId) + 1 := by
  rw [create_after_room h hnew, List.countP_append, List.countP_singleton]
  simp [Service.created]

theorem create_other {webhookId : String} (hne : minted.webhookId ≠ webhookId) :
    ((create tenantId url events createdBy).after s minted).webhooks.find? webhookId = s.webhooks.find? webhookId := by
  cases hrun : (create tenantId url events createdBy).run s minted with
  | error error => rw [after_error hrun]
  | ok s' =>
    rw [after_ok hrun]
    obtain ⟨-, -, hook, hid, -, hrows⟩ := Service.create_ok hrun
    rw [hrows, Table.find?_insert_of_ne (hid ▸ hne)]

theorem create_grows :
    s.webhooks.rows.length ≤ ((create tenantId url events createdBy).after s minted).webhooks.rows.length := by
  cases hrun : (create tenantId url events createdBy).run s minted with
  | error error => rw [after_error hrun]
  | ok s' =>
    rw [after_ok hrun]
    obtain ⟨-, -, hook, hid, hnew, hrows⟩ := Service.create_ok hrun
    rw [hrows, Table.rows_insert (by rw [hid, hnew]), List.length_append]
    exact Nat.le_add_right _ _

theorem creates_grow (runs : List Minted) : ∀ s : Service,
    s.webhooks.rows.length ≤ (runs.foldl (create tenantId url events createdBy).after s).webhooks.rows.length := by
  induction runs with
  | nil => exact fun s => le_refl _
  | cons minted runs ih => exact fun s => le_trans create_grows (ih _)

end

/-- A tenant with all its subscriptions is refused another. -/
theorem create_spent {tenantId url createdBy : String} {events : List WebhookEvent}
    (h : maxWebhooksPerTenant ≤ s.webhooks.rows.countP (·.tenantId = tenantId)) :
    (create tenantId url events createdBy).Spent s := by
  intro minted
  exact ⟨_, Service.create_full h⟩

theorem rotate_spent {tenantId webhookId : String} {overlap : Rat}
    (h : (s.webhooks.find? webhookId).filter (·.tenantId = tenantId) = none) :
    (rotateSecret tenantId webhookId overlap).Spent s := by
  intro minted
  show ∃ error, s.rotateSecret tenantId webhookId minted.secret overlap minted.now = .error error
  unfold Service.rotateSecret
  rw [Service.subscription_none h, error_bind]
  exact ⟨_, rfl⟩

theorem delete_spent {tenantId webhookId : String}
    (h : (s.webhooks.find? webhookId).filter (·.tenantId = tenantId) = none) : (delete tenantId webhookId).Spent s := by
  intro _
  show ∃ error, s.delete tenantId webhookId = .error error
  unfold Service.delete
  rw [Service.subscription_none h, error_bind]
  exact ⟨_, rfl⟩

/-- What is not there is not redelivered, and what is owed already is not either. -/
theorem redeliver_spent {tenantId deliveryId : String}
    (h : ∀ row, s.deliveries.find? deliveryId = some row → row.deadAt = none ∨
      (s.webhooks.find? row.webhookId).any (·.tenantId = tenantId) = false) :
    (redeliver tenantId deliveryId).Spent s := by
  intro minted
  unfold run Service.redeliver
  dsimp only
  split
  · exact ⟨_, rfl⟩
  · next row hrow =>
    obtain ⟨hfind, hmine⟩ := Option.filter_eq_some_iff.1 hrow
    rcases h row hfind with hdead | hother
    · rw [hdead]
      exact ⟨_, rfl⟩
    · rw [hother] at hmine
      cases hmine

/-- **The second run.**  After one run of a repeatable call, every other one is refused. -/
theorem spent_after (hrep : write.Repeatable s) (hnew : s.webhooks.find? minted.webhookId = none) :
    write.Spent (write.after s minted) := by
  cases write with
  | create tenantId url events createdBy =>
    by_cases hfull : maxWebhooksPerTenant ≤ s.webhooks.rows.countP (·.tenantId = tenantId)
    · rw [create_after_full hfull]
      exact create_spent hfull
    · apply create_spent
      rw [create_counts hfull hnew]
      exact hrep
  | rotateSecret tenantId webhookId overlap =>
    have hspent : (rotateSecret tenantId webhookId overlap).Spent s := rotate_spent hrep
    obtain ⟨error, herror⟩ := hspent minted
    rw [after_error herror]
    exact hspent
  | delete tenantId webhookId =>
    cases hrun : (delete tenantId webhookId).run s minted with
    | error error =>
      rw [after_error hrun]
      cases hsub : s.subscription tenantId webhookId with
      | error _ => exact delete_spent (Service.subscription_error hsub)
      | ok hook =>
        have hdelete : s.delete tenantId webhookId = .error error := hrun
        unfold Service.delete at hdelete
        rw [hsub] at hdelete
        cases hdelete
    | ok s' =>
      rw [after_ok hrun]
      apply delete_spent
      obtain ⟨-, hhooks, -⟩ := Service.delete_ok hrun
      rw [hhooks, Table.find?_erase_self, Option.filter_none]
  | redeliver tenantId deliveryId =>
    cases hrun : (redeliver tenantId deliveryId).run s minted with
    | error error =>
      rw [after_error hrun]
      apply redeliver_spent
      intro row hrow
      have hredeliver : s.redeliver tenantId deliveryId minted.now = .error error := hrun
      unfold Service.redeliver at hredeliver
      rw [hrow] at hredeliver
      cases hmine : (s.webhooks.find? row.webhookId).any (·.tenantId = tenantId) with
      | false => exact Or.inr rfl
      | true =>
        cases hdead : row.deadAt with
        | none => exact Or.inl rfl
        | some dead =>
          simp [Option.filter_some, hmine, hdead] at hredeliver
    | ok s' =>
      rw [after_ok hrun]
      apply redeliver_spent
      intro row hrow
      obtain ⟨-, -, old, hold, -, hrows⟩ := Service.redeliver_row hrun
      rw [hrows, Table.find?_put, hold] at hrow
      simp only [Table.key_of_find? hold, if_true, Option.map_some, Option.some.injEq] at hrow
      rw [← hrow]
      exact Or.inl rfl

/-- A repeatable call, run again and again, leaves what its first run left. -/
theorem foldl_repeatable {rest : List Minted} (hrep : write.Repeatable s)
    (hnew : s.webhooks.find? minted.webhookId = none) :
    (minted :: rest).foldl write.after s = write.after s minted :=
  foldl_spent (spent_after hrep hnew) rest

/-! ### A call that does it again -/

/-- A service up to the secrets its subscriptions were given last. -/
def unsigned (s : Service) : Service :=
  { s with webhooks := s.webhooks.modify (fun hook => { hook with secret := "" }) fun _ => rfl }

theorem unsigned_length {t : Service} (h : unsigned s = unsigned t) :
    s.webhooks.rows.length = t.webhooks.rows.length := by
  have hrows := congrArg (·.webhooks.rows.length) h
  simpa [unsigned, Table.modify] using hrows

theorem unsigned_find {t : Service} {hook : WebhookRow} {webhookId : String} (h : unsigned s = unsigned t)
    (hs : s.webhooks.find? webhookId = some hook) :
    ∃ hook', t.webhooks.find? webhookId = some hook' ∧ { hook' with secret := "" } = { hook with secret := "" } := by
  obtain ⟨hm, rfl⟩ := Table.find?_eq_some.1 hs
  have hin : { hook with secret := "" } ∈ (unsigned t).webhooks.rows := h ▸ List.mem_map_of_mem hm
  obtain ⟨hook', hm', he⟩ := List.mem_map.1 hin
  have hid : hook'.webhookId = hook.webhookId := by simpa using congrArg (·.webhookId) he
  exact ⟨hook', Table.find?_eq_some.2 ⟨hm', hid⟩, he⟩

/-- With room for two, a subscription made twice is two subscriptions. -/
theorem created_again {tenantId url createdBy : String} {events : List WebhookEvent} {first second : Minted}
    {rest : List Minted} (hroom : ¬ (create tenantId url events createdBy).Repeatable s)
    (hfresh : Fresh s (first :: second :: rest)) :
    unsigned ((first :: second :: rest).foldl (create tenantId url events createdBy).after s) ≠
      unsigned ((create tenantId url events createdBy).after s first) := by
  intro h
  have hfirst := hfresh.newIds first List.mem_cons_self
  have hsecond := hfresh.newIds second (List.mem_cons_of_mem _ List.mem_cons_self)
  have hne : first.webhookId ≠ second.webhookId := by
    have := hfresh.distinct
    simp only [List.map_cons, List.nodup_cons, List.mem_cons, not_or] at this
    exact this.1.1
  have hfew : ¬ maxWebhooksPerTenant ≤ s.webhooks.rows.countP (·.tenantId = tenantId) + 1 := hroom
  have hnone : ¬ maxWebhooksPerTenant ≤ s.webhooks.rows.countP (·.tenantId = tenantId) := by omega
  have hcount : ((create tenantId url events createdBy).after s first).webhooks.rows.countP (·.tenantId = tenantId) = _ :=
    create_counts hnone hfirst
  have hnew : ((create tenantId url events createdBy).after s first).webhooks.find? second.webhookId = none :=
    (create_other hne).trans hsecond
  have htwo : ((create tenantId url events createdBy).after
      ((create tenantId url events createdBy).after s first) second).webhooks.rows.length =
      ((create tenantId url events createdBy).after s first).webhooks.rows.length + 1 := by
    rw [create_after_room (by rw [hcount]; exact hfew) hnew, List.length_append]
    rfl
  have hgrow : _ ≤ ((first :: second :: rest).foldl (create tenantId url events createdBy).after s).webhooks.rows.length :=
    creates_grow rest _
  have hlength := unsigned_length h
  omega

/-! ### Rotations -/

section
variable {tenantId webhookId : String} {overlap : Rat}

theorem rotate_after (overlap : Rat) (minted : Minted) {hook : WebhookRow}
    (h : (s.webhooks.find? webhookId).filter (·.tenantId = tenantId) = some hook) :
    (((rotateSecret tenantId webhookId overlap).after s minted).webhooks.find? webhookId).filter (·.tenantId = tenantId) =
      some { hook with
        previousSecret := some hook.secret
        secret := minted.secret
        previousSecretExpiresAt := some (minted.now + overlap) } := by
  obtain ⟨hfind, htenant⟩ := Option.filter_eq_some_iff.1 h
  have hsub : s.subscription tenantId webhookId = .ok hook := by
    unfold Service.subscription
    rw [h]
  have hrun : (rotateSecret tenantId webhookId overlap).run s minted = .ok { s with
      webhooks := s.webhooks.put { hook with
        previousSecret := some hook.secret
        secret := minted.secret
        previousSecretExpiresAt := some (minted.now + overlap) } } := by
    show s.rotateSecret tenantId webhookId minted.secret overlap minted.now = _
    unfold Service.rotateSecret
    rw [hsub]
    rfl
  rw [after_ok hrun]
  dsimp only
  rw [Table.find?_put, hfind]
  simp only [Table.key_of_find? hfind, if_true, Option.map_some]
  exact Option.filter_some_pos htenant

/-- After rotations, the secret in use is one of theirs. -/
theorem rotations_secret (overlap : Rat) {hook : WebhookRow} (runs : List Minted) : ∀ (s : Service) (first : Minted),
    (s.webhooks.find? webhookId).filter (·.tenantId = tenantId) = some hook →
      ∃ last ∈ first :: runs, ∃ hook', (((first :: runs).foldl (rotateSecret tenantId webhookId overlap).after s).webhooks.find?
        webhookId).filter (·.tenantId = tenantId) = some hook' ∧ hook'.secret = last.secret := by
  induction runs generalizing hook with
  | nil =>
    intro s first h
    exact ⟨first, List.mem_cons_self, _, rotate_after overlap first h, rfl⟩
  | cons second runs ih =>
    intro s first h
    obtain ⟨last, hlast, hook', hfound, hsecret⟩ := ih _ second (rotate_after overlap first h)
    exact ⟨last, List.mem_cons_of_mem _ hlast, hook', hfound, hsecret⟩

/-- A secret rotated twice is not the secret that signed before. -/
theorem rotated_again {first second : Minted} {rest : List Minted}
    (hthere : ¬ (rotateSecret tenantId webhookId overlap).Repeatable s) (hfresh : Fresh s (first :: second :: rest)) :
    unsigned ((first :: second :: rest).foldl (rotateSecret tenantId webhookId overlap).after s) ≠
      unsigned ((rotateSecret tenantId webhookId overlap).after s first) := by
  intro h
  cases hhook : (s.webhooks.find? webhookId).filter (·.tenantId = tenantId) with
  | none => exact hthere hhook
  | some hook =>
    -- the last run replaces a secret that a run before it minted
    obtain ⟨init, last, hinit⟩ : ∃ init last, second :: rest = init ++ [last] :=
      ⟨_, _, (List.dropLast_append_getLast (List.cons_ne_nil second rest)).symm⟩
    obtain ⟨before, hbefore, hook', hfound, hsecret⟩ := rotations_secret overlap init s first hhook
    have hlast := rotate_after overlap last hfound
    rw [hinit, ← List.cons_append, List.foldl_append] at h
    obtain ⟨once, honce, hsame⟩ := unsigned_find h (Option.filter_eq_some_iff.1 hlast).1
    have hfirst := (Option.filter_eq_some_iff.1 (rotate_after overlap first hhook)).1
    rw [hfirst] at honce
    cases honce
    have hprevious : hook.secret = hook'.secret := by
      simpa using congrArg (·.previousSecret) hsame
    have hmem : before ∈ first :: second :: rest := by
      rw [hinit]
      rcases List.mem_cons.1 hbefore with rfl | hm
      · exact List.mem_cons_self
      · exact List.mem_cons_of_mem _ (List.mem_append_left _ hm)
    exact hfresh.newSecrets before hmem hook (Table.mem_of_find? (Option.filter_eq_some_iff.1 hhook).1)
      (hprevious.trans hsecret)

end

end WebhookWrite

/-! ## Resending -/

/-- **A call sent again.**  However the attempts of a call went, of which the service ran more than one, they leave
what one run leaves, up to the secret returned, exactly if the call is a delete, a redelivery, a subscription with no
room for a second one, or a rotation of a subscription that is not there. -/
theorem resending_safe_iff (write : WebhookWrite) (maxRetries : Nat) (trips : List Transport.Trip) (s : Service)
    {first : Minted} {rest : List Minted}
    (hruns : (Transport.send write maxRetries trips ⟨s, []⟩).1.runs = first :: rest) (hagain : rest ≠ [])
    (hfresh : WebhookWrite.Fresh s (first :: rest)) :
    WebhookWrite.unsigned (Transport.send write maxRetries trips ⟨s, []⟩).1.service =
      WebhookWrite.unsigned (write.after s first) ↔ write.Repeatable s := by
  rw [Transport.send_service trips maxRetries ⟨s, []⟩ rfl, hruns]
  constructor
  · obtain ⟨second, rest, rfl⟩ := List.exists_cons_of_ne_nil hagain
    intro h
    by_contra hrep
    cases write with
    | create => exact WebhookWrite.created_again hrep hfresh h
    | rotateSecret => exact WebhookWrite.rotated_again hrep hfresh h
    | delete => exact hrep trivial
    | redeliver => exact hrep trivial
  · intro hrep
    rw [WebhookWrite.foldl_repeatable hrep (hfresh.newIds first List.mem_cons_self)]

/-- A service with one subscription. -/
def oneSubscription : Service :=
  { Service.empty with
    webhooks := Table.empty.insert
      (Service.created "acme" "https://acme.test/hook" [.FINISHED] "key-1" "wh_1" "whsec_a" 0) }

/-- Two runs of a call, the answer of the first one lost. -/
def answerLost : List Transport.Trip := [.ran ⟨1, "wh_2", "whsec_b"⟩ .lost, .ran ⟨2, "wh_3", "whsec_c"⟩ .own]

theorem answerLost_fresh : WebhookWrite.Fresh oneSubscription [⟨1, "wh_2", "whsec_b"⟩, ⟨2, "wh_3", "whsec_c"⟩] where
  newIds := by decide +kernel
  distinct := by decide
  newSecrets := by decide +kernel

/-- A rotation sent again. -/
theorem rotation_resent :
    ¬ WebhookWrite.unsigned (Transport.send (.rotateSecret "acme" "wh_1" 86400) 3 answerLost ⟨oneSubscription, []⟩).1.service =
      WebhookWrite.unsigned ((WebhookWrite.rotateSecret "acme" "wh_1" 86400).after oneSubscription ⟨1, "wh_2", "whsec_b"⟩) :=
  fun h => absurd
    ((resending_safe_iff (.rotateSecret "acme" "wh_1" 86400) 3 answerLost oneSubscription rfl (by decide)
      answerLost_fresh).1 h) (by decide +kernel)

/-- A subscription whose answer is lost is made twice. -/
theorem subscription_made_twice :
    ¬ ∀ (write : WebhookWrite) (maxRetries : Nat) (trips : List Transport.Trip) (s : Service) (first : Minted)
      (rest : List Minted), (Transport.send write maxRetries trips ⟨s, []⟩).1.runs = first :: rest → rest ≠ [] →
      WebhookWrite.Fresh s (first :: rest) →
      WebhookWrite.unsigned (Transport.send write maxRetries trips ⟨s, []⟩).1.service =
        WebhookWrite.unsigned (write.after s first) := by
  intro h
  have hsame := h (.create "acme" "https://acme.test/hook" [.FINISHED] "key-1") 3 answerLost oneSubscription
    ⟨1, "wh_2", "whsec_b"⟩ [⟨2, "wh_3", "whsec_c"⟩] rfl (by decide) answerLost_fresh
  exact absurd (WebhookWrite.unsigned_length hsame) (by decide +kernel)

end AgentRuns
