import AgentRuns.Resending

/-!
# The subscription cap, creates side by side

`WebhookStore.create` counts its tenant's subscriptions, adds one, and its route commits (READ COMMITTED).  A
statement reads what is committed, and the count locks nothing, so what other creates have added or are about to
add is not in it.  `Capping.step` is one statement of one of these transactions:

    count       `SELECT count(*)`, and the check of it
    insert      the flush; an id that is being inserted makes it wait
    erase       `DELETE … RETURNING`; a row that is being deleted makes it wait
    commit
    rollback    an error, a client or a process that goes away

    the cap holds in every state, where every count that passes leaves room for all who passed before it     (cap_kept)
-/

namespace AgentRuns

open Relational Fallible Timed

/-! ## The system -/

/-- How far a create or a delete is. -/
inductive HookWork where
  | creating (row : WebhookRow)
  /-- it found room -/
  | counted (row : WebhookRow)
  | inserted (row : WebhookRow)
  | deleting (tenantId webhookId : String)
  | deleted (tenantId webhookId : String)
  | ended (refused : Option ServiceError)
  | lost

namespace HookWork

/-- It will add a subscription of this tenant, if it commits. -/
def adds (tenantId : String) : HookWork → Bool
  | counted row => row.tenantId = tenantId
  | inserted row => row.tenantId = tenantId
  | _ => false

/-- It has written a row with this id, that is not committed yet. -/
def writes (webhookId : String) : HookWork → Bool
  | inserted row => row.webhookId = webhookId
  | _ => false

/-- It has locked the row with this id to delete it. -/
def takes (webhookId : String) : HookWork → Bool
  | deleted _ id => id = webhookId
  | _ => false

end HookWork

structure Capping where
  service : Service
  txs : List HookWork

inductive CappingAct where
  | create (tenantId url : String) (events : List WebhookEvent) (createdBy webhookId secret : String)
  | delete (tenantId webhookId : String)
  | count (i : Nat)
  | insert (i : Nat)
  | erase (i : Nat)
  | commit (i : Nat)
  | rollback (i : Nat)

namespace Capping

/-- The subscriptions a tenant has. -/
def subscribed (s : Capping) (tenantId : String) : Nat := s.service.webhooks.rows.countP (·.tenantId = tenantId)

/-- Those that creates past their count may still add. -/
def pending (s : Capping) (tenantId : String) : Nat := s.txs.countP (HookWork.adds tenantId)

def set (s : Capping) (i : Nat) (work : HookWork) : Capping := { s with txs := s.txs.set i work }

def tooManyWebhooks : ServiceError :=
  .conflict s!"a tenant has at most {maxWebhooksPerTenant} webhook subscriptions"

def count (s : Capping) (i : Nat) : Capping :=
  match s.txs[i]? with
  | some (.creating row) =>
    s.set i (if maxWebhooksPerTenant ≤ s.subscribed row.tenantId then .ended (some tooManyWebhooks) else .counted row)
  | _ => s

def insert (s : Capping) (i : Nat) : Capping :=
  match s.txs[i]? with
  | some (.counted row) =>
    if s.txs.any (·.writes row.webhookId) then s
    else if (s.service.webhooks.find? row.webhookId).isSome then
      s.set i (.ended (some (.internal "duplicate key value violates unique constraint")))
    else s.set i (.inserted row)
  | _ => s

def erase (s : Capping) (i : Nat) : Capping :=
  match s.txs[i]? with
  | some (.deleting tenantId webhookId) =>
    if s.txs.any (·.takes webhookId) then s
    else
      match s.service.subscription tenantId webhookId with
      | .error error => s.set i (.ended (some error))
      | .ok _ => s.set i (.deleted tenantId webhookId)
  | _ => s

def commit (s : Capping) (i : Nat) : Capping :=
  match s.txs[i]? with
  | some (.inserted row) =>
    ⟨{ s.service with webhooks := s.service.webhooks.insert row }, s.txs.set i (.ended none)⟩
  | some (.deleted tenantId webhookId) =>
    match s.service.delete tenantId webhookId with
    | .error error => s.set i (.ended (some error))
    | .ok service => ⟨service, s.txs.set i (.ended none)⟩
  | _ => s

def rollback (s : Capping) (i : Nat) : Capping :=
  match s.txs[i]? with
  | some (.ended _) => s
  | some _ => s.set i .lost
  | none => s

def step (s : Capping) (now : Instant) : CappingAct → Capping
  | .create tenantId url events createdBy webhookId secret =>
    { s with txs := s.txs ++ [.creating (Service.created tenantId url events createdBy webhookId secret now)] }
  | .delete tenantId webhookId => { s with txs := s.txs ++ [.deleting tenantId webhookId] }
  | .count i => s.count i
  | .insert i => s.insert i
  | .erase i => s.erase i
  | .commit i => s.commit i
  | .rollback i => s.rollback i

/-! ## One by itself -/

/-- Nothing is under way. -/
def quiet (service : Service) : Capping := ⟨service, []⟩

/-- The statements of a create, nothing in between. -/
def create (service : Service) (row : WebhookRow) : Capping :=
  (((⟨service, [.creating row]⟩ : Capping).count 0).insert 0).commit 0

section
variable {service : Service} {tenantId url createdBy webhookId secret : String} {events : List WebhookEvent} {now : Instant}

/-- What a call by itself leaves. -/
def answered (service : Service) : Except ServiceError Service → Capping
  | .error error => ⟨service, [.ended (some error)]⟩
  | .ok service' => ⟨service', [.ended none]⟩

/-- A create by itself is `WebhookStore.create`. -/
theorem create_alone : create service (Service.created tenantId url events createdBy webhookId secret now) =
    answered service (service.create tenantId url events createdBy webhookId secret now) := by
  let row := Service.created tenantId url events createdBy webhookId secret now
  have hcount : (⟨service, [.creating row]⟩ : Capping).count 0 =
      ⟨service, [if maxWebhooksPerTenant ≤ service.webhooks.rows.countP (·.tenantId = tenantId)
        then .ended (some tooManyWebhooks) else .counted row]⟩ := rfl
  have hinsert : (⟨service, [.counted row]⟩ : Capping).insert 0 =
      if (service.webhooks.find? webhookId).isSome then
        ⟨service, [.ended (some (.internal "duplicate key value violates unique constraint"))]⟩
      else ⟨service, [.inserted row]⟩ := rfl
  show (((⟨service, [.creating row]⟩ : Capping).count 0).insert 0).commit 0 = _
  rw [hcount]
  by_cases hfull : maxWebhooksPerTenant ≤ service.webhooks.rows.countP (·.tenantId = tenantId)
  · rw [Service.create_full hfull, if_pos hfull]
    rfl
  · rw [if_neg hfull, hinsert]
    by_cases htaken : (service.webhooks.find? webhookId).isSome = true
    · rw [Service.create_taken hfull htaken, if_pos htaken]
      rfl
    · rw [Service.create_room hfull (by simpa using htaken), if_neg htaken]
      rfl

end

/-! ## The cap -/

/-- No tenant has more than `MAX_WEBHOOKS_PER_TENANT`. -/
def WithinCap (service : Service) : Prop :=
  ∀ tenantId, service.webhooks.rows.countP (·.tenantId = tenantId) ≤ maxWebhooksPerTenant

/-- What is about to count finds room for all the creates of its tenant that found some and have not ended, and for
one more, or is refused. -/
def LeavesRoom (s : Capping) : Option HookWork → Prop
  | some (.creating row) =>
    s.subscribed row.tenantId < maxWebhooksPerTenant →
      s.subscribed row.tenantId + s.pending row.tenantId < maxWebhooksPerTenant
  | _ => True

instance (s : Capping) : DecidablePred s.LeavesRoom
  | some (.creating row) =>
    inferInstanceAs (Decidable (s.subscribed row.tenantId < maxWebhooksPerTenant →
      s.subscribed row.tenantId + s.pending row.tenantId < maxWebhooksPerTenant))
  | none | some (.counted _) | some (.inserted _) | some (.deleting ..) | some (.deleted ..) | some (.ended _)
  | some .lost => isTrue trivial

/-- Every count leaves the room. -/
def Spacious (s : Capping) (_ : Instant) : CappingAct → Prop
  | .count i => s.LeavesRoom s.txs[i]?
  | _ => True

instance (s : Capping) (now : Instant) : DecidablePred (s.Spacious now)
  | .count i => inferInstanceAs (Decidable (s.LeavesRoom s.txs[i]?))
  | .create .. | .delete .. | .insert _ | .erase _ | .commit _ | .rollback _ => isTrue trivial

/-- There is room for all who may still add. -/
def Room (s : Capping) : Prop := ∀ tenantId, s.subscribed tenantId + s.pending tenantId ≤ maxWebhooksPerTenant

/-- One entry of a list is replaced. -/
theorem countP_set_add {α : Type} {p : α → Bool} {a b : α} : ∀ {l : List α} {i : Nat}, l[i]? = some a →
    (l.set i b).countP p + (if p a then 1 else 0) = l.countP p + (if p b then 1 else 0) := by
  intro l
  induction l with
  | nil => intro i h; simp at h
  | cons c l ih =>
    intro i h
    cases i with
    | zero =>
      have hc : c = a := by simpa using h
      subst hc
      rw [List.set_cons_zero, List.countP_cons, List.countP_cons]
      omega
    | succ i =>
      have := ih (i := i) (by simpa using h)
      rw [List.set_cons_succ, List.countP_cons, List.countP_cons]
      omega

section
variable {s : Capping} {i : Nat} {work work' : HookWork} {tenantId : String}

theorem pending_set (work' : HookWork) (tenantId : String) (h : s.txs[i]? = some work) :
    (s.set i work').pending tenantId + (if work.adds tenantId then 1 else 0) =
      s.pending tenantId + (if work'.adds tenantId then 1 else 0) := countP_set_add h

theorem subscribed_set : (s.set i work').subscribed tenantId = s.subscribed tenantId := rfl

/-- A transaction goes on with no more to add. -/
theorem Room.set (hr : s.Room) (h : s.txs[i]? = some work)
    (hadds : ∀ tenantId, work'.adds tenantId = true → work.adds tenantId = true) : (s.set i work').Room := by
  intro tenantId
  have hset := pending_set work' tenantId h
  have hroom := hr tenantId
  rw [subscribed_set]
  have hle := hadds tenantId
  by_cases hw : work'.adds tenantId = true
  · rw [if_pos hw, if_pos (hle hw)] at hset
    omega
  · rw [if_neg hw] at hset
    omega

/-- Or it goes away. -/
theorem Room.drop (hr : s.Room) (h : s.txs[i]? = some work) (hadds : ∀ tenantId, work'.adds tenantId = false) :
    (s.set i work').Room :=
  hr.set h fun tenantId ht => by rw [hadds] at ht; cases ht

theorem Room.count (hr : s.Room) (hs : s.LeavesRoom s.txs[i]?) : (s.count i).Room := by
  unfold Capping.count
  split
  · next row h =>
    split
    · exact hr.drop h fun _ => rfl
    · next hnot =>
      rw [h] at hs
      have hspace := hs (by omega)
      intro tenantId
      have hset := pending_set (.counted row) tenantId h
      have hroom := hr tenantId
      rw [subscribed_set]
      by_cases ht : row.tenantId = tenantId
      · subst ht
        simp only [HookWork.adds, decide_true, if_true] at hset
        simp only [Bool.false_eq_true, if_false] at hset
        omega
      · simp only [HookWork.adds, ht, decide_false, Bool.false_eq_true, if_false] at hset
        omega
  · exact hr

theorem Room.insert (hr : s.Room) : (s.insert i).Room := by
  unfold Capping.insert
  split
  · next row h =>
    split
    · exact hr
    · split
      · exact hr.drop h fun _ => rfl
      · exact hr.set h fun tenantId ht => ht
  · exact hr

theorem Room.erase (hr : s.Room) : (s.erase i).Room := by
  unfold Capping.erase
  split
  · next tenantId webhookId h =>
    split
    · exact hr
    · split
      · exact hr.drop h fun _ => rfl
      · exact hr.drop h fun _ => rfl
  · exact hr

/-- What was pending is there. -/
theorem Room.inserted {row : WebhookRow} (hr : s.Room) (h : s.txs[i]? = some (.inserted row)) :
    Room ⟨{ s.service with webhooks := s.service.webhooks.insert row }, s.txs.set i (.ended none)⟩ := by
  intro tenantId
  have hset := pending_set (.ended none) tenantId h
  have hroom := hr tenantId
  have hrows : (s.service.webhooks.insert row).rows.countP (·.tenantId = tenantId) ≤
      s.subscribed tenantId + (if row.tenantId = tenantId then 1 else 0) := by
    by_cases hnew : s.service.webhooks.find? row.webhookId = none
    · rw [Table.rows_insert hnew, List.countP_append, List.countP_singleton]
      show _ + _ ≤ _
      simp only [decide_eq_true_eq]
      exact Nat.le_refl _
    · have hmem : row.webhookId ∈ s.service.webhooks.rows.map WebhookRow.webhookId := by
        by_contra hnot
        exact hnew (Table.find?_eq_none.2 hnot)
      rw [Table.insert_of_mem hmem]
      exact Nat.le_add_right _ _
  show (s.service.webhooks.insert row).rows.countP (·.tenantId = tenantId) + (s.set i (.ended none)).pending tenantId ≤ _
  simp only [HookWork.adds, decide_eq_true_eq, Bool.false_eq_true, if_false] at hset
  by_cases ht : row.tenantId = tenantId
  · rw [if_pos ht] at hset hrows
    omega
  · rw [if_neg ht] at hset hrows
    omega

theorem delete_subscribed (tenantId : String) {tenantId' webhookId : String} {service : Service}
    (h : s.service.delete tenantId' webhookId = .ok service) :
    service.webhooks.rows.countP (·.tenantId = tenantId) ≤ s.subscribed tenantId := by
  obtain ⟨-, hhooks, -⟩ := Service.delete_ok h
  rw [hhooks]
  exact List.filter_sublist.countP_le

theorem Room.commit (hr : s.Room) : (s.commit i).Room := by
  unfold Capping.commit
  split
  · next row h => exact hr.inserted h
  · next tenantId' webhookId h =>
    split
    · exact hr.drop h fun _ => rfl
    · next service hd =>
      intro tenantId
      have hset : (s.set i (.ended none)).Room := hr.drop h fun _ => rfl
      exact (Nat.add_le_add_right (delete_subscribed tenantId hd) _).trans (hset tenantId)
  · exact hr

theorem Room.rollback (hr : s.Room) : (s.rollback i).Room := by
  unfold Capping.rollback
  split
  · exact hr
  · next work _ h => exact hr.drop h fun _ => rfl
  · exact hr

/-- A transaction begins: it found no room yet. -/
theorem Room.begin (hr : s.Room) (hadds : ∀ tenantId, work.adds tenantId = false) :
    Room { s with txs := s.txs ++ [work] } := by
  intro tenantId
  have hroom := hr tenantId
  show s.subscribed tenantId + (s.txs ++ [work]).countP (HookWork.adds tenantId) ≤ _
  rw [List.countP_append, List.countP_singleton, if_neg (by simp [hadds])]
  exact hroom

theorem Room.step {now : Instant} {act : CappingAct} (hr : s.Room) (hs : s.Spacious now act) : (s.step now act).Room := by
  cases act with
  | create tenantId url events createdBy webhookId secret => exact hr.begin fun _ => rfl
  | delete tenantId webhookId => exact hr.begin fun _ => rfl
  | count i => exact hr.count hs
  | insert i => exact hr.insert
  | erase i => exact hr.erase
  | commit i => exact hr.commit
  | rollback i => exact hr.rollback

theorem Room.withinCap (hr : s.Room) : WithinCap s.service := fun tenantId => (Nat.le_add_right _ _).trans (hr tenantId)

end

theorem room_quiet {service : Service} (h : WithinCap service) : (quiet service).Room := h

/-- Every state of a run, where each count that passes leaves the room. -/
theorem cap_kept {t t' : Instant} {service : Service} {s : Capping} (hcap : WithinCap service)
    (h : Run step Spacious t (quiet service) t' s) : WithinCap s.service :=
  (h.invariant' Room (fun _ _ _ hr hs => hr.step hs) (room_quiet hcap)).withinCap

/-! ## Two at once -/

/-- Creates of one tenant, one after another. -/
def inTurn (n : Nat) : List (Instant × CappingAct) :=
  (List.range n).flatMap fun i =>
    [(0, .create "t" "https://h" [] "p" (String.ofList (List.replicate i 'w')) "s"), (0, .count i), (0, .insert i), (0, .commit i)]

/-- Two creates that count before either adds. -/
def atOnce (i : Nat) : List (Instant × CappingAct) :=
  [ (0, .create "t" "https://h" [] "p" "a" "s"), (0, .create "t" "https://h" [] "p" "b" "s"), (0, .count i), (0, .count (i + 1)),
    (0, .insert i), (0, .commit i), (0, .insert (i + 1)), (0, .commit (i + 1)) ]

theorem cap_kept_in_turn : Run.Admitted step Spacious (0 : Instant) (quiet Service.empty) (inTurn 3) ∧
    WithinCap (Run.after step (quiet Service.empty) (inTurn 3)).service := by
  have hadm : Run.Admitted step Spacious (0 : Instant) (quiet Service.empty) (inTurn 3) := by decide +kernel
  exact ⟨hadm, cap_kept (fun _ => Nat.zero_le _) (Run.replay_ends hadm)⟩

/-- With one place left both find it. -/
theorem cap_exceeded : ¬ ∀ (t : Instant) (s : Capping), Run step anything 0 (quiet Service.empty) t s → WithinCap s.service := by
  intro h
  have hadm : Run.Admitted step (fun _ _ _ => True) (0 : Instant) (quiet Service.empty) (inTurn 19 ++ atOnce 19) := by
    decide +kernel
  have hcount : (Run.after step (quiet Service.empty) (inTurn 19 ++ atOnce 19)).subscribed "t" = 21 := by decide +kernel
  have hcap := h _ _ ((Run.replay_ends hadm).weaken fun _ _ _ _ => trivial) "t"
  exact absurd (hcount.symm.trans_le hcap) (by decide)

end Capping

end AgentRuns
