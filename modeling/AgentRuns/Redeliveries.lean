import AgentRuns.DeadLetters

/-!
# Redeliveries

A redelivery resets the row of a delivery while tickers may still hold attempts of it that they claimed before.
`Redelivery` is `Sending` watched at one delivery: its other fields are ghosts, which tell the attempts claimed
since the row was last redelivered from the earlier ones, and count them.

No settle changes the attempt count, which is the number of attempts claimed since.  Of these, only one that was
refused for good or the last of `WEBHOOK_ATTEMPTS` marks the delivery dead (`redelivery_full`).
-/

namespace AgentRuns

open Relational Fallible Timed Service

/-- The service and its tickers, watched at a delivery. -/
structure Redelivery where
  sending : Sending
  /-- of what the tickers hold, the first so many were claimed before -/
  earlier : Nat
  /-- how often it was claimed since -/
  claimed : Nat
  /-- and how many of these attempts were settled as failed -/
  failed : Nat

namespace Redelivery

/-- It is owed anew: its row was written, or redelivered. -/
def renewed (before after : Option DeliveryRow) : Bool :=
  match before, after with
  | none, some _ => true
  | some row, some row' => row.deadAt.isSome && row'.deadAt.isNone
  | _, none => false

/-- What is held of it that was claimed since. -/
def pending (r : Redelivery) (d : String) : Nat := (r.sending.held.drop r.earlier).countP (Sending.holds d)

/-- Right after a redelivery. -/
def start (s : Sending) (service : Service) : Redelivery := ⟨{ s with service := service }, s.held.length, 0, 0⟩

/-- An act, and what it counts for. -/
def step (store : RunStore) (retention : Rat) (d : String) (r : Redelivery) (w : Instant) (act : SendAct) : Redelivery :=
  let s' := r.sending.step store retention w act
  if renewed (r.sending.row? d) (s'.row? d) then ⟨s', s'.held.length, 0, 0⟩
  else
    match act with
    | .settle i sent =>
      let failed := r.earlier ≤ i && (r.sending.held[i]?).any (Sending.holds d) && !sent.accepted
      ⟨s', if i < r.earlier then r.earlier - 1 else r.earlier, r.claimed, if failed then r.failed + 1 else r.failed⟩
    | act => ⟨s', r.earlier, r.claimed + Sending.claims d r.sending act, r.failed⟩

/-- The counts agree with the row. -/
structure Inv (lib : Libraries) (d : String) (r : Redelivery) : Prop where
  owned : r.sending.Owned lib
  within : r.earlier ≤ r.sending.held.length
  counted : ∀ row, r.sending.row? d = some row → row.attempts = r.claimed ∧ r.claimed = r.failed + r.pending d
  numbered : ∀ row, r.sending.row? d = some row → ∀ h ∈ r.sending.held.drop r.earlier, h.delivery.deliveryId = d →
    h.delivery.attempts ≤ r.claimed

section
variable {store : RunStore} {retention : Rat} {r : Redelivery} {d : String} {w now : Instant} {act : SendAct}

theorem renewed_same (row : Option DeliveryRow) : renewed row row = false := by
  cases row with
  | none => rfl
  | some row => cases h : row.deadAt <;> simp [renewed, h]

/-- A settle of an earlier attempt leaves what was claimed since. -/
theorem drop_earlier {held : List HeldDelivery} {i n : Nat} (hi : i < n) :
    (held.eraseIdx i).drop (n - 1) = held.drop n := by
  refine List.ext_getElem? fun j => ?_
  rw [List.getElem?_drop, List.getElem?_drop, List.getElem?_eraseIdx_of_ge (by omega)]
  congr 1
  omega

/-- A settle of a later one takes it from there. -/
theorem drop_later {held : List HeldDelivery} {i n : Nat} (hi : n ≤ i) :
    (held.eraseIdx i).drop n = (held.drop n).eraseIdx (i - n) := by
  refine List.ext_getElem? fun j => ?_
  rw [List.getElem?_drop, List.getElem?_eraseIdx, List.getElem?_eraseIdx, List.getElem?_drop, List.getElem?_drop]
  by_cases hj : n + j < i
  · rw [if_pos hj, if_pos (by omega)]
  · rw [if_neg hj, if_neg (by omega), Nat.add_assoc]

theorem countP_eraseIdx {held : List HeldDelivery} {i : Nat} {h : HeldDelivery} (hheld : held[i]? = some h)
    (p : HeldDelivery → Bool) : held.countP p = (held.eraseIdx i).countP p + if p h then 1 else 0 := by
  obtain ⟨hi, he⟩ := List.getElem?_eq_some_iff.1 hheld
  conv => lhs; rw [← List.take_append_drop i held, List.drop_eq_getElem_cons hi, he]
  rw [List.eraseIdx_eq_take_drop_succ, List.countP_append, List.countP_append, List.countP_cons]
  omega

/-- An act the row is renewed by. -/
theorem step_renewed (h : renewed (r.sending.row? d) ((r.sending.step store retention w act).row? d) = true) :
    r.step store retention d w act =
      ⟨r.sending.step store retention w act, (r.sending.step store retention w act).held.length, 0, 0⟩ := by
  simp only [step, h, if_true]

theorem step_settle {i : Nat} {sent : Sent}
    (h : renewed (r.sending.row? d) ((r.sending.step store retention w (.settle i sent)).row? d) = false) :
    r.step store retention d w (.settle i sent) =
      ⟨r.sending.step store retention w (.settle i sent), if i < r.earlier then r.earlier - 1 else r.earlier, r.claimed,
        if r.earlier ≤ i && (r.sending.held[i]?).any (Sending.holds d) && !sent.accepted then r.failed + 1 else r.failed⟩ := by
  simp only [step, h, Bool.false_eq_true, if_false]

theorem step_other (hact : ∀ i sent, act ≠ .settle i sent)
    (h : renewed (r.sending.row? d) ((r.sending.step store retention w act).row? d) = false) :
    r.step store retention d w act =
      ⟨r.sending.step store retention w act, r.earlier, r.claimed + Sending.claims d r.sending act, r.failed⟩ := by
  cases act with
  | settle i sent => exact absurd rfl (hact i sent)
  | route | claim | dropDead => simp only [step, h, Bool.false_eq_true, if_false]

theorem step_sending (store : RunStore) (retention : Rat) (d : String) (r : Redelivery) (w : Instant) (act : SendAct) :
    (r.step store retention d w act).sending = r.sending.step store retention w act := by
  cases h : renewed (r.sending.row? d) ((r.sending.step store retention w act).row? d) with
  | true => rw [step_renewed h]
  | false =>
    by_cases hact : ∃ i sent, act = .settle i sent
    · obtain ⟨i, sent, rfl⟩ := hact
      rw [step_settle h]
    · rw [step_other (fun i sent he => hact ⟨i, sent, he⟩) h]

/-- A renewed row has every attempt ahead of it. -/
theorem Inv.renewed (hi : Inv store.lib d r)
    (h : renewed (r.sending.row? d) ((r.sending.step store retention w act).row? d) = true) :
    Inv store.lib d (r.step store retention d w act) := by
  have hattempts : ∀ row, (r.sending.step store retention w act).row? d = some row → row.attempts = 0 := by
    intro row hrow
    have hf := Sending.fate store retention r.sending w act d
    rw [hrow] at hf h
    generalize r.sending.row? d = before at hf h
    cases hf with
    | kept =>
      rw [renewed_same] at h
      cases h
    | written => rfl
    | redelivered => rfl
    | claimed alive => simp [Redelivery.renewed, alive] at h
    | @retried i sent held row => cases hd : row.deadAt <;> simp [Redelivery.renewed, hd] at h
    | died => simp [Redelivery.renewed] at h
  rw [step_renewed h]
  refine ⟨hi.owned.step (w := w), le_refl _, fun row hrow => ⟨hattempts row hrow, ?_⟩, fun row _ x hx => ?_⟩
  · show 0 = 0 + pending _ d
    simp [pending]
  · rw [List.drop_length] at hx
    cases hx

/-- The tickers hold more of it, by as much as its row counts. -/
theorem Inv.more (hi : Inv store.lib d r) (hact : ∀ i sent, act ≠ .settle i sent)
    (h : Redelivery.renewed (r.sending.row? d) ((r.sending.step store retention w act).row? d) = false)
    {new : List HeldDelivery} (hheld : (r.sending.step store retention w act).held = r.sending.held ++ new)
    (hclaims : Sending.claims d r.sending act = new.countP (Sending.holds d))
    (hrow : ∀ row', (r.sending.step store retention w act).row? d = some row' → ∃ row, r.sending.row? d = some row ∧
      row'.attempts = row.attempts + new.countP (Sending.holds d) ∧
        ∀ x ∈ new, x.delivery.deliveryId = d → x.delivery.attempts = row'.attempts) :
    Inv store.lib d (r.step store retention d w act) := by
  have hdrop : (r.sending.step store retention w act).held.drop r.earlier = r.sending.held.drop r.earlier ++ new := by
    rw [hheld, List.drop_append_of_le_length hi.within]
  rw [step_other hact h]
  refine ⟨hi.owned.step (w := w), ?_, fun row' hr' => ?_, fun row' hr' x hx hid => ?_⟩
  · show r.earlier ≤ (r.sending.step store retention w act).held.length
    rw [hheld, List.length_append]
    exact hi.within.trans (Nat.le_add_right _ _)
  · obtain ⟨row, hr, he, -⟩ := hrow row' hr'
    obtain ⟨hcount, hsum⟩ := hi.counted row hr
    show row'.attempts = r.claimed + Sending.claims d r.sending act ∧ r.claimed + Sending.claims d r.sending act =
      r.failed + ((r.sending.step store retention w act).held.drop r.earlier).countP (Sending.holds d)
    have hpending : r.claimed = r.failed + (r.sending.held.drop r.earlier).countP (Sending.holds d) := hsum
    rw [hdrop, List.countP_append, hclaims]
    omega
  · obtain ⟨row, hr, he, hnew⟩ := hrow row' hr'
    have hcount := (hi.counted row hr).1
    show x.delivery.attempts ≤ r.claimed + Sending.claims d r.sending act
    have hmem : x ∈ (r.sending.step store retention w act).held.drop r.earlier := hx
    rw [hdrop, List.mem_append] at hmem
    rcases hmem with hmem | hmem
    · have := hi.numbered row hr x hmem hid
      omega
    · have := hnew x hmem hid
      omega

/-- A claim of it is the next attempt. -/
theorem Inv.claim {locked : List String} {limit : Nat} (hi : Inv store.lib d r)
    (h : Redelivery.renewed (r.sending.row? d) ((r.sending.step store retention w (.claim now locked limit)).row? d) = false) :
    Inv store.lib d (r.step store retention d w (.claim now locked limit)) := by
  obtain ⟨hnone, hone⟩ := Sending.claimed_hand hi.owned.hooked now locked limit d
  refine hi.more (by rintro i sent he; cases he) h rfl rfl fun row' hr' => ?_
  rw [List.countP_eq_length_filter]
  have hmine : ∀ {x}, x ∈ r.sending.claimed now locked limit → x.delivery.deliveryId = d →
      x ∈ (r.sending.claimed now locked limit).filter (Sending.holds d) :=
    fun hx hid => List.mem_filter.2 ⟨hx, decide_eq_true hid⟩
  rcases @claimDue_row now r.sending.service locked limit d with ⟨he, hd⟩ | ⟨row, hdue, hrow, he⟩
  · refine ⟨row', he.symm.trans hr', ?_, fun x hx hid => ?_⟩
    · rw [hnone hd]
      rfl
    · have := hmine hx hid
      rw [hnone hd] at this
      cases this
  · obtain rfl := Option.some.inj (he.symm.trans hr')
    obtain ⟨x, -, hattempts, hx⟩ := hone row hdue (Table.key_of_find? hrow)
    refine ⟨row, hrow, ?_, fun y hy hid => ?_⟩
    · rw [hx]
      rfl
    · have := hmine hy hid
      rw [hx] at this
      rw [List.mem_singleton.1 this]
      exact hattempts

/-- A row a settle leaves keeps its count, and was not accepted. -/
theorem settle_kept {s : Sending} {i : Nat} {sent : Sent} {x : HeldDelivery} {row' : DeliveryRow} (hheld : s.held[i]? = some x)
    (hr' : (s.step store retention w (.settle i sent)).row? d = some row') :
    ∃ row, s.row? d = some row ∧ row'.attempts = row.attempts ∧ (x.delivery.deliveryId = d → sent.accepted = false) := by
  rw [Sending.step_settle hheld] at hr'
  have hfind := (settle_row s.service x.delivery sent.attempt x.now d).symm.trans hr'
  by_cases hd : x.delivery.deliveryId = d
  · rw [if_pos hd] at hfind
    obtain ⟨row, hrow, hfind⟩ := Option.bind_eq_some_iff.1 hfind
    rw [Sent.attempt_error] at hfind
    cases haccepted : sent.accepted with
    | true =>
      rw [haccepted, if_pos rfl] at hfind
      cases hfind
    | false =>
      rw [haccepted, if_neg (by simp)] at hfind
      refine ⟨row, hrow, ?_, fun _ => rfl⟩
      split at hfind
      · cases hfind
        rfl
      · cases hfind
        rfl
  · rw [if_neg hd] at hfind
    exact ⟨row', hfind, rfl, fun he => absurd he hd⟩

theorem held_settle {s : Sending} {i : Nat} {sent : Sent} {x : HeldDelivery} (hheld : s.held[i]? = some x) :
    (s.step store retention w (.settle i sent)).held = s.held.eraseIdx i := by
  rw [Sending.step_settle hheld]

/-- A settle takes an attempt off those that are held: one of before the redelivery is not counted. -/
theorem Inv.settle_earlier {i : Nat} {sent : Sent} {x : HeldDelivery} (hi : Inv store.lib d r)
    (h : Redelivery.renewed (r.sending.row? d) ((r.sending.step store retention w (.settle i sent)).row? d) = false)
    (hheld : r.sending.held[i]? = some x) (hlt : i < r.earlier) :
    Inv store.lib d (r.step store retention d w (.settle i sent)) := by
  have howned : (r.sending.step store retention w (.settle i sent)).Owned store.lib := hi.owned.step (w := w)
  have hkept : ∀ row', (r.sending.step store retention w (.settle i sent)).row? d = some row' →
      ∃ row, r.sending.row? d = some row ∧ row'.attempts = row.attempts ∧
        (x.delivery.deliveryId = d → sent.accepted = false) :=
    fun row' hr' => settle_kept hheld hr'
  have hlength := (List.getElem?_eq_some_iff.1 hheld).1
  have hdrop : (r.sending.step store retention w (.settle i sent)).held.drop (r.earlier - 1) =
      r.sending.held.drop r.earlier := by
    rw [held_settle hheld, drop_earlier hlt]
  rw [step_settle h, hheld, if_pos hlt, if_neg (by simp; omega)]
  refine ⟨howned, ?_, fun row' hr' => ?_, fun row' hr' => ?_⟩
  · show r.earlier - 1 ≤ (r.sending.step store retention w (.settle i sent)).held.length
    rw [held_settle hheld, List.length_eraseIdx_of_lt hlength]
    have := hi.within
    omega
  · obtain ⟨row, hr, he, -⟩ := hkept row' hr'
    obtain ⟨hcount, hsum⟩ := hi.counted row hr
    refine ⟨he.trans hcount, ?_⟩
    show r.claimed = r.failed +
      ((r.sending.step store retention w (.settle i sent)).held.drop (r.earlier - 1)).countP (Sending.holds d)
    rw [hdrop]
    exact hsum
  · obtain ⟨row, hr, -⟩ := hkept row' hr'
    show ∀ y ∈ (r.sending.step store retention w (.settle i sent)).held.drop (r.earlier - 1), _
    rw [hdrop]
    exact hi.numbered row hr

/-- One claimed since that failed is. -/
theorem Inv.settle_later {i : Nat} {sent : Sent} {x : HeldDelivery} (hi : Inv store.lib d r)
    (h : Redelivery.renewed (r.sending.row? d) ((r.sending.step store retention w (.settle i sent)).row? d) = false)
    (hheld : r.sending.held[i]? = some x) (hle : r.earlier ≤ i) :
    Inv store.lib d (r.step store retention d w (.settle i sent)) := by
  have howned : (r.sending.step store retention w (.settle i sent)).Owned store.lib := hi.owned.step (w := w)
  have hkept : ∀ row', (r.sending.step store retention w (.settle i sent)).row? d = some row' →
      ∃ row, r.sending.row? d = some row ∧ row'.attempts = row.attempts ∧
        (x.delivery.deliveryId = d → sent.accepted = false) :=
    fun row' hr' => settle_kept hheld hr'
  have hlength := (List.getElem?_eq_some_iff.1 hheld).1
  have hdrop : (r.sending.step store retention w (.settle i sent)).held.drop r.earlier =
      (r.sending.held.drop r.earlier).eraseIdx (i - r.earlier) := by
    rw [held_settle hheld, drop_later hle]
  have hat : (r.sending.held.drop r.earlier)[i - r.earlier]? = some x := by
    rw [List.getElem?_drop, ← hheld]
    congr 1
    omega
  rw [step_settle h, hheld, if_neg (by omega)]
  refine ⟨howned, ?_, fun row' hr' => ?_, fun row' hr' y hy hid => ?_⟩
  · show r.earlier ≤ (r.sending.step store retention w (.settle i sent)).held.length
    rw [held_settle hheld, List.length_eraseIdx_of_lt hlength]
    omega
  · obtain ⟨row, hr, he, hfailed⟩ := hkept row' hr'
    obtain ⟨hcount, hsum⟩ := hi.counted row hr
    have hpending : r.claimed = r.failed + (r.sending.held.drop r.earlier).countP (Sending.holds d) := hsum
    rw [countP_eraseIdx hat] at hpending
    refine ⟨he.trans hcount, ?_⟩
    show r.claimed = (if r.earlier ≤ i && (some x).any (Sending.holds d) && !sent.accepted then r.failed + 1 else r.failed) +
      ((r.sending.step store retention w (.settle i sent)).held.drop r.earlier).countP (Sending.holds d)
    rw [hdrop, hpending]
    by_cases hd : x.delivery.deliveryId = d
    · simp [Sending.holds, hd, hfailed hd, hle]
      omega
    · simp [Sending.holds, hd]
  · obtain ⟨row, hr, -⟩ := hkept row' hr'
    have hmem : y ∈ (r.sending.step store retention w (.settle i sent)).held.drop r.earlier := hy
    rw [hdrop] at hmem
    exact hi.numbered row hr y ((List.eraseIdx_sublist _ _).mem hmem) hid

theorem Inv.settle {i : Nat} {sent : Sent} (hi : Inv store.lib d r)
    (h : Redelivery.renewed (r.sending.row? d) ((r.sending.step store retention w (.settle i sent)).row? d) = false) :
    Inv store.lib d (r.step store retention d w (.settle i sent)) := by
  cases hheld : r.sending.held[i]? with
  | none =>
    -- nobody holds it
    have hle := List.getElem?_eq_none_iff.1 hheld
    have hwithin := hi.within
    rw [step_settle h, if_neg (by omega), hheld, Sending.step_settle_none hheld]
    simpa using hi
  | some x =>
    by_cases hlt : i < r.earlier
    · exact hi.settle_earlier h hheld hlt
    · exact hi.settle_later h hheld (Nat.le_of_not_lt hlt)

/-- **Step.** -/
theorem Inv.step (hi : Inv store.lib d r) : Inv store.lib d (r.step store retention d w act) := by
  cases h : Redelivery.renewed (r.sending.row? d) ((r.sending.step store retention w act).row? d) with
  | true => exact hi.renewed h
  | false =>
    have hf := Sending.fate store retention r.sending w act d
    cases act with
    | claim now locked limit => exact hi.claim h
    | settle i sent => exact hi.settle h
    | route now call ours =>
      refine @Inv.more _ _ _ _ _ _ hi (by rintro i sent he; cases he) h [] (List.append_nil _).symm rfl fun row' hr' => ?_
      rw [hr'] at hf h
      generalize hb : r.sending.row? d = before at hf h
      cases hf with
      | kept => exact ⟨row', rfl, rfl, fun x hx => by cases hx⟩
      | written => cases h
      | redelivered dead => simp [Redelivery.renewed, dead] at h
    | dropDead now locked limit =>
      refine @Inv.more _ _ _ _ _ _ hi (by rintro i sent he; cases he) h [] (List.append_nil _).symm rfl fun row' hr' => ?_
      rw [hr'] at hf
      generalize hb : r.sending.row? d = before at hf
      cases hf with
      | kept => exact ⟨row', rfl, rfl, fun x hx => by cases hx⟩

/-- **Run.** -/
theorem Inv.after (l : List (Instant × SendAct)) : ∀ {r : Redelivery}, Inv store.lib d r →
    Inv store.lib d (Run.after (Redelivery.step store retention d) r l) := by
  induction l with
  | nil => intro r hi; exact hi
  | cons x l ih =>
    intro r hi
    exact ih hi.step

/-- A redelivered row. -/
theorem redelivered_row {s service : Service} {tenantId : String} (h : s.redeliver tenantId d now = .ok service) :
    ∃ row, service.deliveries.find? d = some row ∧ row.deadAt = none ∧ row.attempts = 0 ∧ row.nextAttemptAt = now := by
  obtain ⟨-, -, row, hrow, -, hput⟩ := redeliver_row h
  have hkey : row.deliveryId = d := Table.key_of_find? hrow
  refine ⟨{ row with deadAt := none, attempts := 0, nextAttemptAt := now }, ?_, rfl, rfl, rfl⟩
  rw [hput]
  exact Table.find?_put_self hkey hrow

/-- A redelivery leaves the delivery owed, due now, with no attempt counted. -/
theorem Inv.start {s : Sending} {service : Service} {tenantId : String} (ho : s.Owned store.lib)
    (h : s.service.redeliver tenantId d now = .ok service) : Inv store.lib d (start s service) := by
  have howned : Sending.Owned store.lib { s with service := service } := by
    have hstep : s.step store 0 now (.route now (.redeliver tenantId d) rfl) = { s with service := service } := by
      simp only [Sending.step, Service.step, h]
      rfl
    rw [← hstep]
    exact ho.step
  obtain ⟨row, hrow, -, hattempts, -⟩ := redelivered_row h
  have hpending : (Redelivery.start s service).pending d = 0 := by
    show (s.held.drop s.held.length).countP _ = 0
    rw [List.drop_length]
    rfl
  refine ⟨howned, le_refl _, fun row' hr' => ⟨?_, ?_⟩, fun row' _ x hx => ?_⟩
  · obtain rfl := Option.some.inj (hrow.symm.trans hr')
    exact hattempts
  · rw [hpending]
    rfl
  · have hmem : x ∈ s.held.drop s.held.length := hx
    rw [List.drop_length] at hmem
    cases hmem

end

/-- What the redelivered delivery is left of its attempts. -/
structure Full (store : RunStore) (retention : Rat) (d : String) (r : Redelivery) : Prop where
  /-- the attempt count is that of the attempts claimed since: they failed, or are held -/
  counted : ∀ row, r.sending.row? d = some row → row.attempts = r.claimed ∧ r.claimed = r.failed + r.pending d
  /-- a settle leaves it -/
  untouched : ∀ w i sent row row', r.sending.row? d = some row →
    (r.sending.step store retention w (.settle i sent)).row? d = some row' → row'.attempts = row.attempts
  /-- one claimed since marks the delivery dead when it is refused for good, or is the last of its attempts -/
  killed : ∀ w act row row', r.sending.row? d = some row → row.deadAt = none →
    (r.sending.step store retention w act).row? d = some row' → row'.deadAt ≠ none →
      ∃ i sent x, act = .settle i sent ∧ r.sending.held[i]? = some x ∧ x.delivery.deliveryId = d ∧ sent.accepted = false ∧
        (r.earlier ≤ i → sent.attempt.retry = false ∨ webhookAttempts ≤ r.failed + r.pending d)

theorem Inv.full {store : RunStore} {retention : Rat} {d : String} {r : Redelivery} (hi : Inv store.lib d r) :
    Full store retention d r := by
  refine ⟨hi.counted, fun w i sent row row' hr hr' => ?_, fun w act row row' hr halive hr' hdead => ?_⟩
  · cases hheld : r.sending.held[i]? with
    | none =>
      rw [Sending.step_settle_none hheld, hr] at hr'
      cases hr'
      rfl
    | some x =>
      obtain ⟨row₁, hr₁, he, -⟩ := settle_kept hheld hr'
      rw [hr] at hr₁
      cases hr₁
      exact he
  · have hf := Sending.fate store retention r.sending w act d
    have hkey : row.deliveryId = d := Table.key_of_find? hr
    rw [hr, hr'] at hf
    cases hf with
    | kept | claimed | retried => exact absurd halive hdead
    | redelivered dead =>
      rw [halive] at dead
      cases dead
    | @died i sent x row held same failed last =>
      refine ⟨i, sent, x, rfl, held, same.trans hkey, failed, fun hle => ?_⟩
      by_cases hretry : sent.attempt.retry = true
      · right
        have hat : x ∈ r.sending.held.drop r.earlier := by
          refine List.mem_of_getElem? (i := i - r.earlier) ?_
          rw [List.getElem?_drop, ← held]
          congr 1
          omega
        have hnumber := hi.numbered row hr x hat (same.trans hkey)
        have hsum := (hi.counted row hr).2
        have hlast : ¬ x.delivery.attempts < webhookAttempts := fun hlt => last ⟨hretry, hlt⟩
        omega
      · left
        simpa using hretry

/-- **A redelivery gets its full set of attempts, counted as they are claimed.**  From a redelivery in any reachable
state on, whatever the tickers held before and settle later: no settle changes the attempt count, which is the number of
attempts claimed since; and one of these marks the delivery dead only when it was refused for good, or when
`WEBHOOK_ATTEMPTS` of them have failed or are held by a ticker that did not settle them. -/
theorem redelivery_full {store : RunStore} {retention : Rat} {t w now : Instant} {s : Sending} {service : Service}
    {tenantId d : String} (hreach : Run (Sending.step store retention) anything t Sending.empty w s)
    (h : s.service.redeliver tenantId d now = .ok service) (l : List (Instant × SendAct)) :
    (∃ row, service.deliveries.find? d = some row ∧ row.deadAt = none ∧ row.attempts = 0 ∧ row.nextAttemptAt = now) ∧
      Full store retention d (Run.after (step store retention d) (start s service) l) := by
  have ho : s.Owned store.lib := hreach.invariant' (Sending.Owned store.lib) (fun s w act ho _ => ho.step)
    ⟨fun _ hr => (by cases hr), fun _ hr => (by cases hr), fun _ hr => (by cases hr)⟩
  exact ⟨redelivered_row h, ((Inv.start ho h).after l).full⟩

/-- A paused run's delivery, claimed by a ticker that stops there and then by another one, which is refused for good. -/
def refusedForGood : List (Instant × SendAct) :=
  Sending.refusedWork.take 3 ++ [(10, .claim 10 [] 10), (100, .claim 100 [] 10), (101, .settle 1 (.answered 410))]

theorem refusedForGood_admitted : Run.Admitted (Sending.step smallStore 3600) anything 0 Sending.empty refusedForGood := by
  norm_num [refusedForGood, Sending.refusedWork, Run.Admitted, anything]

/-- It is redelivered, the first ticker settles, and seven attempts fail. -/
theorem redelivery_full_seven : ∃ (s : Sending) (service : Service) (d : String) (l : List (Instant × SendAct)),
    s.held.length = 1 ∧ Full smallStore 3600 d (Run.after (step smallStore 3600 d) (start s service) l) ∧
      (Run.after (step smallStore 3600 d) (start s service) l).failed = 7 ∧
      ((Run.after (step smallStore 3600 d) (start s service) l).sending.row? d).any (·.deadAt.isSome) = true := by
  let s := Run.after (Sending.step smallStore 3600) Sending.empty refusedForGood
  let d := (s.service.deliveries.rows.head?.map DeliveryRow.deliveryId).getD ""
  let l : List (Instant × SendAct) := (201, .settle 0 (.answered 500)) ::
    ([300, 400, 500, 700, 1000, 1500, 2300] : List Instant).flatMap fun now =>
      [(now, .claim now [] 10), (now + 1, .settle 0 (.answered 500))]
  have hheld : s.held.length = 1 := by decide +kernel
  have hrun : (s.service.redeliver "t" d 200).toOption.any (fun service =>
      decide ((Run.after (step smallStore 3600 d) (start s service) l).failed = 7) &&
        ((Run.after (step smallStore 3600 d) (start s service) l).sending.row? d).any (·.deadAt.isSome)) = true := by
    decide +kernel
  obtain ⟨service, h, hdead⟩ := ok_of_any hrun
  obtain ⟨t, hreach⟩ := Run.replay refusedForGood_admitted
  have hparts := Bool.and_eq_true_iff.1 hdead
  exact ⟨s, service, d, l, hheld, (redelivery_full hreach h l).2, of_decide_eq_true hparts.1, hparts.2⟩

/-- Redelivered, and refused for good again: it is dead after the one attempt claimed since. -/
theorem redelivery_refused : ∃ (s : Sending) (service : Service) (d : String) (l : List (Instant × SendAct)),
    (∃ t, Run (Sending.step smallStore 3600) anything 0 Sending.empty t s) ∧
    s.service.redeliver "t" d 200 = .ok service ∧
    (Run.after (step smallStore 3600 d) (start s service) l).claimed = 1 ∧
    ((Run.after (step smallStore 3600 d) (start s service) l).sending.row? d).any (·.deadAt.isSome) = true := by
  let s := Run.after (Sending.step smallStore 3600) Sending.empty refusedForGood
  let d := (s.service.deliveries.rows.head?.map DeliveryRow.deliveryId).getD ""
  let l : List (Instant × SendAct) := [(300, .claim 300 [] 10), (301, .settle 1 (.answered 410))]
  have hrun : (s.service.redeliver "t" d 200).toOption.any (fun service =>
      decide ((Run.after (step smallStore 3600 d) (start s service) l).claimed = 1) &&
        ((Run.after (step smallStore 3600 d) (start s service) l).sending.row? d).any (·.deadAt.isSome)) = true := by
    decide +kernel
  obtain ⟨service, h, hdead⟩ := ok_of_any hrun
  have hparts := Bool.and_eq_true_iff.1 hdead
  exact ⟨s, service, d, l, Run.replay refusedForGood_admitted, h, of_decide_eq_true hparts.1, hparts.2⟩

end Redelivery

end AgentRuns
