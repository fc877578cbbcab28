import AgentRuns.Invariant
import AgentRuns.Locking
import AgentRuns.Races

/-!
# Claims at the same time are safe

A row is claimed under its lock, room is counted under the lock of its tenant or key, and both stay locked
until the run is leased (`RaceInv`).  Nothing but a claim leases a run, and nothing but a claim or a start in
its caller's process makes a run RUNNING that ever was queued (`Change.leased`, `Change.running`); so what
was counted is still there when it is used (`capped_step`).
-/

namespace AgentRuns

open Relational Fallible Timed Locking

section
variable {store : RunStore} {t now : Instant} {op : Op} {db : Database} {row row' : RunRow} {r : String}
  {locked : List String}

/-! ## What the other operations do to what is counted -/

theorem not_claim_of_clear (h : op.clearOf locked = true) {held tenantId request} : op ≠ .claim held tenantId request := by
  rintro rfl
  cases h

/-- No operation but a claim leases a run. -/
theorem Change.leased (h : Change store now op row row') (hop : op.clearOf locked = true)
    (hl : row'.leaseOwner.isSome) : row.leaseOwner = row'.leaseOwner := by
  cases h with
  | claimed => exact absurd rfl (not_claim_of_clear hop)
  | beat _ holder => exact holder
  | cancelAsked | escalated => rfl
  | resumeRunning => rfl
  | @finished row tenantId runId ending workerId draw fenced last can =>
    have hne : ending.status ≠ .RUNNING := (RunStatus.ne_of_final ending.isAnEnding).2.1
    simp [RunRow.moved, hne] at hl
  | _ => cases hl

/-- Nor makes a run RUNNING that was ever queued. -/
theorem Change.running (h : Change store now op row row') (hop : op.clearOf locked = true) (hq : row.queuedAt.isSome)
    (hr : row'.status = .RUNNING) : row.status = .RUNNING := by
  cases h with
  | claimed => exact absurd rfl (not_claim_of_clear hop)
  | beat running => exact running
  | cancelAsked _ running => exact running
  | escalated => exact hr
  | resumeRunning _ _ _ inProcess =>
    rw [inProcess] at hq
    cases hq
  | @finished row tenantId runId ending => exact absurd hr (RunStatus.ne_of_final ending.isAnEnding).2.1
  | _ => cases hr

/-- A locked run is left as it is. -/
theorem apply_locked (hop : op.clearOf locked = true) (hl : r ∈ locked) (hr : db.run? r = some row) :
    (apply store db now op).run? r = some row := by
  have swept : ∀ {held : List String} {caught order limit moving}, locked.all held.contains = true →
      (∀ row row', caught row = true → moving row = .ok row' → Change store now op row row') →
      (orElse db (answering Answer.moved (db.sweep held caught order limit now moving))).run? r = some row := by
    intro held caught order limit moving hall hchange
    have hin : r ∈ held := by simpa using List.all_eq_true.1 hall r hl
    cases h : db.sweep held caught order limit now moving with
    | error => exact hr
    | ok x =>
      refine (Database.sweep_held ?_ h hin).trans hr
      intro row row' hc hm
      exact (hchange row row' hc hm).runId
  have named : ∀ runId, op.runId = some runId → r ≠ runId → (apply store db now op).run? r = some row := by
    intro runId hn hne
    obtain ⟨row', hr', -⟩ := run_apply store now op hr
    rcases apply_run hr' with h | ⟨-, -, -, -, h⟩ | ⟨h, -⟩
    · rw [hr', ← h, hr]
    · exact absurd (h runId hn) hne
    · rw [hr] at h
      cases h
  cases op with
  | claim => exact absurd rfl (not_claim_of_clear hop)
  | start =>
    obtain ⟨row', hr', rfl | hc⟩ := run_apply store now (.start ..) hr
    · exact hr'
    · cases hc
  | timeOutPastDeadline => exact swept hop fun _ _ _ => pastDeadlineRow_change
  | timeOutOverworked => exact swept hop fun _ _ => overworkedRow_change
  | requeueLapsed => exact swept hop fun _ _ => lapsedRow_change
  | escalateOverdue => exact swept hop fun _ _ => overdueRow_change
  | _ =>
    refine named _ rfl ?_
    rintro rfl
    simp [Op.clearOf, Op.runId, hl] at hop

/-- What no change but a claim adds to, no such operation adds to. -/
theorem apply_countP (p : RunRow → Bool)
    (hchange : ∀ row row', db.run? row.runId = some row → Change store now op row row' → p row' = true → p row = true)
    (hstart : ∀ start queue strict, op = .start start queue strict → p (startedRow start queue now) = false) :
    (apply store db now op).runs.rows.countP p ≤ db.runs.rows.countP p := by
  refine Table.countP_le fun row' hm hp => ?_
  rcases apply_run (run?_of_mem hm) with h | ⟨row, hr, hc, -, -⟩ | ⟨-, start, queue, strict, he, rfl, -⟩
  · exact ⟨row', Table.mem_of_find? h, rfl, hp⟩
  · have hid := hc.runId
    rw [hid] at hr
    exact ⟨row, Table.mem_of_find? hr, hid.symm, hchange row row' hr hc hp⟩
  · rw [hstart start queue strict he] at hp
    cases hp

/-! ## One statement -/

/-- What a statement makes of the transaction it belongs to. -/
inductive Advance (store : RunStore) (s : Race) (tx : ClaimTx) : ClaimTx → Prop
  | chosen {row : RunRow} (phase : tx.phase = .choosing) (found : s.db.run? row.runId = some row)
      (queued : row.status = .QUEUED) (free : ∀ other ∈ s.claims.rows, row.runId ∈ other.rows → other.id = tx.id) :
      Advance store s tx { tx with phase := .chosen row, rows := tx.rows ++ [row.runId] }
  | passedOver (p : Passed) : Advance store s tx (tx.passOver p)
  | uncapped {row : RunRow} (phase : tx.phase = .chosen row) (cap : store.perTenant = none) :
      Advance store s tx { tx with phase := .tenantRoom row }
  | tenantLocked {row : RunRow} {cap : Nat} (phase : tx.phase = .chosen row) (capped : store.perTenant = some cap)
      (free : ∀ other ∈ s.claims.rows, store.tenantLock row ∈ other.locks → other.id = tx.id) :
      Advance store s tx { tx with phase := .tenantLocked row cap, locks := tx.locks ++ [store.tenantLock row] }
  | tenantRoom {row : RunRow} {cap : Nat} (phase : tx.phase = .tenantLocked row cap)
      (room : s.db.leasedOf row.tenantId < cap) : Advance store s tx { tx with phase := .tenantRoom row }
  | keyless {row : RunRow} (phase : tx.phase = .tenantRoom row) (key : row.concurrencyKey = none) :
      Advance store s tx { tx with phase := .taking row }
  | keyLocked {row : RunRow} {key : String} (phase : tx.phase = .tenantRoom row) (keyed : row.concurrencyKey = some key)
      (free : ∀ other ∈ s.claims.rows, store.keyLock row key ∈ other.locks → other.id = tx.id) :
      Advance store s tx { tx with phase := .keyLocked row key, locks := tx.locks ++ [store.keyLock row key] }
  | keyRoom {row : RunRow} {key : String} (phase : tx.phase = .keyLocked row key)
      (room : s.db.runningWith row.tenantId key < store.perKey) : Advance store s tx { tx with phase := .taking row }

/-- What a step makes of the whole. -/
inductive RaceStep (store : RunStore) (s : Race) : RaceAct → Race → Prop
  | idle {act : RaceAct} : RaceStep store s act s
  | op {now : Instant} {op : Op} (clear : op.clearOf (Race.lockedRows s.claims.rows) = true) :
      RaceStep store s (.op now op) { s with db := apply store s.db now op }
  | begun {act : RaceAct} {tx : ClaimTx} (new : s.claims.find? tx.id = none) (phase : tx.phase = .choosing)
      (rows : tx.rows = []) (locks : tx.locks = []) : RaceStep store s act { s with claims := s.claims.insert tx }
  | advanced {act : RaceAct} {tx tx' : ClaimTx} (mem : tx ∈ s.claims.rows) (advance : Advance store s tx tx') :
      RaceStep store s act (s.moveOn tx')
  | closed {act : RaceAct} {tx : ClaimTx} (mem : tx ∈ s.claims.rows) : RaceStep store s act (s.close tx)
  | took {act : RaceAct} {tx : ClaimTx} {row : RunRow} {leased : RunRow} (mem : tx ∈ s.claims.rows)
      (phase : tx.phase = .taking row)
      (is : leased = (row.moved .RUNNING tx.now).leased tx.request.workerId tx.request.leaseSeconds tx.now) :
      RaceStep store s act { s.close tx with db := { s.db with runs := s.db.runs.put leased } }

/-- A lock that no other claim holds. -/
theorem Race.free_of {α : Type} [BEq α] [LawfulBEq α] {s : Race} {tx : ClaimTx} {holds : ClaimTx → List α} {lock : α}
    (h : lock ∉ (s.others tx).flatMap holds) : ∀ other ∈ s.claims.rows, lock ∈ holds other → other.id = tx.id := by
  intro other hm hl
  by_contra hne
  exact h (List.mem_flatMap.2 ⟨other, List.mem_filter.2 ⟨hm, by simpa using hne⟩, hl⟩)

theorem choose_cases {s : Race} {act : RaceAct} {tx : ClaimTx} (hm : tx ∈ s.claims.rows) (seen : Database) (held : List String) :
    RaceStep store s act (s.choose store tx seen held) := by
  unfold Race.choose
  split
  · next hphase =>
    dsimp only
    split
    · exact .closed hm
    · next found hfound =>
      obtain ⟨-, -, hheld⟩ := RunStore.nextQueued_spec hfound
      split
      · exact .idle
      · next row hrow =>
        split
        · next hq =>
          have hid : row.runId = found.runId := Table.key_of_find? hrow
          have hqueued : row.status = .QUEUED := by
            simp only [RunStore.queuedFor, Bool.and_eq_true, decide_eq_true_eq] at hq
            exact hq.1.1.1.1
          refine .advanced hm (.chosen hphase (hid ▸ hrow) hqueued (Race.free_of fun h => ?_))
          rw [hid] at h
          exact hheld (List.mem_append_right _ h)
        · exact .idle
  · exact .idle

theorem lockTenant_cases {s : Race} {act : RaceAct} {tx : ClaimTx} (hm : tx ∈ s.claims.rows) :
    RaceStep store s act (s.lockTenant store tx) := by
  unfold Race.lockTenant
  split
  · next hphase =>
    split
    · next hcap => exact .advanced hm (.uncapped hphase hcap)
    · next hcap =>
      split
      · exact .advanced hm (.passedOver _)
      · next hfree => exact .advanced hm (.tenantLocked hphase hcap (Race.free_of (by simpa [Race.advisory] using hfree)))
  · exact .idle

theorem lockKey_cases {s : Race} {act : RaceAct} {tx : ClaimTx} (hm : tx ∈ s.claims.rows) :
    RaceStep store s act (s.lockKey store tx) := by
  unfold Race.lockKey
  split
  · next hphase =>
    split
    · next hkey => exact .advanced hm (.keyless hphase hkey)
    · next hkey =>
      split
      · exact .advanced hm (.passedOver _)
      · next hfree => exact .advanced hm (.keyLocked hphase hkey (Race.free_of (by simpa [Race.advisory] using hfree)))
  · exact .idle

theorem count_cases {s : Race} {act : RaceAct} {tx : ClaimTx} (hm : tx ∈ s.claims.rows) :
    RaceStep store s act (s.countTenant tx) ∧ RaceStep store s act (s.countKey store tx) := by
  constructor
  · unfold Race.countTenant
    split
    · next hphase =>
      split
      · next hroom => exact .advanced hm (.tenantRoom hphase hroom)
      · exact .advanced hm (.passedOver _)
    · exact .idle
  · unfold Race.countKey
    split
    · next hphase =>
      split
      · next hroom => exact .advanced hm (.keyRoom hphase hroom)
      · exact .advanced hm (.passedOver _)
    · exact .idle

theorem commit_cases {s : Race} {act : RaceAct} {tx : ClaimTx} (hm : tx ∈ s.claims.rows) :
    RaceStep store s act (s.commit store tx) := by
  unfold Race.commit
  split
  · next row hphase =>
    cases htake : store.take s.db row tx.request tx.now with
    | error => exact .closed hm
    | ok x =>
      obtain ⟨db', claimed⟩ := x
      obtain ⟨-, rfl, -⟩ := RunStore.take_ok htake
      exact .took hm hphase rfl
  · exact .idle

/-- **One step**, case by case. -/
theorem step_cases (store : RunStore) (s : Race) (now : Instant) (act : RaceAct) :
    RaceStep store s act (s.step store now act) := by
  have claiming : ∀ {id : Nat} {statement : ClaimTx → Race},
      (∀ tx ∈ s.claims.rows, RaceStep store s act (statement tx)) → RaceStep store s act (s.claiming id statement) := by
    intro id statement h
    unfold Race.claiming
    split
    · exact .idle
    · next tx htx => exact h tx (Table.mem_of_find? htx)
  cases act with
  | op now op =>
    unfold Race.step
    dsimp only
    split
    · next hclear => exact .op hclear
    · exact .idle
  | begin id tenantId request now =>
    unfold Race.step
    dsimp only
    by_cases hnew : s.claims.find? id = none
    · exact .begun hnew rfl rfl rfl
    · rw [Table.insert_of_mem (by simpa [Table.find?_eq_none] using hnew)]
      exact .idle
  | choose id seen held => exact claiming fun tx hm => choose_cases hm seen held
  | lockTenant => exact claiming fun tx hm => lockTenant_cases hm
  | countTenant => exact claiming fun tx hm => (count_cases hm).1
  | lockKey => exact claiming fun tx hm => lockKey_cases hm
  | countKey => exact claiming fun tx hm => (count_cases hm).2
  | commit => exact claiming fun tx hm => commit_cases hm
  | rollback => exact claiming fun tx hm => .closed hm

/-! ## Locks -/

/-- The claim `id` holds the lock: of a row (`ClaimTx.rows`), or an advisory one (`ClaimTx.locks`). -/
def Race.holds {κ : Type} (s : Race) (locks : ClaimTx → List κ) (id : Nat) (lock : κ) : Prop :=
  ∃ tx ∈ s.claims.rows, tx.id = id ∧ lock ∈ locks tx

/-- What a claim in flight knows, and the locks it knows it under. -/
structure TxInv (store : RunStore) (db : Database) (tx : ClaimTx) : Prop where
  held : ∀ row, tx.phase.row? = some row →
    row.runId ∈ tx.rows ∧ db.run? row.runId = some row ∧ row.status = .QUEUED
  tenantLocked : ∀ row cap, tx.phase = .tenantLocked row cap →
    store.perTenant = some cap ∧ store.tenantLock row ∈ tx.locks
  tenantRoom : ∀ row cap, tx.phase.roomForTenant? = some row → store.perTenant = some cap →
    store.tenantLock row ∈ tx.locks
  keyLocked : ∀ row key, tx.phase = .keyLocked row key →
    row.concurrencyKey = some key ∧ store.keyLock row key ∈ tx.locks
  keyRoom : ∀ row key, tx.phase = .taking row → row.concurrencyKey = some key → store.keyLock row key ∈ tx.locks

/-- What holds of the claims in flight in every state. -/
structure RaceInv (store : RunStore) (s : Race) : Prop where
  runs : ∀ r row, s.db.run? r = some row → RowInv row
  rows : Exclusive (s.holds ClaimTx.rows)
  locks : Exclusive (s.holds ClaimTx.locks)
  claims : ∀ tx ∈ s.claims.rows, TxInv store s.db tx

namespace TxInv

theorem choosing {tx : ClaimTx} (h : tx.phase = .choosing) : TxInv store db tx := by
  constructor <;> simp [h, ClaimPhase.row?, ClaimPhase.roomForTenant?]

/-- A claim knows as much of a database that has its row. -/
theorem elsewhere {tx : ClaimTx} {db' : Database} (h : TxInv store db tx)
    (hrow : ∀ row, tx.phase.row? = some row → db.run? row.runId = some row → db'.run? row.runId = some row) :
    TxInv store db' tx :=
  { h with held := fun row hr => ⟨(h.held row hr).1, hrow row hr (h.held row hr).2.1, (h.held row hr).2.2⟩ }

theorem advance {s : Race} {tx tx' : ClaimTx} (h : TxInv store s.db tx) (ha : Advance store s tx tx') :
    TxInv store s.db tx' := by
  cases ha with
  | chosen phase found queued =>
    refine ⟨?_, by rintro _ _ ⟨⟩, by rintro _ _ ⟨⟩, by rintro _ _ ⟨⟩, by rintro _ _ ⟨⟩⟩
    rintro _ ⟨⟩
    exact ⟨List.mem_append_right _ List.mem_cons_self, found, queued⟩
  | passedOver p => exact choosing rfl
  | @uncapped row phase cap =>
    have hheld := h.held row (by rw [phase]; rfl)
    refine ⟨by rintro _ ⟨⟩; exact hheld, by rintro _ _ ⟨⟩, ?_, by rintro _ _ ⟨⟩, by rintro _ _ ⟨⟩⟩
    rintro _ _ ⟨⟩ hcap
    rw [cap] at hcap
    cases hcap
  | @tenantLocked row cap phase capped =>
    have hheld := h.held row (by rw [phase]; rfl)
    refine ⟨by rintro _ ⟨⟩; exact hheld, ?_, by rintro _ _ ⟨⟩, by rintro _ _ ⟨⟩, by rintro _ _ ⟨⟩⟩
    rintro _ _ ⟨⟩
    exact ⟨capped, List.mem_append_right _ List.mem_cons_self⟩
  | @tenantRoom row cap phase =>
    have hheld := h.held row (by rw [phase]; rfl)
    refine ⟨by rintro _ ⟨⟩; exact hheld, by rintro _ _ ⟨⟩, ?_, by rintro _ _ ⟨⟩, by rintro _ _ ⟨⟩⟩
    rintro _ _ ⟨⟩ -
    exact (h.tenantLocked row cap phase).2
  | @keyless row phase key =>
    have hheld := h.held row (by rw [phase]; rfl)
    refine ⟨by rintro _ ⟨⟩; exact hheld, by rintro _ _ ⟨⟩, ?_, by rintro _ _ ⟨⟩, ?_⟩
    · rintro _ cap ⟨⟩
      exact h.tenantRoom row cap (by rw [phase]; rfl)
    · rintro _ _ ⟨⟩ hkey
      rw [key] at hkey
      cases hkey
  | @keyLocked row key phase keyed =>
    have hheld := h.held row (by rw [phase]; rfl)
    refine ⟨by rintro _ ⟨⟩; exact hheld, by rintro _ _ ⟨⟩, ?_, ?_, by rintro _ _ ⟨⟩⟩
    · rintro _ cap ⟨⟩ hcap
      exact List.mem_append_left _ (h.tenantRoom row cap (by rw [phase]; rfl) hcap)
    · rintro _ _ ⟨⟩
      exact ⟨keyed, List.mem_append_right _ List.mem_cons_self⟩
  | @keyRoom row key phase =>
    have hheld := h.held row (by rw [phase]; rfl)
    refine ⟨by rintro _ ⟨⟩; exact hheld, by rintro _ _ ⟨⟩, ?_, by rintro _ _ ⟨⟩, ?_⟩
    · rintro _ cap ⟨⟩
      exact h.tenantRoom row cap (by rw [phase]; rfl)
    · rintro _ _ ⟨⟩ hkey
      obtain ⟨hkeyed, hlock⟩ := h.keyLocked row key phase
      rw [hkeyed] at hkey
      exact Option.some.inj hkey ▸ hlock

end TxInv

/-- A statement takes at most one row lock and one advisory lock, each free. -/
theorem Advance.locks {s : Race} {tx tx' : ClaimTx} (h : Advance store s tx tx') :
    tx'.id = tx.id ∧
      (tx'.rows = tx.rows ∨ ∃ r, tx'.rows = tx.rows ++ [r] ∧ ∀ other ∈ s.claims.rows, r ∈ other.rows → other.id = tx.id) ∧
      (tx'.locks = tx.locks ∨
        ∃ l, tx'.locks = tx.locks ++ [l] ∧ ∀ other ∈ s.claims.rows, l ∈ other.locks → other.id = tx.id) := by
  cases h with
  | chosen _ _ _ free => exact ⟨rfl, Or.inr ⟨_, rfl, free⟩, Or.inl rfl⟩
  | tenantLocked _ _ free => exact ⟨rfl, Or.inl rfl, Or.inr ⟨_, rfl, free⟩⟩
  | keyLocked _ _ free => exact ⟨rfl, Or.inl rfl, Or.inr ⟨_, rfl, free⟩⟩
  | _ => exact ⟨rfl, Or.inl rfl, Or.inl rfl⟩

theorem exclusive_moveOn {κ : Type} {s : Race} {tx tx' : ClaimTx} {locks : ClaimTx → List κ} (hid : tx'.id = tx.id)
    (hm : tx ∈ s.claims.rows) (h : Exclusive (s.holds locks))
    (ht : locks tx' = locks tx ∨
      ∃ l, locks tx' = locks tx ++ [l] ∧ ∀ other ∈ s.claims.rows, l ∈ locks other → other.id = tx.id) :
    Exclusive ((s.moveOn tx').holds locks) := by
  have back : ∀ {id k}, (s.moveOn tx').holds locks id k → s.holds locks id k ∨ (id = tx.id ∧ k ∈ locks tx') := by
    rintro id k ⟨other, hother, rfl, hk⟩
    rcases Table.mem_put.1 hother with ⟨rfl, -⟩ | ⟨hother, -⟩
    · exact Or.inr ⟨hid, hk⟩
    · exact Or.inl ⟨other, hother, rfl, hk⟩
  rcases ht with hsame | ⟨l, htaken, hfree⟩
  · refine h.mono fun id k hk => ?_
    rcases back hk with hk | ⟨rfl, hk'⟩
    · exact hk
    · exact ⟨tx, hm, rfl, hsame ▸ hk'⟩
  · have hothers : ∀ id, s.holds locks id l → id = tx.id := by
      rintro id ⟨other, hother, rfl, hl⟩
      exact hfree other hother hl
    refine h.take hothers fun id k hk => ?_
    rcases back hk with hk | ⟨rfl, hk'⟩
    · exact Or.inl hk
    · rw [htaken] at hk'
      rcases List.mem_append.1 hk' with hk' | hk'
      · exact Or.inl ⟨tx, hm, rfl, hk'⟩
      · exact Or.inr ⟨rfl, List.mem_singleton.1 hk'⟩

namespace RaceInv

theorem empty : RaceInv store Race.empty := by
  refine ⟨?_, ?_, ?_, ?_⟩
  · intro r row hr
    cases hr
  · rintro i j k ⟨tx, hm, -⟩
    cases hm
  · rintro i j k ⟨tx, hm, -⟩
    cases hm
  · intro tx hm
    cases hm

/-- With fewer claims in flight, and their rows in the database. -/
theorem fewer {s s' : Race} (h : RaceInv store s) (hruns : ∀ r row, s'.db.run? r = some row → RowInv row)
    (hclaims : ∀ tx ∈ s'.claims.rows, tx ∈ s.claims.rows)
    (hrow : ∀ tx ∈ s'.claims.rows, ∀ row, tx.phase.row? = some row → s.db.run? row.runId = some row →
      s'.db.run? row.runId = some row) : RaceInv store s' :=
  { runs := hruns
    rows := h.rows.mono fun _ _ ⟨tx, hm, hk⟩ => ⟨tx, hclaims tx hm, hk⟩
    locks := h.locks.mono fun _ _ ⟨tx, hm, hk⟩ => ⟨tx, hclaims tx hm, hk⟩
    claims := fun tx hm => (h.claims tx (hclaims tx hm)).elsewhere (hrow tx hm) }

/-- The run a claim leases, leased. -/
theorem leased_change {s : Race} (h : RaceInv store s) {tx : ClaimTx} (hm : tx ∈ s.claims.rows) {row : RunRow}
    (hp : tx.phase.row? = some row) :
    s.db.run? row.runId = some row ∧ row.status = .QUEUED ∧ RowInv row ∧
      Change store tx.now (.claim ⟨[], []⟩ tx.tenantId tx.request) row
        ((row.moved .RUNNING tx.now).leased tx.request.workerId tx.request.leaseSeconds tx.now) := by
  obtain ⟨-, hr, hq⟩ := (h.claims tx hm).held row hp
  exact ⟨hr, hq, h.runs _ _ hr, .claimed hq⟩

theorem step {s s' : Race} {act : RaceAct} (h : RaceInv store s) (hs : RaceStep store s act s') : RaceInv store s' := by
  cases hs with
  | idle => exact h
  | @op now op clear =>
    refine h.fewer ?_ (fun tx hm => hm) ?_
    · intro r row' hr
      rcases apply_run hr with hr | ⟨row, hr, hc, -, -⟩ | ⟨-, start, queue, strict, -, rfl, -⟩
      · exact h.runs r row' hr
      · exact hc.keeps (h.runs r row hr)
      · exact .started start queue now
    · intro tx hm row hp hr
      refine apply_locked clear (List.mem_flatMap.2 ⟨tx, hm, ?_⟩) hr
      exact ((h.claims tx hm).held row hp).1
  | @begun _ tx new phase rows locks =>
    have hrows : (s.claims.insert tx).rows = s.claims.rows ++ [tx] := Table.rows_insert new
    have hmem : ∀ {other}, other ∈ (s.claims.insert tx).rows → other ∈ s.claims.rows ∨ other = tx := by
      intro other hm
      rw [hrows] at hm
      simpa using hm
    refine ⟨h.runs, h.rows.mono ?_, h.locks.mono ?_, ?_⟩
    · rintro id k ⟨other, hm, hid, hk⟩
      rcases hmem hm with hm | rfl
      · exact ⟨other, hm, hid, hk⟩
      · rw [rows] at hk
        cases hk
    · rintro id k ⟨other, hm, hid, hk⟩
      rcases hmem hm with hm | rfl
      · exact ⟨other, hm, hid, hk⟩
      · rw [locks] at hk
        cases hk
    · intro other hm
      rcases hmem hm with hm | rfl
      · exact h.claims other hm
      · exact .choosing phase
  | @advanced _ tx tx' mem advance =>
    obtain ⟨hid, hrows, hlocks⟩ := advance.locks
    refine ⟨h.runs, exclusive_moveOn hid mem h.rows hrows, exclusive_moveOn hid mem h.locks hlocks, ?_⟩
    intro other hm
    rcases Table.mem_put.1 hm with ⟨rfl, -⟩ | ⟨hm, -⟩
    · exact (h.claims tx mem).advance advance
    · exact h.claims other hm
  | closed mem =>
    exact h.fewer h.runs (fun tx hm => (Table.mem_erase.1 hm).1) fun tx hm row hp hr => hr
  | @took _ tx row leased mem phase is =>
    subst is
    obtain ⟨hr, -, hi, hc⟩ := h.leased_change mem (by rw [phase]; rfl : tx.phase.row? = some row)
    refine h.fewer ?_ (fun other hm => (Table.mem_erase.1 hm).1) ?_
    · intro r row' hr'
      have hr' : (s.db.runs.put _).find? r = some row' := hr'
      rw [Table.find?_put] at hr'
      split at hr'
      · obtain ⟨_, -, rfl⟩ := Option.map_eq_some_iff.1 hr'
        exact hc.keeps hi
      · exact h.runs r row' hr'
    · intro other hm row' hp hr'
      obtain ⟨hother, hne⟩ := Table.mem_erase.1 hm
      refine (Table.find?_put_of_ne ?_).trans hr'
      intro he
      have hmine : row.runId ∈ tx.rows := ((h.claims tx mem).held row (by rw [phase]; rfl)).1
      have hhis : row'.runId ∈ other.rows := ((h.claims other hother).held row' hp).1
      have he : row.runId = row'.runId := he
      have := h.rows tx.id other.id row.runId ⟨tx, mem, rfl, hmine⟩ ⟨other, hother, rfl, he ▸ hhis⟩
      simp [this] at hne

theorem of_run {ok : Race → Instant → RaceAct → Prop} {s : Race} (h : Run (Race.step store) ok t Race.empty now s) :
    RaceInv store s :=
  h.invariant' (RaceInv store) (fun s now act hi _ => hi.step (step_cases store s now act)) .empty

end RaceInv

/-! ## Caps -/

/-- The claim `id` is in flight, at a phase that has found `room`. -/
def Race.found (s : Race) (room : ClaimPhase → Prop) (id : Nat) : Prop := ∃ tx ∈ s.claims.rows, tx.id = id ∧ room tx.phase

/-- **Counting under a lock.**  A cap on the runs `p` counts survives a step: no operation adds to the count,
a claim finds room only below the cap, adds to the count only with room found, and then is the only one. -/
theorem capped_step {s s' : Race} {act : RaceAct} {cap : Nat} {p : RunRow → Bool} {room : ClaimPhase → Prop}
    (hs : RaceStep store s act s')
    (hop : ∀ now op, act = .op now op → op.clearOf (Race.lockedRows s.claims.rows) = true →
      (apply store s.db now op).runs.rows.countP p ≤ s.db.runs.rows.countP p)
    (hbegin : ¬room .choosing)
    (hadvance : ∀ tx ∈ s.claims.rows, ∀ tx', Advance store s tx tx' → room tx'.phase →
      room tx.phase ∨ s.db.runs.rows.countP p < cap)
    (htake : ∀ tx ∈ s.claims.rows, ∀ row, tx.phase = .taking row →
      p ((row.moved .RUNNING tx.now).leased tx.request.workerId tx.request.leaseSeconds tx.now) = true → room tx.phase)
    (halone : ∀ tx ∈ s.claims.rows, ∀ other ∈ s.claims.rows, room tx.phase → room other.phase → other.id = tx.id)
    (h : Capped cap (s.db.runs.rows.countP p) (s.found room)) : Capped cap (s'.db.runs.rows.countP p) (s'.found room) := by
  cases hs with
  | idle => exact h
  | @op now op clear => exact h.mono (hop now op rfl clear) fun i hi => ⟨i, hi⟩
  | @begun _ tx new phase =>
    refine h.mono le_rfl ?_
    rintro i ⟨other, hm, hid, hroom⟩
    have hm : other ∈ (s.claims.insert tx).rows := hm
    rw [Table.rows_insert new, List.mem_append, List.mem_singleton] at hm
    rcases hm with hm | rfl
    · exact ⟨i, other, hm, hid, hroom⟩
    · rw [phase] at hroom
      exact absurd hroom hbegin
  | @advanced _ tx tx' mem advance =>
    by_cases hlt : s.db.runs.rows.countP p < cap
    · exact h.counted hlt
    · refine h.mono le_rfl ?_
      rintro i ⟨other, hm, hid, hroom⟩
      rcases Table.mem_put.1 hm with ⟨rfl, -⟩ | ⟨hm, -⟩
      · rcases hadvance tx mem other advance hroom with hroom | hlt'
        · exact ⟨tx.id, tx, mem, rfl, hroom⟩
        · exact absurd hlt' hlt
      · exact ⟨i, other, hm, hid, hroom⟩
  | closed mem =>
    refine h.mono le_rfl ?_
    rintro i ⟨other, hm, hid, hroom⟩
    exact ⟨i, other, (Table.mem_erase.1 hm).1, hid, hroom⟩
  | @took _ tx row leased mem phase is =>
    by_cases hp : p leased = true
    · subst is
      have hroom := htake tx mem row phase hp
      refine h.used (i := tx.id) ⟨tx, mem, rfl, hroom⟩ ?_ ?_
      · refine Table.countP_le_succ row.runId fun a ha hpa hne => ?_
        rcases Table.mem_put.1 ha with ⟨rfl, -⟩ | ⟨ha, -⟩
        · exact absurd rfl hne
        · exact ⟨a, ha, rfl, hpa⟩
      · rintro j ⟨other, hm, -, hother⟩
        obtain ⟨hm, hne⟩ := Table.mem_erase.1 hm
        have := halone tx mem other hm hroom hother
        simp [this] at hne
    · refine h.mono (Table.countP_le fun a ha hpa => ?_) ?_
      · rcases Table.mem_put.1 ha with ⟨rfl, -⟩ | ⟨ha, -⟩
        · exact absurd hpa hp
        · exact ⟨a, ha, rfl, hpa⟩
      · rintro i ⟨other, hm, hid, hroom⟩
        exact ⟨i, other, (Table.mem_erase.1 hm).1, hid, hroom⟩

/-- The claim has found room for a run of the tenant. -/
def roomFor (tenantId : String) (phase : ClaimPhase) : Prop :=
  ∃ row, phase.roomForTenant? = some row ∧ row.tenantId = tenantId

/-- The claim has found room for a run with the key. -/
def roomWith (tenantId key : String) (phase : ClaimPhase) : Prop :=
  ∃ row, phase = .taking row ∧ row.tenantId = tenantId ∧ row.concurrencyKey = some key

theorem tenant_step {s s' : Race} {act : RaceAct} {cap : Nat} {tenantId : String} (hi : RaceInv store s)
    (hcap : store.perTenant = some cap) (hs : RaceStep store s act s')
    (h : Capped cap (s.db.leasedOf tenantId) (s.found (roomFor tenantId))) :
    Capped cap (s'.db.leasedOf tenantId) (s'.found (roomFor tenantId)) := by
  refine capped_step hs ?_ ?_ ?_ ?_ ?_ h
  · intro now op _ hclear
    refine apply_countP _ ?_ ?_
    · intro row row' hr hc hp
      simp only [RunRow.isLeased, Bool.and_eq_true, decide_eq_true_eq] at hp ⊢
      obtain ⟨⟨-, hl⟩, ht⟩ := hp
      have ho := hc.leased hclear hl
      rw [← ho] at hl
      exact ⟨⟨(hi.runs _ row hr).leased hl, hl⟩, hc.tenantId.symm.trans ht⟩
    · intro start queue strict _
      simp [RunRow.isLeased, startedRow]
  · rintro ⟨row, hrow, -⟩
    cases hrow
  · intro tx hm tx' ha hroom
    obtain ⟨row, hrow, ht⟩ := hroom
    cases ha with
    | chosen | passedOver | tenantLocked => cases hrow
    | uncapped _ huncapped =>
      rw [huncapped] at hcap
      cases hcap
    | tenantRoom phase room =>
      cases hrow
      have hcap' := ((hi.claims tx hm).tenantLocked _ _ phase).1
      rw [hcap] at hcap'
      cases hcap'
      exact Or.inr (ht ▸ room)
    | keyless phase | keyLocked phase | keyRoom phase =>
      cases hrow
      exact Or.inl ⟨_, by rw [phase]; rfl, ht⟩
  · intro tx hm row phase hp
    simp only [Bool.and_eq_true, decide_eq_true_eq] at hp
    exact ⟨row, by rw [phase]; rfl, hp.2⟩
  · rintro tx hm other hother ⟨row, hrow, ht⟩ ⟨row', hrow', ht'⟩
    have hlock := (hi.claims tx hm).tenantRoom row cap hrow hcap
    have hlock' := (hi.claims other hother).tenantRoom row' cap hrow' hcap
    have hsame : store.tenantLock row' = store.tenantLock row := by
      unfold RunStore.tenantLock
      rw [ht, ht']
    rw [hsame] at hlock'
    exact hi.locks tx.id other.id _ ⟨tx, hm, rfl, hlock⟩ ⟨other, hother, rfl, hlock'⟩

/-- Every run of the tenant with the key was queued. -/
def Enters (tenantId key : String) (db : Database) : Prop :=
  ∀ r row, db.run? r = some row → row.tenantId = tenantId → row.concurrencyKey = some key → row.queuedAt.isSome

/-- Every start of a run of the tenant with the key puts it on the queue. -/
def entersQueued (tenantId key : String) (_ : Race) (_ : Instant) : RaceAct → Prop
  | .op _ (.start start queue _) => start.tenantId = tenantId → start.concurrencyKey = some key → queue = true
  | _ => True

theorem enters_step {s s' : Race} {act : RaceAct} {tenantId key : String} (hi : RaceInv store s)
    (hs : RaceStep store s act s') (hok : entersQueued tenantId key s t act) (h : Enters tenantId key s.db) :
    Enters tenantId key s'.db := by
  cases hs with
  | @op now op clear =>
    intro r row' hr ht hk
    rcases apply_run hr with hr | ⟨row, hr, hc, -, -⟩ | ⟨-, start, queue, strict, rfl, rfl, -⟩
    · exact h r row' hr ht hk
    · obtain ⟨-, htenant, -, hkey, -⟩ := hc.same
      exact hc.queued (h r row hr (htenant.symm.trans ht) (hkey.symm.trans hk))
    · have hq : queue = true := hok ht hk
      rw [hq]
      rfl
  | @took _ tx row leased mem phase is =>
    subst is
    obtain ⟨hr, hq, hrow, -⟩ := hi.leased_change mem (by rw [phase]; rfl : tx.phase.row? = some row)
    intro r row' hr' ht hk
    have hr' : (s.db.runs.put _).find? r = some row' := hr'
    rw [Table.find?_put] at hr'
    split at hr'
    · obtain ⟨_, -, rfl⟩ := Option.map_eq_some_iff.1 hr'
      exact hrow.queued hq
    · exact h r row' hr' ht hk
  | _ => exact h

theorem key_step {s s' : Race} {act : RaceAct} {tenantId key : String} (hi : RaceInv store s)
    (hs : RaceStep store s act s') (hok : entersQueued tenantId key s t act) (he : Enters tenantId key s.db)
    (h : Capped store.perKey (s.db.runningWith tenantId key) (s.found (roomWith tenantId key))) :
    Capped store.perKey (s'.db.runningWith tenantId key) (s'.found (roomWith tenantId key)) := by
  refine capped_step hs ?_ ?_ ?_ ?_ ?_ h
  · rintro now op rfl hclear
    refine apply_countP _ ?_ ?_
    · intro row row' hr hc hp
      simp only [RunRow.runsWith, Bool.and_eq_true, decide_eq_true_eq] at hp ⊢
      obtain ⟨⟨hrun, ht⟩, hk⟩ := hp
      obtain ⟨-, htenant, -, hkey, -⟩ := hc.same
      rw [htenant] at ht
      rw [hkey] at hk
      exact ⟨⟨hc.running hclear (he _ row hr ht hk) hrun, ht⟩, hk⟩
    · rintro start queue strict rfl
      rw [Bool.eq_false_iff]
      intro hp
      simp only [RunRow.runsWith, Bool.and_eq_true, decide_eq_true_eq] at hp
      obtain ⟨⟨hrun, ht⟩, hk⟩ := hp
      have hq : queue = true := hok ht hk
      rw [hq] at hrun
      cases hrun
  · rintro ⟨row, hrow, -⟩
    cases hrow
  · rintro tx hm tx' ha ⟨row, hrow, ht, hk⟩
    cases ha with
    | chosen | passedOver | tenantLocked | uncapped | tenantRoom | keyLocked => cases hrow
    | keyless _ hnone =>
      cases hrow
      rw [hnone] at hk
      cases hk
    | keyRoom phase room =>
      cases hrow
      have hkey := ((hi.claims tx hm).keyLocked _ _ phase).1
      rw [hk] at hkey
      cases hkey
      exact Or.inr (ht ▸ room)
  · intro tx hm row phase hp
    simp only [RunRow.runsWith, Bool.and_eq_true, decide_eq_true_eq] at hp
    exact ⟨row, phase, hp.1.2, hp.2⟩
  · rintro tx hm other hother ⟨row, hrow, ht, hk⟩ ⟨row', hrow', ht', hk'⟩
    have hlock := (hi.claims tx hm).keyRoom row key hrow hk
    have hlock' := (hi.claims other hother).keyRoom row' key hrow' hk'
    have hsame : store.keyLock row' key = store.keyLock row key := by
      unfold RunStore.keyLock
      rw [ht, ht']
    rw [hsame] at hlock'
    exact hi.locks tx.id other.id _ ⟨tx, hm, rfl, hlock⟩ ⟨other, hother, rfl, hlock'⟩

/-! ## Every interleaving -/

/-- A step never hands a lease from one worker to another. -/
theorem owner_step {s s' : Race} {act : RaceAct} (hi : RaceInv store s) (hs : RaceStep store s act s') {w w' : String}
    (hr : s.db.run? r = some row) (hr' : s'.db.run? r = some row') (hw : row.leaseOwner = some w)
    (hw' : row'.leaseOwner = some w') : w' = w := by
  have unchanged : s'.db.run? r = some row → w' = w := by
    intro h
    rw [hr'] at h
    cases h
    exact Option.some.inj (hw'.symm.trans hw)
  cases hs with
  | @op now op clear =>
    obtain ⟨row₁, hr₁, rfl | hc⟩ := run_apply store now op hr
    · exact unchanged hr₁
    · have hr' : (apply store s.db now op).run? r = some row' := hr'
      rw [hr₁] at hr'
      cases hr'
      have ho := hc.leased clear (by rw [hw']; rfl)
      exact Option.some.inj (hw'.symm.trans (ho.symm.trans hw))
  | @took _ tx row₀ leased mem phase is =>
    obtain ⟨hr₀, hq, hrow, -⟩ := hi.leased_change mem (by rw [phase]; rfl : tx.phase.row? = some row₀)
    have hid : leased.runId = row₀.runId := by rw [is]; rfl
    by_cases he : row₀.runId = r
    · -- the run it leases is queued, so nobody held it
      rw [he, hr] at hr₀
      cases hr₀
      rw [hrow.unheld (by rw [hq]; decide)] at hw
      cases hw
    · exact unchanged ((Table.find?_put_of_ne (hid ▸ he)).trans hr)
  | _ => exact unchanged hr

/-- What holds of the claims in flight and of the leases, in every state. -/
structure ClaimSafe (store : RunStore) (s : Race) : Prop where
  /-- no two claims in flight are about one run -/
  apart : ∀ tx ∈ s.claims.rows, ∀ other ∈ s.claims.rows, ∀ row row', tx.phase.row? = some row →
    other.phase.row? = some row' → row'.runId = row.runId → other = tx
  /-- the run a claim is about, and may lease, waits as the claim read it, and nobody holds it -/
  free : ∀ tx ∈ s.claims.rows, ∀ row, tx.phase.row? = some row →
    s.db.run? row.runId = some row ∧ row.status = .QUEUED ∧ row.leaseOwner = none
  /-- whoever holds a run holds it until nobody does -/
  owner : ∀ now act r row row' w w', s.db.run? r = some row → (s.step store now act).db.run? r = some row' →
    row.leaseOwner = some w → row'.leaseOwner = some w' → w' = w
  /-- a tenant's workers hold no more runs than its cap -/
  tenant : ∀ cap, store.perTenant = some cap → ∀ tenantId, s.db.leasedOf tenantId ≤ cap

theorem RaceInv.safe {s : Race} (h : RaceInv store s)
    (htenant : ∀ cap, store.perTenant = some cap → ∀ tenantId, s.db.leasedOf tenantId ≤ cap) : ClaimSafe store s := by
  refine ⟨?_, ?_, ?_, htenant⟩
  · intro tx hm other hother row row' hrow hrow' he
    have hlock := ((h.claims tx hm).held row hrow).1
    have hlock' := ((h.claims other hother).held row' hrow').1
    rw [he] at hlock'
    have hid := h.rows tx.id other.id _ ⟨tx, hm, rfl, hlock⟩ ⟨other, hother, rfl, hlock'⟩
    exact List.inj_on_of_nodup_map s.claims.nodup hother hm hid
  · intro tx hm row hrow
    obtain ⟨-, hr, hq⟩ := (h.claims tx hm).held row hrow
    exact ⟨hr, hq, (h.runs _ row hr).unheld (by rw [hq]; decide)⟩
  · intro now act r row row' w w' hr hr' hw hw'
    exact owner_step h (step_cases store s now act) hr hr' hw hw'

theorem Run.tenantCapped {ok : Race → Instant → RaceAct → Prop} {s : Race}
    (h : Run (Race.step store) ok t Race.empty now s) {cap : Nat} (hcap : store.perTenant = some cap) (tenantId : String) :
    s.db.leasedOf tenantId ≤ cap := by
  refine (h.invariant' (fun s => RaceInv store s ∧ Capped cap (s.db.leasedOf tenantId) (s.found (roomFor tenantId))) ?_
    ⟨.empty, Nat.zero_le cap, ?_⟩).2.bound
  · rintro s now act ⟨hi, hc⟩ -
    exact ⟨hi.step (step_cases store s now act), tenant_step hi hcap (step_cases store s now act) hc⟩
  · rintro i ⟨tx, hm, -⟩
    cases hm

theorem Run.keyCapped {s : Race} {tenantId key : String}
    (h : Run (Race.step store) (entersQueued tenantId key) t Race.empty now s) :
    s.db.runningWith tenantId key ≤ store.perKey := by
  refine (h.invariant' (fun s => RaceInv store s ∧ Enters tenantId key s.db ∧
    Capped store.perKey (s.db.runningWith tenantId key) (s.found (roomWith tenantId key))) ?_
    ⟨.empty, ?_, Nat.zero_le _, ?_⟩).2.2.bound
  · rintro s now act ⟨hi, he, hc⟩ hok
    have hs := step_cases store s now act
    exact ⟨hi.step hs, enters_step hi hs hok he, key_step hi hs hok he hc⟩
  · intro r row hr
    cases hr
  · rintro i ⟨tx, hm, -⟩
    cases hm

/-- **Claims are safe.**  However the statements of any number of claims interleave with each other and with
the other operations: no run is leased while a worker holds it, no two claims are about one run, a tenant's
workers hold at most its cap, and of the runs of a key that all enter through the queue at most so many run
together. -/
theorem claims_safe {s : Race} (h : Run (Race.step store) anything t Race.empty now s) :
    ClaimSafe store s ∧ ∀ tenantId key, Run (Race.step store) (entersQueued tenantId key) t Race.empty now s →
      s.db.runningWith tenantId key ≤ store.perKey :=
  ⟨(RaceInv.of_run h).safe fun _ hcap tenantId => Run.tenantCapped h hcap tenantId, fun _ _ hq => Run.keyCapped hq⟩

end

/-! ## Two claims at once -/

def cappedStore : RunStore := { smallStore with perTenant := some 2 }

/-- Two queued runs that share a key. -/
def sharing : List (Instant × RaceAct) :=
  [(0, .op 0 (.start { smallStart with runId := "r1", concurrencyKey := some "k" } true true)),
    (0, .op 0 (.start { smallStart with runId := "r2", concurrencyKey := some "k" } true true))]

/-- The runs as both claims see them. -/
def sharingQueued : Database := (Run.after (Race.step cappedStore) Race.empty sharing).db

/-- The second claim looks for room before the first one has leased its run. -/
def twoClaims : List (Instant × RaceAct) :=
  sharing ++
    [(1, .begin 1 (some "t") ⟨"w1", ["a"], smallLease⟩ 1), (1, .begin 2 (some "t") ⟨"w2", ["a"], smallLease⟩ 1),
      (1, .choose 1 sharingQueued []), (1, .choose 2 sharingQueued []), (1, .lockTenant 1), (1, .countTenant 1),
      (1, .lockKey 1), (1, .countKey 1), (1, .lockTenant 2), (2, .commit 1), (3, .choose 2 sharingQueued [])]

/-- The first one leases its run; the second one passes over the tenant and answers that there is none. -/
theorem claims_safe_two : ∃ s : Race, ClaimSafe cappedStore s ∧ s.db.leasedOf "t" = 1 ∧
    s.db.runningWith "t" "k" ≤ cappedStore.perKey ∧ s.db.runningWith "t" "k" = 1 ∧ s.claims.rows = [] := by
  have ha : Run.Admitted (Race.step cappedStore) (entersQueued "t" "k") 0 Race.empty twoClaims := by
    norm_num [twoClaims, sharing, Run.Admitted, entersQueued]
  have hs : (let s := Run.after (Race.step cappedStore) Race.empty twoClaims
      s.db.leasedOf "t" = 1 ∧ s.db.runningWith "t" "k" = 1 ∧ s.claims.rows.isEmpty) := by
    decide +kernel
  obtain ⟨hleased, hrunning, hnone⟩ := hs
  obtain ⟨now, h⟩ := Run.replay ha
  obtain ⟨hsafe, hkey⟩ := claims_safe h.forget
  exact ⟨_, hsafe, hleased, hkey "t" "k" h, hrunning, List.isEmpty_iff.1 hnone⟩

end AgentRuns
