import AgentRuns.Races
import AgentRuns.Timeline

/-!
# A claim nothing comes between

The statements of `Race.step` are those of `RunStore.claim`: run one after another, each reading the database
as it is, they do what the operation does with the locks of the other claims in its way (`claim_alone`).
-/

namespace AgentRuns

open Relational Fallible Timed

namespace Race

/-- Only statements of the claim `id`. -/
def ofClaim (id : Nat) (_ : Race) (_ : Instant) (act : RaceAct) : Prop := act.claim? = some id

/-- What the other claims hold. -/
def heldFrom (s : Race) (tx : ClaimTx) : Held := ⟨lockedRows (s.others tx), advisory (s.others tx)⟩

/-- From `s`, where it begins as `tx₀`, to `s'`, where it stands at `tx`, only one claim went on. -/
structure Alone (store : RunStore) (t : Instant) (s : Race) (tx₀ : ClaimTx) (s' : Race) (tx : ClaimTx) : Prop where
  run : Run (step store) (ofClaim tx₀.id) t s t s'
  db : s'.db = s.db
  mine : s'.claims.find? tx₀.id = some tx
  others : s'.others tx = s.others tx₀
  id : tx.id = tx₀.id
  asks : tx.tenantId = tx₀.tenantId ∧ tx.request = tx₀.request ∧ tx.now = tx₀.now

section
variable {store : RunStore} {s s' : Race} {tx₀ tx tx' : ClaimTx} {row : RunRow} {t : Instant}

theorem others_moveOn (s : Race) (tx : ClaimTx) : (s.moveOn tx).others tx = s.others tx := by
  unfold others moveOn Table.put
  dsimp only
  induction s.claims.rows with
  | nil => rfl
  | cons other rows ih =>
    rw [List.map_cons, List.filter_cons, List.filter_cons, ih]
    by_cases h : other.id = tx.id <;> simp [h]

namespace Alone

theorem start (h : s.claims.find? tx₀.id = some tx₀) : Alone store t s tx₀ s tx₀ :=
  ⟨.refl, rfl, h, rfl, rfl, rfl, rfl, rfl⟩

/-- One more statement. -/
theorem next (h : Alone store t s tx₀ s' tx) {act : RaceAct} (hact : act.claim? = some tx₀.id)
    (hstep : step store s' t act = s'.moveOn tx') (hid : tx'.id = tx.id)
    (hasks : tx'.tenantId = tx.tenantId ∧ tx'.request = tx.request ∧ tx'.now = tx.now) :
    Alone store t s tx₀ (s'.moveOn tx') tx' := by
  have hid₀ := hid.trans h.id
  obtain ⟨ht, hr, hn⟩ := h.asks
  refine ⟨?_, h.db, Table.find?_put_self hid₀ h.mine, ?_, hid₀, hasks.1.trans ht, hasks.2.1.trans hr, hasks.2.2.trans hn⟩
  · rw [← hstep]
    exact h.run.tail t act (le_refl t) hact
  · rw [others_moveOn]
    unfold Race.others
    rw [hid]
    exact h.others

/-- The transaction ends. -/
theorem closed (h : Alone store t s tx₀ s' tx) {act : RaceAct} {db : Database} (hact : act.claim? = some tx₀.id)
    (hstep : step store s' t act = { s'.close tx with db := db }) :
    ∃ s', Run (step store) (ofClaim tx₀.id) t s t s' ∧ s'.db = db ∧ s'.claims.find? tx₀.id = none := by
  refine ⟨_, h.run.tail t act (le_refl t) hact, by rw [hstep], ?_⟩
  rw [hstep, Table.find?_eq_none]
  intro hm
  obtain ⟨other, hother, hid⟩ := List.mem_map.1 hm
  have hne := (Table.mem_erase.1 hother).2
  simp [hid, h.id] at hne

theorem claiming (h : Alone store t s tx₀ s' tx) (statement : ClaimTx → Race) :
    s'.claiming tx₀.id statement = statement tx := by
  unfold Race.claiming
  rw [h.mine]

theorem rows (h : Alone store t s tx₀ s' tx) : [] ++ lockedRows (s'.others tx) = (s.heldFrom tx₀).rows := by
  rw [h.others]
  rfl

theorem locks (h : Alone store t s tx₀ s' tx) : advisory (s'.others tx) = (s.heldFrom tx₀).locks := by
  rw [h.others]
  rfl

/-- The query finds what the loop's does. -/
theorem nextQueued (h : Alone store t s tx₀ s' tx) :
    store.nextQueued s.db ⟨[] ++ lockedRows (s'.others tx), []⟩ tx.tenantId tx.request tx.now tx.passed =
      store.nextQueued s.db (s.heldFrom tx₀) tx₀.tenantId tx₀.request tx₀.now tx.passed := by
  obtain ⟨ht, hr, hn⟩ := h.asks
  rw [h.rows, ht, hr, hn]
  rfl

theorem choose (h : Alone store t s tx₀ s' tx) (hp : tx.phase = .choosing)
    (hn : store.nextQueued s.db (s.heldFrom tx₀) tx₀.tenantId tx₀.request tx₀.now tx.passed = some row) :
    ∃ s' tx', Alone store t s tx₀ s' tx' ∧ tx'.phase = .chosen row ∧ tx'.passed = tx.passed := by
  rw [← h.nextQueued] at hn
  obtain ⟨hm, hc, -⟩ := RunStore.nextQueued_spec hn
  have hq : RunStore.queuedFor tx.tenantId tx.request tx.now tx.passed row = true := by
    rw [RunStore.candidate, Bool.and_eq_true] at hc
    exact hc.1
  have hrow : s'.db.run? row.runId = some row := by
    rw [h.db]
    exact Table.find?_of_mem hm
  have hstep : step store s' t (.choose tx₀.id s.db []) = s'.choose store tx s.db [] := h.claiming _
  unfold Race.choose at hstep
  simp only [hp, hn, hrow, if_pos hq] at hstep
  exact ⟨_, _, h.next rfl hstep rfl ⟨rfl, rfl, rfl⟩, rfl, rfl⟩

/-- Room for the tenant, as `_tenant_has_room` finds it. -/
theorem tenant (h : Alone store t s tx₀ s' tx) (hp : tx.phase = .chosen row) :
    ∃ s' tx', Alone store t s tx₀ s' tx' ∧
      if store.tenantHasRoom s.db (s.heldFrom tx₀) row = true then tx'.phase = .tenantRoom row ∧ tx'.passed = tx.passed
      else tx'.phase = .choosing ∧ tx'.passed = tx.passed ++ [.tenant row.tenantId] := by
  have hlock : step store s' t (.lockTenant tx₀.id) = s'.lockTenant store tx := h.claiming _
  unfold Race.lockTenant at hlock
  rw [hp, h.locks] at hlock
  dsimp only at hlock
  cases hcap : store.perTenant with
  | none =>
    have hroom : store.tenantHasRoom s.db (s.heldFrom tx₀) row = true := by simp only [RunStore.tenantHasRoom, hcap]
    simp only [hcap] at hlock
    exact ⟨_, _, h.next rfl hlock rfl ⟨rfl, rfl, rfl⟩, by simp [hroom]⟩
  | some cap =>
    have hroom : store.tenantHasRoom s.db (s.heldFrom tx₀) row =
        (!(s.heldFrom tx₀).locks.contains (store.tenantLock row) && decide (s.db.leasedOf row.tenantId < cap)) := by
      simp only [RunStore.tenantHasRoom, hcap]
    simp only [hcap] at hlock
    cases hl : (s.heldFrom tx₀).locks.contains (store.tenantLock row) with
    | true =>
      rw [hl, if_pos rfl] at hlock
      rw [hl] at hroom
      exact ⟨_, _, h.next rfl hlock rfl ⟨rfl, rfl, rfl⟩, by simp [hroom, ClaimTx.passOver]⟩
    | false =>
      rw [hl, if_neg (by decide)] at hlock
      rw [hl] at hroom
      have h' := h.next rfl hlock rfl ⟨rfl, rfl, rfl⟩
      have hcount : step store _ t (.countTenant tx₀.id) = _ := h'.claiming _
      unfold Race.countTenant at hcount
      dsimp only at hcount
      rw [h'.db] at hcount
      by_cases hlt : s.db.leasedOf row.tenantId < cap
      · rw [if_pos hlt] at hcount
        exact ⟨_, _, h'.next rfl hcount rfl ⟨rfl, rfl, rfl⟩, by simp [hroom, hlt]⟩
      · rw [if_neg hlt] at hcount
        exact ⟨_, _, h'.next rfl hcount rfl ⟨rfl, rfl, rfl⟩, by simp [hroom, hlt, ClaimTx.passOver]⟩

/-- Room for the key, as `_key_has_room` finds it. -/
theorem key (h : Alone store t s tx₀ s' tx) (hp : tx.phase = .tenantRoom row) :
    ∃ s' tx', Alone store t s tx₀ s' tx' ∧
      if store.keyHasRoom s.db (s.heldFrom tx₀) row = true then tx'.phase = .taking row
      else tx'.phase = .choosing ∧ tx'.passed = tx.passed ++ [.key row.tenantId row.concurrencyKey] := by
  have hlock : step store s' t (.lockKey tx₀.id) = s'.lockKey store tx := h.claiming _
  unfold Race.lockKey at hlock
  rw [hp, h.locks] at hlock
  dsimp only at hlock
  cases hkey : row.concurrencyKey with
  | none =>
    have hroom : store.keyHasRoom s.db (s.heldFrom tx₀) row = true := by simp only [RunStore.keyHasRoom, hkey]
    simp only [hkey] at hlock
    exact ⟨_, _, h.next rfl hlock rfl ⟨rfl, rfl, rfl⟩, by simp [hroom]⟩
  | some key =>
    have hroom : store.keyHasRoom s.db (s.heldFrom tx₀) row =
        (!(s.heldFrom tx₀).locks.contains (store.keyLock row key) &&
          decide (s.db.runningWith row.tenantId key < store.perKey)) := by
      simp only [RunStore.keyHasRoom, hkey]
    simp only [hkey] at hlock
    cases hl : (s.heldFrom tx₀).locks.contains (store.keyLock row key) with
    | true =>
      rw [hl, if_pos rfl] at hlock
      rw [hl] at hroom
      exact ⟨_, _, h.next rfl hlock rfl ⟨rfl, rfl, rfl⟩, by simp [hroom, ClaimTx.passOver]⟩
    | false =>
      rw [hl, if_neg (by decide)] at hlock
      rw [hl] at hroom
      have h' := h.next rfl hlock rfl ⟨rfl, rfl, rfl⟩
      have hcount : step store _ t (.countKey tx₀.id) = _ := h'.claiming _
      unfold Race.countKey at hcount
      dsimp only at hcount
      rw [h'.db] at hcount
      by_cases hlt : s.db.runningWith row.tenantId key < store.perKey
      · rw [if_pos hlt] at hcount
        exact ⟨_, _, h'.next rfl hcount rfl ⟨rfl, rfl, rfl⟩, by simp [hroom, hlt]⟩
      · rw [if_neg hlt] at hcount
        exact ⟨_, _, h'.next rfl hcount rfl ⟨rfl, rfl, rfl⟩, by simp [hroom, hlt, hkey, ClaimTx.passOver]⟩

/-- The loop, turn by turn: the run it finds, or the answer that there is none. -/
theorem loop (fuel : Nat) : ∀ {s' : Race} {tx : ClaimTx}, Alone store t s tx₀ s' tx → tx.phase = .choosing →
    RunStore.open_ s.db tx₀.tenantId tx₀.request tx₀.now tx.passed < fuel →
    match store.claimLoop s.db (s.heldFrom tx₀) tx₀.tenantId tx₀.request tx₀.now fuel tx.passed with
    | some row => ∃ s' tx', Alone store t s tx₀ s' tx' ∧ tx'.phase = .taking row
    | none => ∃ s', Run (step store) (ofClaim tx₀.id) t s t s' ∧ s'.db = s.db ∧ s'.claims.find? tx₀.id = none := by
  induction fuel with
  | zero => intro s' tx _ _ h; omega
  | succ fuel ih =>
    intro s' tx h hp hopen
    unfold RunStore.claimLoop
    cases hn : store.nextQueued s.db (s.heldFrom tx₀) tx₀.tenantId tx₀.request tx₀.now tx.passed with
    | none =>
      rw [← h.nextQueued] at hn
      have hstep : step store s' t (.choose tx₀.id s.db []) = s'.choose store tx s.db [] := h.claiming _
      unfold Race.choose at hstep
      simp only [hp, hn] at hstep
      exact h.closed rfl (hstep.trans (by rw [← h.db]; rfl))
    | some row =>
      dsimp only
      -- a turn that passes over something leaves less to look at
      have fewer : ∀ {tx' : ClaimTx} {p : Passed}, tx'.passed = tx.passed ++ [p] → p.admits row = false →
          RunStore.open_ s.db tx₀.tenantId tx₀.request tx₀.now tx'.passed < fuel := by
        intro tx' p hpassed hadmits
        have := RunStore.open_lt hn hadmits
        rw [hpassed]
        omega
      obtain ⟨s₁, tx₁, h₁, hp₁, hpassed₁⟩ := h.choose hp hn
      obtain ⟨s₂, tx₂, h₂, hroom₂⟩ := h₁.tenant hp₁
      rw [hpassed₁] at hroom₂
      cases htenant : store.tenantHasRoom s.db (s.heldFrom tx₀) row with
      | false =>
        rw [htenant, if_neg (by decide)] at hroom₂
        simp only [Bool.not_false, if_true]
        rw [← hroom₂.2]
        exact ih h₂ hroom₂.1 (fewer hroom₂.2 (RunStore.admits_tenant_self row))
      | true =>
        rw [htenant, if_pos rfl] at hroom₂
        obtain ⟨s₃, tx₃, h₃, hroom₃⟩ := h₂.key hroom₂.1
        rw [hroom₂.2] at hroom₃
        cases hkey : store.keyHasRoom s.db (s.heldFrom tx₀) row with
        | false =>
          rw [hkey, if_neg (by decide)] at hroom₃
          simp only [Bool.not_true, Bool.false_eq_true, if_false, Bool.not_false, if_true]
          rw [← hroom₃.2]
          exact ih h₃ hroom₃.1 (fewer hroom₃.2 (RunStore.admits_key_self row))
        | true =>
          rw [hkey, if_pos rfl] at hroom₃
          simp only [Bool.not_true, Bool.false_eq_true, if_false]
          exact ⟨s₃, tx₃, h₃, hroom₃⟩

end Alone

/-- **A claim alone.**  A claim whose statements follow each other with nothing between them does what
`RunStore.claim` does with the locks of the other claims in its way. -/
theorem claim_alone (hm : s.claims.find? tx.id = some tx) (hp : tx.phase = .choosing) (hpassed : tx.passed = [])
    {db' : Database} {claimed : Option Claimed}
    (h : store.claim s.db (s.heldFrom tx) tx.tenantId tx.request tx.now = .ok (db', claimed)) :
    ∃ s', Run (step store) (ofClaim tx.id) t s t s' ∧ s'.db = db' ∧ s'.claims.find? tx.id = none := by
  have hloop := Alone.loop (s.db.runs.rows.length + 1) (@Alone.start store s tx t hm) hp
    (Nat.lt_succ_of_le List.countP_le_length)
  rw [hpassed] at hloop
  unfold RunStore.claim at h
  split at h
  · next hnone =>
    rw [hnone] at hloop
    cases h
    exact hloop
  · next row hrow =>
    rw [hrow] at hloop
    obtain ⟨s', tx', ha, hp'⟩ := hloop
    obtain ⟨⟨db'', claimed'⟩, htake, h⟩ := bind_ok.1 h
    cases h
    have hstep : step store s' t (.commit tx.id) = s'.commit store tx' := ha.claiming _
    unfold Race.commit at hstep
    obtain ⟨-, hr, hn⟩ := ha.asks
    simp only [hp', ha.db, hr, hn, htake] at hstep
    exact ha.closed rfl hstep

end

end Race

end AgentRuns
