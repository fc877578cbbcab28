import AgentRuns.Effects
import AgentRuns.Purges
import AgentRuns.Spelled

/-!
# Starts at the same time

A start is one transaction of up to three statements (READ COMMITTED: each sees what is committed when it
runs), and others commit between them.  `Starting` is the database with the starts in flight, and
`Starting.step` one statement of one of them:

    insert       INSERT … ON CONFLICT DO NOTHING: it waits for a start in flight whose row has its run id or
                 its key, and inserts nothing when a committed row has
    lookByKey    `_one(tenant_id, idempotency_key)`
    lookById     `_one(tenant_id, run_id)`
    commit       the row there for all to see, and the answer sent

With nothing between them they are `Database.start` (`start_alone`).  Two rows never share an idempotency key
(`Apart`), so what starts of one key are answered is one run, unless one names a run by its id that another
start made without that key (`answers_one_run`).
-/

namespace AgentRuns

open Relational Fallible Timed

/-! ## The system -/

/-- Where a start in flight stands. -/
inductive StartPhase where
  | inserting
  | inserted (row : RunRow)
  /-- it inserted nothing -/
  | lookingByKey
  | lookingById
  /-- it answers with the run; `purged` when that went since -/
  | answering (run : RunRecord) (purged : Bool)

/-- A start in flight: its transaction. -/
structure StartTx where
  id : Nat
  start : RunStart
  queue : Bool
  strict : Bool
  now : Instant
  phase : StartPhase

/-- A start that succeeded: what it named, and the run it was answered with. -/
structure Started where
  tenantId : String
  key : Option String
  named : String
  runId : String
deriving DecidableEq

/-- The database, the starts in flight, and the answers whose run is not purged. -/
structure Starting where
  db : Database
  starts : Table StartTx.id
  standing : List Started

inductive StartAct where
  /-- any other operation, whole -/
  | op (op : Op)
  | begin (id : Nat) (start : RunStart) (queue strict : Bool)
  | insert (id : Nat)
  | lookByKey (id : Nat)
  | lookById (id : Nat)
  /-- `heard` when the answer arrives -/
  | commit (id : Nat) (heard : Bool)
  | rollback (id : Nat)
  | purge (gone : List String)

/-- Does a unique constraint keep the two rows apart? -/
def RunRow.clashes (a b : RunRow) : Bool :=
  a.runId = b.runId || (a.idempotencyKey.isSome && a.tenantId = b.tenantId && a.idempotencyKey = b.idempotencyKey)

namespace StartTx

/-- The row a start in flight inserted. -/
def row? (tx : StartTx) : Option RunRow :=
  match tx.phase with
  | .inserted row => some row
  | _ => none

def started (tx : StartTx) (runId : String) : Started :=
  ⟨tx.start.tenantId, tx.start.idempotencyKey, tx.start.runId, runId⟩

/-- The run a start is about to answer with goes. -/
def purge (tx : StartTx) (gone : List String) : StartTx :=
  match tx.phase with
  | .answering run purged => { tx with phase := .answering run (purged || gone.contains run.runId) }
  | _ => tx

theorem purge_id (gone : List String) (tx : StartTx) : (tx.purge gone).id = tx.id := by
  unfold purge
  split <;> rfl

end StartTx

namespace Starting

def empty : Starting := ⟨Database.empty, Table.empty, []⟩

def moveOn (s : Starting) (tx : StartTx) : Starting := { s with starts := s.starts.put tx }

/-- The transaction ends. -/
def close (s : Starting) (tx : StartTx) : Starting := { s with starts := s.starts.erase fun other => other.id = tx.id }

/-- The rows the other starts in flight inserted. -/
def inFlight (s : Starting) (tx : StartTx) : List RunRow :=
  (s.starts.rows.filter fun other => other.id ≠ tx.id).filterMap StartTx.row?

/-! ### The statements of a start -/

def insert (s : Starting) (tx : StartTx) : Starting :=
  match tx.phase with
  | .inserting =>
    let row := startedRow tx.start tx.queue tx.now
    if row.fits = false then s.close tx
    else if s.db.conflicts row then s.moveOn { tx with phase := .lookingByKey }
    else if (s.inFlight tx).any row.clashes then s
    else s.moveOn { tx with phase := .inserted row }
  | _ => s

def lookByKey (s : Starting) (tx : StartTx) : Starting :=
  match tx.phase with
  | .lookingByKey =>
    match tx.start.idempotencyKey with
    | none => s.moveOn { tx with phase := .lookingById }
    | some key =>
      match if key = "" then none else s.db.keyed tx.start.tenantId (some key) with
      | none => s.moveOn { tx with phase := .lookingById }
      | some row =>
        let found := record row tx.now
        if tx.strict ∧ differing found tx.start tx.queue row.queuedAt.isSome ≠ [] then s.close tx
        else s.moveOn { tx with phase := .answering found false }
  | _ => s

def lookById (s : Starting) (tx : StartTx) : Starting :=
  match tx.phase with
  | .lookingById =>
    match s.db.one tx.start.tenantId tx.start.runId with
    | none => s.close tx
    | some row => s.moveOn { tx with phase := .answering (record row tx.now) false }
  | _ => s

/-- The start is answered with the run. -/
def answered (s : Starting) (tx : StartTx) (runId : String) (stands : Bool) : Starting :=
  { s.close tx with standing := if stands then s.standing ++ [tx.started runId] else s.standing }

def commit (s : Starting) (tx : StartTx) (heard : Bool) : Starting :=
  match tx.phase with
  | .inserted row =>
    { s.answered tx row.runId heard with db := { s.db with runs := s.db.runs.insert row } }
  | .answering run purged => s.answered tx run.runId (heard && !purged)
  | _ => s

/-! ### The others -/

/-- `purge_ended`: the runs go, and what was answered with them no longer stands. -/
def purge (s : Starting) (gone : List String) : Starting :=
  match s.db.deleteRuns gone with
  | .error _ => s
  | .ok db =>
    { db := db
      starts := s.starts.modify (·.purge gone) (StartTx.purge_id gone)
      standing := s.standing.filter fun a => !gone.contains a.runId }

/-- The start `id`, if it is in flight, goes on. -/
def starting (s : Starting) (id : Nat) (statement : StartTx → Starting) : Starting :=
  match s.starts.find? id with
  | none => s
  | some tx => statement tx

def isStart : Op → Bool
  | .start .. => true
  | _ => false

def step (store : RunStore) (s : Starting) (now : Instant) (act : StartAct) : Starting :=
  match act with
  | .op op => if isStart op then s else { s with db := apply store s.db now op }
  | .begin id start queue strict => { s with starts := s.starts.insert ⟨id, start, queue, strict, now, .inserting⟩ }
  | .insert id => s.starting id s.insert
  | .lookByKey id => s.starting id s.lookByKey
  | .lookById id => s.starting id s.lookById
  | .commit id heard => s.starting id fun tx => s.commit tx heard
  | .rollback id => s.starting id s.close
  | .purge gone => s.purge gone

end Starting

/-! ## What a row is kept by -/

/-- The columns the unique constraints are about: no change writes them. -/
def RunRow.ident (row : RunRow) : String × String × Option String := (row.runId, row.tenantId, row.idempotencyKey)

theorem clashes_ident {a b c d : RunRow} (h : a.ident = c.ident) (h' : b.ident = d.ident) : a.clashes b = c.clashes d := by
  simp only [RunRow.ident, Prod.mk.injEq] at h h'
  unfold RunRow.clashes
  rw [h.1, h.2.1, h.2.2, h'.1, h'.2.1, h'.2.2]

theorem clashes_comm (a b : RunRow) : a.clashes b = b.clashes a := by
  rw [Bool.eq_iff_iff]
  simp only [RunRow.clashes, Bool.or_eq_true, Bool.and_eq_true, decide_eq_true_eq]
  constructor
  · rintro (h | ⟨⟨hk, ht⟩, he⟩)
    · exact Or.inl h.symm
    · exact Or.inr ⟨⟨he ▸ hk, ht.symm⟩, he.symm⟩
  · rintro (h | ⟨⟨hk, ht⟩, he⟩)
    · exact Or.inl h.symm
    · exact Or.inr ⟨⟨he ▸ hk, ht.symm⟩, he.symm⟩

section
variable {store : RunStore} {now : Instant} {op : Op} {db db' : Database} {row : RunRow}

/-- A constraint stands in a row's way exactly if it clashes with a row that is there. -/
theorem conflicts_iff : db.conflicts row = true ↔ ∃ other ∈ db.runs.rows, other.clashes row = true := by
  unfold Database.conflicts Database.keyed Database.run? Table.find?
  rw [Bool.or_eq_true, Bool.and_eq_true, List.find?_isSome, List.find?_isSome]
  simp only [RunRow.clashes, Bool.or_eq_true, Bool.and_eq_true, decide_eq_true_eq]
  constructor
  · rintro (⟨other, hm, h⟩ | ⟨hk, other, hm, ht, he⟩)
    · exact ⟨other, hm, Or.inl h⟩
    · exact ⟨other, hm, Or.inr ⟨⟨he ▸ hk, ht⟩, he⟩⟩
  · rintro ⟨other, hm, h | ⟨⟨hk, ht⟩, he⟩⟩
    · exact Or.inl ⟨other, hm, h⟩
    · exact Or.inr ⟨he ▸ hk, other, hm, ht, he⟩

/-- The rows after any operation but a start are those before it. -/
theorem idents_apply (hop : Starting.isStart op = false) :
    (∀ row' ∈ (apply store db now op).runs.rows, ∃ row ∈ db.runs.rows, row'.ident = row.ident) ∧
      ∀ row ∈ db.runs.rows, ∃ row' ∈ (apply store db now op).runs.rows, row'.ident = row.ident := by
  have same : ∀ {row row' : RunRow}, Change store now op row row' → row'.ident = row.ident := by
    intro row row' h
    unfold RunRow.ident
    rw [h.same.1, h.same.2.1, h.same.2.2.2.2]
  constructor
  · intro row' hm
    rcases apply_run (run?_of_mem hm) with hr | ⟨row, hr, hc, -⟩ | ⟨-, start, queue, strict, rfl, -⟩
    · exact ⟨row', Table.mem_of_find? hr, rfl⟩
    · exact ⟨row, Table.mem_of_find? hr, same hc⟩
    · cases hop
  · intro row hm
    obtain ⟨row', hr', rfl | hc⟩ := run_apply store now op (run?_of_mem hm)
    · exact ⟨row', Table.mem_of_find? hr', rfl⟩
    · exact ⟨row', Table.mem_of_find? hr', same hc⟩

/-- A purge takes rows away. -/
theorem mem_deleteRuns {gone : List String} (h : db.deleteRuns gone = .ok db') :
    ∀ row, row ∈ db'.runs.rows ↔ row ∈ db.runs.rows ∧ row.runId ∉ gone := by
  obtain ⟨_, -, h⟩ := bind_ok.1 h
  cases h
  intro row
  rw [Table.mem_erase]
  simp

end

/-! ## The invariant -/

/-- The answer names a run of its tenant; that run carries the key, or is the one the start named. -/
def AnswerStands (db : Database) (a : Started) : Prop :=
  ∃ row, db.one a.tenantId a.runId = some row ∧
    ∀ key, a.key = some key → row.idempotencyKey = some key ∨ a.runId = a.named

section
variable {row : RunRow}

theorem one_of_mem {db : Database} (h : row ∈ db.runs.rows) : db.one row.tenantId row.runId = some row :=
  Database.one_eq_some.2 ⟨run?_of_mem h, rfl⟩

theorem mem_of_one {db : Database} {tenantId runId : String} (h : db.one tenantId runId = some row) :
    row ∈ db.runs.rows ∧ row.runId = runId ∧ row.tenantId = tenantId := by
  obtain ⟨hr, ht⟩ := Database.one_eq_some.1 h
  exact ⟨Table.mem_of_find? hr, Table.key_of_find? hr, ht⟩

/-- An answer stands while the row it named is there, in whatever state. -/
theorem AnswerStands.mono {db db' : Database} {a : Started} (h : AnswerStands db a)
    (hrows : ∀ row ∈ db.runs.rows, row.runId = a.runId → ∃ row' ∈ db'.runs.rows, row'.ident = row.ident) : AnswerStands db' a := by
  obtain ⟨row, hone, hkey⟩ := h
  obtain ⟨hm, hid, ht⟩ := mem_of_one hone
  obtain ⟨row', hm', hident⟩ := hrows row hm hid
  simp only [RunRow.ident, Prod.mk.injEq] at hident
  have hone' := one_of_mem hm'
  rw [hident.1, hident.2.1, hid, ht] at hone'
  refine ⟨row', hone', fun key hk => ?_⟩
  rw [hident.2.2]
  exact hkey key hk

end

namespace Starting

/-- No two rows clash, committed or in flight. -/
structure Apart (s : Starting) : Prop where
  committed : ∀ a ∈ s.db.runs.rows, ∀ b ∈ s.db.runs.rows, a.clashes b = true → a.runId = b.runId
  cleared : ∀ tx ∈ s.starts.rows, ∀ row, tx.row? = some row → ∀ other ∈ s.db.runs.rows, other.clashes row = false
  pending : ∀ tx ∈ s.starts.rows, ∀ tx' ∈ s.starts.rows, ∀ row row', tx.row? = some row → tx'.row? = some row' →
    row.clashes row' = true → tx.id = tx'.id

structure Inv (s : Starting) : Prop extends Apart s where
  own : ∀ tx ∈ s.starts.rows, ∀ row, tx.row? = some row →
    row.ident = (tx.start.runId, tx.start.tenantId, tx.start.idempotencyKey)
  answering : ∀ tx ∈ s.starts.rows, ∀ run, tx.phase = .answering run false → AnswerStands s.db (tx.started run.runId)
  standing : ∀ a ∈ s.standing, AnswerStands s.db a

section
variable {store : RunStore} {s : Starting} {tx tx' : StartTx} {db' : Database} {row : RunRow}

/-- The database is written, the rows in it being those there were. -/
theorem Inv.written (h : Inv s) (hback : ∀ row' ∈ db'.runs.rows, ∃ row ∈ s.db.runs.rows, row'.ident = row.ident)
    (hforth : ∀ row ∈ s.db.runs.rows, ∃ row' ∈ db'.runs.rows, row'.ident = row.ident) : Inv { s with db := db' } where
  committed a ha b hb hab := by
    obtain ⟨a', ha', hia⟩ := hback a ha
    obtain ⟨b', hb', hib⟩ := hback b hb
    rw [clashes_ident hia hib] at hab
    have hid := h.committed a' ha' b' hb' hab
    simp only [RunRow.ident, Prod.mk.injEq] at hia hib
    rw [hia.1, hib.1, hid]
  cleared tx htx row hrow other ho := by
    obtain ⟨other', ho', hi⟩ := hback other ho
    rw [clashes_ident hi rfl]
    exact h.cleared tx htx row hrow other' ho'
  pending := h.pending
  own := h.own
  answering tx htx run hrun := (h.answering tx htx run hrun).mono fun row hm _ => hforth row hm
  standing a ha := (h.standing a ha).mono fun row hm _ => hforth row hm

/-- A start ends that wrote nothing. -/
theorem Inv.close (h : Inv s) (tx : StartTx) : Inv (s.close tx) where
  committed := h.committed
  cleared tx' htx' := h.cleared tx' (Table.mem_erase.1 htx').1
  pending tx' htx' tx'' htx'' := h.pending tx' (Table.mem_erase.1 htx').1 tx'' (Table.mem_erase.1 htx'').1
  own tx' htx' := h.own tx' (Table.mem_erase.1 htx').1
  answering tx' htx' := h.answering tx' (Table.mem_erase.1 htx').1
  standing := h.standing

/-- A start in flight goes on. -/
theorem Inv.moveOn (h : Inv s)
    (hcleared : ∀ row, tx'.row? = some row → (∀ other ∈ s.db.runs.rows, other.clashes row = false) ∧
      ∀ other ∈ s.inFlight tx', row.clashes other = false)
    (hown : ∀ row, tx'.row? = some row → row.ident = (tx'.start.runId, tx'.start.tenantId, tx'.start.idempotencyKey))
    (hanswering : ∀ run, tx'.phase = .answering run false → AnswerStands s.db (tx'.started run.runId)) : Inv (s.moveOn tx') := by
  have hflight : ∀ other ∈ s.starts.rows, other.id ≠ tx'.id → ∀ row, other.row? = some row → row ∈ s.inFlight tx' :=
    fun other ho hne row hrow =>
      List.mem_filterMap.2 ⟨other, List.mem_filter.2 ⟨ho, by simpa using hne⟩, hrow⟩
  refine ⟨⟨h.committed, ?_, ?_⟩, ?_, ?_, h.standing⟩
  · intro other ho row hrow
    rcases Table.mem_put.1 ho with ⟨rfl, -⟩ | ⟨ho, -⟩
    · exact (hcleared row hrow).1
    · exact h.cleared other ho row hrow
  · intro a ha b hb row row' hrow hrow' hclash
    rcases Table.mem_put.1 ha with ⟨rfl, -⟩ | ⟨ha', hane⟩
    · rcases Table.mem_put.1 hb with ⟨rfl, -⟩ | ⟨hb', hbne⟩
      · rfl
      · rw [(hcleared row hrow).2 row' (hflight b hb' hbne row' hrow')] at hclash
        cases hclash
    · rcases Table.mem_put.1 hb with ⟨rfl, -⟩ | ⟨hb', -⟩
      · rw [clashes_comm, (hcleared row' hrow').2 row (hflight a ha' hane row hrow)] at hclash
        cases hclash
      · exact h.pending a ha' b hb' row row' hrow hrow' hclash
  · intro other ho row hrow
    rcases Table.mem_put.1 ho with ⟨rfl, -⟩ | ⟨ho, -⟩
    · exact hown row hrow
    · exact h.own other ho row hrow
  · intro other ho run hrun
    rcases Table.mem_put.1 ho with ⟨rfl, -⟩ | ⟨ho, -⟩
    · exact hanswering run hrun
    · exact h.answering other ho run hrun

/-- It goes on with no row and no answer yet. -/
theorem Inv.looking (h : Inv s) (hrow : tx'.row? = none) (hphase : ∀ run purged, tx'.phase ≠ .answering run purged) :
    Inv (s.moveOn tx') :=
  h.moveOn (fun row hr => by rw [hrow] at hr; cases hr) (fun row hr => by rw [hrow] at hr; cases hr)
    (fun run hr => absurd hr (hphase run false))

/-- It found the run it answers with. -/
theorem Inv.found (h : Inv s) {run : RunRecord} (hs : AnswerStands s.db (tx.started run.runId)) :
    Inv (s.moveOn { tx with phase := .answering run false }) :=
  h.moveOn (fun row hr => by cases hr) (fun row hr => by cases hr) (fun run' hr => by cases hr; exact hs)

/-! ### One lemma for each statement -/

theorem Inv.insert (h : Inv s) : Inv (s.insert tx) := by
  unfold Starting.insert
  split
  · dsimp only
    split
    · exact h.close tx
    · split
      · exact h.looking rfl (fun _ _ hp => by cases hp)
      · next hnew =>
        split
        · exact h
        · next hfree =>
          refine h.moveOn ?_ ?_ (fun run hp => by cases hp)
          · intro row hrow
            cases hrow
            constructor
            · intro other ho
              cases hc : other.clashes (startedRow tx.start tx.queue tx.now) with
              | false => rfl
              | true => exact absurd (conflicts_iff.2 ⟨other, ho, hc⟩) hnew
            · intro other ho
              cases hc : (startedRow tx.start tx.queue tx.now).clashes other with
              | false => rfl
              | true => exact absurd (List.any_eq_true.2 ⟨other, ho, hc⟩) hfree
          · intro row hrow
            cases hrow
            rfl
  · exact h

theorem Inv.lookByKey (h : Inv s) : Inv (s.lookByKey tx) := by
  unfold Starting.lookByKey
  split
  · split
    · exact h.looking rfl (fun _ _ hp => by cases hp)
    · next key hkey =>
      split
      · exact h.looking rfl (fun _ _ hp => by cases hp)
      · next row hrow =>
        have hfound : s.db.keyed tx.start.tenantId (some key) = some row := by
          split at hrow
          · cases hrow
          · exact hrow
        have hm := List.mem_of_find?_eq_some hfound
        have hp := List.find?_some hfound
        simp only [decide_eq_true_eq] at hp
        dsimp only
        split
        · exact h.close tx
        · refine h.found ⟨row, ?_, fun key' hk => Or.inl ?_⟩
          · have hone := one_of_mem hm
            rw [hp.1] at hone
            exact hone
          · rw [hp.2, ← hkey]
            exact hk
  · exact h

theorem Inv.lookById (h : Inv s) : Inv (s.lookById tx) := by
  unfold Starting.lookById
  split
  · split
    · exact h.close tx
    · next row hrow =>
      obtain ⟨-, hid, -⟩ := mem_of_one hrow
      exact h.found ⟨row, by rw [← hrow]; exact congrArg _ hid, fun _ _ => Or.inr hid⟩
  · exact h

/-- The answer is one more that stands. -/
theorem Inv.answered (h : Inv s) {runId : String} {stands : Bool} (hs : stands = true → AnswerStands s.db (tx.started runId)) :
    Inv (s.answered tx runId stands) := by
  refine { h.close tx with standing := ?_ }
  intro a ha
  cases stands with
  | false => exact h.standing a ha
  | true =>
    rcases List.mem_append.1 ha with ha | ha
    · exact h.standing a ha
    · rw [List.mem_singleton.1 ha]
      exact hs rfl

/-- What a start in flight inserted is there for all to see. -/
theorem Inv.inserted (h : Inv s) (htx : tx ∈ s.starts.rows) (hrow : tx.row? = some row) :
    Inv { s.close tx with db := { s.db with runs := s.db.runs.insert row } } ∧
      row ∈ (s.db.runs.insert row).rows := by
  have hclear := h.cleared tx htx row hrow
  have hnew : s.db.runs.find? row.runId = none := by
    rw [Table.find?_eq_none]
    intro hm
    obtain ⟨other, ho, hid⟩ := List.mem_map.1 hm
    have := hclear other ho
    simp [RunRow.clashes, hid] at this
  have hrows : (s.db.runs.insert row).rows = s.db.runs.rows ++ [row] := Table.rows_insert hnew
  have hmem : ∀ {a : RunRow}, a ∈ (s.db.runs.insert row).rows ↔ a ∈ s.db.runs.rows ∨ a = row := by
    intro a
    rw [hrows, List.mem_append, List.mem_singleton]
  refine ⟨⟨⟨?_, ?_, (h.close tx).pending⟩, (h.close tx).own, ?_, ?_⟩, hmem.2 (Or.inr rfl)⟩
  · intro a ha b hb hab
    rcases hmem.1 ha with ha' | rfl
    · rcases hmem.1 hb with hb' | rfl
      · exact h.committed a ha' b hb' hab
      · rw [hclear a ha'] at hab
        cases hab
    · rcases hmem.1 hb with hb' | rfl
      · rw [clashes_comm, hclear b hb'] at hab
        cases hab
      · rfl
  · intro other ho row' hrow' a ha
    obtain ⟨ho', hne⟩ := Table.mem_erase.1 ho
    rcases hmem.1 ha with ha' | rfl
    · exact h.cleared other ho' row' hrow' a ha'
    · cases hc : a.clashes row' with
      | false => rfl
      | true => simp [h.pending tx htx other ho' a row' hrow hrow' hc] at hne
  · intro other ho run hrun
    exact ((h.close tx).answering other ho run hrun).mono fun a ha _ => ⟨a, hmem.2 (Or.inl ha), rfl⟩
  · intro a ha
    exact (h.standing a ha).mono fun a ha _ => ⟨a, hmem.2 (Or.inl ha), rfl⟩

theorem Inv.commit (h : Inv s) (htx : tx ∈ s.starts.rows) (heard : Bool) : Inv (s.commit tx heard) := by
  unfold Starting.commit
  split
  · next row hphase =>
    have hrow : tx.row? = some row := by
      unfold StartTx.row?
      rw [hphase]
    obtain ⟨hi, hm⟩ := h.inserted htx hrow
    have hident := h.own tx htx row hrow
    simp only [RunRow.ident, Prod.mk.injEq] at hident
    refine { hi with standing := ?_ }
    intro a ha
    cases heard with
    | false => exact hi.standing a ha
    | true =>
      rcases List.mem_append.1 ha with ha | ha
      · exact hi.standing a ha
      · rw [List.mem_singleton.1 ha]
        refine ⟨row, ?_, fun key hk => Or.inl (hident.2.2.trans hk)⟩
        have hone := @one_of_mem row { s.db with runs := s.db.runs.insert row } hm
        rw [hident.2.1] at hone
        exact hone
  · next run purged hphase =>
    refine h.answered fun hs => h.answering tx htx run ?_
    rw [Bool.and_eq_true, Bool.not_eq_true'] at hs
    rw [hphase, hs.2]
  · exact h

theorem purge_row? (gone : List String) (tx : StartTx) : (tx.purge gone).row? = tx.row? := by
  unfold StartTx.purge
  split
  · next hphase =>
    unfold StartTx.row?
    rw [hphase]
  · rfl

theorem purge_start (gone : List String) (tx : StartTx) : (tx.purge gone).start = tx.start := by
  unfold StartTx.purge
  split <;> rfl

theorem purge_answering {gone : List String} {tx : StartTx} {run : RunRecord}
    (h : (tx.purge gone).phase = .answering run false) : tx.phase = .answering run false ∧ run.runId ∉ gone := by
  unfold StartTx.purge at h
  split at h
  · next run' purged hphase =>
    simp only [StartPhase.answering.injEq, Bool.or_eq_false_iff] at h
    obtain ⟨rfl, rfl, hgone⟩ := h
    exact ⟨hphase, by simpa using hgone⟩
  · next hphase => exact absurd h (hphase run false)

theorem Inv.purge (h : Inv s) (gone : List String) : Inv (s.purge gone) := by
  unfold Starting.purge
  split
  · exact h
  · next db' hdelete =>
    have hrows := mem_deleteRuns hdelete
    have stays : ∀ {a : Started}, AnswerStands s.db a → a.runId ∉ gone → AnswerStands db' a := fun hs hgone =>
      hs.mono fun row hm hid => ⟨row, (hrows row).2 ⟨hm, hid ▸ hgone⟩, rfl⟩
    have back : ∀ {tx' : StartTx}, tx' ∈ (s.starts.modify (·.purge gone) (StartTx.purge_id gone)).rows →
        ∃ tx ∈ s.starts.rows, tx.purge gone = tx' := List.mem_map.1
    refine ⟨⟨?_, ?_, ?_⟩, ?_, ?_, ?_⟩
    · intro a ha b hb
      exact h.committed a ((hrows a).1 ha).1 b ((hrows b).1 hb).1
    · intro tx' htx' row hrow other ho
      obtain ⟨tx, htx, rfl⟩ := back htx'
      exact h.cleared tx htx row (purge_row? gone tx ▸ hrow) other ((hrows other).1 ho).1
    · intro a ha b hb row row' hrow hrow' hclash
      obtain ⟨a', ha', rfl⟩ := back ha
      obtain ⟨b', hb', rfl⟩ := back hb
      rw [purge_row?] at hrow hrow'
      rw [StartTx.purge_id, StartTx.purge_id]
      exact h.pending a' ha' b' hb' row row' hrow hrow' hclash
    · intro tx' htx' row hrow
      obtain ⟨tx, htx, rfl⟩ := back htx'
      rw [purge_row?] at hrow
      rw [purge_start]
      exact h.own tx htx row hrow
    · intro tx' htx' run hrun
      obtain ⟨tx, htx, rfl⟩ := back htx'
      obtain ⟨hrun, hgone⟩ := purge_answering hrun
      unfold StartTx.started
      rw [purge_start]
      exact stays (h.answering tx htx run hrun) hgone
    · intro a ha
      obtain ⟨ha, hgone⟩ := List.mem_filter.1 ha
      exact stays (h.standing a ha) (by simpa using hgone)

theorem Inv.begin (h : Inv s) {new : StartTx} (hphase : new.phase = .inserting) :
    Inv { s with starts := s.starts.insert new } := by
  have hmem : ∀ {tx : StartTx}, tx ∈ (s.starts.insert new).rows → tx ∈ s.starts.rows ∨ tx = new := by
    intro tx htx
    by_cases hid : new.id ∈ s.starts.rows.map StartTx.id
    · rw [Table.insert_of_mem hid] at htx
      exact Or.inl htx
    · rw [Table.rows_insert (Table.find?_eq_none.2 hid), List.mem_append, List.mem_singleton] at htx
      exact htx
  have hnone : new.row? = none := by
    unfold StartTx.row?
    rw [hphase]
  have old : ∀ {tx : StartTx} {row : RunRow}, tx ∈ (s.starts.insert new).rows → tx.row? = some row → tx ∈ s.starts.rows := by
    intro tx row htx hrow
    rcases hmem htx with htx | rfl
    · exact htx
    · rw [hnone] at hrow
      cases hrow
  refine ⟨⟨h.committed, ?_, ?_⟩, ?_, ?_, h.standing⟩
  · exact fun tx htx row hrow => h.cleared tx (old htx hrow) row hrow
  · exact fun a ha b hb row row' hrow hrow' => h.pending a (old ha hrow) b (old hb hrow') row row' hrow hrow'
  · exact fun tx htx row hrow => h.own tx (old htx hrow) row hrow
  · intro tx htx run hrun
    rcases hmem htx with htx | rfl
    · exact h.answering tx htx run hrun
    · rw [hphase] at hrun
      cases hrun

theorem Inv.starting (h : Inv s) {id : Nat} {statement : StartTx → Starting}
    (hs : ∀ tx ∈ s.starts.rows, Inv (statement tx)) : Inv (s.starting id statement) := by
  unfold Starting.starting
  split
  · exact h
  · next tx htx => exact hs tx (Table.mem_of_find? htx)

/-- **Every statement keeps the rows apart and the answers standing.** -/
theorem Inv.step (h : Inv s) (now : Instant) (act : StartAct) : Inv (s.step store now act) := by
  cases act with
  | op op =>
    unfold Starting.step
    dsimp only
    cases hop : isStart op with
    | true => exact h
    | false =>
      obtain ⟨hback, hforth⟩ := @idents_apply store now op s.db hop
      exact h.written hback hforth
  | begin id start queue strict => exact h.begin rfl
  | insert id => exact h.starting fun _ _ => h.insert
  | lookByKey id => exact h.starting fun _ _ => h.lookByKey
  | lookById id => exact h.starting fun _ _ => h.lookById
  | commit id heard => exact h.starting fun _ htx => h.commit htx heard
  | rollback id => exact h.starting fun tx _ => h.close tx
  | purge gone => exact h.purge gone

theorem inv_empty : Inv empty where
  committed a ha := by cases ha
  cleared tx htx := by cases htx
  pending tx htx := by cases htx
  own tx htx := by cases htx
  answering tx htx := by cases htx
  standing a ha := by cases ha

theorem run_inv {t t' : Instant} (h : Run (Starting.step store) anything t empty t' s) : Inv s :=
  h.invariant' Inv (fun _ now act hi _ => hi.step now act) inv_empty

end

end Starting

/-! ## One run for one key -/

/-- The run carries the key of the start it answers. -/
def Started.Carried (a : Started) (db : Database) : Prop :=
  ∃ row, db.one a.tenantId a.runId = some row ∧ row.idempotencyKey = a.key

/-- The start was answered with the run whose id it named, and that one does not carry its key. -/
def Started.ById (a : Started) (db : Database) : Prop :=
  ∃ row, db.one a.tenantId a.runId = some row ∧ a.runId = a.named ∧ row.idempotencyKey ≠ a.key

/-- **One run for one key.**  However starts, other operations and purges interleave, what starts of one tenant and
key are answered is one run, which carries the key, as long as it is not purged; but for a start answered with the
run whose id it names, that does not carry the key. -/
theorem answers_one_run {store : RunStore} {t t' : Instant} {s : Starting}
    (h : Run (Starting.step store) anything t Starting.empty t' s) {a b : Started} (ha : a ∈ s.standing)
    (hb : b ∈ s.standing) (htenant : a.tenantId = b.tenantId) {key : String} (hka : a.key = some key)
    (hkb : b.key = some key) (hida : ¬ a.ById s.db) (hidb : ¬ b.ById s.db) : a.runId = b.runId ∧ a.Carried s.db := by
  have hi := Starting.run_inv h
  have carried : ∀ {c : Started}, c ∈ s.standing → c.key = some key → ¬ c.ById s.db → c.Carried s.db := by
    intro c hc hk hid
    obtain ⟨row, hone, hrow⟩ := hi.standing c hc
    refine ⟨row, hone, ?_⟩
    by_contra hne
    rcases hrow key hk with hcarries | hnamed
    · exact hne (hcarries.trans hk.symm)
    · exact hid ⟨row, hone, hnamed, hne⟩
  obtain ⟨row, hone, hkey⟩ := carried ha hka hida
  obtain ⟨row', hone', hkey'⟩ := carried hb hkb hidb
  obtain ⟨hm, hid, ht⟩ := mem_of_one hone
  obtain ⟨hm', hid', ht'⟩ := mem_of_one hone'
  have hclash : row.clashes row' = true := by
    simp [RunRow.clashes, hkey, hkey', hka, hkb, ht, ht', htenant]
  refine ⟨?_, row, hone, hkey⟩
  rw [← hid, ← hid']
  exact hi.committed row hm row' hm' hclash

/-- A start from its first statement to its last. -/
def startsAlone (now : Instant) (id : Nat) (start : RunStart) (queue strict : Bool) : List (Instant × StartAct) :=
  [(now, .begin id start queue strict), (now, .insert id), (now, .lookByKey id), (now, .lookById id),
    (now, .commit id true)]

/-- A key used twice. -/
def keyedTwice : List (Instant × StartAct) :=
  startsAlone 0 1 { smallStart with idempotencyKey := some "k" } false true ++
    startsAlone 1 2 { smallStart with runId := "s", idempotencyKey := some "k" } false true

theorem keyedTwice_one_run : ∃ (s : Starting) (a b : Started), a ∈ s.standing ∧ b ∈ s.standing ∧ a.named ≠ b.named ∧
    a.runId = b.runId ∧ a.Carried s.db := by
  have hadmitted : Run.Admitted (Starting.step smallStore) anything 0 .empty keyedTwice := by
    norm_num [keyedTwice, startsAlone, Run.Admitted, anything]
  obtain ⟨t', hrun⟩ := Run.replay hadmitted
  have hstanding : (Run.after (Starting.step smallStore) .empty keyedTwice).standing =
      [⟨"t", some "k", "r", "r"⟩, ⟨"t", some "k", "s", "r"⟩] := by decide +kernel
  have hcarries : ((Run.after (Starting.step smallStore) .empty keyedTwice).db.one "t" "r").all
      (·.idempotencyKey = some "k") = true := by decide +kernel
  have hnot : ∀ named, ¬ Started.ById ⟨"t", some "k", named, "r"⟩ (Run.after (Starting.step smallStore) .empty keyedTwice).db := by
    rintro named ⟨row, hone, -, hne⟩
    rw [Option.all_eq_true] at hcarries
    exact hne (of_decide_eq_true (hcarries row hone))
  have ha : ⟨"t", some "k", "r", "r"⟩ ∈ (Run.after (Starting.step smallStore) .empty keyedTwice).standing := by
    rw [hstanding]
    exact List.mem_cons_self
  have hb : ⟨"t", some "k", "s", "r"⟩ ∈ (Run.after (Starting.step smallStore) .empty keyedTwice).standing := by
    rw [hstanding]
    exact List.mem_cons_of_mem _ List.mem_cons_self
  exact ⟨_, _, _, ha, hb, by decide, answers_one_run hrun ha hb rfl rfl rfl (hnot _) (hnot _)⟩

/-- A run without a key; a start of it with one; and a start of that key under another id. -/
def keyedTooLate : List (Instant × StartAct) :=
  startsAlone 0 1 smallStart false true ++
    startsAlone 1 2 { smallStart with idempotencyKey := some "k" } false true ++
    startsAlone 2 3 { smallStart with runId := "s", idempotencyKey := some "k" } false true

/-- Two starts of one key are answered two runs. -/
theorem one_key_two_runs : ¬ ∀ (store : RunStore) (t t' : Instant) (s : Starting),
    Run (Starting.step store) anything t Starting.empty t' s → ∀ a ∈ s.standing, ∀ b ∈ s.standing,
      a.tenantId = b.tenantId → ∀ key, a.key = some key → b.key = some key → a.runId = b.runId := by
  intro h
  have hadmitted : Run.Admitted (Starting.step smallStore) anything 0 .empty keyedTooLate := by
    norm_num [keyedTooLate, startsAlone, Run.Admitted, anything]
  obtain ⟨t', hrun⟩ := Run.replay hadmitted
  have hstanding : (Run.after (Starting.step smallStore) .empty keyedTooLate).standing =
      [⟨"t", none, "r", "r"⟩, ⟨"t", some "k", "r", "r"⟩, ⟨"t", some "k", "s", "s"⟩] := by decide +kernel
  have hsame := h smallStore 0 t' _ hrun ⟨"t", some "k", "r", "r"⟩ (by rw [hstanding]; simp)
    ⟨"t", some "k", "s", "s"⟩ (by rw [hstanding]; simp) rfl "k" rfl rfl
  exact absurd hsame (by decide)

/-! ## A start nothing comes between -/

namespace Starting

/-- The database with one start in flight. -/
def single (db : Database) (standing : List Started) (tx : StartTx) : Starting := ⟨db, Table.empty.insert tx, standing⟩

section
variable {db : Database} {standing : List Started} {tx : StartTx}

theorem single_moveOn (phase : StartPhase) : (single db standing tx).moveOn { tx with phase := phase } =
    single db standing { tx with phase := phase } := by
  unfold moveOn single
  congr 1
  unfold Table.put Table.insert Table.empty
  simp

theorem single_close : (single db standing tx).close tx = ⟨db, Table.empty, standing⟩ := by
  unfold close single
  congr 1
  unfold Table.erase Table.insert Table.empty
  simp

theorem single_starting (statement : StartTx → Starting) :
    (single db standing tx).starting tx.id statement = statement tx := by
  unfold Starting.starting single
  rw [Table.find?_insert rfl, if_pos rfl]

theorem single_inFlight : (single db standing tx).inFlight tx = [] := by
  unfold inFlight single
  rw [Table.rows_insert rfl]
  simp [Table.empty]

end

/-- A statement of the one start in flight. -/
theorem single_step {store : RunStore} {db : Database} {standing : List Started} {tx : StartTx} {now : Instant} :
    (single db standing tx).step store now (.insert tx.id) = (single db standing tx).insert tx ∧
      (single db standing tx).step store now (.lookByKey tx.id) = (single db standing tx).lookByKey tx ∧
      (single db standing tx).step store now (.lookById tx.id) = (single db standing tx).lookById tx ∧
      (single db standing tx).step store now (.commit tx.id true) = (single db standing tx).commit tx true :=
  ⟨single_starting _, single_starting _, single_starting _, single_starting _⟩

section
variable (store : RunStore) (db : Database) (standing : List Started) (tx : StartTx) (now : Instant)

/-- The commit of a start that answers with a run it found. -/
theorem after_answering {run : RunRecord} (h : tx.phase = .answering run false) :
    Run.after (step store) (single db standing tx) [(now, .commit tx.id true)] =
      ⟨db, Table.empty, standing ++ [tx.started run.runId]⟩ := by
  show step store (single db standing tx) now (.commit tx.id true) = _
  rw [single_step.2.2.2]
  unfold commit
  rw [h]
  show { (single db standing tx).close tx with standing := standing ++ [tx.started run.runId] } = _
  rw [single_close]

/-- The statements of a start that found nothing under its key. -/
theorem after_lookingById (h : tx.phase = .lookingById) :
    Run.after (step store) (single db standing tx) [(now, .lookById tx.id), (now, .commit tx.id true)] =
      match db.one tx.start.tenantId tx.start.runId with
      | none => ⟨db, Table.empty, standing⟩
      | some row => ⟨db, Table.empty, standing ++ [tx.started row.runId]⟩ := by
  show Run.after (step store) (step store (single db standing tx) now (.lookById tx.id)) _ = _
  rw [single_step.2.2.1]
  unfold lookById
  rw [h]
  dsimp only
  show Run.after (step store) (match db.one tx.start.tenantId tx.start.runId with
    | none => (single db standing tx).close tx
    | some row => (single db standing tx).moveOn { tx with phase := .answering (record row tx.now) false }) _ = _
  cases db.one tx.start.tenantId tx.start.runId with
  | none =>
    dsimp only
    rw [single_close]
    rfl
  | some row =>
    dsimp only
    rw [single_moveOn]
    exact after_answering store db standing { tx with phase := .answering (record row tx.now) false } now rfl

/-- The statements of a start that inserted nothing. -/
theorem after_lookingByKey (h : tx.phase = .lookingByKey) :
    Run.after (step store) (single db standing tx) [(now, .lookByKey tx.id), (now, .lookById tx.id), (now, .commit tx.id true)] =
      match db.startedBefore tx.start tx.queue tx.strict tx.now with
      | .error _ => ⟨db, Table.empty, standing⟩
      | .ok run => ⟨db, Table.empty, standing ++ [tx.started run.runId]⟩ := by
  -- with nothing found by its key, the start goes on to look by its id
  have hbyId : Run.after (step store) ((single db standing tx).moveOn { tx with phase := .lookingById })
      [(now, .lookById tx.id), (now, .commit tx.id true)] =
      match db.one tx.start.tenantId tx.start.runId with
      | none => ⟨db, Table.empty, standing⟩
      | some row => ⟨db, Table.empty, standing ++ [tx.started row.runId]⟩ := by
    rw [single_moveOn]
    exact after_lookingById store db standing { tx with phase := .lookingById } now rfl
  have hdb : (single db standing tx).db = db := rfl
  show Run.after (step store) (step store (single db standing tx) now (.lookByKey tx.id)) _ = _
  rw [single_step.2.1]
  unfold lookByKey Database.startedBefore
  rw [h, hdb]
  dsimp only
  cases tx.start.idempotencyKey with
  | none =>
    dsimp only
    rw [hbyId]
    cases db.one tx.start.tenantId tx.start.runId <;> rfl
  | some key =>
    dsimp only
    cases (if key = "" then none else db.keyed tx.start.tenantId (some key)) with
    | none =>
      dsimp only
      rw [hbyId]
      cases db.one tx.start.tenantId tx.start.runId <;> rfl
    | some row =>
      dsimp only
      split
      · rw [single_close]
        rfl
      · rw [single_moveOn]
        -- it has its answer: it does not look by id
        have hskip : step store (single db standing { tx with phase := .answering (record row tx.now) false }) now
            (.lookById tx.id) = single db standing { tx with phase := .answering (record row tx.now) false } :=
          @single_starting db standing { tx with phase := .answering (record row tx.now) false } _
        exact (congrArg (fun s => Run.after (step store) s [(now, .commit tx.id true)]) hskip).trans
          (after_answering store db standing { tx with phase := .answering (record row tx.now) false } now rfl)

end

/-- **A start alone.**  A start whose statements follow each other with nothing between them does what
`Database.start` does. -/
theorem start_alone (store : RunStore) (db : Database) (standing : List Started) (id : Nat) (start : RunStart)
    (queue strict : Bool) (now : Instant) :
    Run.after (step store) ⟨db, Table.empty, standing⟩ (startsAlone now id start queue strict) =
      match db.start start queue strict now with
      | .error _ => ⟨db, Table.empty, standing⟩
      | .ok (db', run, _) =>
        ⟨db', Table.empty, standing ++ [⟨start.tenantId, start.idempotencyKey, start.runId, run.runId⟩]⟩ := by
  show Run.after (step store) (step store (single db standing ⟨id, start, queue, strict, now, .inserting⟩) now (.insert id)) _ = _
  rw [(@single_step store db standing ⟨id, start, queue, strict, now, .inserting⟩ now).1]
  unfold insert Database.start
  dsimp only
  rw [show (single db standing ⟨id, start, queue, strict, now, .inserting⟩).db = db from rfl]
  cases hfits : (startedRow start queue now).fits with
  | false =>
    rw [if_pos rfl, single_close]
    rfl
  | true =>
    rw [if_neg (by decide)]
    cases hc : db.conflicts (startedRow start queue now) with
    | true =>
      rw [if_pos rfl]
      refine Eq.trans (congrArg (Run.after (step store) · _) (single_moveOn _))
        ((after_lookingByKey store db standing ⟨id, start, queue, strict, now, .lookingByKey⟩ now rfl).trans ?_)
      dsimp only
      cases db.startedBefore start queue strict now <;> rfl
    | false =>
      rw [if_neg (by decide), single_inFlight, List.any_nil, if_neg (by decide)]
      refine Eq.trans (congrArg (Run.after (step store) · _) (single_moveOn _)) ?_
      -- a start that inserted its row has nothing to look for
      show step store (step store (step store (single db standing ⟨id, start, queue, strict, now, .inserted _⟩) now _) now _)
        now (.commit id true) = _
      rw [(@single_step store db standing ⟨id, start, queue, strict, now, .inserted _⟩ now).2.1]
      show step store (step store (single db standing ⟨id, start, queue, strict, now, .inserted _⟩) now _) now _ = _
      rw [(@single_step store db standing ⟨id, start, queue, strict, now, .inserted _⟩ now).2.2.1]
      show step store (single db standing ⟨id, start, queue, strict, now, .inserted _⟩) now _ = _
      rw [(@single_step store db standing ⟨id, start, queue, strict, now, .inserted _⟩ now).2.2.2]
      unfold commit answered
      dsimp only
      rw [single_close]
      rfl

end Starting

end AgentRuns
