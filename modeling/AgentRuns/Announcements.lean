import AgentRuns.Lasting
import AgentRuns.Outbox

/-!
# Every transition is announced once

A run enters PAUSED, its question is handed on, or it ends (`Transition`).  The operations do not say
so: each caller reads it off what the operation answered.  `Change.tells` says the callers read it
right, change by change.

An attempt of a run sees each event once: behind a transition the event is past until the attempt is over
(`Past`).  `perform_moves` lists what an operation moves, each run once, with what is announced of it.
-/

namespace AgentRuns

open Relational Fallible Timed

/-! ## Transitions -/

/-- The changes of a run that a subscription may hear of. -/
inductive Transition (row row' : RunRow) : WebhookEvent → Prop
  | paused (before : row.status ≠ .PAUSED) (after : row'.status = .PAUSED) : Transition row row' .PAUSED
  | escalated {asked : Interrupt} (waiting : row.awaiting = some asked) (due : row.awaitingDeadline.isSome)
      (before : row.status = .PAUSED) (after : row'.status = .PAUSED)
      (handed : row'.awaiting = some (RunStore.escalated asked)) : Transition row row' .ESCALATED
  | finished (before : row.status.final = false) (after : row'.status.final = true) : Transition row row' .FINISHED

/-- One of the ticker's sweeps. -/
def Op.sweeps : Op → Bool
  | .timeOutPastDeadline .. => true
  | .timeOutOverworked .. => true
  | .requeueLapsed .. => true
  | .escalateOverdue .. => true
  | _ => false

/-- What the caller of an operation announces of a run it moved. -/
def Op.tells (op : Op) (run : RunRecord) : Option WebhookEvent :=
  if op.movesRun then eventOf run
  else if op.sweeps then (if run.status = .PAUSED then some WebhookEvent.ESCALATED else none).or (eventOf run)
  else none

/-- What it announces after the operation's answer. -/
def Op.announced (op : Op) : Answer → List (RunRecord × WebhookEvent)
  | .run run changed => if changed then ((op.tells run).map (run, ·)).toList else []
  | .moved runs => runs.filterMap fun run => (op.tells run).map (run, ·)
  | _ => []

section
variable {store : RunStore} {t now : Instant} {op : Op} {db db' : Database} {answer : Answer}
  {row row' : RunRow} {event : WebhookEvent} {r : String}

theorem Transition.irreflexive (hi : RowInv row) : ¬Transition row row event := by
  intro h
  cases h with
  | paused before after => exact before after
  | @escalated asked waiting due _ _ handed =>
    rw [waiting] at handed
    have hd := (hi.asked asked waiting).2
    rw [Option.some.inj handed] at hd
    rw [hd] at due
    cases due
  | finished before after =>
    rw [before] at after
    cases after

theorem eventOf_record : eventOf (record row now) =
    if row.status = .PAUSED then some .PAUSED else if row.status.final then some .FINISHED else none := rfl

/-- A change to a run that neither waits nor ended announces nothing. -/
theorem tells_silent (hp : row'.status ≠ .PAUSED) (hf : row'.status.final = false) :
    op.tells (record row' now) = some event ↔ Transition row row' event := by
  have hnone : op.tells (record row' now) = none := by
    unfold Op.tells
    rw [eventOf_record, if_neg hp, hf]
    simp [record, hp]
  rw [hnone]
  refine iff_of_false (by simp) fun ht => ?_
  cases ht with
  | paused _ after => exact hp after
  | escalated _ _ _ after => exact hp after
  | finished _ after =>
    rw [hf] at after
    cases after

/-- An ending announces that. -/
theorem tells_ended (hunended : row.status.final = false) (hop : (op.movesRun || op.sweeps) = true)
    (hf : row'.status.final = true) : op.tells (record row' now) = some event ↔ Transition row row' event := by
  have hp := (RunStatus.ne_of_final hf).2.2
  have htells : op.tells (record row' now) = some .FINISHED := by
    unfold Op.tells
    rw [eventOf_record, if_neg hp, hf]
    cases hm : op.movesRun with
    | true => rfl
    | false =>
      rw [hm] at hop
      simp [record, hp, (show op.sweeps = true from hop)]
  rw [htells]
  constructor
  · rintro ⟨⟩
    exact .finished hunended hf
  · intro ht
    cases ht with
    | paused _ after => exact absurd after hp
    | escalated _ _ _ after => exact absurd after hp
    | finished => rfl

/-- **One change.**  What the caller announces of it is what it was. -/
theorem Change.tells (h : Change store now op row row') :
    op.tells (record row' now) = some event ↔ Transition row row' event := by
  have hunended := h.unended
  cases h with
  | claimed | resumeQueued | resumeRunning | retried | released | lapsed => exact tells_silent (fun h => by cases h) rfl
  | @beat row tenantId runId request running =>
    have hs : (row.saved request.checkpoint now).status = .RUNNING := by
      unfold RunRow.saved
      split <;> exact running
    exact tells_silent (fun h => by cases hs.symm.trans h) (by simp [RunRow.leased, hs, RunStatus.final])
  | cancelAsked _ running => exact tells_silent (fun h => by cases running.symm.trans h) (by simp [running, RunStatus.final])
  | pauseCancelled | resumeCancelled | cancelled | releaseCancelled | pastDeadline | overworked | lapseCancelled
  | gaveUp | unanswered => exact tells_ended hunended rfl rfl
  | @finished row tenantId runId ending => exact tells_ended hunended rfl ending.isAnEnding
  | paused _ _ _ running =>
    constructor
    · rintro ⟨⟩
      exact .paused (fun h => by cases running.symm.trans h) rfl
    · intro ht
      cases ht with
      | paused => rfl
      | escalated _ _ before => cases running.symm.trans before
      | finished _ after => cases after
  | @escalated row held limit asked paused waiting caught =>
    have htells : ∀ run : RunRecord, run.status = .PAUSED →
        (Op.escalateOverdue held limit).tells run = some .ESCALATED := by
      intro run hr
      simp [Op.tells, Op.movesRun, Op.sweeps, hr]
    rw [htells _ paused]
    have hdue : row.awaitingDeadline.isSome := by
      obtain ⟨d, hd, -⟩ := (Option.any_eq_true _ _).1 caught
      rw [hd]
      rfl
    constructor
    · rintro ⟨⟩
      exact .escalated waiting hdue paused paused rfl
    · intro ht
      cases ht with
      | paused before => exact absurd paused before
      | escalated => rfl
      | finished _ after =>
        rw [show row.status = .PAUSED from paused] at after
        cases after

/-! ## An event is past -/

/-- The run has had `event` in the attempt, and has it no more until the attempt is over. -/
def Past (row : RunRow) (attempt : Nat) (event : WebhookEvent) : Prop :=
  row.status.final = true ∨ attempt < row.attempt ∨
    (attempt = row.attempt ∧ row.status = .PAUSED ∧
      (event = .PAUSED ∨ (event = .ESCALATED ∧ row.awaitingDeadline = none)))

theorem Change.attempt_le (h : Change store now op row row') : row.attempt ≤ row'.attempt := by
  cases h with
  | beat =>
    unfold RunRow.saved
    split <;> exact Nat.le_refl _
  | resumeQueued | resumeRunning | retried | released | lapsed => exact Nat.le_succ _
  | _ => exact Nat.le_refl _

/-- A waiting run goes on waiting, its question handed on, or its attempt is over. -/
theorem Change.waits (h : Change store now op row row') (hs : row.status = .PAUSED) :
    row'.status.final = true ∨ row.attempt < row'.attempt ∨
      (row'.attempt = row.attempt ∧ row'.status = .PAUSED ∧ row.awaitingDeadline.isSome ∧ row'.awaitingDeadline = none) := by
  have running : ∀ {p : Prop}, row.status = .RUNNING → p := by
    intro p hr
    cases hs.symm.trans hr
  cases h with
  | claimed queued => cases hs.symm.trans queued
  | beat run => exact running run
  | paused _ _ _ run => exact running run
  | cancelAsked _ run => exact running run
  | resumeQueued | resumeRunning | retried | released | lapsed => exact Or.inr (Or.inl (Nat.lt_succ_self _))
  | @finished row tenantId runId ending => exact Or.inl ending.isAnEnding
  | escalated paused waiting caught =>
    refine Or.inr (Or.inr ⟨rfl, paused, ?_, rfl⟩)
    obtain ⟨d, hd, -⟩ := (Option.any_eq_true _ _).1 caught
    rw [hd]
    rfl
  | _ => exact Or.inl rfl

theorem Change.past (h : Change store now op row row') {attempt : Nat} (hp : Past row attempt event) :
    Past row' attempt event := by
  rcases hp with hf | hlt | ⟨he, hs, hevent⟩
  · rw [h.unended] at hf
    cases hf
  · exact Or.inr (Or.inl (Nat.lt_of_lt_of_le hlt h.attempt_le))
  · rcases h.waits hs with hf | hlt | ⟨hsame, hs', hdue, hdone⟩
    · exact Or.inl hf
    · exact Or.inr (Or.inl (he ▸ hlt))
    · refine Or.inr (Or.inr ⟨he.trans hsame.symm, hs', ?_⟩)
      rcases hevent with hevent | ⟨-, hnone⟩
      · exact Or.inl hevent
      · rw [hnone] at hdue
        cases hdue

/-- Behind a transition the event is past. -/
theorem Transition.past (h : Transition row row' event) (hi' : RowInv row') : Past row' row'.attempt event := by
  cases h with
  | paused _ after => exact Or.inr (Or.inr ⟨rfl, after, Or.inl rfl⟩)
  | escalated _ _ _ after handed => exact Or.inr (Or.inr ⟨rfl, after, Or.inr ⟨rfl, (hi'.asked _ handed).2⟩⟩)
  | finished _ after => exact Or.inl after

/-- A past event does not happen again in its attempt. -/
theorem Past.fresh {attempt : Nat} (hp : Past row attempt event) (h : Change store now op row row')
    (ht : Transition row row' event) : attempt ≠ row'.attempt := by
  rcases hp with hf | hlt | ⟨-, hs, hevent⟩
  · rw [h.unended] at hf
    cases hf
  · exact Nat.ne_of_lt (Nat.lt_of_lt_of_le hlt h.attempt_le)
  · exfalso
    cases ht with
    | paused before => exact before hs
    | escalated _ due =>
      rcases hevent with he | ⟨-, hnone⟩
      · cases he
      · rw [hnone] at due
        cases due
    | finished =>
      rcases hevent with he | ⟨he, -⟩ <;> cases he

/-! ## The runs an operation moves -/

/-- The runs an operation moved, as it left them, and what its caller announces of them. -/
structure Moves (store : RunStore) (now : Instant) (op : Op) (db db' : Database) (answer : Answer)
    (rows' : List RunRow) : Prop where
  once : (rows'.map RunRow.runId).Nodup
  back : ∀ row' ∈ rows', ∃ row, db.run? row'.runId = some row ∧ db'.run? row'.runId = some row' ∧
    Change store now op row row'
  rest : ∀ r row row', db.run? r = some row → db'.run? r = some row' → row' = row ∨ row' ∈ rows'
  announced : op.announced answer =
    rows'.filterMap fun row' => (op.tells (record row' now)).map (record row' now, ·)

theorem Moves.of_putAll {rows rows' : List RunRow} (hm : ∀ row ∈ rows, row ∈ db.runs.rows)
    (hn : (rows.map RunRow.runId).Nodup) (hc : List.Forall₂ (Change store now op) rows rows')
    (hdb : db'.runs = db.runs.putAll rows')
    (ha : op.announced answer = rows'.filterMap fun row' => (op.tells (record row' now)).map (record row' now, ·)) :
    Moves store now op db db' answer rows' := by
  have hn' : (rows'.map RunRow.runId).Nodup := Change.keys hc ▸ hn
  refine ⟨hn', ?_, ?_, ha⟩
  · intro row' hr'
    obtain ⟨row, hr, hch⟩ := exists_of_mem_right hc hr'
    have hrow : db.run? row'.runId = some row := hch.runId ▸ run?_of_mem (hm row hr)
    refine ⟨row, hrow, ?_, hch⟩
    unfold Database.run?
    rw [hdb]
    exact Table.find?_putAll_of_mem hn' hr' hrow
  · intro r row row' hr hr'
    unfold Database.run? at hr'
    rw [hdb] at hr'
    obtain ⟨hmem, hk⟩ := Table.find?_eq_some.1 hr'
    rcases Table.mem_putAll hmem with h | ⟨h, -⟩
    · exact Or.inr h
    · have := run?_of_mem h
      rw [hk, hr] at this
      exact Or.inl (Option.some.inj this).symm

theorem Moves.nothing (hdb : db'.runs = db.runs) (ha : op.announced answer = []) :
    Moves store now op db db' answer [] := by
  have hmem : ∀ row ∈ ([] : List RunRow), row ∈ db.runs.rows := by simp
  exact .of_putAll hmem List.nodup_nil .nil hdb ha

/-- Neither a sweep nor a request that moves a run: nothing is announced. -/
theorem Op.announced_silent (hm : op.movesRun = false) (hs : op.sweeps = false) : op.announced answer = [] := by
  have hnone : ∀ run, op.tells run = none := by
    intro run
    unfold Op.tells
    rw [hm, hs]
    rfl
  cases answer <;> simp [Op.announced, hnone]

/-- Such an operation moves at most one run, and no subscription hears of it. -/
theorem Moves.silent (h : perform store op now db = .ok (db', answer)) (hm : op.movesRun = false) (hs : op.sweeps = false) :
    ∃ rows', Moves store now op db db' answer rows' := by
  have ha : ∀ rows' : List RunRow, op.announced answer =
      rows'.filterMap fun row' => (op.tells (record row' now)).map (record row' now, ·) := by
    intro rows'
    have hnone : ∀ row : RunRow, op.tells (record row now) = none := by
      intro row
      simp [Op.tells, hm, hs]
    simp only [hnone, Option.map_none, List.filterMap_none]
    exact Op.announced_silent hm hs
  rcases (perform_effect h).runs with ⟨start, queue, strict, rfl, hnew, -, hdb⟩ | ⟨rows, rows', hrows, hn, hc, -, hdb⟩
  · refine ⟨[], List.nodup_nil, by simp, fun r row row' hr hr' => Or.inl ?_, ha []⟩
    unfold Database.run? at hr'
    rw [hdb, Table.find?_insert_of_ne, ← Database.run?, hr] at hr'
    · exact (Option.some.inj hr').symm
    · rintro rfl
      simp [Database.conflicts, hr] at hnew
  · exact ⟨rows', .of_putAll (fun row hr => (hrows row hr).1) hn hc hdb (ha rows')⟩

theorem perform_moves (h : perform store op now db = .ok (db', answer)) :
    ∃ rows', Moves store now op db db' answer rows' := by
  by_cases hm : op.movesRun = true
  · have moved : ∀ {run changed}, answer = .run run changed → ∃ rows', Moves store now op db db' answer rows' := by
      rintro run changed rfl
      rcases (perform_effect h).moved hm with ⟨rfl, rfl⟩ | ⟨row, row', hr, -, hc, -, hdb, rfl, rfl⟩
      · exact ⟨[], Moves.nothing rfl rfl⟩
      · have hmem : ∀ held ∈ [row], held ∈ db.runs.rows := by simpa using hr
        refine ⟨[row'], .of_putAll hmem (by simp) (.cons hc .nil) hdb ?_⟩
        cases ht : op.tells (record row' now) <;> simp [Op.announced, ht]
    cases op with
    | pause | resume | cancel | finish | release =>
      obtain ⟨⟨run, changed⟩, -, rfl⟩ := answering_ok.1 h
      exact moved rfl
    | _ => cases hm
  by_cases hs : op.sweeps = true
  · have swept : ∀ {moved}, answer = .moved moved → ∃ rows', Moves store now op db db' answer rows' := by
      rintro moved rfl
      cases perform_effect h with
      | swept _ found once changes =>
        refine ⟨_, .of_putAll found once changes rfl ?_⟩
        show List.filterMap _ (List.map _ _) = _
        rw [List.filterMap_map]
        rfl
      | leased _ _ _ _ _ is =>
        obtain ⟨_, he⟩ | ⟨_, he⟩ := is
        · cases he
        · cases he
    cases op with
    | timeOutPastDeadline | timeOutOverworked | requeueLapsed | escalateOverdue =>
      obtain ⟨moved, -, rfl⟩ := answering_ok.1 h
      exact swept rfl
    | _ => cases hs
  · exact Moves.silent h (by simpa using hm) (by simpa using hs)

end

end AgentRuns
