import AgentRuns.Starts

/-!
# A start sent again

A start with an idempotency key finds the run its first sending made, and `_differing` decides by JSON text
whether it asks for that run or for another.  `Json.value` is what a JSON value says; `Json.blurred` reads
`true` as 1 and `false` as 0 besides, as Python compares:

    pyEq a b          ↔  a.blurred = b.blurred                               (pyEq_iff)

`Recalled db first queue` is what stays of the first start through any operations and any purge of other runs
(`Recalled.run`).  Then a request with its key is answered as it should be, the run for a repeat and a `Conflict`
for another request, exactly where `again.ToldApart db first queue queue'`            (repeated_start).
-/

namespace AgentRuns

open Relational Fallible Timed

/-! ## JSON values, and as Python compares them -/

namespace Json

mutual

/-- The value, a number's spelling apart. -/
def value : Json → Json
  | null => null
  | bool b => bool b
  | num v _ => num v ""
  | str s => str s
  | arr xs => arr (itemsValue xs)
  | obj ms => obj (membersValue ms)

def itemsValue : List Json → List Json
  | [] => []
  | x :: xs => value x :: itemsValue xs

def membersValue : List (String × Json) → List (String × Json)
  | [] => []
  | (k, x) :: ms => (k, value x) :: membersValue ms

end

mutual

/-- The value with `true` read as 1 and `false` as 0. -/
def blurred : Json → Json
  | null => null
  | bool b => num (ofBool b) ""
  | num v _ => num v ""
  | str s => str s
  | arr xs => arr (itemsBlurred xs)
  | obj ms => obj (membersBlurred ms)

def itemsBlurred : List Json → List Json
  | [] => []
  | x :: xs => blurred x :: itemsBlurred xs

def membersBlurred : List (String × Json) → List (String × Json)
  | [] => []
  | (k, x) :: ms => (k, blurred x) :: membersBlurred ms

end

theorem ofBool_inj {a b : Bool} : ofBool a = ofBool b ↔ a = b := by
  cases a <;> cases b <;> simp [ofBool]

mutual

/-- Python's `==` is equality of blurred values. -/
theorem pyEq_iff : ∀ a b : Json, pyEq a b = true ↔ blurred a = blurred b
  | .null, b => by cases b <;> simp [pyEq, blurred]
  | .bool x, b => by cases b <;> simp [pyEq, blurred, ofBool_inj]
  | .num v _, b => by cases b <;> simp [pyEq, blurred]
  | .str s, b => by cases b <;> simp [pyEq, blurred]
  | .arr xs, b => by
    cases b with
    | arr ys => simpa [pyEq, blurred] using pyEqItems_iff xs ys
    | _ => simp [pyEq, blurred]
  | .obj ms, b => by
    cases b with
    | obj ns => simpa [pyEq, blurred] using pyEqMembers_iff ms ns
    | _ => simp [pyEq, blurred]

theorem pyEqItems_iff : ∀ xs ys : List Json, pyEqItems xs ys = true ↔ itemsBlurred xs = itemsBlurred ys
  | [], ys => by cases ys <;> simp [pyEqItems, itemsBlurred]
  | x :: xs, ys => by
    cases ys with
    | nil => simp [pyEqItems, itemsBlurred]
    | cons y ys => simp [pyEqItems, itemsBlurred, pyEq_iff x y, pyEqItems_iff xs ys]

theorem pyEqMembers_iff : ∀ ms ns : List (String × Json),
    pyEqMembers ms ns = true ↔ membersBlurred ms = membersBlurred ns
  | [], ns => by cases ns <;> simp [pyEqMembers, membersBlurred]
  | (k, x) :: ms, ns => by
    cases ns with
    | nil => simp [pyEqMembers, membersBlurred]
    | cons n ns =>
      obtain ⟨l, y⟩ := n
      simp [pyEqMembers, membersBlurred, pyEq_iff x y, pyEqMembers_iff ms ns, and_assoc]

end

/-- `true` is not 1, but Python takes them for equal. -/
example : value (bool true) ≠ value (num 1 "1") ∧ pyEq (bool true) (num 1 "1") = true := by
  refine ⟨fun h => ?_, rfl⟩
  simp [value] at h

end Json

/-! ## What a start asks for -/

namespace RunStart

/-- The two ask for the same in every field of `_START_FIELDS`, their JSON read by `read`. -/
structure Agrees (read : Json → Json) (a b : RunStart) : Prop where
  agentId : a.agentId = b.agentId
  parentRunId : a.parentRunId = b.parentRunId
  threadId : a.threadId = b.threadId
  userId : a.userId = b.userId
  workspaceId : a.workspaceId = b.workspaceId
  onBehalfOf : a.onBehalfOf = b.onBehalfOf
  input : read a.input = read b.input
  deadline : a.deadline.map (·.at_) = b.deadline.map (·.at_)
  timeoutSeconds : a.timeoutSeconds = b.timeoutSeconds
  priority : a.priority = b.priority
  concurrencyKey : a.concurrencyKey = b.concurrencyKey
  metadata : read (.obj a.metadata) = read (.obj b.metadata)

/-- The first request again, its run id minted anew where it carries none. -/
def Repeats (again first : RunStart) : Prop := again = { first with runId := again.runId }

theorem Repeats.agrees {again first : RunStart} (h : again.Repeats first) (read : Json → Json) :
    again.Agrees read first := by
  rw [Repeats] at h
  rw [h]
  constructor <;> rfl

/-- The deadline, if any, is written in UTC. -/
def InUtc (start : RunStart) : Prop := ∀ d, start.deadline = some d → d.offset = 0

/-- A deadline in UTC is the instant alone. -/
theorem deadline_eq_kept {a : RunStart} {at? : Option Instant} :
    a.deadline = at?.map (fun d => AwareDatetime.mk d 0) ↔ a.InUtc ∧ a.deadline.map (·.at_) = at? := by
  unfold InUtc
  rcases a.deadline with _ | ⟨d, offset⟩ <;> rcases at? with _ | d' <;> simp
  tauto

end RunStart

/-! ## What a row keeps of its start -/

/-- The columns of a row that say what its start asked for. -/
def RunRow.asked (row : RunRow) : List (Option String) × Json × Option Instant × Option Rat × Int ×
    Option (List (String × Json)) :=
  ([some row.runId, some row.tenantId, some row.agentId, row.parentRunId, row.threadId, row.userId, row.workspaceId,
    row.onBehalfOf, row.concurrencyKey, row.idempotencyKey],
    row.input, row.deadline, row.timeoutSeconds, row.priority, row.runMetadata)

/-- What the first start asked for is in the row, and whether it was put on the queue: a run in its
caller's process never gets there. -/
structure RunRow.Keeps (row : RunRow) (first : RunStart) (queue : Bool) : Prop where
  asked : row.asked = (startedRow first queue 0).asked
  queued : queue = true → row.queuedAt.isSome
  inProcess : queue = false →
    row.queuedAt = none ∧ row.leaseOwner = none ∧ row.leaseExpiresAt = none ∧ row.status ≠ .QUEUED

section
variable {store : RunStore} {now t t' : Instant} {op : Op} {db db' : Database} {row row' : RunRow}
  {first again : RunStart} {queue queue' : Bool}

theorem startedRow_keeps (first : RunStart) (queue : Bool) (now : Instant) :
    (startedRow first queue now).Keeps first queue := by
  refine ⟨rfl, ?_, ?_⟩
  · rintro rfl
    rfl
  · rintro rfl
    exact ⟨rfl, rfl, rfl, RunStatus.noConfusion⟩

/-- No operation writes what the start asked for. -/
theorem Change.asked (h : Change store now op row row') : row'.asked = row.asked := by
  cases h with
  | beat running holder => unfold RunRow.saved; split <;> rfl
  | _ => rfl

/-- A run in its caller's process is never leased nor queued. -/
theorem Change.inProcess (h : Change store now op row row')
    (hp : row.queuedAt = none ∧ row.leaseOwner = none ∧ row.leaseExpiresAt = none ∧ row.status ≠ .QUEUED) :
    row'.queuedAt = none ∧ row'.leaseOwner = none ∧ row'.leaseExpiresAt = none ∧ row'.status ≠ .QUEUED := by
  obtain ⟨hq, ho, he, hs⟩ := hp
  cases h with
  | claimed queued => exact absurd queued hs
  | beat running holder => rw [ho] at holder; cases holder
  | resumeQueued waiting same can durable => rw [hq] at durable; cases durable
  | cancelAsked unasked running leased => rw [ho] at leased; cases leased
  | retried fenced again => simp [AgentRuns.retried, hq] at again
  | released holder => rw [ho] at holder; cases holder
  | releaseCancelled holder => rw [ho] at holder; cases holder
  | lapseCancelled running caught => rw [he] at caught; cases caught
  | gaveUp running caught => rw [he] at caught; cases caught
  | lapsed running caught => rw [he] at caught; cases caught
  | escalated paused => exact ⟨hq, ho, he, hs⟩
  | resumeRunning => exact ⟨hq, ho, he, by simp [RunRow.moved]⟩
  | @finished _ _ _ ending workerId draw fenced last can =>
    refine ⟨hq, ?_, ?_, (RunStatus.ne_of_final ending.isAnEnding).1⟩ <;> simp [RunRow.moved, ho, he]
  | _ => exact ⟨hq, rfl, rfl, by simp [RunRow.moved]⟩

theorem Change.keepsAsked (h : Change store now op row row') (hk : row.Keeps first queue) :
    row'.Keeps first queue where
  asked := h.asked.trans hk.asked
  queued hq := h.queued (hk.queued hq)
  inProcess hq := h.inProcess (hk.inProcess hq)

/-! ## Between the first start and the next -/

/-- The run of the first start is there, and it is the tenant's only run with that key. -/
structure Recalled (db : Database) (first : RunStart) (queue : Bool) : Prop where
  there : ∃ row, db.run? first.runId = some row ∧ row.Keeps first queue
  alone : ∀ row ∈ db.runs.rows, row.tenantId = first.tenantId → row.idempotencyKey = first.idempotencyKey →
    row.runId = first.runId

end

/-- What happens meanwhile: any operation, or a purge of the runs in `gone`. -/
inductive MeanwhileAct where
  | op (op : Op)
  | purge (gone : List String)

def meanwhile (store : RunStore) (db : Database) (now : Instant) : MeanwhileAct → Database
  | .op op => apply store db now op
  | .purge gone => ((db.deleteRuns gone).toOption).getD db

/-- A purge passes over the run `runId`. -/
def Sparing (runId : String) (_ : Database) (_ : Instant) : MeanwhileAct → Prop
  | .op _ => True
  | .purge gone => runId ∉ gone

section
variable {store : RunStore} {now t t' : Instant} {op : Op} {db db' : Database} {row row' : RunRow}
  {first again : RunStart} {queue queue' : Bool}

theorem RunRow.Keeps.ident (h : row.Keeps first queue) :
    row.runId = first.runId ∧ row.tenantId = first.tenantId ∧ row.idempotencyKey = first.idempotencyKey := by
  have ha := h.asked
  simp only [RunRow.asked, startedRow, Prod.mk.injEq, List.cons.injEq, Option.some.injEq, and_true] at ha
  tauto

/-- The first start, when it makes a run, makes it alone. -/
theorem Recalled.start {strict : Bool} {run : RunRecord} (hkey : first.idempotencyKey.isSome)
    (h : db.start first queue strict now = .ok (db', run, true)) : Recalled db' first queue := by
  unfold Database.start at h
  obtain ⟨_, -, h⟩ := bind_ok.1 h
  split at h
  · obtain ⟨_, -, h⟩ := bind_ok.1 h
    cases h
  · next hn =>
    cases h
    have hnew : db.runs.find? (startedRow first queue now).runId = none := by
      simp only [Database.conflicts, Bool.or_eq_true, not_or] at hn
      simpa [Database.run?] using hn.1
    refine ⟨⟨startedRow first queue now, ?_, startedRow_keeps first queue now⟩, fun row hm ht hk => ?_⟩
    · show (db.runs.insert _).find? _ = _
      rw [Table.find?_insert hnew]
      exact if_pos rfl
    · rw [Table.rows_insert hnew, List.mem_append, List.mem_singleton] at hm
      rcases hm with hm | rfl
      · -- a row with that key would have stood in the way
        refine absurd (conflicts_iff.2 ⟨row, hm, ?_⟩) hn
        simp only [RunRow.clashes, Bool.or_eq_true, Bool.and_eq_true, decide_eq_true_eq]
        exact .inr ⟨⟨hk ▸ hkey, ht⟩, hk⟩
      · rfl

theorem Recalled.apply (hkey : first.idempotencyKey.isSome) (h : Recalled db first queue) (op : Op) :
    Recalled (AgentRuns.apply store db now op) first queue := by
  obtain ⟨⟨row, hr, hk⟩, halone⟩ := h
  constructor
  · obtain ⟨row', hr', rfl | hc⟩ := run_apply store now op hr
    · exact ⟨row', hr', hk⟩
    · exact ⟨row', hr', hc.keepsAsked hk⟩
  · intro row' hm ht hik
    rcases apply_effect store now op db with he | ⟨answer, he⟩
    · exact halone row' (he ▸ hm) ht hik
    · rcases he.runs with ⟨start, q, _, -, new, -, hruns⟩ | ⟨rows, rows', hold, -, hc, -, hruns⟩
      · rw [hruns] at hm
        have hfree : db.runs.find? (startedRow start q now).runId = none := by
          simp only [Database.conflicts, Bool.or_eq_false_iff] at new
          simpa [Database.run?] using new.1
        rw [Table.rows_insert hfree, List.mem_append, List.mem_singleton] at hm
        rcases hm with hm | rfl
        · exact halone row' hm ht hik
        · -- a start with the first one's key inserts nothing
          have hclash : row.clashes (startedRow start q now) = true := by
            obtain ⟨-, h2, h3⟩ := hk.ident
            simp only [RunRow.clashes, Bool.or_eq_true, Bool.and_eq_true, decide_eq_true_eq]
            exact .inr ⟨⟨h3 ▸ hkey, h2.trans ht.symm⟩, h3.trans hik.symm⟩
          rw [conflicts_iff.2 ⟨row, Table.mem_of_find? hr, hclash⟩] at new
          cases new
      · rw [hruns] at hm
        rcases Table.mem_putAll hm with hm | ⟨hm, -⟩
        · obtain ⟨row₀, hrow₀, hch⟩ := exists_of_mem_right hc hm
          obtain ⟨hid, hten, -, -, hidem⟩ := hch.same
          rw [hid]
          exact halone row₀ (hold row₀ hrow₀).1 (hten ▸ ht) (hidem ▸ hik)
        · exact halone row' hm ht hik

theorem Recalled.purge {gone : List String} (h : Recalled db first queue) (hg : first.runId ∉ gone) :
    Recalled (((db.deleteRuns gone).toOption).getD db) first queue := by
  cases hd : db.deleteRuns gone with
  | error e => exact h
  | ok db' =>
    have hrows := mem_deleteRuns hd
    obtain ⟨⟨row, hr, hk⟩, halone⟩ := h
    refine ⟨⟨row, ?_, hk⟩, fun row' hm => halone row' ((hrows row').1 hm).1⟩
    have hid : row.runId = first.runId := hk.ident.1
    have hm : row ∈ db'.runs.rows := (hrows row).2 ⟨Table.mem_of_find? hr, hid ▸ hg⟩
    show db'.run? first.runId = some row
    rw [← hid]
    exact run?_of_mem hm

/-- **Meanwhile.**  Whatever happens to the run short of its purge, it is kept. -/
theorem Recalled.run (hkey : first.idempotencyKey.isSome) (h0 : Recalled db first queue)
    (h : Run (meanwhile store) (Sparing first.runId) t db t' db') : Recalled db' first queue := by
  refine h.invariant' (fun db => Recalled db first queue) ?_ h0
  intro db now act hk hok
  cases act with
  | op op => exact hk.apply hkey op
  | purge gone => exact hk.purge hok

/-! ## The next start -/

/-- Nothing differs: every field compared is equal as Python compares it, a deadline with the kept one in UTC. -/
theorem differing_nil {existing : RunRecord} {start : RunStart} {queued : Bool} :
    differing existing start queue queued = [] ↔ queue = queued ∧ start.agentId = existing.agentId ∧
      start.concurrencyKey = existing.concurrencyKey ∧
      start.deadline = existing.deadline.map (fun d => AwareDatetime.mk d 0) ∧
      Json.pyEq start.input existing.input = true ∧ Json.pyEqMembers start.metadata existing.metadata = true ∧
      start.onBehalfOf = existing.onBehalfOf ∧ start.parentRunId = existing.parentRunId ∧
      start.priority = existing.priority ∧ start.threadId = existing.threadId ∧
      start.timeoutSeconds = existing.timeoutSeconds ∧ start.userId = existing.userId ∧
      start.workspaceId = existing.workspaceId := by
  unfold differing
  dsimp only
  by_cases hq : queue = queued
  · rw [if_neg (not_not.2 hq), List.map_eq_nil_iff, List.filter_eq_nil_iff]
    simp [hq]
  · rw [if_pos hq]
    simp [hq]

/-- The comparison of `_differing`, in the requests' own terms. -/
theorem differing_kept (hk : row.Keeps first queue) (now : Instant) :
    differing (record row now) again queue' row.queuedAt.isSome = [] ↔
      queue' = queue ∧ again.InUtc ∧ again.Agrees Json.blurred first := by
  have hqueue : row.queuedAt.isSome = queue := by
    rcases queue with _ | _
    · rw [(hk.inProcess rfl).1]
      rfl
    · exact hk.queued rfl
  have hm : row.runMetadata.getD [] = first.metadata := by
    have h15 : row.runMetadata = if first.metadata.isEmpty then none else some first.metadata :=
      congrArg (fun a => a.2.2.2.2.2) hk.asked
    rw [h15]
    by_cases h : first.metadata = [] <;> simp [h]
  have ha := hk.asked
  simp only [RunRow.asked, startedRow, Prod.mk.injEq, List.cons.injEq, Option.some.injEq, and_true] at ha
  obtain ⟨⟨-, -, h3, h4, h5, h6, h7, h8, h9, -⟩, h11, h12, h13, h14, -⟩ := ha
  rw [differing_nil, hqueue]
  simp only [record, hm, h3, h4, h5, h6, h7, h8, h9, h11, h12, h13, h14, RunStart.deadline_eq_kept, Json.pyEq_iff]
  have hmeta : Json.pyEqMembers again.metadata first.metadata = true ↔
      Json.blurred (.obj again.metadata) = Json.blurred (.obj first.metadata) := by
    rw [← Json.pyEq_iff, Json.pyEq]
  rw [hmeta]
  constructor
  · rintro ⟨hq, h1, h2, ⟨hu, hd⟩, h4, h5, h6, h7, h8, h9, h10, h11, h12⟩
    exact ⟨hq, hu, ⟨h1, h7, h9, h11, h12, h6, h4, hd, h10, h8, h2, h5⟩⟩
  · rintro ⟨hq, hu, h⟩
    exact ⟨hq, h.agentId, h.concurrencyKey, ⟨hu, h.deadline⟩, h.input, h.metadata, h.onBehalfOf, h.parentRunId,
      h.priority, h.threadId, h.timeoutSeconds, h.userId, h.workspaceId⟩

/-- The key finds the run of the first start. -/
theorem Recalled.keyed (h : Recalled db first queue) (hr : db.run? first.runId = some row) (hk : row.Keeps first queue) :
    db.keyed first.tenantId first.idempotencyKey = some row := by
  obtain ⟨-, ht, hi⟩ := hk.ident
  cases hf : db.keyed first.tenantId first.idempotencyKey with
  | none =>
    have := List.find?_eq_none.1 hf row (Table.mem_of_find? hr)
    simp [ht, hi] at this
  | some other =>
    have hm := List.mem_of_find?_eq_some hf
    have hp := List.find?_some hf
    simp only [decide_eq_true_eq] at hp
    have hid := h.alone other hm hp.1 hp.2
    have ho := run?_of_mem hm
    rw [hid, hr] at ho
    exact ho.symm

/-- A start with the key of a kept run inserts nothing. -/
theorem Recalled.start_eq (h : Recalled db first queue) (hkey : first.idempotencyKey.isSome) (htenant : again.tenantId = first.tenantId)
    (hsame : again.idempotencyKey = first.idempotencyKey) (hfit : (startedRow again queue' now).fits = true) :
    db.start again queue' true now =
      (db.startedBefore again queue' true now).map fun found => (db, found, false) := by
  obtain ⟨row, hr, hk⟩ := h.there
  obtain ⟨-, ht, hi⟩ := hk.ident
  have hclash : row.clashes (startedRow again queue' now) = true := by
    simp only [RunRow.clashes, Bool.or_eq_true, Bool.and_eq_true, decide_eq_true_eq]
    exact .inr ⟨⟨hi ▸ hkey, ht.trans htenant.symm⟩, hi.trans hsame.symm⟩
  have hconf := conflicts_iff.2 ⟨row, Table.mem_of_find? hr, hclash⟩
  unfold Database.start
  dsimp only
  rw [refuse_of_not _ (by simp [hfit]), ok_bind, if_pos hconf]
  cases db.startedBefore again queue' true now <;> rfl

theorem Recalled.start_keyed (h : Recalled db first queue) (hr : db.run? first.runId = some row) (hk : row.Keeps first queue)
    (hkey : first.idempotencyKey.isSome) (hne : first.idempotencyKey ≠ some "")
    (htenant : again.tenantId = first.tenantId) (hsame : again.idempotencyKey = first.idempotencyKey)
    (hfit : (startedRow again queue' now).fits = true) :
    (queue' = queue ∧ again.InUtc ∧ again.Agrees Json.blurred first →
        db.start again queue' true now = .ok (db, record row now, false)) ∧
      (¬ (queue' = queue ∧ again.InUtc ∧ again.Agrees Json.blurred first) →
        ∃ e, db.start again queue' true now = .error e ∧ e.code = .CONFLICT) := by
  obtain ⟨key, hkey'⟩ := Option.isSome_iff_exists.1 hkey
  have hne' : key ≠ "" := fun he => hne (by rw [hkey', he])
  have hfound := h.keyed hr hk
  rw [← differing_kept hk now, h.start_eq hkey htenant hsame hfit]
  unfold Database.startedBefore
  simp only [hsame, hkey', htenant, if_neg hne', true_and]
  rw [← hkey', hfound]
  constructor
  · intro hd
    simp [hd, Except.map]
  · intro hd
    simp [hd, Except.map]

/-- The empty key is not looked up: only the run id finds a run. -/
theorem Recalled.start_unkeyed (h : Recalled db first queue) (hempty : first.idempotencyKey = some "")
    (htenant : again.tenantId = first.tenantId) (hsame : again.idempotencyKey = first.idempotencyKey)
    (hfit : (startedRow again queue' now).fits = true) :
    (∀ other, db.one first.tenantId again.runId = some other →
        db.start again queue' true now = .ok (db, record other now, false)) ∧
      (db.one first.tenantId again.runId = none →
        ∃ e, db.start again queue' true now = .error e ∧ e.code = .CONFLICT) := by
  rw [h.start_eq (by rw [hempty]; rfl) htenant hsame hfit]
  unfold Database.startedBefore
  simp only [hsame, hempty, htenant, if_pos]
  constructor
  · intro other ho
    rw [ho]
    rfl
  · intro ho
    rw [ho]
    exact ⟨_, rfl, rfl⟩

end

/-- A start with the first one's key is answered as it should be: a repeat with the run, another request with
a `Conflict`. -/
structure Heeded (db : Database) (first : RunStart) (queue : Bool) (row : RunRow) (again : RunStart) (queue' : Bool)
    (now : Instant) : Prop where
  repeated : again.Repeats first → queue' = queue → db.start again queue' true now = .ok (db, record row now, false)
  refused : ¬ again.Agrees Json.value first →
    ∃ e, db.start again queue' true now = .error e ∧ e.code = .CONFLICT

/-- PostgreSQL takes the request's row; under a key that is not empty, a repeated deadline is in UTC, and another
request differs even with `true` read as 1; the empty key, which is not looked up, comes with the first run's id
in a repeat, with none of the tenant's in another request. -/
structure ToldApart (db : Database) (first : RunStart) (queue : Bool) (again : RunStart) (queue' : Bool) : Prop where
  fits : (again.Repeats first ∧ queue' = queue) ∨ ¬ again.Agrees Json.value first →
    (startedRow again queue' 0).fits = true
  repeated : again.Repeats first → queue' = queue →
    if first.idempotencyKey = some "" then again.runId = first.runId else again.InUtc
  refused : ¬ again.Agrees Json.value first →
    if first.idempotencyKey = some "" then db.one first.tenantId again.runId = none
    else queue' ≠ queue ∨ ¬ again.InUtc ∨ ¬ again.Agrees Json.blurred first

section
variable {store : RunStore} {t₀ t : Instant} {before after db : Database} {first : RunStart} {queue strict : Bool}
  {made : RunRecord} {row : RunRow} {again : RunStart} {queue' : Bool} {now : Instant}

/-- A row PostgreSQL does not take is no answer and no conflict. -/
theorem start_unfit (hfit : (startedRow again queue' 0).fits = false) :
    ∃ e, db.start again queue' true now = .error e ∧ e.code = .INTERNAL := by
  have hfit : (startedRow again queue' now).fits = false := hfit
  unfold Database.start
  dsimp only
  rw [refuse_of _ hfit]
  exact ⟨_, rfl, rfl⟩

/-- Under the empty key. -/
theorem Recalled.heeded_unkeyed (h : Recalled db first queue) (hr : db.run? first.runId = some row)
    (hk : row.Keeps first queue) (hempty : first.idempotencyKey = some "") (htenant : again.tenantId = first.tenantId)
    (hsame : again.idempotencyKey = first.idempotencyKey) (hfit : (startedRow again queue' now).fits = true) :
    Heeded db first queue row again queue' now ↔ ToldApart db first queue again queue' := by
  obtain ⟨hsome, hnone⟩ := h.start_unkeyed hempty htenant hsame hfit
  obtain ⟨hid, hten, -⟩ := hk.ident
  constructor
  · intro hh
    refine ⟨fun _ => hfit, fun hrep hq => ?_, fun hdiff => ?_⟩ <;> rw [if_pos hempty]
    · have hok := hh.repeated hrep hq
      cases ho : db.one first.tenantId again.runId with
      | none =>
        obtain ⟨e, he, -⟩ := hnone ho
        rw [he] at hok
        cases hok
      | some other =>
        rw [hsome other ho] at hok
        have hrec := congrArg RunRecord.runId (Prod.mk.inj (Prod.mk.inj (Except.ok.inj hok)).2).1
        obtain ⟨-, hoid, -⟩ := mem_of_one ho
        exact hoid.symm.trans (hrec.trans hid)
    · obtain ⟨e, he, -⟩ := hh.refused hdiff
      cases ho : db.one first.tenantId again.runId with
      | none => rfl
      | some other =>
        rw [hsome other ho] at he
        cases he
  · intro hc
    refine ⟨fun hrep hq => ?_, fun hdiff => ?_⟩
    · have hrun := hc.repeated hrep hq
      rw [if_pos hempty] at hrun
      refine hsome row (Database.one_eq_some.2 ⟨?_, hten⟩)
      rw [hrun, hr]
    · have hno := hc.refused hdiff
      rw [if_pos hempty] at hno
      exact hnone hno

/-- Under one that is looked up. -/
theorem Recalled.heeded_keyed (h : Recalled db first queue) (hr : db.run? first.runId = some row)
    (hk : row.Keeps first queue) (hkey : first.idempotencyKey.isSome) (hne : first.idempotencyKey ≠ some "")
    (htenant : again.tenantId = first.tenantId) (hsame : again.idempotencyKey = first.idempotencyKey)
    (hfit : (startedRow again queue' now).fits = true) :
    Heeded db first queue row again queue' now ↔ ToldApart db first queue again queue' := by
  obtain ⟨hyes, hno⟩ := h.start_keyed hr hk hkey hne htenant hsame hfit
  constructor
  · intro hh
    refine ⟨fun _ => hfit, fun hrep hq => ?_, fun hdiff => ?_⟩ <;> rw [if_neg hne]
    · by_contra hu
      obtain ⟨e, he, -⟩ := hno fun hall => hu hall.2.1
      rw [hh.repeated hrep hq] at he
      cases he
    · by_contra hn
      simp only [not_or, not_not] at hn
      obtain ⟨e, he, -⟩ := hh.refused hdiff
      rw [hyes hn] at he
      cases he
  · intro hc
    refine ⟨fun hrep hq => ?_, fun hdiff => ?_⟩
    · have hu := hc.repeated hrep hq
      rw [if_neg hne] at hu
      exact hyes ⟨hq, hu, hrep.agrees _⟩
    · have hd := hc.refused hdiff
      rw [if_neg hne] at hd
      exact hno fun ⟨hq, hu, ha⟩ => by tauto

/-- A row PostgreSQL does not take is right only where nothing is asked of the answer. -/
theorem heeded_unfit (hfit : (startedRow again queue' 0).fits = false) :
    Heeded db first queue row again queue' now ↔ ToldApart db first queue again queue' := by
  obtain ⟨e, he, hcode⟩ : ∃ e, db.start again queue' true now = .error e ∧ e.code = .INTERNAL := start_unfit hfit
  have hno : ¬ (startedRow again queue' 0).fits = true := by simpa using hfit
  constructor
  · intro hh
    have hnever : ¬ ((again.Repeats first ∧ queue' = queue) ∨ ¬ again.Agrees Json.value first) := by
      rintro (⟨hrep, hq⟩ | hdiff)
      · rw [hh.repeated hrep hq] at he
        cases he
      · obtain ⟨e', he', hcode'⟩ := hh.refused hdiff
        rw [he'] at he
        cases he
        rw [hcode] at hcode'
        cases hcode'
    exact ⟨fun hor => absurd hor hnever, fun hrep hq => absurd (.inl ⟨hrep, hq⟩) hnever,
      fun hdiff => absurd (.inr hdiff) hnever⟩
  · intro hc
    exact ⟨fun hrep hq => absurd (hc.fits (.inl ⟨hrep, hq⟩)) hno, fun hdiff => absurd (hc.fits (.inr hdiff)) hno⟩

theorem Recalled.heeded_iff (h : Recalled db first queue) (hr : db.run? first.runId = some row)
    (hk : row.Keeps first queue) (hkey : first.idempotencyKey.isSome) (htenant : again.tenantId = first.tenantId)
    (hsame : again.idempotencyKey = first.idempotencyKey) :
    Heeded db first queue row again queue' now ↔ ToldApart db first queue again queue' := by
  by_cases hfit : (startedRow again queue' 0).fits = true
  · by_cases hempty : first.idempotencyKey = some ""
    · exact h.heeded_unkeyed hr hk hempty htenant hsame hfit
    · exact h.heeded_keyed hr hk hkey hempty htenant hsame hfit
  · exact heeded_unfit (by simpa using hfit)

/-- **Repeats.**  After the start that made the run, and whatever happens to it short of its purge, a start with its
key gets the right answer exactly where the two can be told apart. -/
theorem repeated_start (hkey : first.idempotencyKey.isSome)
    (hfirst : before.start first queue strict t₀ = .ok (after, made, true))
    (hrun : Run (meanwhile store) (Sparing first.runId) t₀ after t db) :
    ∃ row, db.run? first.runId = some row ∧ ∀ again queue' now, t ≤ now → again.tenantId = first.tenantId →
      again.idempotencyKey = first.idempotencyKey →
      (Heeded db first queue row again queue' now ↔ ToldApart db first queue again queue') := by
  have h : Recalled db first queue := (Recalled.start hkey hfirst).run hkey hrun
  obtain ⟨row, hr, hk⟩ := h.there
  exact ⟨row, hr, fun again queue' now _ htenant hsame => h.heeded_iff hr hk hkey htenant hsame⟩

end

/-- A start with a key, `true` for input and a deadline. -/
def keyedStart (offset : Int) (input : Json) : RunStart :=
  { smallStart with idempotencyKey := some "k", input := input, deadline := some ⟨100, offset⟩ }

/-- The database once it made its run. -/
def keyedOnce (offset : Int) : Database := apply smallStore Database.empty 0 (.start (keyedStart offset (.bool true)) false true)

/-- The run finished since, and another one purged. -/
def keyedLater : Database :=
  meanwhile smallStore (meanwhile smallStore (keyedOnce 0) 1 (.op (.finish "t" "r" smallFinish none smallDraw))) 2
    (.purge ["x"])

theorem repeated_start_later : ∃ row, keyedLater.run? "r" = some row ∧ ∀ again queue' now, 2 ≤ now →
    again.tenantId = "t" → again.idempotencyKey = some "k" →
    (Heeded keyedLater (keyedStart 0 (.bool true)) false row again queue' now ↔
      ToldApart keyedLater (keyedStart 0 (.bool true)) false again queue') := by
  have hspared : Sparing "r" (meanwhile smallStore (keyedOnce 0) 1 (.op (.finish "t" "r" smallFinish none smallDraw))) 2
      (.purge ["x"]) := by
    show "r" ∉ ["x"]
    decide
  have h1 : Run (meanwhile smallStore) (Sparing "r") 0 (keyedOnce 0) 1
      (meanwhile smallStore (keyedOnce 0) 1 (.op (.finish "t" "r" smallFinish none smallDraw))) :=
    .single (by norm_num) trivial
  exact @repeated_start smallStore 0 2 Database.empty (keyedOnce 0) keyedLater (keyedStart 0 (.bool true)) false true _
    rfl rfl (.tail 2 _ h1 (by norm_num) hspared)

/-- Repeated with its deadline two hours east of UTC, the start is a conflict; asking for 1 where it asked for
`true`, it gets that run. -/
theorem conflict_on_a_repeat :
    (∃ e, (keyedOnce 7200).start (keyedStart 7200 (.bool true)) false true 1 = .error e ∧ e.code = .CONFLICT) ∧
      ∃ run, (keyedOnce 0).start (keyedStart 0 (.num 1 "1")) false true 1 = .ok (keyedOnce 0, run, false) :=
  ⟨⟨_, rfl, rfl⟩, _, rfl⟩

end AgentRuns
