import AgentRuns.Deliveries

/-!
# A transition, and its tenant's subscriptions changing

The transaction of a transition (a route's, or a sweep's of many runs) announces each run it moved in two
statements: it reads who subscribes, and it writes a row for each of them, which refers to the subscription.
Creates, rotations and deletes of subscriptions commit in between (READ COMMITTED).  `Subscribing.step` is one
statement of one of these transactions:

    begin        the operation itself; its runs stay locked until the commit
    read         `SELECT webhook_id` of `announce`
    write        `INSERT … ON CONFLICT DO NOTHING`: each row it adds locks its subscription (`FOR KEY SHARE`), so it
                 waits for a rotation or a delete of that; where the subscription is gone the foreign key is
                 violated and the transaction rolls back
    commit
    hold         a rotation or a delete has its row (`FOR UPDATE`); it waits for whoever locked it
    change       it commits
    undo         it rolls back

A create locks nothing another one waits for: it is one step, at its commit.
-/

namespace AgentRuns

open Relational Fallible Timed

/-! ## The system -/

/-- A rotation or a delete of a subscription. -/
inductive HookChange where
  | rotateSecret (tenantId webhookId secret : String) (overlap : Rat) (now : Instant)
  | delete (tenantId webhookId : String)

namespace HookChange

def tenantId : HookChange → String
  | rotateSecret tenantId _ _ _ _ => tenantId
  | delete tenantId _ => tenantId

def webhookId : HookChange → String
  | rotateSecret _ webhookId _ _ _ => webhookId
  | delete _ webhookId => webhookId

def run (change : HookChange) (s : Service) : Except ServiceError Service :=
  match change with
  | rotateSecret tenantId webhookId secret overlap now => s.rotateSecret tenantId webhookId secret overlap now
  | delete tenantId webhookId => s.delete tenantId webhookId

theorem run_ok {change : HookChange} {service service' : Service} (h : change.run service = .ok service') :
    service'.db = service.db := by
  cases change with
  | rotateSecret tenantId webhookId secret overlap now => exact (Service.rotateSecret_ok h).1
  | delete tenantId webhookId => exact (Service.delete_ok h).1

/-- A change takes no delivery of a subscription that is there after it. -/
theorem run_kept {change : HookChange} {service service' : Service} {id : String} (h : change.run service = .ok service')
    (hthere : service'.webhooks.find? id ≠ none) : (∀ d ∈ service'.deliveries.rows, d ∈ service.deliveries.rows) ∧
      ∀ d ∈ service.deliveries.rows, d.webhookId = id → d ∈ service'.deliveries.rows := by
  cases change with
  | rotateSecret tenantId webhookId secret overlap now =>
    obtain ⟨-, hrows, -⟩ := Service.rotateSecret_ok h
    rw [hrows]
    exact ⟨fun d hd => hd, fun d hd _ => hd⟩
  | delete tenantId webhookId =>
    obtain ⟨-, hhooks, hrows⟩ := Service.delete_ok h
    rw [hrows]
    refine ⟨fun d hd => (Table.mem_erase.1 hd).1, fun d hd hid => Table.mem_erase.2 ⟨hd, ?_⟩⟩
    have hne : d.webhookId ≠ webhookId := by
      rintro rfl
      rw [hhooks, hid] at hthere
      exact hthere (Table.find?_erase_self service.webhooks id)
    simpa using hne

end HookChange

/-- One that holds its row. -/
structure HookTx where
  id : Nat
  change : HookChange

/-- The transaction of a transition: the database it will leave, the events it has still to announce, who
subscribes to the first of them, and the rows it wrote. -/
structure MoveTx where
  now : Instant
  db : Database
  left : List (RunRecord × WebhookEvent)
  found : Option (List WebhookRow)
  written : List DeliveryRow

/-- How it ends. -/
inductive MoveEnd where
  | committed
  /-- a foreign key was violated -/
  | violated
deriving DecidableEq

structure Subscribing where
  service : Service
  move : Option MoveTx
  ended : Option MoveEnd
  changes : Table HookTx.id

inductive SubscribeAct where
  | begin (op : Op)
  | read
  | write
  | commit
  | create (tenantId url : String) (events : List WebhookEvent) (createdBy webhookId secret : String)
  | hold (id : Nat) (change : HookChange)
  | change (id : Nat)
  | undo (id : Nat)

/-- The subscriptions that want to hear of it. -/
def wanting (webhooks : Table WebhookRow.webhookId) (run : RunRecord) (event : WebhookEvent) : List WebhookRow :=
  webhooks.rows.filter fun hook => hook.tenantId = run.tenantId && hook.events.contains event

namespace Subscribing

/-- Has a rotation or a delete under way locked the row? -/
def holds (s : Subscribing) (webhookId : String) : Bool := s.changes.rows.any (·.change.webhookId = webhookId)

/-- The insert the transition makes next, when nobody holds what its rows refer to: the transaction after it, and
the rows it adds. -/
def inserting (s : Subscribing) (lib : Libraries) : Option (MoveTx × List DeliveryRow) :=
  match s.move with
  | none => none
  | some tx =>
    match tx.left, tx.found with
    | (run, event) :: left, some hooks =>
      let rows := (hooks.map (Service.newDelivery lib run event tx.now)).filter fun d =>
        (s.service.deliveries.find? d.deliveryId).isNone && !(tx.written.map DeliveryRow.deliveryId).contains d.deliveryId
      if rows.any fun d => s.holds d.webhookId then none
      else some ({ tx with left := left, found := none, written := tx.written ++ rows }, rows)
    | _, _ => none

/-! ### The statements -/

def begin (s : Subscribing) (store : RunStore) (now : Instant) (op : Op) : Subscribing :=
  match s.move, s.ended, perform store op now s.service.db with
  | none, none, .ok (db, answer) => { s with move := some ⟨now, db, op.announced answer, none, []⟩ }
  | _, _, _ => s

def read (s : Subscribing) : Subscribing :=
  match s.move with
  | none => s
  | some tx =>
    match tx.left, tx.found with
    | (run, event) :: left, none =>
      match wanting s.service.webhooks run event with
      | [] => { s with move := some { tx with left := left } }
      | hooks => { s with move := some { tx with found := some hooks } }
    | _, _ => s

def write (s : Subscribing) (lib : Libraries) : Subscribing :=
  match s.inserting lib with
  | none => s
  | some (tx, rows) =>
    if rows.all fun d => (s.service.webhooks.find? d.webhookId).isSome then { s with move := some tx }
    else { s with move := none, ended := some .violated }

def commit (s : Subscribing) : Subscribing :=
  match s.move with
  | none => s
  | some tx =>
    match tx.left with
    | [] =>
      { s with
        service := { s.service with db := tx.db, deliveries := s.service.deliveries.insertAll tx.written }
        move := none
        ended := some .committed }
    | _ :: _ => s

def hold (s : Subscribing) (id : Nat) (change : HookChange) : Subscribing :=
  let shared := (s.move.map MoveTx.written).getD [] |>.any (·.webhookId = change.webhookId)
  match s.service.subscription change.tenantId change.webhookId with
  | .error _ => s
  | .ok _ => if shared || s.holds change.webhookId then s else { s with changes := s.changes.insert ⟨id, change⟩ }

/-- The service after a change; one that is refused leaves it. -/
def changed (s : Subscribing) (result : Except ServiceError Service) : Subscribing :=
  match result with
  | .error _ => s
  | .ok service => { s with service := service }

def step (store : RunStore) (s : Subscribing) (now : Instant) (act : SubscribeAct) : Subscribing :=
  match act with
  | .begin op => s.begin store now op
  | .read => s.read
  | .write => s.write store.lib
  | .commit => s.commit
  | .create tenantId url events createdBy webhookId secret =>
    s.changed (s.service.create tenantId url events createdBy webhookId secret now)
  | .hold id change => s.hold id change
  | .change id =>
    match s.changes.find? id with
    | none => s
    | some tx => { s.changed (tx.change.run s.service) with changes := s.changes.erase (·.id = id) }
  | .undo id => { s with changes := s.changes.erase (·.id = id) }

/-! ## How it ends -/

/-- What an insert refers to is there. -/
def Undisturbed (lib : Libraries) (s : Subscribing) (_ : Instant) (act : SubscribeAct) : Prop :=
  act = .write → ∀ tx rows, s.inserting lib = some (tx, rows) →
    ∀ d ∈ rows, (s.service.webhooks.find? d.webhookId).isSome = true

/-- The transition is under way until it ends. -/
def Coherent (s : Subscribing) : Prop := s.move = none ↔ s.ended ≠ none

section
variable {store : RunStore} {s : Subscribing} {now : Instant} {act : SubscribeAct}

theorem inserting_move {lib : Libraries} {tx : MoveTx} {rows : List DeliveryRow} (h : s.inserting lib = some (tx, rows)) :
    ∃ run event left hooks tx₀, s.move = some tx₀ ∧ tx₀.left = (run, event) :: left ∧ tx₀.found = some hooks ∧
      rows = ((hooks.map (Service.newDelivery lib run event tx₀.now)).filter fun d =>
        (s.service.deliveries.find? d.deliveryId).isNone && !(tx₀.written.map DeliveryRow.deliveryId).contains d.deliveryId) ∧
      (∀ d ∈ rows, s.holds d.webhookId = false) ∧
      tx = { tx₀ with left := left, found := none, written := tx₀.written ++ rows } := by
  unfold inserting at h
  split at h
  · cases h
  · next tx₀ hmove =>
    split at h
    · next run event left hooks hleft hfound =>
      dsimp only at h
      split at h
      · cases h
      · next hfree =>
        cases h
        exact ⟨run, event, left, hooks, tx₀, hmove, hleft, hfound, rfl, by simpa using hfree, rfl⟩
    · cases h

/-- A write: nothing, or the rows are added, or the transaction rolls back. -/
theorem write_cases (lib : Libraries) (s : Subscribing) :
    (s.inserting lib = none ∧ s.write lib = s) ∨
      ∃ tx rows, s.inserting lib = some (tx, rows) ∧
        (((∀ d ∈ rows, (s.service.webhooks.find? d.webhookId).isSome = true) ∧ s.write lib = { s with move := some tx }) ∨
          (¬ (∀ d ∈ rows, (s.service.webhooks.find? d.webhookId).isSome = true) ∧
            s.write lib = { s with move := none, ended := some .violated })) := by
  unfold write
  split
  · next h => exact Or.inl ⟨h, rfl⟩
  · next tx rows h =>
    refine Or.inr ⟨tx, rows, h, ?_⟩
    split
    · next hall => exact Or.inl ⟨List.all_eq_true.1 hall, rfl⟩
    · next hall => exact Or.inr ⟨fun hp => hall (List.all_eq_true.2 hp), rfl⟩

/-- A read leaves everything but the transaction. -/
theorem read_cases (s : Subscribing) : s.read = s ∨ ∃ tx tx', s.move = some tx ∧ s.read = { s with move := some tx' } ∧
    tx'.db = tx.db ∧ tx'.now = tx.now ∧ tx'.written = tx.written ∧ ∃ run event left, tx.left = (run, event) :: left ∧
      tx.found = none ∧
      ((wanting s.service.webhooks run event = [] ∧ tx'.left = left ∧ tx'.found = none) ∨
        (tx'.left = tx.left ∧ tx'.found = some (wanting s.service.webhooks run event))) := by
  unfold read
  split
  · exact Or.inl rfl
  · next tx hmove =>
    split
    · next run event left hleft hfound =>
      refine Or.inr ⟨tx, ?_⟩
      split
      · next hnone => exact ⟨_, hmove, rfl, rfl, rfl, rfl, run, event, left, hleft, hfound, Or.inl ⟨hnone, rfl, hfound⟩⟩
      · next hooks => exact ⟨_, hmove, rfl, rfl, rfl, rfl, run, event, left, hleft, hfound, Or.inr ⟨rfl, rfl⟩⟩
    · exact Or.inl rfl

/-- A commit, when everything is announced. -/
theorem commit_cases (s : Subscribing) : s.commit = s ∨ ∃ tx, s.move = some tx ∧ tx.left = [] ∧ s.commit = { s with
    service := { s.service with db := tx.db, deliveries := s.service.deliveries.insertAll tx.written }
    move := none
    ended := some .committed } := by
  unfold commit
  split
  · exact Or.inl rfl
  · next tx hmove =>
    split
    · next hleft => exact Or.inr ⟨tx, hmove, hleft, rfl⟩
    · exact Or.inl rfl

/-- The other steps leave the transition where it is. -/
theorem changed_move (s : Subscribing) (result : Except ServiceError Service) :
    (s.changed result).move = s.move ∧ (s.changed result).ended = s.ended := by
  unfold changed
  split <;> exact ⟨rfl, rfl⟩

theorem hold_move (s : Subscribing) (id : Nat) (change : HookChange) :
    (s.hold id change).move = s.move ∧ (s.hold id change).ended = s.ended ∧ (s.hold id change).service = s.service := by
  unfold hold
  dsimp only
  split
  · exact ⟨rfl, rfl, rfl⟩
  · split <;> exact ⟨rfl, rfl, rfl⟩

theorem begin_coherent (hc : Coherent s) (op : Op) : s.begin store now op = s := by
  unfold begin
  split
  · next hmove hended _ => exact absurd hended (hc.1 hmove)
  · rfl

/-- A change of a subscription leaves the transition where it is. -/
theorem change_move (store : RunStore) (now : Instant) (s : Subscribing) (id : Nat) :
    (s.step store now (.change id)).move = s.move ∧ (s.step store now (.change id)).ended = s.ended := by
  unfold step
  dsimp only
  split
  · exact ⟨rfl, rfl⟩
  · next tx _ => exact changed_move s (tx.change.run s.service)

/-- A step leaves the transition where it is, moves it on, or ends it. -/
theorem step_move (store : RunStore) (now : Instant) (act : SubscribeAct) (hc : Coherent s) :
    ((s.step store now act).move = s.move ∧ (s.step store now act).ended = s.ended ∧ Undisturbed store.lib s now act) ∨
      (∃ tx tx', s.move = some tx ∧ (s.step store now act).move = some tx' ∧ (s.step store now act).ended = s.ended ∧
        Undisturbed store.lib s now act) ∨
      (s.move ≠ none ∧ (s.step store now act).move = none ∧ (s.step store now act).ended = some .committed ∧
        Undisturbed store.lib s now act) ∨
      (s.move ≠ none ∧ (s.step store now act).move = none ∧ (s.step store now act).ended = some .violated ∧
        ¬ Undisturbed store.lib s now act) := by
  cases act with
  | begin op =>
    have hstep : s.step store now (.begin op) = s := begin_coherent hc op
    rw [hstep]
    exact Or.inl ⟨rfl, rfl, fun h => by cases h⟩
  | read =>
    have hstep : s.step store now .read = s.read := rfl
    rw [hstep]
    rcases read_cases s with he | ⟨tx, tx', hmove, he, -⟩
    · rw [he]
      exact Or.inl ⟨rfl, rfl, fun h => by cases h⟩
    · rw [he]
      exact Or.inr (Or.inl ⟨tx, tx', hmove, rfl, rfl, fun h => by cases h⟩)
  | write =>
    have hstep : s.step store now .write = s.write store.lib := rfl
    rw [hstep]
    rcases write_cases store.lib s with ⟨hnone, he⟩ | ⟨tx', rows, hsome, ⟨hall, he⟩ | ⟨hall, he⟩⟩
    · rw [he]
      exact Or.inl ⟨rfl, rfl, fun _ tx rows h => by rw [hnone] at h; cases h⟩
    · rw [he]
      obtain ⟨_, _, _, _, tx, hmove, -⟩ := inserting_move hsome
      exact Or.inr (Or.inl ⟨tx, tx', hmove, rfl, rfl, fun _ tx₁ rows₁ h => by rw [hsome] at h; cases h; exact hall⟩)
    · rw [he]
      obtain ⟨_, _, _, _, tx, hmove, -⟩ := inserting_move hsome
      exact Or.inr (Or.inr (Or.inr ⟨by rw [hmove]; simp, rfl, rfl, fun h => hall (h rfl tx' rows hsome)⟩))
  | commit =>
    have hstep : s.step store now .commit = s.commit := rfl
    rw [hstep]
    rcases commit_cases s with he | ⟨tx, hmove, -, he⟩
    · rw [he]
      exact Or.inl ⟨rfl, rfl, fun h => by cases h⟩
    · rw [he]
      exact Or.inr (Or.inr (Or.inl ⟨by rw [hmove]; simp, rfl, rfl, fun h => by cases h⟩))
  | create tenantId url events createdBy webhookId secret =>
    obtain ⟨hmove, hended⟩ := changed_move s (s.service.create tenantId url events createdBy webhookId secret now)
    exact Or.inl ⟨hmove, hended, fun h => by cases h⟩
  | hold id change =>
    obtain ⟨hmove, hended, -⟩ := hold_move s id change
    exact Or.inl ⟨hmove, hended, fun h => by cases h⟩
  | change id =>
    obtain ⟨hmove, hended⟩ := change_move store now s id
    exact Or.inl ⟨hmove, hended, fun h => by cases h⟩
  | undo id => exact Or.inl ⟨rfl, rfl, fun h => by cases h⟩

theorem Coherent.step (hc : Coherent s) : Coherent (s.step store now act) := by
  unfold Coherent
  rcases step_move store now act hc with
    ⟨hmove, hended, -⟩ | ⟨tx, tx', hmove, hmove', hended, -⟩ | ⟨-, hmove, hended, -⟩ | ⟨-, hmove, hended, -⟩
  · rw [hmove, hended]
    exact hc
  · have hnone : s.ended = none := by
      by_contra hne
      rw [hc.2 hne] at hmove
      cases hmove
    rw [hmove', hended, hnone]
    simp
  · rw [hmove, hended]
    simp
  · rw [hmove, hended]
    simp

/-- A transition that is over changes no more. -/
theorem ended_step (store : RunStore) (now : Instant) (act : SubscribeAct) (hc : Coherent s) (h : s.ended ≠ none) : (s.step store now act).ended = s.ended ∧
    Undisturbed store.lib s now act := by
  have hmove : s.move = none := hc.2 h
  rcases step_move store now act hc with
    ⟨-, hended, hu⟩ | ⟨tx, -, hsome, -⟩ | ⟨hne, -⟩ | ⟨hne, -⟩
  · exact ⟨hended, hu⟩
  · rw [hmove] at hsome
    cases hsome
  · exact absurd hmove hne
  · exact absurd hmove hne

/-- One that is over stays as it ended. -/
theorem after_ended (l : List (Instant × SubscribeAct)) : ∀ {s : Subscribing}, Coherent s → s.ended ≠ none →
    (Run.after (step store) s l).ended = s.ended := by
  induction l with
  | nil => intro s _ _; rfl
  | cons x l ih =>
    intro s hc h
    obtain ⟨hended, -⟩ := ended_step store x.1 x.2 hc h
    show (Run.after (Subscribing.step store) (s.step store x.1 x.2) l).ended = _
    rw [ih hc.step (by rw [hended]; exact h), hended]

/-- A transition that is not over rolls back exactly where an insert misses what it refers to. -/
theorem violated_iff (l : List (Instant × SubscribeAct)) : ∀ {s : Subscribing}, Coherent s → s.ended ≠ some .violated →
    ((Run.after (step store) s l).ended = some .violated ↔ ¬ Run.Each (step store) (Undisturbed store.lib) s l) := by
  induction l with
  | nil =>
    intro s _ h
    exact ⟨fun hv => absurd hv h, fun hne => absurd trivial hne⟩
  | cons x l ih =>
    intro s hc h
    show (Run.after (Subscribing.step store) (s.step store x.1 x.2) l).ended = _ ↔
      ¬ (Undisturbed store.lib s x.1 x.2 ∧ Run.Each (Subscribing.step store) (Undisturbed store.lib) (s.step store x.1 x.2) l)
    rcases step_move store x.1 x.2 hc with
      ⟨-, hended, hu⟩ | ⟨tx, tx', -, -, hended, hu⟩ | ⟨-, -, hended, hu⟩ | ⟨-, -, hended, hu⟩
    · rw [ih hc.step (by rw [hended]; exact h)]
      simp [hu]
    · rw [ih hc.step (by rw [hended]; exact h)]
      simp [hu]
    · rw [ih hc.step (by rw [hended]; simp)]
      simp [hu]
    · rw [after_ended l hc.step (by rw [hended]; simp), hended]
      simp [hu]

/-! ## What it leaves -/

/-- The transaction will leave `after` of a database that nobody else changes. -/
structure Carried (before after : Database) (s : Subscribing) : Prop where
  under : ∀ tx, s.move = some tx → tx.db = after ∧ s.service.db = before
  committed : s.ended = some .committed → s.service.db = after
  violated : s.ended = some .violated → s.service.db = before

theorem changed_db {result : Except ServiceError Service} (h : ∀ service, result = .ok service → service.db = s.service.db) :
    (s.changed result).service.db = s.service.db := by
  cases result with
  | error e => rfl
  | ok service => exact h service rfl

theorem Carried.same {before after : Database} {s' : Subscribing} (h : Carried before after s)
    (hsame : s'.move = s.move ∧ s'.ended = s.ended) (hdb : s'.service.db = s.service.db) : Carried before after s' := by
  obtain ⟨hmove, hended⟩ := hsame
  refine ⟨?_, ?_, ?_⟩
  · rw [hmove, hdb]
    exact h.under
  · rw [hended, hdb]
    exact h.committed
  · rw [hended, hdb]
    exact h.violated

theorem Carried.step {before after : Database} (h : Carried before after s) (hc : Coherent s) :
    Carried before after (s.step store now act) := by
  cases act with
  | begin op =>
    have hstep : s.step store now (.begin op) = s := begin_coherent hc op
    rw [hstep]
    exact h
  | read =>
    have hstep : s.step store now .read = s.read := rfl
    rw [hstep]
    rcases read_cases s with he | ⟨tx, tx', hmove, he, hdb, -⟩
    · rw [he]
      exact h
    · rw [he]
      refine ⟨?_, h.committed, h.violated⟩
      rintro tx₁ htx
      cases htx
      rw [hdb]
      exact h.under tx hmove
  | write =>
    have hstep : s.step store now .write = s.write store.lib := rfl
    rw [hstep]
    rcases write_cases store.lib s with ⟨-, he⟩ | ⟨tx', rows, hsome, ⟨-, he⟩ | ⟨-, he⟩⟩
    · rw [he]
      exact h
    · obtain ⟨_, _, _, _, tx, hmove, -, -, -, -, rfl⟩ := inserting_move hsome
      rw [he]
      refine ⟨?_, h.committed, h.violated⟩
      rintro tx₁ htx
      cases htx
      exact h.under tx hmove
    · obtain ⟨_, _, _, _, tx, hmove, -⟩ := inserting_move hsome
      rw [he]
      exact ⟨fun tx₁ htx => (by cases htx), fun he => (by cases he), fun _ => (h.under tx hmove).2⟩
  | commit =>
    have hstep : s.step store now .commit = s.commit := rfl
    rw [hstep]
    rcases commit_cases s with he | ⟨tx, hmove, -, he⟩
    · rw [he]
      exact h
    · rw [he]
      exact ⟨fun tx₁ htx => (by cases htx), fun _ => (h.under tx hmove).1, fun he => (by cases he)⟩
  | create tenantId url events createdBy webhookId secret =>
    have hdb := @changed_db s (s.service.create tenantId url events createdBy webhookId secret now)
      fun service hok => (Service.create_ok hok).1
    exact h.same (changed_move s _) hdb
  | hold id change =>
    obtain ⟨hmove, hended, hservice⟩ := hold_move s id change
    exact h.same ⟨hmove, hended⟩ (by
      show (s.hold id change).service.db = _
      rw [hservice])
  | change id =>
    refine h.same (change_move store now s id) ?_
    unfold step
    dsimp only
    split
    · rfl
    · next tx _ => exact @changed_db s (tx.change.run s.service) fun service hok => HookChange.run_ok hok
  | undo id => exact h.same ⟨rfl, rfl⟩ rfl

/-- The subscription is there. -/
def There (hook : WebhookRow) (s : Subscribing) : Prop :=
  ∃ row, s.service.webhooks.find? hook.webhookId = some row ∧ row.tenantId = hook.tenantId ∧ row.events = hook.events

/-- It wants to hear of it. -/
def Wants (hook : WebhookRow) (news : RunRecord × WebhookEvent) : Prop :=
  hook.tenantId = news.1.tenantId ∧ news.2 ∈ hook.events

/-- A delivery's id is its event's and its subscription's. -/
def Addressed (lib : Libraries) (d : DeliveryRow) : Prop := d.deliveryId = deliveryId lib d.payload.eventId d.webhookId

/-- The outbox owes it to the subscription. -/
def Owes (lib : Libraries) (s : Service) (hook : WebhookRow) (news : RunRecord × WebhookEvent) : Prop :=
  ∃ d ∈ s.deliveries.rows, d.webhookId = hook.webhookId ∧
    d.deliveryId = deliveryId lib (envelope lib news.1 news.2).eventId hook.webhookId

/-- What the transaction has announced to a subscription, is owed to it by the outbox or by a row it wrote. -/
structure Announcing (lib : Libraries) (news : List (RunRecord × WebhookEvent)) (hook : WebhookRow) (s : Subscribing) :
    Prop where
  addressed : ∀ d ∈ s.service.deliveries.rows, Addressed lib d
  written : ∀ tx, s.move = some tx → ∀ d ∈ tx.written, Addressed lib d
  told : ∀ tx, s.move = some tx → ∀ x ∈ news, x ∉ tx.left → Wants hook x →
    Owes lib s.service hook x ∨ deliveryId lib (envelope lib x.1 x.2).eventId hook.webhookId ∈ tx.written.map DeliveryRow.deliveryId
  found : ∀ tx hooks x left, s.move = some tx → tx.found = some hooks → tx.left = x :: left → Wants hook x →
    hook.webhookId ∈ hooks.map WebhookRow.webhookId
  ended : s.ended = some .committed → ∀ x ∈ news, Wants hook x → Owes lib s.service hook x

theorem There.wanting {hook : WebhookRow} {run : RunRecord} {event : WebhookEvent} (h : There hook s)
    (hw : Wants hook (run, event)) : hook.webhookId ∈ (wanting s.service.webhooks run event).map WebhookRow.webhookId := by
  obtain ⟨row, hrow, htenant, hevents⟩ := h
  obtain ⟨ht, he⟩ := hw
  refine List.mem_map.2 ⟨row, List.mem_filter.2 ⟨Table.mem_of_find? hrow, ?_⟩, Table.key_of_find? hrow⟩
  rw [htenant, hevents]
  simpa using ⟨ht, he⟩

variable {lib : Libraries} {news : List (RunRecord × WebhookEvent)} {hook : WebhookRow}

/-- A row with the id of a subscription's event is owed to the subscription. -/
theorem Addressed.owed (hdl : Function.Injective (lib.stableId "dlv_")) {d : DeliveryRow} {e w : String} (h : Addressed lib d)
    (hid : d.deliveryId = deliveryId lib e w) : d.webhookId = w :=
  (deliveryId_injective hdl (h.symm.trans hid)).2

theorem Announcing.same {s' : Subscribing} (h : Announcing lib news hook s)
    (hsame : s'.move = s.move ∧ s'.ended = s.ended)
    (hrows : (∀ d ∈ s'.service.deliveries.rows, d ∈ s.service.deliveries.rows) ∧
      ∀ d ∈ s.service.deliveries.rows, d.webhookId = hook.webhookId → d ∈ s'.service.deliveries.rows) :
    Announcing lib news hook s' := by
  obtain ⟨hmove, hended⟩ := hsame
  have howes : ∀ x, Owes lib s.service hook x → Owes lib s'.service hook x := by
    rintro x ⟨d, hd, hw, hid⟩
    exact ⟨d, hrows.2 d hd hw, hw, hid⟩
  refine ⟨fun d hd => h.addressed d (hrows.1 d hd), ?_, ?_, ?_, ?_⟩
  · rw [hmove]
    exact h.written
  · rw [hmove]
    exact fun tx htx x hx hleft hw => (h.told tx htx x hx hleft hw).imp_left (howes x)
  · rw [hmove]
    exact h.found
  · rw [hended]
    exact fun he x hx hw => howes x (h.ended he x hx hw)

theorem Announcing.read (h : Announcing lib news hook s) (hthere : There hook s) : Announcing lib news hook s.read := by
  rcases read_cases s with he | ⟨tx, tx', hmove, he, -, -, hwritten, run, event, left, hleft, hfound, hcase⟩
  · rw [he]
    exact h
  · rw [he]
    refine ⟨h.addressed, ?_, ?_, ?_, h.ended⟩
    · rintro tx₁ htx
      cases htx
      rw [hwritten]
      exact h.written tx hmove
    · rintro tx₁ htx x hx hnot hw
      cases htx
      rw [hwritten]
      refine h.told tx hmove x hx ?_ hw
      rcases hcase with ⟨hnone, hleft', -⟩ | ⟨hleft', -⟩
      · rw [hleft]
        intro hmem
        rcases List.mem_cons.1 hmem with rfl | hmem
        · -- nobody wants to hear of it
          have := hthere.wanting hw
          rw [hnone] at this
          cases this
        · rw [hleft'] at hnot
          exact hnot hmem
      · rwa [hleft'] at hnot
    · rintro tx₁ hooks x left' htx hsome hcons hw
      cases htx
      rcases hcase with ⟨-, -, hnone⟩ | ⟨hleft', hread⟩
      · rw [hnone] at hsome
        cases hsome
      · rw [hread] at hsome
        rw [hleft', hleft] at hcons
        cases hsome
        cases hcons
        exact hthere.wanting hw

theorem Announcing.write (hdl : Function.Injective (lib.stableId "dlv_")) (h : Announcing lib news hook s) :
    Announcing lib news hook (s.write lib) := by
  rcases write_cases lib s with ⟨-, he⟩ | ⟨tx', rows, hsome, ⟨-, he⟩ | ⟨-, he⟩⟩
  · rw [he]
    exact h
  · obtain ⟨run, event, left, hooks, tx, hmove, hleft, hfound, hrows, -, rfl⟩ := inserting_move hsome
    rw [he]
    refine ⟨h.addressed, ?_, ?_, ?_, h.ended⟩
    · rintro tx₁ htx d hd
      cases htx
      rcases List.mem_append.1 hd with hd | hd
      · exact h.written tx hmove d hd
      · rw [hrows] at hd
        obtain ⟨k, -, rfl⟩ := List.mem_map.1 (List.mem_filter.1 hd).1
        rfl
    · rintro tx₁ htx x hx hnot hw
      cases htx
      rw [List.map_append, List.mem_append]
      by_cases hmem : x ∈ tx.left
      · obtain rfl : x = (run, event) := by
          rw [hleft] at hmem
          exact (List.mem_cons.1 hmem).resolve_right hnot
        obtain ⟨k, hk, hkid⟩ := List.mem_map.1 (h.found tx hooks (run, event) left hmove hfound hleft hw)
        show Owes lib s.service hook (run, event) ∨ deliveryId lib (envelope lib run event).eventId hook.webhookId ∈ _ ∨ _
        rw [← hkid]
        -- its row is new, or the outbox has it, or the transaction wrote it
        cases hold : s.service.deliveries.find? (deliveryId lib (envelope lib run event).eventId k.webhookId) with
        | some d =>
          have hid : d.deliveryId = deliveryId lib (envelope lib run event).eventId k.webhookId := Table.key_of_find? hold
          have hd := Table.mem_of_find? hold
          refine Or.inl ⟨d, hd, ?_, ?_⟩
          · rw [(h.addressed d hd).owed hdl hid, hkid]
          · rw [hid, hkid]
        | none =>
          by_cases hdone : deliveryId lib (envelope lib run event).eventId k.webhookId ∈ tx.written.map DeliveryRow.deliveryId
          · exact Or.inr (Or.inl hdone)
          · refine Or.inr (Or.inr (List.mem_map.2 ⟨Service.newDelivery lib run event tx.now k, ?_, rfl⟩))
            rw [hrows]
            refine List.mem_filter.2 ⟨List.mem_map_of_mem hk, ?_⟩
            show (s.service.deliveries.find? (deliveryId lib (envelope lib run event).eventId k.webhookId)).isNone &&
              !(tx.written.map DeliveryRow.deliveryId).contains (deliveryId lib (envelope lib run event).eventId k.webhookId)
            rw [hold]
            simpa using hdone
      · exact (h.told tx hmove x hx hmem hw).imp_right Or.inl
    · rintro tx₁ hooks' x left' htx hfound'
      cases htx
      cases hfound'
  · rw [he]
    exact ⟨h.addressed, fun tx₁ htx => (by cases htx), fun tx₁ htx => (by cases htx), fun tx₁ _ _ _ htx => (by cases htx),
      fun he => (by cases he)⟩

theorem Announcing.commit (hdl : Function.Injective (lib.stableId "dlv_")) (h : Announcing lib news hook s) :
    Announcing lib news hook s.commit := by
  rcases commit_cases s with he | ⟨tx, hmove, hleft, he⟩
  · rw [he]
    exact h
  · rw [he]
    have haddressed : ∀ d ∈ (s.service.deliveries.insertAll tx.written).rows, Addressed lib d := by
      intro d hd
      have hfind := Table.find?_of_mem hd
      rw [Table.find?_insertAll] at hfind
      rcases Option.or_eq_some_iff.1 hfind with hold | ⟨-, hnew⟩
      · exact h.addressed d (Table.mem_of_find? hold)
      · exact h.written tx hmove d (List.mem_of_find?_eq_some hnew)
    refine ⟨haddressed, fun tx₁ htx => (by cases htx), fun tx₁ htx => (by cases htx), fun tx₁ _ _ _ htx => (by cases htx),
      fun _ x hx hw => ?_⟩
    rcases h.told tx hmove x hx (by rw [hleft]; simp) hw with ⟨d, hd, howner, hid⟩ | hwritten
    · refine ⟨d, ?_, howner, hid⟩
      refine Table.mem_of_find? (k := d.deliveryId) ?_
      rw [Table.find?_insertAll, Table.find?_of_mem hd]
      rfl
    · obtain ⟨d, hd⟩ : ∃ d, (s.service.deliveries.insertAll tx.written).find?
          (deliveryId lib (envelope lib x.1 x.2).eventId hook.webhookId) = some d := by
        by_contra hnone
        rw [not_exists, ← Option.eq_none_iff_forall_ne_some, Table.find?_insertAll, Option.or_eq_none_iff] at hnone
        obtain ⟨d, hd, hid⟩ := List.mem_map.1 hwritten
        exact absurd (decide_eq_true hid) (List.find?_eq_none.1 hnone.2 d hd)
      have hid : d.deliveryId = deliveryId lib (envelope lib x.1 x.2).eventId hook.webhookId := Table.key_of_find? hd
      have hmem := Table.mem_of_find? hd
      exact ⟨d, hmem, (haddressed d hmem).owed hdl hid, hid⟩

/-- **A step.**  What is owed to a subscription that stays is not lost. -/
theorem Announcing.step (hdl : Function.Injective (store.lib.stableId "dlv_")) (h : Announcing store.lib news hook s)
    (hc : Coherent s) (hthere : There hook s) (hthere' : There hook (s.step store now act)) :
    Announcing store.lib news hook (s.step store now act) := by
  cases act with
  | begin op =>
    have hstep : s.step store now (.begin op) = s := begin_coherent hc op
    rw [hstep]
    exact h
  | read => exact h.read hthere
  | write => exact h.write hdl
  | commit => exact h.commit hdl
  | create tenantId url events createdBy webhookId secret =>
    refine h.same (changed_move s _) ?_
    show (∀ d ∈ (s.changed (s.service.create tenantId url events createdBy webhookId secret now)).service.deliveries.rows, _) ∧
      ∀ d ∈ s.service.deliveries.rows, _ →
        d ∈ (s.changed (s.service.create tenantId url events createdBy webhookId secret now)).service.deliveries.rows
    cases hcreate : s.service.create tenantId url events createdBy webhookId secret now with
    | error e => exact ⟨fun d hd => hd, fun d hd _ => hd⟩
    | ok service =>
      show (∀ d ∈ service.deliveries.rows, _) ∧ ∀ d ∈ s.service.deliveries.rows, _ → d ∈ service.deliveries.rows
      rw [(Service.create_ok hcreate).2.1]
      exact ⟨fun d hd => hd, fun d hd _ => hd⟩
  | hold id change =>
    obtain ⟨hmove, hended, hservice⟩ := hold_move s id change
    refine h.same ⟨hmove, hended⟩ ?_
    show (∀ d ∈ (s.hold id change).service.deliveries.rows, _) ∧
      ∀ d ∈ s.service.deliveries.rows, _ → d ∈ (s.hold id change).service.deliveries.rows
    rw [hservice]
    exact ⟨fun d hd => hd, fun d hd _ => hd⟩
  | change id =>
    refine h.same (change_move store now s id) ?_
    unfold Subscribing.step at hthere' ⊢
    dsimp only at hthere' ⊢
    split at hthere'
    · exact ⟨fun d hd => hd, fun d hd _ => hd⟩
    · next tx _ =>
      cases hrun : tx.change.run s.service with
      | error e => exact ⟨fun d hd => hd, fun d hd _ => hd⟩
      | ok service =>
        refine HookChange.run_kept hrun ?_
        obtain ⟨row, hrow, -⟩ := hthere'
        rw [hrun] at hrow
        show service.webhooks.find? hook.webhookId ≠ none
        have : service.webhooks.find? hook.webhookId = some row := hrow
        rw [this]
        simp
  | undo id => exact h.same ⟨rfl, rfl⟩ ⟨fun d hd => hd, fun d hd _ => hd⟩

/-! ## Runs -/

/-- **A run.** -/
theorem Announcing.after (hdl : Function.Injective (store.lib.stableId "dlv_")) (l : List (Instant × SubscribeAct)) :
    ∀ {s : Subscribing}, Announcing store.lib news hook s → Coherent s → Run.Always (Subscribing.step store) (There hook) s l →
      Announcing store.lib news hook (Run.after (Subscribing.step store) s l) := by
  induction l with
  | nil => intro s h _ _; exact h
  | cons x l ih =>
    intro s h hc hthere
    exact ih (h.step hdl hc hthere.1 hthere.2.head) hc.step hthere.2

theorem Carried.after {db db' : Database} (l : List (Instant × SubscribeAct)) : ∀ {s : Subscribing}, Carried db db' s →
    Coherent s → Carried db db' (Run.after (Subscribing.step store) s l) := by
  induction l with
  | nil => intro s h _; exact h
  | cons x l ih =>
    intro s h hc
    exact ih (h.step hc) hc.step

theorem Coherent.after (l : List (Instant × SubscribeAct)) : ∀ {s : Subscribing}, Coherent s →
    Coherent (Run.after (Subscribing.step store) s l) := by
  induction l with
  | nil => intro s h; exact h
  | cons x l ih =>
    intro s h
    exact ih h.step

end

/-- The transition is through: its database is there, and the outbox owes its events to every subscription that wanted
them and was there throughout. -/
structure Through (store : RunStore) (s : Subscribing) (db : Database) (news : List (RunRecord × WebhookEvent))
    (l : List (Instant × SubscribeAct)) : Prop where
  committed : (Run.after (step store) s l).ended = some .committed
  db : (Run.after (step store) s l).service.db = db
  owes : ∀ hook, Run.Always (step store) (There hook) s l → ∀ x ∈ news, Wants hook x →
    Owes store.lib (Run.after (step store) s l).service hook x

/-- A transition that begins, whatever is being done to the subscriptions. -/
def beginning (service : Service) (changes : Table HookTx.id) : Subscribing := ⟨service, none, none, changes⟩

/-- **A subscription fails a transition only by going between its two statements.**  A transition that is over by the
end of `l`, having been under way while subscriptions were created, rotated and deleted, is through if and only if
every subscription its inserts referred to was still there; where one was not, the database is as before. -/
theorem transition_through_iff {store : RunStore} (hev : Function.Injective (store.lib.stableId "whd_"))
    (hdl : Function.Injective (store.lib.stableId "dlv_")) {t before now : Instant} {service : Service}
    (hreach : Run (Service.step store) anything t Service.empty before service) {op : Op} {db : Database} {answer : Answer}
    (hop : perform store op now service.db = .ok (db, answer)) (changes : Table HookTx.id)
    {l : List (Instant × SubscribeAct)}
    (hover : (Run.after (step store) ((beginning service changes).step store now (.begin op)) l).ended ≠ none) :
    (Through store ((beginning service changes).step store now (.begin op)) db (op.announced answer) l ↔
      Run.Each (step store) (Undisturbed store.lib) ((beginning service changes).step store now (.begin op)) l) ∧
    (¬ Run.Each (step store) (Undisturbed store.lib) ((beginning service changes).step store now (.begin op)) l →
      (Run.after (step store) ((beginning service changes).step store now (.begin op)) l).service.db = service.db) := by
  have hbegin : (beginning service changes).step store now (.begin op) =
      ⟨service, some ⟨now, db, op.announced answer, none, []⟩, none, changes⟩ := by
    show (beginning service changes).begin store now op = _
    unfold begin beginning
    dsimp only
    rw [hop]
  rw [hbegin] at hover ⊢
  set s : Subscribing := ⟨service, some ⟨now, db, op.announced answer, none, []⟩, none, changes⟩ with hs
  have hc : Coherent s := by
    rw [hs]
    simp [Coherent]
  have hcarried : Carried service.db db s := by
    refine ⟨?_, fun he => (by cases he), fun he => (by cases he)⟩
    rintro tx htx
    cases htx
    exact ⟨rfl, rfl⟩
  have hend : Carried service.db db (Run.after (step store) s l) := hcarried.after l hc
  have hviolated : (Run.after (step store) s l).ended = some .violated ↔
      ¬ Run.Each (step store) (Undisturbed store.lib) s l := violated_iff l hc (by rw [hs]; simp)
  refine ⟨⟨fun hthrough => ?_, fun heach => ?_⟩, fun hne => hend.violated (hviolated.2 hne)⟩
  · by_contra hne
    have := hviolated.2 hne
    rw [hthrough.committed] at this
    cases this
  · have hcommitted : (Run.after (step store) s l).ended = some .committed := by
      cases he : (Run.after (step store) s l).ended with
      | none => exact absurd he hover
      | some how =>
        cases how with
        | committed => rfl
        | violated => exact absurd heach (hviolated.1 he)
    refine ⟨hcommitted, hend.committed hcommitted, fun hook hthere x hx hw => ?_⟩
    have hannouncing : Announcing store.lib (op.announced answer) hook s := by
      refine ⟨fun d hd => ((OutboxInv.of_run hev hdl hreach).stands d hd).id, ?_, ?_, ?_, fun he => (by cases he)⟩
      · rintro tx htx d hd
        cases htx
        cases hd
      · rintro tx htx x hx hnot
        cases htx
        exact absurd hx hnot
      · rintro tx hooks x left htx hfound
        cases htx
        cases hfound
    exact (hannouncing.after hdl l hc hthere).ended hcommitted x hx hw

/-- A finish goes on while its subscription's secret is rotated and another subscription is made. -/
def changing : List (Instant × SubscribeAct) :=
  [(3, .hold 1 (.rotateSecret "t" "w2" "s3" 60 3)), (3, .read), (4, .write), (4, .change 1), (5, .write),
    (5, .create "t" "u" [.FINISHED] "service:app" "w3" "s4"), (6, .hold 2 (.delete "t" "w2")), (6, .commit),
    (7, .hold 3 (.delete "t" "w1")), (7, .change 3)]

/-- It is through. -/
theorem changing_through : ∃ (service : Service) (db : Database) (answer : Answer),
    perform smallStore (.finish "t" "r" smallFinish none smallDraw) 2 service.db = .ok (db, answer) ∧
    (Through smallStore ((beginning service Table.empty).step smallStore 2 (.begin (.finish "t" "r" smallFinish none smallDraw)))
        db (Op.announced (.finish "t" "r" smallFinish none smallDraw) answer) changing ↔
      Run.Each (step smallStore) (Undisturbed smallStore.lib)
        ((beginning service Table.empty).step smallStore 2 (.begin (.finish "t" "r" smallFinish none smallDraw))) changing) ∧
    (Run.after (step smallStore) ((beginning service Table.empty).step smallStore 2
      (.begin (.finish "t" "r" smallFinish none smallDraw))) changing).ended = some .committed := by
  have hreach : Run (Service.step smallStore) anything 0 Service.empty 1 _ := Run.replay_ends subscribedWork_admitted
  have hok : (perform smallStore (.finish "t" "r" smallFinish none smallDraw) 2
      (Run.after (Service.step smallStore) Service.empty subscribedWork).db).isOk = true := by decide +kernel
  obtain ⟨⟨db, answer⟩, hop⟩ : ∃ x, perform smallStore (.finish "t" "r" smallFinish none smallDraw) 2
      (Run.after (Service.step smallStore) Service.empty subscribedWork).db = .ok x := by
    cases h : perform smallStore (.finish "t" "r" smallFinish none smallDraw) 2
      (Run.after (Service.step smallStore) Service.empty subscribedWork).db with
    | error e => rw [h] at hok; cases hok
    | ok x => exact ⟨x, rfl⟩
  have hended : (Run.after (step smallStore) ((beginning (Run.after (Service.step smallStore) Service.empty subscribedWork)
      Table.empty).step smallStore 2 (.begin (.finish "t" "r" smallFinish none smallDraw))) changing).ended =
        some .committed := by decide +kernel
  exact ⟨_, db, answer, hop, (transition_through_iff (spelled_injective "whd_") (spelled_injective "dlv_") hreach hop
    Table.empty (by rw [hended]; simp)).1, hended⟩

/-- A finish is rolled back: its subscription was deleted after it was read and before its delivery was written. -/
theorem finish_rolled_back : ∃ (service : Service) (l : List (Instant × SubscribeAct)),
    (∃ before, Run (Service.step smallStore) anything 0 Service.empty before service) ∧
    (perform smallStore (.finish "t" "r" smallFinish none smallDraw) 2 service.db).isOk = true ∧
    (Run.after (step smallStore) ((beginning service Table.empty).step smallStore 2
      (.begin (.finish "t" "r" smallFinish none smallDraw))) l).ended = some .violated ∧
    ((Run.after (step smallStore) ((beginning service Table.empty).step smallStore 2
      (.begin (.finish "t" "r" smallFinish none smallDraw))) l).service.db.run? "r").map RunRow.status = some .RUNNING := by
  refine ⟨Run.after (Service.step smallStore) Service.empty subscribedWork,
    [(2, .read), (2, .hold 1 (.delete "t" "w2")), (2, .change 1), (2, .write)],
    Run.replay subscribedWork_admitted, ?_, ?_, ?_⟩ <;> decide +kernel

end Subscribing

end AgentRuns
