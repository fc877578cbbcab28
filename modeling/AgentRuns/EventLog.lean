import AgentRuns.Lasting

/-!
# The event log

An append takes the batch in order, skips what the log or the batch already had, and gives each
event left the next position (`appending_spec`, by induction on the batch).  So at any time a run's
log holds the positions 1 to n in order, each (attempt, sequence) once, each with the content of its
first arrival (`LogInv`, `log_integrity`).
-/

namespace AgentRuns

open Relational Fallible Timed

/-! ## The loop -/

/-- What the loop of an append adds to what it had added before. -/
structure Added (tenantId runId : String) (events : List RunEvent) (s s' : Appending) (new : List RunEventRow) :
    Prop where
  added : s'.added = s.added ++ new
  reached : s'.position = s.position + new.length
  positions : new.map RunEventRow.position = List.range' (s.position + 1) new.length
  order : (new.map RunEventRow.event).Sublist events
  first : ∀ row ∈ new, events.find? (fun e => e.identity = row.identity) = some row.event
  own : ∀ row ∈ new, row.runId = runId ∧ row.tenantId = tenantId ∧ row.identity = row.event.identity
  unseen : ∀ row ∈ new, row.identity ∉ s.seen
  once : (new.map RunEventRow.identity).Nodup
  seen : ∀ i, i ∈ s'.seen ↔ i ∈ s.seen ∨ i ∈ new.map RunEventRow.identity
  all : ∀ e ∈ events, e.identity ∈ s'.seen

section
variable {tenantId runId : String} {e : RunEvent} {es : List RunEvent} {s s' : Appending} {new : List RunEventRow}

/-- A repeat is skipped. -/
theorem Added.skip (hseen : e.identity ∈ s.seen) (h : Added tenantId runId es s s' new) :
    Added tenantId runId (e :: es) s s' new where
  added := h.added
  reached := h.reached
  positions := h.positions
  order := h.order.cons e
  first row hr := by
    rw [List.find?_cons_of_neg, h.first row hr]
    have hne : e.identity ≠ row.identity := fun he => h.unseen row hr (he ▸ hseen)
    simpa using hne
  own := h.own
  unseen := h.unseen
  once := h.once
  seen := h.seen
  all e' he' := by
    rcases List.mem_cons.1 he' with rfl | he'
    · exact (h.seen _).2 (Or.inl hseen)
    · exact h.all e' he'

/-- A new event takes the next position. -/
theorem Added.take (hseen : e.identity ∉ s.seen)
    (h : Added tenantId runId es ⟨e.identity :: s.seen, s.position + 1,
      s.added ++ [⟨runId, s.position + 1, tenantId, e.attempt, e.sequence, e⟩]⟩ s' new) :
    Added tenantId runId (e :: es) s s' (⟨runId, s.position + 1, tenantId, e.attempt, e.sequence, e⟩ :: new) :=
  have hother : ∀ row ∈ new, row.identity ≠ e.identity ∧ row.identity ∉ s.seen := by
    intro row hr
    have hun := h.unseen row hr
    rwa [List.mem_cons, not_or] at hun
  { added := by
      rw [h.added, List.append_assoc]
      rfl
    reached := by
      rw [h.reached, List.length_cons]
      simp only
      omega
    positions := by rw [List.map_cons, h.positions, List.length_cons, List.range'_succ]
    order := h.order.cons_cons e
    first := by
      intro row hr
      rcases List.mem_cons.1 hr with rfl | hr
      · exact List.find?_cons_of_pos (by simp [RunEvent.identity, RunEventRow.identity])
      · rw [List.find?_cons_of_neg, h.first row hr]
        simpa using (hother row hr).1.symm
    own := by
      intro row hr
      rcases List.mem_cons.1 hr with rfl | hr
      · exact ⟨rfl, rfl, rfl⟩
      · exact h.own row hr
    unseen := by
      intro row hr
      rcases List.mem_cons.1 hr with rfl | hr
      · exact hseen
      · exact (hother row hr).2
    once := by
      rw [List.map_cons, List.nodup_cons]
      refine ⟨fun hm => ?_, h.once⟩
      obtain ⟨row, hr, he⟩ := List.mem_map.1 hm
      exact (hother row hr).1 he
    seen := by
      intro i
      rw [h.seen i, List.map_cons, List.mem_cons, List.mem_cons]
      have hid : (⟨runId, s.position + 1, tenantId, e.attempt, e.sequence, e⟩ : RunEventRow).identity = e.identity := rfl
      rw [hid]
      tauto
    all := by
      intro e' he'
      rcases List.mem_cons.1 he' with rfl | he'
      · exact (h.seen _).2 (Or.inl List.mem_cons_self)
      · exact h.all e' he' }

end

theorem appending_spec (tenantId runId : String) (events : List RunEvent) : ∀ s : Appending,
    ∃ new, Added tenantId runId events s (events.foldl (Appending.next tenantId runId) s) new := by
  induction events with
  | nil =>
    intro s
    exact ⟨[], by simp, by simp, by simp, by simp, by simp, by simp, by simp, by simp, by simp, by simp⟩
  | cons e es ih =>
    intro s
    rw [List.foldl_cons]
    by_cases hseen : e.identity ∈ s.seen
    · rw [show s.next tenantId runId e = s from if_pos hseen]
      obtain ⟨new, h⟩ := ih s
      exact ⟨new, h.skip hseen⟩
    · have hnext : s.next tenantId runId e =
          { seen := e.identity :: s.seen
            position := s.position + 1
            added := s.added ++ [⟨runId, s.position + 1, tenantId, e.attempt, e.sequence, e⟩] } := if_neg hseen
      rw [hnext]
      obtain ⟨new, h⟩ := ih ⟨e.identity :: s.seen, s.position + 1,
        s.added ++ [⟨runId, s.position + 1, tenantId, e.attempt, e.sequence, e⟩]⟩
      exact ⟨_, h.take hseen⟩

/-! ## The log -/

/-- What holds of a run's log. -/
structure LogInv (log : List RunEventRow) : Prop where
  positions : log.map RunEventRow.position = List.range' 1 log.length
  once : (log.map RunEventRow.identity).Nodup
  content : ∀ row ∈ log, row.identity = row.event.identity

theorem foldl_max_range' (n : Nat) : (List.range' 1 n).foldl max 0 = n := by
  induction n with
  | zero => rfl
  | succ n ih =>
    rw [List.range'_1_concat, List.foldl_append, ih]
    simp only [List.foldl_cons, List.foldl_nil]
    omega

section
variable {store : RunStore} {t t' now : Instant} {op : Op} {db db' : Database} {r tenantId : String}
  {ok : Database → Instant → Op → Prop}

/-- The last position is the log's length. -/
theorem LogInv.last (h : LogInv (db.log r)) : db.lastPosition r = (db.log r).length := by
  unfold Database.lastPosition
  rw [h.positions, foldl_max_range']

theorem log_append (db : Database) (r : String) (new : List RunEventRow) :
    ({ db with events := db.events ++ new } : Database).log r = db.log r ++ new.filter (·.runId = r) :=
  List.filter_append _ _

/-- What an append to the run adds to its log. -/
theorem appending_log (h : LogInv (db.log r)) (tenantId : String) (events : List RunEvent) : ∃ new,
    Added tenantId r events ⟨db.logged r (events.map RunEvent.identity), (db.log r).length, []⟩
        (db.appending tenantId r events) new ∧
      (db.appending tenantId r events).added = new ∧
      ({ db with events := db.events ++ (db.appending tenantId r events).added } : Database).log r =
        db.log r ++ new ∧
      ∀ row ∈ new, row.identity ∉ (db.log r).map RunEventRow.identity := by
  have hstart : db.appending tenantId r events = events.foldl (Appending.next tenantId r)
      ⟨db.logged r (events.map RunEvent.identity), (db.log r).length, []⟩ := by
    unfold Database.appending
    rw [h.last]
  obtain ⟨new, hn⟩ := appending_spec tenantId r events
    ⟨db.logged r (events.map RunEvent.identity), (db.log r).length, []⟩
  rw [← hstart] at hn
  have hadded : (db.appending tenantId r events).added = new := by
    rw [hn.added, List.nil_append]
  refine ⟨new, hn, hadded, ?_, ?_⟩
  · rw [log_append, hadded, List.filter_eq_self.2]
    intro row hr
    simpa using (hn.own row hr).1
  · intro row hr hm
    -- what the log has of the batch, the loop has seen
    have hasked : row.identity ∈ events.map RunEvent.identity := by
      have hf := hn.first row hr
      refine List.mem_map.2 ⟨row.event, List.mem_of_find?_eq_some hf, ?_⟩
      simpa using List.find?_some hf
    exact hn.unseen row hr (List.mem_filter.2 ⟨hm, by simpa using hasked⟩)

/-- An append whose items are all logged adds nothing. -/
theorem appending_repeated {events : List RunEvent} {new : List RunEventRow}
    (hn : Added tenantId r events ⟨db.logged r (events.map RunEvent.identity), (db.log r).length, []⟩
      (db.appending tenantId r events) new)
    (hl : ∀ e ∈ events, e.identity ∈ (db.log r).map RunEventRow.identity) : new = [] := by
  cases new with
  | nil => rfl
  | cons row rest =>
    have hf := hn.first row List.mem_cons_self
    have hid : row.event.identity = row.identity := by simpa using List.find?_some hf
    have hm := List.mem_of_find?_eq_some hf
    exfalso
    refine hn.unseen row List.mem_cons_self (List.mem_filter.2 ⟨?_, ?_⟩)
    · exact hid ▸ hl row.event hm
    · simpa using ⟨row.event, hm, hid⟩

/-- After an append, every item of the batch is logged. -/
theorem appending_stores {events : List RunEvent} {new : List RunEventRow}
    (hn : Added tenantId r events ⟨db.logged r (events.map RunEvent.identity), (db.log r).length, []⟩
      (db.appending tenantId r events) new) :
    ∀ e ∈ events, e.identity ∈ (db.log r ++ new).map RunEventRow.identity := by
  intro e he
  rw [List.map_append, List.mem_append]
  rcases (hn.seen _).1 (hn.all e he) with h | h
  · exact Or.inl (List.mem_filter.1 h).1
  · exact Or.inr h

theorem LogInv.append {log new : List RunEventRow} {events : List RunEvent} {seen : List (Nat × Nat)}
    {s' : Appending} (h : LogInv log) (hn : Added tenantId r events ⟨seen, log.length, []⟩ s' new)
    (hnew : ∀ row ∈ new, row.identity ∉ log.map RunEventRow.identity) : LogInv (log ++ new) where
  positions := by
    rw [List.map_append, h.positions, hn.positions, List.length_append, ← List.range'_append_1, Nat.add_comm]
  once := by
    rw [List.map_append, List.nodup_append']
    refine ⟨h.once, hn.once, fun i hi hm => ?_⟩
    obtain ⟨row, hr, rfl⟩ := List.mem_map.1 hm
    exact hnew row hr hi
  content := by
    intro row hr
    rcases List.mem_append.1 hr with hr | hr
    · exact h.content row hr
    · exact (hn.own row hr).2.2

/-- An append to another run leaves the log. -/
theorem appending_other {runId : String} (hne : runId ≠ r) (events : List RunEvent) :
    ({ db with events := db.events ++ (db.appending tenantId runId events).added } : Database).log r = db.log r := by
  obtain ⟨new, hn⟩ := appending_spec tenantId runId events
    ⟨db.logged runId (events.map RunEvent.identity), db.lastPosition runId, []⟩
  have hadded : (db.appending tenantId runId events).added = new := by
    unfold Database.appending
    rw [hn.added, List.nil_append]
  rw [log_append, hadded, List.filter_eq_nil_iff.2, List.append_nil]
  intro row hr
  simpa [(hn.own row hr).1] using hne

/-- **One step.** -/
theorem LogInv.step (h : LogInv (db.log r)) : LogInv ((apply store db now op).log r) := by
  rcases apply_log store now op db with he | ⟨tenantId, runId, append, w, -, he⟩
  · unfold Database.log at h ⊢
    rw [he]
    exact h
  · have hlog : (apply store db now op).log r =
        ({ db with events := db.events ++ (db.appending tenantId runId append.events).added } : Database).log r := by
      unfold Database.log
      rw [he]
    rw [hlog]
    by_cases hr : runId = r
    · subst hr
      obtain ⟨new, hn, -, hl, hnew⟩ := appending_log h tenantId append.events
      rw [hl]
      exact h.append hn hnew
    · rw [appending_other hr]
      exact h

theorem LogInv.nil : LogInv [] := ⟨rfl, List.nodup_nil, by simp⟩

theorem LogInv.run (h : Run (apply store) ok t Database.empty t' db) : LogInv (db.log r) :=
  h.invariant' (fun db => LogInv (db.log r)) (fun _ _ _ hi _ => hi.step) LogInv.nil

end

section
variable {store : RunStore} {t t' now : Instant} {op : Op} {db db' : Database} {row : RunRow} {r : String}
  {ok : Database → Instant → Op → Prop}

/-- An ended run's log takes nothing more. -/
theorem log_ended (store : RunStore) (now : Instant) (op : Op) (hr : db.run? r = some row)
    (hf : row.status.final = true) : (apply store db now op).log r = db.log r := by
  unfold apply
  cases hp : perform store op now db with
  | error e => rfl
  | ok result =>
    obtain ⟨db', answer⟩ := result
    rw [orElse_ok]
    cases perform_effect hp with
    | @appended tenantId runId append workerId answer is ok =>
      obtain ⟨row', hr', -, hs, -⟩ := Database.appendEvents_ok ok
      refine appending_other ?_ append.events
      rintro rfl
      rw [hr] at hr'
      cases hr'
      rw [hs] at hf
      cases hf
    | _ => rfl

theorem Run.log_ended (h : Run (apply store) ok t db t' db') (hr : db.run? r = some row)
    (hf : row.status.final = true) : db'.log r = db.log r := by
  refine (h.invariant' (fun db' => db'.run? r = some row ∧ db'.log r = db.log r) ?_ ⟨hr, rfl⟩).2
  rintro db₁ now op ⟨hr₁, hl⟩ -
  exact ⟨ended_apply hr₁ hf, (AgentRuns.log_ended store now op hr₁ hf).trans hl⟩

end

/-- What a successful append did to the run's log. -/
structure AppendedTo (db db' : Database) (runId : String) (append : EventsAppend) (answer : EventsAppended)
    (added : List RunEventRow) : Prop where
  grows : db'.log runId = db.log runId ++ added
  order : (added.map RunEventRow.event).Sublist append.events
  first : ∀ row ∈ added, append.events.find? (fun e => e.identity = row.identity) = some row.event ∧
    row.identity ∉ (db.log runId).map RunEventRow.identity
  stored : ∀ e ∈ append.events, e.identity ∈ (db'.log runId).map RunEventRow.identity
  counted : answer.appended = added.length
  last : answer.position = (db'.log runId).length
  repeated : (∀ e ∈ append.events, e.identity ∈ (db.log runId).map RunEventRow.identity) →
    db' = db ∧ answer = ⟨0, (db.log runId).length⟩

theorem appendEvents_log {db db' : Database} {tenantId runId : String} {append : EventsAppend}
    {workerId : Option String} {answer : EventsAppended} (hi : LogInv (db.log runId))
    (h : db.appendEvents tenantId runId append workerId = .ok (db', answer)) :
    ∃ added, AppendedTo db db' runId append answer added := by
  obtain ⟨row, -, -, -, -, -, rfl, rfl⟩ := Database.appendEvents_ok h
  obtain ⟨new, hn, hadded, hlog, hnew⟩ := appending_log hi tenantId append.events
  refine ⟨new, hlog, hn.order, fun row hr => ⟨hn.first row hr, hnew row hr⟩, ?_, by simp only [hadded], ?_, ?_⟩
  · rw [hlog]
    exact appending_stores hn
  · rw [hlog, List.length_append]
    exact hn.reached
  · intro hl
    have hempty := appending_repeated hn hl
    have hreached := hn.reached
    rw [hempty] at hadded hreached
    rw [hadded, List.append_nil, hreached]
    exact ⟨rfl, rfl⟩

/-- **The event log.**  In every history a run's log holds the positions 1 to n in order, each item
once with the content it came with; no operation does more to it than add at its end; and an append
adds the batch's new items in the batch's order, each as it came first, answering the last position. -/
theorem log_integrity {store : RunStore} {t before : Instant} {db : Database}
    (h : Run (apply store) anything t Database.empty before db) (runId : String) :
    LogInv (db.log runId) ∧
      (∀ now op, db.log runId <+: (apply store db now op).log runId) ∧
      ∀ tenantId append workerId db' answer,
        db.appendEvents tenantId runId append workerId = .ok (db', answer) →
          ∃ added, AppendedTo db db' runId append answer added := by
  have hi : LogInv (db.log runId) := LogInv.run h
  refine ⟨hi, fun now op => ?_, fun tenantId append workerId db' answer ha => appendEvents_log hi ha⟩
  obtain ⟨added, he⟩ := log_apply store now op db
  unfold Database.log
  rw [he, List.filter_append]
  exact List.prefix_append _ _

/-- A batch with a repeat in it, to a run in its caller's process. -/
def smallAppend : EventsAppend where
  events := [⟨.RAW, "t", "r", 1, 1, .null⟩, ⟨.RAW, "t", "r", 1, 1, .str "again"⟩, ⟨.RAW, "t", "r", 1, 2, .null⟩]
  some := by simp
  few := by decide

def loggedWork : List (Instant × Op) :=
  [(0, .start smallStart false true), (1, .appendEvents "t" "r" smallAppend none)]

theorem log_integrity_loggedWork : ((history smallStore loggedWork).log "r").map RunEventRow.position = [1, 2] ∧
    LogInv ((history smallStore loggedWork).log "r") := by
  have hs : ((history smallStore loggedWork).log "r").map RunEventRow.position = [1, 2] := by decide +kernel
  have ha : Run.Admitted (apply smallStore) anything 0 Database.empty loggedWork := by
    norm_num [loggedWork, Run.Admitted, anything]
  obtain ⟨now, h⟩ := history_run ha
  exact ⟨hs, (log_integrity h "r").1⟩

end AgentRuns
