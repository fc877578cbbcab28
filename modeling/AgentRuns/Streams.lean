import AgentRuns.EventLog

/-!
# Following a run's log

The server's `_follow` and the SDK's `stream_events` over a store that goes on working.  A poll is two
reads, the run's status and then the rows past a position, and any operation may commit between them
and between the frames of a page.  The connection may break at any frame; the client then asks again
from the last position it saw.

    received ++ on the wire ++ left of the page  <+:  the log past the position asked for     (`StreamInv.sent`)

so nothing is skipped or repeated, and `end` is sent only behind the last event (`stream_complete`).
-/

namespace AgentRuns

open Relational Fallible Timed

/-! ## The server -/

/-- `EVENT_POLL_SECONDS`. -/
def eventPollSeconds : Rat := 1 / 2
/-- `EVENT_KEEPALIVE_SECONDS`. -/
def eventKeepaliveSeconds : Rat := 15

/-- What the server sends: an event under its position, the end, a comment. -/
inductive Frame where
  | event (entry : RunEventEntry)
  | ended (status : RunStatus)
  | keepalive

/-- Where `_follow` is. -/
inductive Follow where
  /-- at the head of its loop -/
  | poll (after : Nat) (quiet : Rat)
  /-- between its two reads; the status comes from `before` -/
  | reading (after : Nat) (quiet : Rat) (before : Database)
  /-- sending a page of `count` events, `left` of them to go -/
  | sending (after : Nat) (quiet : Rat) (status : RunStatus) (count : Nat) (left : List RunEventEntry)
  /-- asleep until the next poll -/
  | asleep (after : Nat) (quiet : Rat)
  /-- it returned -/
  | closed
  /-- it raised: the connection breaks off -/
  | raised

/-- A stream of one run: `page` is `MAX_PAGE`, `maxRetries` the SDK's. -/
structure Stream where
  store : RunStore
  tenantId : String
  runId : String
  page : Nat
  maxRetries : Nat

namespace Follow

/-- The events of the page it has not sent. -/
def left : Follow → List RunEventEntry
  | sending _ _ _ _ left => left
  | _ => []

/-- The position it has sent up to, while it runs. -/
def at? : Follow → Option Nat
  | poll after _ => some after
  | reading after _ _ => some after
  | sending after _ _ _ _ => some after
  | asleep after _ => some after
  | _ => none

/-- The first statement of a poll. -/
def readStatus (db : Database) : Follow → Follow
  | poll after quiet => reading after quiet db
  | f => f

/-- The second one. -/
def readRows (stream : Stream) (db : Database) : Follow → Follow
  | reading after quiet before =>
    match before.readEvents db stream.tenantId stream.runId after stream.page with
    | .error _ => raised
    | .ok (entries, status) => sending after quiet status entries.length entries
  | f => f

/-- The next `yield` of the page. -/
def send : Follow → Follow × List Frame
  | sending _ quiet status count (entry :: left) => (sending entry.position quiet status count left, [.event entry])
  | f => (f, [])

/-- Behind the page: the next page at once, the end, or a pause; `stop` when the stream has lasted its
time or the client has gone. -/
def turn (stream : Stream) (stop : Bool) : Follow → Follow × List Frame
  | sending after quiet status count [] =>
    if count = stream.page then (poll after quiet, [])
    else if status.final then (closed, [.ended status])
    else if stop then (closed, [])
    else (asleep after (if count = 0 then quiet + eventPollSeconds else 0), [])
  | f => (f, [])

/-- After the pause. -/
def wake : Follow → Follow × List Frame
  | asleep after quiet => if eventKeepaliveSeconds ≤ quiet then (poll after 0, [.keepalive]) else (poll after quiet, [])
  | f => (f, [])

end Follow

/-! ## The client -/

/-- Where `stream_events` is. -/
inductive Reading where
  /-- about to ask for the stream -/
  | asking
  /-- reading it -/
  | reading
  /-- returned -/
  | ended
  /-- raised -/
  | raised
deriving DecidableEq

/-- `stream_events`: the position it asks from, and what it has yielded. -/
structure Client where
  after : Nat
  failures : Nat
  received : List RunEventEntry
  reading : Reading

namespace Client

/-- The client takes a frame. -/
def take (client : Client) : Frame → Client
  | .event entry =>
    { client with after := entry.position, failures := 0, received := client.received ++ [entry] }
  | .ended _ => { client with reading := .ended }
  | .keepalive => client

/-- The connection failed. -/
def failed (client : Client) (maxRetries : Nat) : Client :=
  if maxRetries ≤ client.failures then { client with reading := .raised }
  else { client with failures := client.failures + 1, reading := .asking }

end Client

/-! ## The system -/

/-- The database, the stream open on it, the frames on their way, and the client. -/
structure Streaming where
  db : Database
  follow : Follow
  wire : List Frame
  client : Client

namespace Streaming

/-- A client about to ask for the events past `after`, of a new deployment. -/
def initial (after : Nat) : Streaming := ⟨Database.empty, .closed, [], ⟨after, 0, [], .asking⟩⟩

/-- What the server did. -/
def served (s : Streaming) (answer : Follow × List Frame) : Streaming :=
  { s with follow := answer.1, wire := s.wire ++ answer.2 }

/-- The connection is gone, and what was on its way with it. -/
def broken (s : Streaming) (client : Client) : Streaming := { s with follow := .closed, wire := [], client := client }

end Streaming

/-- A step of anyone: an operation commits, the server goes on, the client asks or reads, the connection
breaks. -/
inductive StreamAct where
  | op (op : Op)
  | readStatus
  | readRows
  | send
  | turn (stop : Bool)
  | wake
  | ask
  | take
  | drop
  | eof

namespace Stream

/-- The client asks for the stream: a run that is not there is `404`, which it raises. -/
def ask (stream : Stream) (s : Streaming) : Streaming :=
  match s.db.one stream.tenantId stream.runId with
  | none => { s with client := { s.client with reading := .raised } }
  | some _ => { s with follow := .poll s.client.after 0, client := { s.client with reading := .reading } }

/-- The client reads the next frame; behind `end` it reads no more. -/
def take (s : Streaming) : Streaming :=
  match s.wire with
  | [] => s
  | .ended status :: _ => s.broken (s.client.take (.ended status))
  | frame :: wire => { s with wire := wire, client := s.client.take frame }

def step (stream : Stream) (s : Streaming) (now : Instant) (act : StreamAct) : Streaming :=
  match act with
  | .op op => { s with db := apply stream.store s.db now op }
  | .readStatus => { s with follow := s.follow.readStatus s.db }
  | .readRows => { s with follow := s.follow.readRows stream s.db }
  | .send => s.served s.follow.send
  | .turn stop => s.served (s.follow.turn stream stop)
  | .wake => s.served s.follow.wake
  | .ask => if s.client.reading = .asking then stream.ask s else s
  | .take => if s.client.reading = .reading then take s else s
  | .drop =>
    if s.client.reading = .asking ∨ s.client.reading = .reading then s.broken (s.client.failed stream.maxRetries) else s
  | .eof =>
    -- the server returned and everything it sent was read: the client asks again
    match s.follow, s.wire with
    | .closed, [] => if s.client.reading = .reading then s.broken { s.client with reading := .asking } else s
    | _, _ => s

end Stream

/-! ## A page of the log -/

/-- The event as a reader gets it. -/
def RunEventRow.entry (row : RunEventRow) : RunEventEntry := ⟨row.position, row.event⟩

theorem filter_positions (log : List RunEventRow) : ∀ first after : Nat,
    log.map RunEventRow.position = List.range' (first + 1) log.length →
    log.filter (fun row => first + after < row.position) = log.drop after := by
  induction log with
  | nil => intro first after _; simp
  | cons row log ih =>
    intro first after h
    rw [List.map_cons, List.length_cons, List.range'_succ, List.cons.injEq] at h
    obtain ⟨hrow, hlog⟩ := h
    cases after with
    | zero =>
      rw [List.drop_zero, List.filter_eq_self]
      intro a ha
      have hm : a.position ∈ (row :: log).map RunEventRow.position := List.mem_map_of_mem ha
      rw [List.map_cons, hlog, hrow, List.mem_cons, List.mem_range'_1] at hm
      simp only [decide_eq_true_eq]
      omega
    | succ after =>
      rw [List.drop_succ_cons, List.filter_cons_of_neg, ← ih (first + 1) after hlog]
      · simp only [Nat.add_assoc, Nat.add_comm 1 after]
      · simp only [hrow, decide_eq_true_eq]
        omega

section
variable {db : Database} {r : String}

/-- The rows past a position are the log without its first ones. -/
theorem eventsAfter_eq (h : LogInv (db.log r)) (after limit : Nat) :
    db.eventsAfter r after limit = ((db.log r).drop after).take limit := by
  have hp := h.positions
  have hfilter := filter_positions (db.log r) 0 after (by simpa using hp)
  simp only [Nat.zero_add] at hfilter
  unfold Database.eventsAfter
  rw [hfilter, List.Pairwise.insertionSort_eq]
  have hsorted : ((db.log r).map RunEventRow.position).Pairwise (· ≤ ·) := by
    rw [hp]
    exact (List.pairwise_lt_range' ..).imp Nat.le_of_lt
  exact (List.pairwise_map.1 hsorted).sublist (List.drop_sublist after _)

/-- What a reader of the run from past `after` is to receive. -/
def Database.pastEvents (db : Database) (r : String) (after : Nat) : List RunEventEntry :=
  ((db.log r).drop after).map RunEventRow.entry

theorem pastEvents_positions (h : LogInv (db.log r)) (after : Nat) :
    (db.pastEvents r after).map RunEventEntry.position =
      List.range' (after + 1) (db.pastEvents r after).length := by
  have hp : (db.pastEvents r after).map RunEventEntry.position = ((db.log r).map RunEventRow.position).drop after := by
    rw [← List.map_drop]
    unfold Database.pastEvents
    rw [List.map_map]
    rfl
  rw [hp, h.positions, List.drop_range', Database.pastEvents, List.length_map, List.length_drop, Nat.mul_one,
    Nat.add_comm]

/-- The event behind a prefix of them has the position behind it. -/
theorem position_next (h : LogInv (db.log r)) {after : Nat} {before rest : List RunEventEntry} {entry : RunEventEntry}
    (hp : before ++ entry :: rest <+: db.pastEvents r after) : entry.position = after + before.length + 1 := by
  have hpos := hp.map RunEventEntry.position
  rw [pastEvents_positions h, List.map_append, List.map_cons] at hpos
  have hlen : (before.map RunEventEntry.position).length <
      (before.map RunEventEntry.position ++ entry.position :: rest.map RunEventEntry.position).length := by
    simp
  have := hpos.getElem hlen
  simp only [List.length_map, List.getElem_range'] at this
  rw [List.getElem_append_right (by simp)] at this
  simp at this
  omega

end

/-! ## What holds of a stream -/

/-- The events among the frames. -/
def sentOf (wire : List Frame) : List RunEventEntry :=
  wire.filterMap fun
    | .event entry => some entry
    | _ => none

@[simp] theorem sentOf_nil : sentOf [] = [] := rfl

@[simp] theorem sentOf_event (entry : RunEventEntry) (wire : List Frame) :
    sentOf (.event entry :: wire) = entry :: sentOf wire := rfl

@[simp] theorem sentOf_ended (status : RunStatus) (wire : List Frame) :
    sentOf (.ended status :: wire) = sentOf wire := rfl

@[simp] theorem sentOf_keepalive (wire : List Frame) : sentOf (.keepalive :: wire) = sentOf wire := rfl

@[simp] theorem sentOf_append (wire wire' : List Frame) : sentOf (wire ++ wire') = sentOf wire ++ sentOf wire' := by
  simp [sentOf, List.filterMap_append]

/-- What the client received, and what is on its way to it. -/
def Streaming.events (s : Streaming) : List RunEventEntry := s.client.received ++ sentOf s.wire

@[simp] theorem Streaming.served_events (s : Streaming) (follow : Follow) (frames : List Frame) :
    (s.served (follow, frames)).events = s.events ++ sentOf frames := by
  simp [Streaming.events, Streaming.served]

/-- The run ended, and every event of it was sent. -/
def Streaming.Complete (s : Streaming) (r : String) (after : Nat) : Prop :=
  (∃ row, s.db.run? r = some row ∧ row.status.final = true) ∧ s.events ++ s.follow.left = s.db.pastEvents r after

/-- What holds of a stream of run `r` from past `after`. -/
structure StreamInv (stream : Stream) (after : Nat) (s : Streaming) : Prop where
  log : LogInv (s.db.log stream.runId)
  place : s.client.after = after + s.client.received.length
  sent : s.events ++ s.follow.left <+: s.db.pastEvents stream.runId after
  server : ∀ a, s.follow.at? = some a → a = after + s.events.length
  status : ∀ a quiet before, s.follow = .reading a quiet before → ∀ row, before.run? stream.runId = some row →
    row.status.final = true → s.db.run? stream.runId = some row
  page : ∀ a quiet status count left, s.follow = .sending a quiet status count left → status.final = true →
    count ≠ stream.page → s.Complete stream.runId after
  last : ∀ wire status rest, s.wire = wire ++ .ended status :: rest →
    rest = [] ∧ s.follow = .closed ∧ s.Complete stream.runId after
  ended : s.client.reading = .ended → s.Complete stream.runId after
  apart : s.client.reading ≠ .reading → s.follow = .closed ∧ s.wire = []

namespace StreamInv

variable {stream : Stream} {after : Nat} {s : Streaming} {now : Instant}

theorem initial (stream : Stream) (after : Nat) : StreamInv stream after (Streaming.initial after) where
  log := LogInv.nil
  place := rfl
  sent := List.nil_prefix
  server := by simp [Streaming.initial, Follow.at?]
  status := by simp [Streaming.initial]
  page := by simp [Streaming.initial]
  last := by simp [Streaming.initial]
  ended := by simp [Streaming.initial]
  apart := fun _ => ⟨rfl, rfl⟩

/-! ## An operation commits -/

theorem op (h : StreamInv stream after s) (op : Op) :
    StreamInv stream after { s with db := apply stream.store s.db now op } := by
  have hpast : s.db.pastEvents stream.runId after <+:
      (apply stream.store s.db now op).pastEvents stream.runId after := by
    obtain ⟨added, he⟩ := log_apply stream.store now op s.db
    have hlog : (apply stream.store s.db now op).log stream.runId =
        s.db.log stream.runId ++ added.filter (·.runId = stream.runId) := by
      unfold Database.log
      rw [he, List.filter_append]
    unfold Database.pastEvents
    rw [hlog, List.drop_append, List.map_append]
    exact List.prefix_append _ _
  have hcomplete : s.Complete stream.runId after →
      Streaming.Complete { s with db := apply stream.store s.db now op } stream.runId after := by
    rintro ⟨⟨row, hr, hf⟩, hall⟩
    refine ⟨⟨row, ended_apply hr hf, hf⟩, ?_⟩
    show s.events ++ s.follow.left = _
    rw [hall]
    unfold Database.pastEvents
    rw [log_ended stream.store now op hr hf]
  exact
    { log := h.log.step
      place := h.place
      sent := h.sent.trans hpast
      server := h.server
      status := fun a quiet before hf row hr hfinal => ended_apply (h.status a quiet before hf row hr hfinal) hfinal
      page := fun a quiet status count left hf hs hc => hcomplete (h.page a quiet status count left hf hs hc)
      last := fun wire status rest hw => by
        obtain ⟨hrest, hclosed, hall⟩ := h.last wire status rest hw
        exact ⟨hrest, hclosed, hcomplete hall⟩
      ended := fun he => hcomplete (h.ended he)
      apart := h.apart }

/-! ## The server goes on -/

theorem reading_of_live (h : StreamInv stream after s) (live : s.follow.at?.isSome) : s.client.reading = .reading := by
  by_contra hne
  rw [(h.apart hne).1] at live
  cases live

theorem unended_of_live (h : StreamInv stream after s) (live : s.follow.at?.isSome) (status : RunStatus) :
    .ended status ∉ s.wire := by
  intro hm
  obtain ⟨wire, rest, hw⟩ := List.append_of_mem hm
  rw [(h.last wire status rest hw).2.1] at live
  cases live

/-- What the server may do while it runs. -/
theorem serve (h : StreamInv stream after s) (live : s.follow.at?.isSome) {follow : Follow} {frames : List Frame}
    (hsent : s.events ++ sentOf frames ++ follow.left <+: s.db.pastEvents stream.runId after)
    (hserver : ∀ a, follow.at? = some a → a = after + (s.events ++ sentOf frames).length)
    (hstatus : ∀ a quiet before, follow = .reading a quiet before → before = s.db)
    (hpage : ∀ a quiet status count left, follow = .sending a quiet status count left → status.final = true →
      count ≠ stream.page → (s.served (follow, frames)).Complete stream.runId after)
    (hlast : ∀ status, .ended status ∈ frames → frames = [.ended status] ∧ follow = .closed ∧
      (s.served (follow, frames)).Complete stream.runId after) :
    StreamInv stream after (s.served (follow, frames)) := by
  have hreading := h.reading_of_live live
  have hevents := s.served_events follow frames
  refine ⟨h.log, h.place, ?_, ?_, ?_, hpage, ?_, ?_, ?_⟩
  · rw [hevents]
    exact hsent
  · rw [hevents]
    exact hserver
  · intro a quiet before hf row hr _
    rw [hstatus a quiet before hf] at hr
    exact hr
  · intro wire status rest hw
    have hw : s.wire ++ frames = wire ++ .ended status :: rest := hw
    have hm : .ended status ∈ frames := by
      have : .ended status ∈ s.wire ++ frames := by
        rw [hw]
        simp
      exact (List.mem_append.1 this).resolve_left (h.unended_of_live live status)
    obtain ⟨rfl, hclosed, hall⟩ := hlast status hm
    refine ⟨?_, hclosed, hall⟩
    rcases List.append_eq_append_iff.1 hw with ⟨l, -, hl⟩ | ⟨l, hl, hr⟩
    · cases l with
      | nil => exact (List.cons.inj hl).2.symm
      | cons _ l =>
        have := congrArg List.length hl
        simp at this
    · cases l with
      | nil => exact (List.cons.inj hr).2
      | cons frame l =>
        cases (List.cons.inj hr).1
        exact absurd (hl ▸ List.mem_append_right wire List.mem_cons_self) (h.unended_of_live live status)
  · intro he
    rw [show (s.served (follow, frames)).client.reading = .reading from hreading] at he
    cases he
  · intro hne
    exact absurd hreading hne

/-- Between two polls it sends no event, and stays where it is. -/
theorem rest (h : StreamInv stream after s) (live : s.follow.at?.isSome) (hleft : s.follow.left = []) {follow : Follow}
    {frames : List Frame} (hsends : ∀ a quiet status count left, follow ≠ .sending a quiet status count left)
    (hreads : ∀ a quiet before, follow ≠ .reading a quiet before) (hat : ∀ a, follow.at? = some a → s.follow.at? = some a)
    (hframes : ∀ frame ∈ frames, frame = .keepalive) : StreamInv stream after (s.served (follow, frames)) := by
  have hsent := h.sent
  rw [hleft, List.append_nil] at hsent
  have hnone : sentOf frames = [] := by
    refine List.filterMap_eq_nil_iff.2 fun frame hm => ?_
    rw [hframes frame hm]
  have hleft' : follow.left = [] := by
    cases follow with
    | sending a quiet status count left => exact absurd rfl (hsends a quiet status count left)
    | _ => rfl
  refine h.serve live ?_ ?_ ?_ ?_ ?_
  · rw [hnone, hleft', List.append_nil, List.append_nil]
    exact hsent
  · intro a ha
    rw [hnone, List.append_nil]
    exact h.server a (hat a ha)
  · intro a quiet before hf
    exact absurd hf (hreads a quiet before)
  · intro a quiet status count left hf
    exact absurd hf (hsends a quiet status count left)
  · intro status hm
    cases hframes _ hm

theorem readStatus (h : StreamInv stream after s) :
    StreamInv stream after { s with follow := s.follow.readStatus s.db } := by
  have hsame : ∀ f, { s with follow := f } = s.served (f, []) := fun f => by simp [Streaming.served]
  cases hf : s.follow with
  | poll a quiet =>
    have hsent := h.sent
    have hserver := h.server a (by rw [hf]; rfl)
    rw [hf] at hsent
    rw [hsame]
    refine h.serve (by rw [hf]; rfl) ?_ ?_ ?_ ?_ ?_
    · simpa [Follow.readStatus, Follow.left] using hsent
    · rintro _ ⟨⟩
      simpa using hserver
    · rintro _ _ _ ⟨⟩
      rfl
    · rintro _ _ _ _ _ ⟨⟩
    · simp
  | _ =>
    have hid : s.follow.readStatus s.db = s.follow := by rw [hf]; rfl
    rw [← hf, hid]
    exact h

/-- The rows of a page are the next ones the client is to receive. -/
theorem page_eq (h : LogInv (s.db.log stream.runId)) (after k limit : Nat) :
    (s.db.eventsAfter stream.runId (after + k) limit).map RunEventRow.entry =
      ((s.db.pastEvents stream.runId after).drop k).take limit := by
  rw [eventsAfter_eq h, List.map_take, List.map_drop, Database.pastEvents, List.map_drop, List.drop_drop]

theorem readRows (h : StreamInv stream after s) :
    StreamInv stream after { s with follow := s.follow.readRows stream s.db } := by
  have hsame : ∀ f, { s with follow := f } = s.served (f, []) := fun f => by simp [Streaming.served]
  cases hf : s.follow with
  | reading a quiet before =>
    have live : s.follow.at?.isSome := by rw [hf]; rfl
    have hsent := h.sent
    have hserver := h.server a (by rw [hf]; rfl)
    rw [hf, show (Follow.reading a quiet before).left = [] from rfl, List.append_nil] at hsent
    rw [hsame]
    cases hone : before.one stream.tenantId stream.runId with
    | none =>
      have hrows : (Follow.reading a quiet before).readRows stream s.db = .raised := by
        simp [Follow.readRows, Database.readEvents, hone]
      rw [hrows]
      exact h.rest live (by rw [hf]; rfl) (by simp) (by simp) (by simp [Follow.at?]) (by simp)
    | some row =>
      obtain ⟨hr, -⟩ := Database.one_eq_some.1 hone
      have hrows : (Follow.reading a quiet before).readRows stream s.db =
          .sending a quiet row.status
            (((s.db.pastEvents stream.runId after).drop s.events.length).take stream.page).length
            (((s.db.pastEvents stream.runId after).drop s.events.length).take stream.page) := by
        rw [← page_eq h.log after s.events.length stream.page, ← hserver]
        simp only [Follow.readRows, Database.readEvents, hone]
        rfl
      have hall : s.events ++ (s.db.pastEvents stream.runId after).drop s.events.length =
          s.db.pastEvents stream.runId after := List.prefix_iff_eq_append.1 hsent
      rw [hrows]
      refine h.serve live ?_ ?_ ?_ ?_ ?_
      · simp only [sentOf_nil, List.append_nil, Follow.left]
        conv => rhs; rw [← hall]
        exact (List.prefix_append_right_inj _).2 (List.take_prefix _ _)
      · rintro _ ⟨⟩
        simpa using hserver
      · rintro _ _ _ ⟨⟩
      · rintro _ _ _ _ _ ⟨⟩ hfinal hcount
        -- fewer rows than asked for are all there are
        refine ⟨⟨row, h.status a quiet before hf row hr hfinal, hfinal⟩, ?_⟩
        have hshort : ((s.db.pastEvents stream.runId after).drop s.events.length).length ≤ stream.page := by
          rw [List.length_take] at hcount
          omega
        rw [Streaming.served_events, sentOf_nil, List.append_nil]
        show s.events ++ (((s.db.pastEvents stream.runId after).drop s.events.length).take stream.page) = _
        rw [List.take_of_length_le hshort]
        exact hall
      · simp
  | _ =>
    have hid : s.follow.readRows stream s.db = s.follow := by rw [hf]; rfl
    rw [← hf, hid]
    exact h

theorem send (h : StreamInv stream after s) : StreamInv stream after (s.served s.follow.send) := by
  have hid : s.served (s.follow, []) = s := by simp [Streaming.served]
  cases hf : s.follow with
  | sending a quiet status count left =>
    cases left with
    | nil =>
      rw [show Follow.send (.sending a quiet status count []) = (s.follow, []) from by rw [hf]; rfl, hid]
      exact h
    | cons entry left =>
      have live : s.follow.at?.isSome := by rw [hf]; rfl
      have hsent := h.sent
      rw [hf, show (Follow.sending a quiet status count (entry :: left)).left = entry :: left from rfl] at hsent
      refine h.serve live ?_ ?_ ?_ ?_ ?_
      · simpa [Follow.left] using hsent
      · rintro _ ⟨⟩
        rw [position_next h.log hsent]
        simp [Nat.add_assoc]
      · rintro _ _ _ ⟨⟩
      · rintro _ _ _ _ _ ⟨⟩ hfinal hcount
        obtain ⟨hrun, hall⟩ := h.page _ _ _ _ _ hf hfinal hcount
        refine ⟨hrun, ?_⟩
        rw [Streaming.served_events, List.append_assoc]
        rw [hf] at hall
        exact hall
      · simp
  | _ =>
    rw [show Follow.send _ = (s.follow, []) from by rw [hf]; rfl, hid]
    exact h

theorem turn (h : StreamInv stream after s) (stop : Bool) :
    StreamInv stream after (s.served (s.follow.turn stream stop)) := by
  have hid : s.served (s.follow, []) = s := by simp [Streaming.served]
  cases hf : s.follow with
  | sending a quiet status count left =>
    cases left with
    | nil =>
      have live : s.follow.at?.isSome := by rw [hf]; rfl
      have hleft : s.follow.left = [] := by rw [hf]; rfl
      have hat : s.follow.at? = some a := by rw [hf]; rfl
      by_cases hcount : count = stream.page
      · rw [show Follow.turn stream stop (.sending a quiet status count []) = (.poll a quiet, []) from if_pos hcount]
        exact h.rest live hleft (by simp) (by simp) (fun _ ha => hat.trans ha) (by simp)
      by_cases hfinal : status.final = true
      · rw [show Follow.turn stream stop (.sending a quiet status count []) = (.closed, [.ended status]) from
          (if_neg hcount).trans (if_pos hfinal)]
        -- the page was the last one, and it was sent
        obtain ⟨hrun, hall⟩ := h.page a quiet status count [] hf hfinal hcount
        rw [hleft, List.append_nil] at hall
        have hcomplete : (s.served (.closed, [.ended status])).Complete stream.runId after := by
          refine ⟨hrun, ?_⟩
          rw [Streaming.served_events, sentOf_ended, sentOf_nil, List.append_nil]
          exact (List.append_nil _).trans hall
        refine h.serve live ?_ (by simp [Follow.at?]) (by simp) (by simp) ?_
        · simp [Follow.left, hall]
        · intro status' hm
          cases List.mem_singleton.1 hm
          exact ⟨rfl, rfl, hcomplete⟩
      by_cases hstop : stop = true
      · rw [show Follow.turn stream stop (.sending a quiet status count []) = (.closed, []) from
          (if_neg hcount).trans ((if_neg hfinal).trans (if_pos hstop))]
        exact h.rest live hleft (by simp) (by simp) (by simp [Follow.at?]) (by simp)
      · rw [show Follow.turn stream stop (.sending a quiet status count []) = (.asleep a _, []) from
          (if_neg hcount).trans ((if_neg hfinal).trans (if_neg hstop))]
        exact h.rest live hleft (by simp) (by simp) (fun _ ha => hat.trans ha) (by simp)
    | cons entry left =>
      rw [show Follow.turn stream stop (.sending a quiet status count (entry :: left)) = (s.follow, []) from by
        rw [hf]; rfl, hid]
      exact h
  | _ =>
    rw [show Follow.turn stream stop _ = (s.follow, []) from by rw [hf]; rfl, hid]
    exact h

theorem wake (h : StreamInv stream after s) : StreamInv stream after (s.served s.follow.wake) := by
  have hid : s.served (s.follow, []) = s := by simp [Streaming.served]
  cases hf : s.follow with
  | asleep a quiet =>
    have live : s.follow.at?.isSome := by rw [hf]; rfl
    have hleft : s.follow.left = [] := by rw [hf]; rfl
    have hat : s.follow.at? = some a := by rw [hf]; rfl
    by_cases hquiet : eventKeepaliveSeconds ≤ quiet
    · rw [show Follow.wake (.asleep a quiet) = (.poll a 0, [.keepalive]) from if_pos hquiet]
      exact h.rest live hleft (by simp) (by simp) (fun _ ha => hat.trans ha) (by simp)
    · rw [show Follow.wake (.asleep a quiet) = (.poll a quiet, []) from if_neg hquiet]
      exact h.rest live hleft (by simp) (by simp) (fun _ ha => hat.trans ha) (by simp)
  | _ =>
    rw [show Follow.wake _ = (s.follow, []) from by rw [hf]; rfl, hid]
    exact h

/-! ## The client goes on -/

/-- The connection gone, the client goes on from what it received. -/
theorem broken (h : StreamInv stream after s) {client : Client} (hafter : client.after = s.client.after)
    (hreceived : client.received = s.client.received) (hreading : client.reading ≠ .ended) :
    StreamInv stream after (s.broken client) where
  log := h.log
  place := by
    show client.after = after + client.received.length
    rw [hafter, hreceived, h.place]
  sent := by
    have hp : s.client.received <+: s.events ++ s.follow.left := by
      rw [Streaming.events, List.append_assoc]
      exact List.prefix_append _ _
    simpa [Streaming.broken, Streaming.events, Follow.left, hreceived] using hp.trans h.sent
  server := by simp [Streaming.broken, Follow.at?]
  status := by simp [Streaming.broken]
  page := by simp [Streaming.broken]
  last := by simp [Streaming.broken]
  ended := fun he => absurd he hreading
  apart := fun _ => ⟨rfl, rfl⟩

theorem ask (h : StreamInv stream after s) (hasking : s.client.reading = .asking) :
    StreamInv stream after (stream.ask s) := by
  obtain ⟨hclosed, hwire⟩ := h.apart (by rw [hasking]; decide)
  have hevents : s.events = s.client.received := by
    rw [Streaming.events, hwire, sentOf_nil, List.append_nil]
  have hsent := h.sent
  rw [hevents, hclosed] at hsent
  unfold Stream.ask
  split
  · exact
      { log := h.log
        place := h.place
        sent := h.sent
        server := h.server
        status := h.status
        page := h.page
        last := h.last
        ended := fun he => by cases he
        apart := fun _ => ⟨hclosed, hwire⟩ }
  · refine ⟨h.log, h.place, ?_, ?_, by simp, by simp, by simp [hwire], (fun he => by cases he),
      fun hne => absurd rfl hne⟩
    · simpa [Streaming.events, hwire, Follow.left] using hsent
    · rintro _ ⟨⟩
      simpa [Streaming.events, hwire] using h.place

/-- The client takes a frame off the wire, and has what was on it. -/
theorem taken (h : StreamInv stream after s) {frame : Frame} {wire : List Frame}
    (hwire : s.wire = frame :: wire) {client : Client} (hopen : client.reading = .reading)
    (hplace : client.after = after + client.received.length)
    (hsame : client.received ++ sentOf wire = s.events) :
    StreamInv stream after { s with wire := wire, client := client } := by
  have hsame : ({ s with wire := wire, client := client } : Streaming).events = s.events := hsame
  have hcomplete : s.Complete stream.runId after →
      Streaming.Complete { s with wire := wire, client := client } stream.runId after := by
    rintro ⟨hrun, hall⟩
    exact ⟨hrun, by rw [hsame]; exact hall⟩
  exact
    { log := h.log
      place := hplace
      sent := by rw [hsame]; exact h.sent
      server := by rw [hsame]; exact h.server
      status := h.status
      page := fun a quiet status count left hf hs hc => hcomplete (h.page a quiet status count left hf hs hc)
      last := fun w status rest hw => by
        have hw : wire = w ++ .ended status :: rest := hw
        obtain ⟨hrest, hclosed, hall⟩ := h.last (frame :: w) status rest (by rw [hwire, hw]; rfl)
        exact ⟨hrest, hclosed, hcomplete hall⟩
      ended := fun he => by
        rw [show client.reading = .ended from he] at hopen
        cases hopen
      apart := fun hne => absurd hopen hne }

theorem take (h : StreamInv stream after s) (hreading : s.client.reading = .reading) :
    StreamInv stream after (Stream.take s) := by
  cases hwire : s.wire with
  | nil =>
    rw [show Stream.take s = s by simp [Stream.take, hwire]]
    exact h
  | cons frame wire =>
    cases frame with
    | ended status =>
      obtain ⟨rfl, hclosed, hrun, hall⟩ := h.last [] status wire hwire
      rw [show Stream.take s = s.broken (s.client.take (.ended status)) by simp [Stream.take, hwire]]
      have hreceived : s.client.received = s.db.pastEvents stream.runId after := by
        simpa [Streaming.events, hwire, hclosed, Follow.left] using hall
      exact
        { log := h.log
          place := h.place
          sent := by simp [Streaming.broken, Streaming.events, Client.take, Follow.left, hreceived]
          server := by simp [Streaming.broken, Follow.at?]
          status := by simp [Streaming.broken]
          page := by simp [Streaming.broken]
          last := by simp [Streaming.broken]
          ended := fun _ => ⟨hrun, by
            simpa [Streaming.broken, Streaming.events, Client.take, Follow.left] using hreceived⟩
          apart := fun _ => ⟨rfl, rfl⟩ }
    | event entry =>
      have hnext : entry.position = after + s.client.received.length + 1 := by
        have hsent := h.sent
        rw [Streaming.events, hwire, sentOf_event, List.append_assoc, List.cons_append] at hsent
        exact position_next h.log hsent
      rw [show Stream.take s = { s with wire := wire, client := s.client.take (.event entry) } by
        simp [Stream.take, hwire]]
      refine h.taken hwire hreading ?_ ?_
      · simp [Client.take, hnext, Nat.add_assoc]
      · simp [Client.take, Streaming.events, hwire]
    | keepalive =>
      rw [show Stream.take s = { s with wire := wire, client := s.client.take .keepalive } by
        simp [Stream.take, hwire]]
      refine h.taken hwire hreading h.place ?_
      simp [Client.take, Streaming.events, hwire]

/-- **One step.** -/
theorem step (h : StreamInv stream after s) (now : Instant) (act : StreamAct) :
    StreamInv stream after (stream.step s now act) := by
  cases act with
  | op op => exact h.op op
  | readStatus => exact h.readStatus
  | readRows => exact h.readRows
  | send => exact h.send
  | turn stop => exact h.turn stop
  | wake => exact h.wake
  | ask =>
    unfold Stream.step
    dsimp only
    split
    · next ha => exact h.ask ha
    · exact h
  | take =>
    unfold Stream.step
    dsimp only
    split
    · next hr => exact h.take hr
    · exact h
  | drop =>
    unfold Stream.step
    dsimp only
    split
    · refine h.broken ?_ ?_ ?_ <;> unfold Client.failed <;> split <;> simp
    · exact h
  | eof =>
    unfold Stream.step
    dsimp only
    split
    · split
      · exact h.broken rfl rfl (by simp)
      · exact h
    · exact h

end StreamInv

/-- **The stream is complete.**  However operations, polls and broken connections interleave, and whatever
the size of a page, what the client has received is the log past the position asked for, from its first
event on, each event once and in order.  It ends only when the run ended and it has them all. -/
theorem stream_complete {stream : Stream} {after : Nat} {t now : Instant} {s : Streaming}
    (h : Run stream.step anything t (Streaming.initial after) now s) :
    s.client.received <+: s.db.pastEvents stream.runId after ∧
      s.client.received.map RunEventEntry.position = List.range' (after + 1) s.client.received.length ∧
      (s.client.reading = .ended →
        s.client.received = s.db.pastEvents stream.runId after ∧
          ∀ later db, Run (apply stream.store) anything now s.db later db →
            db.pastEvents stream.runId after = s.client.received) := by
  have hi : StreamInv stream after s :=
    h.invariant' (StreamInv stream after) (fun _ now act hi _ => hi.step now act) (.initial stream after)
  have hreceived : s.client.received <+: s.db.pastEvents stream.runId after := by
    refine List.IsPrefix.trans ?_ hi.sent
    rw [Streaming.events, List.append_assoc]
    exact List.prefix_append _ _
  refine ⟨hreceived, ?_, ?_⟩
  · have hpos := hreceived.map RunEventEntry.position
    rw [pastEvents_positions hi.log] at hpos
    rw [List.prefix_iff_eq_take.1 hpos, List.length_map, List.take_range'_of_length_ge hreceived.length_le]
  · intro he
    obtain ⟨⟨row, hr, hf⟩, hall⟩ := hi.ended he
    obtain ⟨hclosed, hwire⟩ := hi.apart (by rw [he]; decide)
    have hall : s.client.received = s.db.pastEvents stream.runId after := by
      simpa [Streaming.events, hwire, hclosed, Follow.left] using hall
    refine ⟨hall, fun later db hrun => ?_⟩
    rw [hall, Database.pastEvents, Run.log_ended hrun hr hf]
    rfl

/-- The small run's log, a page an event. -/
def smallStream : Stream := ⟨smallStore, "t", "r", 1, 3⟩

/-- Two events logged; the connection breaks behind the first one, the run ends, the client asks again. -/
def brokenStream : List (Instant × StreamAct) :=
  [(0, .op (.start smallStart false true)), (1, .op (.appendEvents "t" "r" smallAppend none)), (2, .ask),
    (3, .readStatus), (3, .readRows), (3, .send), (4, .take), (5, .drop),
    (6, .op (.finish "t" "r" smallFinish none smallDraw)), (7, .ask),
    (8, .readStatus), (8, .readRows), (8, .send), (8, .turn false), (9, .readStatus), (9, .readRows),
    (9, .turn false), (10, .take), (10, .take)]

theorem stream_complete_broken : ∃ s : Streaming, s.client.reading = .ended ∧
    s.client.received.map RunEventEntry.position = [1, 2] ∧ s.client.received = s.db.pastEvents "r" 0 := by
  have ha : Run.Admitted smallStream.step anything 0 (Streaming.initial 0) brokenStream := by
    norm_num [brokenStream, Run.Admitted, anything]
  have hs : ((Run.after smallStream.step (Streaming.initial 0) brokenStream).client.reading = .ended ∧
      (Run.after smallStream.step (Streaming.initial 0) brokenStream).client.received.map RunEventEntry.position =
        [1, 2]) := by decide +kernel
  obtain ⟨now, h⟩ := Run.replay ha
  exact ⟨_, hs.1, hs.2, ((stream_complete h).2.2 hs.1).1⟩

end AgentRuns
