import AgentRuns.Listings
import AgentRuns.Spelled
import Mathlib.Data.Rat.Encodable

/-!
# Following the cursors

A caller reads a listing from its first page on, sending each time the cursor of the link before; between two requests the
tables may become others.  What it reads is a walk of the listing's rows in their order (`Keyset.walk`), unless it is sent a
cursor that is refused: `CursorQuery` admits `CURSOR_MAX_CHARS` characters and `encode_cursor` may write more.

    the pages are right and no cursor is refused ↔ no page ends on a row whose cursor is too long     (pages_right_iff)
-/

namespace AgentRuns

open Relational Fallible JsonText

/-- How far the cursors have been followed. -/
inductive Followed where
  /-- the last page carried no link -/
  | done
  | more (cursor : Option String)
  | refused (e : ServiceError)

namespace Listing

section
variable {σ : Type} (l : Listing σ) (datetimes : Datetimes) (limit : PageLimit)

/-- The pages a caller is given, a request for each state of the tables. -/
def follow : Option String → List σ → List (List l.Item) × Followed
  | cursor, [] => ([], .more cursor)
  | cursor, s :: later =>
    match l.request datetimes s limit cursor with
    | .error e => ([], .refused e)
    | .ok (items, none) => ([items], .done)
    | .ok (items, some next) => (items :: (follow (some next) later).1, (follow (some next) later).2)

/-- The rows behind them: strictly ordered, and each that is there throughout once. -/
structure Right (states : List σ) (pages : List (List l.Row)) : Prop where
  shown : (l.follow datetimes limit none states).1 = pages.map (·.map l.item)
  ordered : pages.flatten.Pairwise fun a b => l.key a < l.key b
  /-- a row that is there at every request is read once, when the walk is done or has come past it -/
  once : ∀ p, (∀ s ∈ states.take pages.length, ∀ rows, l.rows s = .ok rows → ∃ a ∈ rows, l.position a = p) →
    ((l.follow datetimes limit none states).2 = .done ∨ ∃ a ∈ pages.flatten, l.place p ≤ l.key a) →
    (pages.flatten.map l.position).count p = 1
  /-- no cursor is refused -/
  accepted : ∀ e, (l.follow datetimes limit none states).2 = .refused e → ∃ s ∈ states, l.rows s = .error e
  /-- while the rows stay, the last page comes when the pages could hold them -/
  ends : ∀ rows, (∀ s ∈ states, l.rows s = .ok rows) → states ≠ [] → rows.length ≤ states.length * limit.rows →
    (l.follow datetimes limit none states).2 = .done

/-- The positions that are sent: of the last row of a page, when another page follows and is asked for. -/
def sent : Option Position → List σ → List Position
  | _, [] => []
  | after, s :: later =>
    after.toList ++
      match l.page s limit after with
      | .ok page =>
        match page.after with
        | some p => sent (some p) later
        | none => []
      | .error _ => []

/-- The cursor of a position is one `CursorQuery` admits. -/
def Admitted (p : Position) : Prop := (encodeCursor datetimes l.fields p).length ≤ cursorMaxChars

/-- The rows at each request, as long as the listing is there. -/
def seen : List σ → List (List l.Row)
  | [] => []
  | s :: later =>
    match l.rows s with
    | .ok rows => rows :: seen later
    | .error _ => []

end

section
variable {σ : Type} {l : Listing σ} {datetimes : Datetimes} {limit : PageLimit} {s : σ} {rows : List l.Row} {after : Option Position}

theorem scalar_position (a : l.Row) : ∀ n ∈ (l.position a).id, Scalar n := scalar_points _

theorem position_injective {a b : l.Row} (h : l.key a = l.key b) : l.position a = l.position b := l.place_injective h

theorem key_nodup (h : l.rows s = .ok rows) : (rows.map l.key).Nodup := by
  have hid := List.pairwise_map.1 (l.distinct h)
  refine List.pairwise_map.2 (hid.imp ?_)
  intro a b hne he
  exact hne (points_injective (congrArg Position.id (position_injective he)))

/-- The store's page is the page of the rows in their order. -/
theorem page_ok (limit : PageLimit) (after : Option Position) (h : l.rows s = .ok rows) : ∃ page, l.page s limit after = .ok page ∧
    page.items = (Keyset.page l.key limit.rows rows (after.map l.place)).map l.item ∧
    page.after.map l.place = Keyset.next l.key limit.rows rows (after.map l.place) ∧
    ∀ p ∈ page.after, ∀ n ∈ p.id, Scalar n := by
  have hpage : l.page s limit after =
      .ok (pageOf (Keyset.fetch l.key limit.rows rows (after.map l.place)) limit.rows l.item l.position) := by
    unfold page
    rw [h]
    rfl
  refine ⟨_, hpage, rfl, ?_, ?_⟩
  · unfold pageOf Keyset.next Keyset.page
    dsimp only
    split
    · rw [Option.map_map]
      rfl
    · rfl
  · intro p hp
    unfold pageOf at hp
    dsimp only at hp
    split at hp
    · obtain ⟨a, -, rfl⟩ := Option.map_eq_some_iff.1 hp
      exact scalar_position a
    · cases hp

/-- A listing that is not there has no page. -/
theorem page_error {e : ServiceError} (h : l.rows s = .error e) : l.page s limit after = .error e := by
  unfold page
  rw [h]
  rfl

end

/-! ## Requests -/

section
variable {σ : Type} {l : Listing σ} {datetimes : Datetimes} {limit : PageLimit} {s : σ} {after : Option Position}

/-- A cursor that is admitted comes back as the position it is of. -/
theorem request_admitted (s : σ) (limit : PageLimit) (hshort : ∀ p ∈ after, l.Admitted datetimes p) (hscalar : ∀ p ∈ after, ∀ n ∈ p.id, Scalar n) :
    l.request datetimes s limit (after.map (encodeCursor datetimes l.fields)) =
      (l.page s limit after >>= fun page => .ok (page.items, page.after.map (encodeCursor datetimes l.fields))) := by
  unfold request
  cases after with
  | none => rfl
  | some p =>
    have hle : ¬ cursorMaxChars < (encodeCursor datetimes l.fields p).length := by
      have := hshort p rfl
      unfold Admitted at this
      omega
    rw [refuse_of_not _ (by simpa using hle), ok_bind, Option.map_some, decodeCursor_encodeCursor (hscalar p rfl), ok_bind]

/-- One that is not is refused. -/
theorem request_tooLong {p : Position} (h : ¬ l.Admitted datetimes p) :
    l.request datetimes s limit (some (encodeCursor datetimes l.fields p)) = .error tooLong := by
  unfold request
  rw [refuse_of _ (by simpa [Admitted] using h)]
  rfl

end

/-! ## Walks -/

section
variable {σ : Type} {l : Listing σ} {datetimes : Datetimes} {limit : PageLimit}

/-- With its cursors admitted, a caller reads the walk of the rows. -/
theorem follow_admitted : ∀ (states : List σ) (after : Option Position), (∀ p ∈ after, ∀ n ∈ p.id, Scalar n) →
    (∀ p ∈ l.sent limit after states, l.Admitted datetimes p) →
    (l.follow datetimes limit (after.map (encodeCursor datetimes l.fields)) states).1 =
        (Keyset.walk l.key limit.rows (after.map l.place) (l.seen states)).1.map (·.map l.item) ∧
      ((l.follow datetimes limit (after.map (encodeCursor datetimes l.fields)) states).2 = .done ↔
        (Keyset.walk l.key limit.rows (after.map l.place) (l.seen states)).2 = .done) ∧
      ∀ e, (l.follow datetimes limit (after.map (encodeCursor datetimes l.fields)) states).2 = .refused e →
        ∃ s ∈ states, l.rows s = .error e
  | [], after, _, _ => by
    refine ⟨rfl, ⟨fun h => ?_, fun h => ?_⟩, fun e h => ?_⟩
    · cases h
    · cases h
    · cases h
  | s :: later, after, hscalar, hsent => by
    have hshort : ∀ p ∈ after, l.Admitted datetimes p := by
      intro p hp
      refine hsent p ?_
      unfold sent
      exact List.mem_append_left _ (by rw [hp]; exact List.mem_cons_self)
    have hrequest := request_admitted s limit hshort hscalar
    unfold follow seen
    cases hrows : l.rows s with
    | error e =>
      rw [hrequest, page_error hrows, error_bind]
      refine ⟨rfl, ⟨fun h => ?_, fun h => ?_⟩, fun e' h => ?_⟩
      · cases h
      · cases h
      · cases h
        exact ⟨s, List.mem_cons_self, hrows⟩
    | ok rows =>
      obtain ⟨page, hpage, hitems, hafter, hnext⟩ := page_ok limit after hrows
      rw [hrequest, hpage, ok_bind]
      dsimp only
      unfold Keyset.walk
      rw [← hafter]
      cases hp : page.after with
      | none =>
        refine ⟨?_, ⟨fun _ => rfl, fun _ => rfl⟩, fun e h => ?_⟩
        · rw [hitems]
          rfl
        · cases h
      | some p =>
        have hlater : ∀ q ∈ l.sent limit (some p) later, l.Admitted datetimes q := by
          intro q hq
          refine hsent q ?_
          unfold sent
          rw [hpage]
          dsimp only
          rw [hp]
          exact List.mem_append_right _ hq
        obtain ⟨hpages, hdone, hrefused⟩ := follow_admitted later (some p) (fun q hq => hnext q (hp ▸ hq)) hlater
        refine ⟨?_, hdone, fun e h => ?_⟩
        · rw [hitems]
          exact congrArg _ hpages
        · obtain ⟨s', hs', he⟩ := hrefused e h
          exact ⟨s', List.mem_cons_of_mem _ hs', he⟩

/-- One that is sent and not admitted ends the walk. -/
theorem follow_tooLong : ∀ (states : List σ) (after : Option Position), (∀ p ∈ after, ∀ n ∈ p.id, Scalar n) →
    (∃ p ∈ l.sent limit after states, ¬ l.Admitted datetimes p) →
    (l.follow datetimes limit (after.map (encodeCursor datetimes l.fields)) states).2 = .refused tooLong
  | [], after, _, ⟨p, hp, _⟩ => by cases hp
  | s :: later, after, hscalar, ⟨p, hp, hlong⟩ => by
    by_cases hshort : ∀ q ∈ after, l.Admitted datetimes q
    · have hrequest := request_admitted s limit hshort hscalar
      unfold sent at hp
      rcases List.mem_append.1 hp with hp | hp
      · exact absurd (hshort p (Option.mem_toList.1 hp)) hlong
      · unfold follow
        cases hrows : l.rows s with
        | error e =>
          rw [page_error hrows] at hp
          cases hp
        | ok rows =>
          obtain ⟨page, hpage, -, -, hnext⟩ := page_ok limit after hrows
          rw [hpage] at hp
          rw [hrequest, hpage, ok_bind]
          dsimp only at hp ⊢
          cases hafter : page.after with
          | none =>
            rw [hafter] at hp
            cases hp
          | some q =>
            rw [hafter] at hp
            exact follow_tooLong later (some q) (fun r hr => hnext r (hafter ▸ hr)) ⟨p, hp, hlong⟩
    · push Not at hshort
      obtain ⟨q, rfl, hq⟩ := hshort
      unfold follow
      rw [Option.map_some, request_tooLong hq]

theorem mem_seen : ∀ {states : List σ} {n : Nat} {rows : List l.Row}, rows ∈ (l.seen states).take n →
    ∃ s ∈ states.take n, l.rows s = .ok rows
  | [], n, rows, h => by
    rw [seen, List.take_nil] at h
    cases h
  | s :: later, 0, rows, h => by cases h
  | s :: later, n + 1, rows, h => by
    unfold seen at h
    cases hrows : l.rows s with
    | error e =>
      rw [hrows] at h
      cases h
    | ok rows' =>
      rw [hrows] at h
      rcases List.mem_cons.1 h with rfl | h
      · exact ⟨s, List.mem_cons_self, hrows⟩
      · obtain ⟨s', hs', he⟩ := mem_seen h
        exact ⟨s', List.mem_cons_of_mem _ hs', he⟩

theorem seen_nodup {states : List σ} : ∀ rows ∈ l.seen states, (rows.map l.key).Nodup := by
  intro rows h
  rw [← List.take_length (l := l.seen states)] at h
  obtain ⟨s, -, hrows⟩ := mem_seen h
  exact key_nodup hrows

theorem seen_replicate {rows : List l.Row} : ∀ {states : List σ}, (∀ s ∈ states, l.rows s = .ok rows) →
    l.seen states = List.replicate states.length rows
  | [], _ => rfl
  | s :: later, h => by
    unfold seen
    rw [h s List.mem_cons_self]
    dsimp only
    rw [seen_replicate fun s' hs' => h s' (List.mem_cons_of_mem _ hs'), List.length_cons, List.replicate_succ]

/-- The pages are right while the cursors are admitted. -/
theorem right_admitted {states : List σ} (h : ∀ p ∈ l.sent limit none states, l.Admitted datetimes p) :
    l.Right datetimes limit states (Keyset.walk l.key limit.rows none (l.seen states)).1 := by
  obtain ⟨hshown, hdone, hrefused⟩ := follow_admitted states none (fun p hp => by cases hp) h
  have hordered : (Keyset.walk l.key limit.rows none (l.seen states)).1.flatten.Pairwise fun a b => l.key a < l.key b :=
    (Keyset.walk_ordered (l.seen states) none seen_nodup).1
  refine ⟨hshown, hordered, fun p hthere hpast => ?_, hrefused, fun rows hrows hne hlen => hdone.2 ?_⟩
  · have hreached : (Keyset.walk l.key limit.rows none (l.seen states)).2.Past (l.place p) := by
      rcases hpast with hpast | ⟨a, ha, hle⟩
      · rw [show (Keyset.walk l.key limit.rows none (l.seen states)).2 = .done from hdone.1 hpast]
        exact trivial
      · exact (Keyset.walk_past (l.seen states) none seen_nodup a ha).of_le hle
    obtain ⟨a, ha, hk⟩ := Keyset.walk_reaches limit.pos (l.seen states) none seen_nodup (fun k hk => by cases hk) (p := l.place p)
      (fun rows hrows => by
        obtain ⟨s, hs, he⟩ := mem_seen hrows
        obtain ⟨a, ha, rfl⟩ := hthere s hs rows he
        exact ⟨a, ha, rfl⟩) hreached
    have hnodup : ((Keyset.walk l.key limit.rows none (l.seen states)).1.flatten.map l.position).Nodup := by
      refine List.pairwise_map.2 (hordered.imp ?_)
      intro a b hlt he
      exact ne_of_lt hlt (congrArg l.place he)
    refine List.count_eq_one_of_mem hnodup ?_
    exact List.mem_map.2 ⟨a, ha, l.place_injective hk⟩
  · rw [seen_replicate hrows]
    cases states with
    | nil => exact absurd rfl hne
    | cons s later =>
      have hn := key_nodup (hrows s List.mem_cons_self)
      have hcount : (Keyset.following l.key rows none).length ≤ (s :: later).length * limit.rows := by
        unfold Keyset.following
        rw [List.length_insertionSort]
        exact le_trans (List.length_filter_le _ _) hlen
      exact (Keyset.walk_done limit.pos hn _ none (Nat.succ_pos _) hcount).1

/-- And only then. -/
theorem right_iff {states : List σ} :
    (∃ pages, l.Right datetimes limit states pages) ↔ ∀ p ∈ l.sent limit none states, l.Admitted datetimes p := by
  constructor
  · rintro ⟨pages, hright⟩
    by_contra hlong
    push Not at hlong
    have hrefused := follow_tooLong states none (fun p hp => by cases hp) hlong
    obtain ⟨s, -, he⟩ := hright.accepted _ hrefused
    have hcode := l.absent he
    cases hcode
  · exact fun h => ⟨_, right_admitted h⟩

end

end Listing

/-- Following the cursors of any of the listings gives its pages right exactly when no page ends, another being asked for, on a
row whose cursor `CursorQuery` does not admit. -/
theorem pages_right_iff (datetimes : Datetimes) (collation : Collation) (tenantId : String) (endpoint : Endpoint)
    (limit : PageLimit) (states : List Stores) :
    (∃ pages, (endpoint.listing collation tenantId).Right datetimes limit states pages) ↔
      ∀ p ∈ (endpoint.listing collation tenantId).sent limit none states,
        (endpoint.listing collation tenantId).Admitted datetimes p :=
  Listing.right_iff

/-! ## Which cursors are too long -/

/-- Not an id of 64 characters above the basic plane, whatever the instant is written as. -/
theorem not_admitted_astral (datetimes : Datetimes) {σ : Type} (l : Listing σ) (instant : Instant) {id : String}
    (hlen : 64 ≤ (points id).length) (h : ∀ n ∈ points id, 65536 ≤ n) : ¬ l.Admitted datetimes (Position.of instant id) := by
  unfold Listing.Admitted Position.of
  rw [length_encodeCursor, length_dict_pair, length_quoted_astral h]
  unfold cursorMaxChars
  omega

/-- An id of the basic plane is, beside an instant of 32 plain characters. -/
theorem admitted_basic (datetimes : Datetimes) (collation : Collation) (tenantId : String) (endpoint : Endpoint) {p : Position}
    (hinstant : (quoted (points (datetimes.isoformat p.instant))).length ≤ 34) (hlen : p.id.length ≤ 64)
    (h : ∀ n ∈ p.id, n < 65536) : (endpoint.listing collation tenantId).Admitted datetimes p := by
  have hid := length_quoted_basic h
  have hwidth : ∀ name ∈ ["created_at", "recorded_at", "run_id", "resolution_id", "schedule_id", "webhook_id", "delivery_id"],
      (quoted (points name)).length ≤ 16 := by
    decide +kernel
  have hnames : (quoted (points (endpoint.listing collation tenantId).fields.instant)).length ≤ 16 ∧
      (quoted (points (endpoint.listing collation tenantId).fields.id)).length ≤ 16 := by
    cases endpoint with
    | runs filter => exact ⟨hwidth "created_at" (by simp), hwidth "run_id" (by simp)⟩
    | resolutions runId => exact ⟨hwidth "recorded_at" (by simp), hwidth "resolution_id" (by simp)⟩
    | schedules filter => exact ⟨hwidth "created_at" (by simp), hwidth "schedule_id" (by simp)⟩
    | webhooks => exact ⟨hwidth "created_at" (by simp), hwidth "webhook_id" (by simp)⟩
    | deliveries filter => exact ⟨hwidth "created_at" (by simp), hwidth "delivery_id" (by simp)⟩
  unfold Listing.Admitted
  rw [length_encodeCursor, length_dict_pair]
  unfold cursorMaxChars
  omega

/-- A unary clock. -/
def spelledDatetimes : Datetimes where
  isoformat t := "2026-10-01T00:00:00+00:00" ++ String.ofList (List.replicate (Encodable.encode t) '0')
  fromisoformat text := (Encodable.decode (text.length - 25)).map (⟨·, true⟩)
  fromisoformat_isoformat t := by
    have hlen : (points ("2026-10-01T00:00:00+00:00" ++ String.ofList (List.replicate (Encodable.encode t) '0'))).length =
        25 + Encodable.encode t := by
      unfold points
      rw [List.length_map, String.toList_append, List.length_append]
      show 25 + (String.ofList (List.replicate (Encodable.encode t) '0')).toList.length = _
      rw [String.toList_ofList, List.length_replicate]
    rw [hlen, Nat.add_sub_cancel_left, Encodable.encodek]
    rfl

/-- Texts in the order of their code points. -/
def plainCollation : Collation := ⟨fun text => text, fun _ _ h => h⟩

/-- An id of 64 times one character. -/
def astralId (c : Char) : String := String.ofList (List.replicate 64 c)

theorem points_astralId (c : Char) : points (astralId c) = List.replicate 64 c.toNat := by
  unfold astralId points
  rw [String.toList_ofList, List.map_replicate]

theorem astral_length (c : Char) : (points (astralId c)).length = 64 := by
  rw [points_astralId, List.length_replicate]

theorem astral_above {c : Char} (h : 65536 ≤ c.toNat) : ∀ n ∈ points (astralId c), 65536 ≤ n := by
  intro n hn
  rw [points_astralId] at hn
  rw [List.eq_of_mem_replicate hn]
  exact h

theorem astralId_ne {c d : Char} (h : c.toNat ≠ d.toNat) : astralId c ≠ astralId d := by
  intro he
  have hpoints := congrArg points he
  rw [points_astralId, points_astralId] at hpoints
  exact h (List.replicate_right_injective (by omega) hpoints)

/-- A run of tenant `"t"`. -/
def idStart (id : String) : RunStart := { smallStart with runId := id }

/-- Two with such ids. -/
def astralRuns : Stores :=
  { service := ⟨apply smallStore (apply smallStore Database.empty 0 (.start (idStart (astralId '😀')) false false)) 1
      (.start (idStart (astralId '🚀')) false false), Table.empty, Table.empty⟩
    schedules := Table.empty }

theorem astral_fits {c : Char} (hc : c ≠ '\x00') : fitsVarchar 64 (astralId c) = true := by
  unfold fitsVarchar Json.textStorable astralId
  rw [String.length_ofList, String.toList_ofList, List.length_replicate]
  simp [hc]

/-- The database takes a run of a new id. -/
theorem apply_idStart {db : Database} {id : String} (hfits : fitsVarchar 64 id = true) (now : Instant) (hnew : db.run? id = none) :
    (apply smallStore db now (.start (idStart id) false false)).runs.rows = db.runs.rows ++ [startedRow (idStart id) false now] := by
  have hrow : (startedRow (idStart id) false now).fits = true := by
    have ht : fitsVarchar 128 "t" = true := by decide +kernel
    have ha : fitsVarchar 128 "a" = true := by decide +kernel
    simp [RunRow.fits, startedRow, idStart, smallStart, hfits, ht, ha, Json.storable]
  have hconflicts : db.conflicts (startedRow (idStart id) false now) = false := by
    unfold Database.conflicts
    rw [show db.run? (startedRow (idStart id) false now).runId = none from hnew]
    rfl
  have hstart : db.start (idStart id) false false now =
      .ok ({ db with runs := db.runs.insert (startedRow (idStart id) false now) },
        record (startedRow (idStart id) false now) now, true) := by
    unfold Database.start
    dsimp only
    rw [hrow, refuse_of_not _ (by simp), ok_bind, hconflicts]
    rfl
  unfold apply perform
  dsimp only
  rw [hstart]
  exact Table.rows_insert hnew

theorem astral_rows : astralRuns.service.db.runs.rows =
    [startedRow (idStart (astralId '😀')) false 0, startedRow (idStart (astralId '🚀')) false 1] := by
  unfold astralRuns
  have hne : astralId '😀' ≠ astralId '🚀' := astralId_ne (by decide)
  have hfits : fitsVarchar 64 (astralId '😀') = true ∧ fitsVarchar 64 (astralId '🚀') = true :=
    ⟨astral_fits (by decide), astral_fits (by decide)⟩
  generalize astralId '😀' = first at hne hfits ⊢
  generalize astralId '🚀' = second at hne hfits ⊢
  have hfirst := apply_idStart hfits.1 0 (show Database.empty.run? first = none from rfl)
  have hnew : (apply smallStore Database.empty 0 (.start (idStart first) false false)).run? second = none := by
    refine Table.find?_eq_none.2 ?_
    rw [hfirst]
    intro h
    exact hne (List.mem_singleton.1 h).symm
  have hsecond := apply_idStart hfits.2 1 hnew
  rw [hfirst] at hsecond
  exact hsecond

def everyRun : RunFilter := ⟨none, none, none, none, none, false⟩

/-- Of two runs, the first page of one ends on the later. -/
theorem later_sent {s : Stores} {first second : String} (hrows : s.service.db.runs.rows =
    [startedRow (idStart first) false 0, startedRow (idStart second) false 1]) :
    Position.of 1 second ∈ (RunStore.list plainCollation "t" everyRun).sent ⟨1, by decide⟩ none [s, s] := by
  have hpage : (RunStore.list plainCollation "t" everyRun).page s ⟨1, by decide⟩ none =
      .ok ⟨[(startedRow (idStart second) false 1).summary], some (Position.of 1 second)⟩ := by
    have hread : (RunStore.list plainCollation "t" everyRun).rows s =
        .ok [startedRow (idStart first) false 0, startedRow (idStart second) false 1] := by
      show Except.ok (s.service.db.runs.rows.filter _) = _
      rw [hrows]
      rfl
    unfold Listing.page
    rw [hread]
    rfl
  unfold Listing.sent
  rw [hpage]
  exact List.mem_append_right _ (List.mem_append_left _ List.mem_cons_self)

/-- The cursor of such a run is too long, and the second page is refused. -/
theorem astral_cursor_refused : ¬ ∃ pages, ((Endpoint.runs everyRun).listing plainCollation "t").Right spelledDatetimes
    ⟨1, by decide⟩ [astralRuns, astralRuns] pages := by
  intro h
  have hlong := not_admitted_astral spelledDatetimes ((Endpoint.runs everyRun).listing plainCollation "t") 1
    (le_of_eq (astral_length '🚀').symm) (astral_above (by decide))
  exact hlong (Listing.right_iff.1 h _ (later_sent astral_rows))

end AgentRuns
