import AgentRuns.Presented
import AgentRuns.Queries

/-!
# The link to the next page

`link_next` writes the request's URL, with the cursor in its query, between `<` and `>; rel="next"`; `next_cursor` splits the
header at its commas and looks for the first `<…>; rel=next`.  The path in the URL is the decoded one, so an id stands in the
header as it is.

    scan (pre ++ ?… ++ post)  is a link of pre, or one that opens in pre and closes in post, or a link of post   (scan_through)
    the cursor of every next link is read back  ↔  before the query no link closes, one opens, and it closes after it
                                                                                                (next_link_read_iff)
-/

namespace AgentRuns

open Fallible JsonText PyText Queries

/-! ## Writing -/

/-- What the reading or the writing of a link raises. -/
inductive LinkError
  /-- a header is Latin-1 -/
  | unicodeEncodeError
  | invalidURL
deriving DecidableEq, Repr

/-- `scheme://host`, which `urlsplit` splits off as it is. -/
structure Origin where
  secure : Bool
  host : List Nat
  plain : ∀ n ∈ host, n ∉ [9, 10, 13, 35, 47, 63]

def Origin.text (origin : Origin) : List Nat := points (if origin.secure then "https://" else "http://") ++ origin.host

/-- The path of the listing, decoded. -/
def Endpoint.path : Endpoint → List Nat
  | runs _ => points "/v1/runs"
  | resolutions runId => points "/v1/runs/" ++ points runId ++ points "/resolutions"
  | schedules _ => points "/v1/schedules"
  | webhooks => points "/v1/webhooks"
  | deliveries _ => points "/v1/webhooks/deliveries"

/-- A request of a listing: where it was sent, and its query as it was sent. -/
structure ListingRequest where
  origin : Origin
  endpoint : Endpoint
  query : String

namespace ListingRequest
variable (request : ListingRequest)

/-- `request.url`, after its origin. -/
def rest : List Nat :=
  request.endpoint.path ++ if request.query = "" then [] else points "?" ++ points request.query

/-- The text `urlsplit` splits: without tabs and line ends. -/
def cleaned : List Nat := request.rest.filter (· ∉ [9, 13, 10])

/-- `urlsplit`, of what follows the origin: the path, the query and the fragment. -/
def path : List Nat := (partition (points "?") (partition (points "#") request.cleaned).1).1

def queryText : List Nat := (partition (points "?") (partition (points "#") request.cleaned).1).2.2

def fragment : List Nat := (partition (points "#") request.cleaned).2.2

/-- The parameters, the cursor's in place of the old one. -/
def params (cursor : List Nat) : List (List Nat × List Nat) :=
  (parseQsl request.queryText).filter (·.1 ≠ points "cursor") ++ [(points "cursor", cursor)]

/-- `request.url.include_query_params(cursor=…)`. -/
def includeQueryParams (cursor : List Nat) : List Nat :=
  request.origin.text ++ request.path ++ points "?" ++ urlencode (request.params cursor) ++
    if request.fragment = [] then [] else points "#" ++ request.fragment

end ListingRequest

/-- `link_next`: the header's value, when there is a next page. -/
def linkNext (datetimes : Datetimes) (fields : CursorFields) (request : ListingRequest) (after : Option Position) :
    Except LinkError (Option (List Nat)) :=
  match after with
  | none => .ok none
  | some p =>
    let url := request.includeQueryParams (points (encodeCursor datetimes fields p))
    let link := points "<" ++ url ++ points ">; rel=\"next\""
    if ∀ n ∈ link, n < 256 then .ok (some link) else .error .unicodeEncodeError

/-! ## Reading -/

/-- `\s*;\s*rel="?next"?`, at the beginning of a text. -/
def relNext (text : List Nat) : Bool :=
  match text.dropWhile space with
  | [] => false
  | n :: text =>
    n = 59 && ((points "rel=next").isPrefixOf (text.dropWhile space) || (points "rel=\"next").isPrefixOf (text.dropWhile space))

/-- `<([^>]+)>\s*;\s*rel="?next"?`, at the beginning of a text. -/
def matchNext : List Nat → Option (List Nat)
  | [] => none
  | n :: text =>
    match text.dropWhile (· ≠ 62) with
    | [] => none
    | _ :: tail => if n = 60 ∧ text.takeWhile (· ≠ 62) ≠ [] ∧ relNext tail then some (text.takeWhile (· ≠ 62)) else none

/-- `_NEXT_LINK.search`. -/
def searchNext : List Nat → Option (List Nat)
  | [] => none
  | n :: text => (matchNext (n :: text)).or (searchNext text)

/-- The first link of the parts of a header. -/
def target (link : List Nat) : Option (List Nat) := (link.splitOn 44).findSome? searchNext

/-- The texts `httpx.URL` takes. -/
structure Httpx where
  takes : List Nat → Bool

/-- The query of a URL: after its first `?`, before its first `#`. -/
def queryOf (url : List Nat) : List Nat :=
  match url.dropWhile fun n => n ≠ 63 && n ≠ 35 with
  | [] => []
  | n :: rest => if n = 63 then rest.takeWhile (· ≠ 35) else []

/-- `httpx.URL(url).params.get(name)`: of two with one name, the first. -/
def param (url name : List Nat) : Option (List Nat) := ((parseQsl (queryOf url)).find? (·.1 = name)).map (·.2)

/-- `next_cursor`. -/
def nextCursor (httpx : Httpx) (link : Option (List Nat)) : Except LinkError (Option (List Nat)) :=
  match target (link.getD []) with
  | none => .ok none
  | some url =>
    if httpx.takes url then .ok ((param url (points "cursor")).filter (· ≠ [])) else .error .invalidURL

/-! ## Looking for the link -/

/-- A comma or a `>`: where a link's URL ends. -/
def ends (n : Nat) : Bool := n = 44 ∨ n = 62

/-- A link at the beginning of a text that no comma cuts. -/
def hit : List Nat → Option (List Nat)
  | [] => none
  | n :: text =>
    match text.dropWhile (!ends ·) with
    | [] => none
    | m :: tail =>
      if n = 60 ∧ m = 62 ∧ text.takeWhile (!ends ·) ≠ [] ∧ relNext tail then some (text.takeWhile (!ends ·)) else none

def scan : List Nat → Option (List Nat)
  | [] => none
  | n :: text => (hit (n :: text)).or (scan text)

theorem dropWhile_stop {p : Nat → Bool} {x : Nat} (hx : p x = false) (text rest : List Nat) :
    (text ++ x :: rest).dropWhile p = text.dropWhile p ++ x :: rest := by
  induction text with
  | nil => rw [List.nil_append, List.dropWhile_cons, if_neg (by simp [hx]), List.dropWhile_nil, List.nil_append]
  | cons n text ih =>
    rw [List.cons_append, List.dropWhile_cons, List.dropWhile_cons]
    split
    · exact ih
    · rfl

theorem isPrefixOf_stop {x : Nat} : ∀ {pre text : List Nat}, x ∉ pre → ∀ rest, pre.isPrefixOf (text ++ x :: rest) = pre.isPrefixOf text := by
  intro pre
  induction pre with
  | nil =>
    intro text _ rest
    cases text <;> rfl
  | cons m pre ih =>
    intro text h rest
    rw [List.mem_cons, not_or] at h
    cases text with
    | nil => simp [List.isPrefixOf, Ne.symm h.1]
    | cons n text =>
      show (m == n && pre.isPrefixOf (text ++ x :: rest)) = (m == n && pre.isPrefixOf text)
      rw [ih h.2]

/-- What is none of its characters ends `\s*;\s*rel="?next"?`. -/
theorem relNext_stop {x : Nat} (hspace : space x = false) (hx : x ≠ 59 ∧ x ∉ points "rel=\"next") (text rest : List Nat) :
    relNext (text ++ x :: rest) = relNext text := by
  have hplain : x ∉ points "rel=next" := fun h => hx.2 (by
    have hsub : ∀ n ∈ points "rel=next", n ∈ points "rel=\"next" := by decide
    exact hsub x h)
  unfold relNext
  rw [dropWhile_stop hspace]
  cases text.dropWhile space with
  | nil => simp [hx.1]
  | cons n tail =>
    rw [List.cons_append]
    dsimp only
    rw [dropWhile_stop hspace, isPrefixOf_stop hplain, isPrefixOf_stop hx.2]

theorem takeWhile_or (p : Nat → Bool) (text : List Nat) :
    (∀ n ∈ text, p n = true) ∨ ∃ u x v, text = u ++ x :: v ∧ (∀ n ∈ u, p n = true) ∧ p x = false := by
  induction text with
  | nil => exact .inl fun n hn => by cases hn
  | cons n text ih =>
    by_cases hn : p n = true
    · rcases ih with h | ⟨u, x, v, rfl, hu, hx⟩
      · refine .inl fun m hm => ?_
        rcases List.mem_cons.1 hm with rfl | hm
        · exact hn
        · exact h m hm
      · refine .inr ⟨n :: u, x, v, rfl, fun m hm => ?_, hx⟩
        rcases List.mem_cons.1 hm with rfl | hm
        · exact hn
        · exact hu m hm
    · exact .inr ⟨[], n, text, rfl, List.forall_mem_nil _, by simpa using hn⟩

theorem hit_ne {n : Nat} (h : n ≠ 60) (text : List Nat) : hit (n :: text) = none := by
  unfold hit
  dsimp only
  split
  · rfl
  · exact if_neg fun hn => h hn.1

theorem hit_free {n : Nat} {text : List Nat} (h : ∀ m ∈ text, ends m = false) : hit (n :: text) = none := by
  have hdrop : text.dropWhile (!ends ·) = [] := List.dropWhile_eq_nil_iff.2 fun m hm => by simp [h m hm]
  unfold hit
  dsimp only
  rw [hdrop]

/-- A link ends at the first comma or `>`. -/
theorem hit_end {n x : Nat} {u v : List Nat} (hu : ∀ m ∈ u, ends m = false) (hx : ends x = true) :
    hit (n :: (u ++ x :: v)) = if n = 60 ∧ x = 62 ∧ u ≠ [] ∧ relNext v = true then some u else none := by
  have hall : ∀ m ∈ u, (!ends m) = true := fun m hm => by simp [hu m hm]
  have hdrop : (u ++ x :: v).dropWhile (!ends ·) = x :: v := by
    rw [List.dropWhile_append_of_pos hall, List.dropWhile_cons, if_neg (by simp [hx])]
  have htake : (u ++ x :: v).takeWhile (!ends ·) = u := by
    rw [List.takeWhile_append_of_pos hall, List.takeWhile_cons, if_neg (by simp [hx]), List.append_nil]
  unfold hit
  dsimp only
  rw [hdrop, htake]

theorem matchNext_free {n : Nat} {text : List Nat} (h : ∀ m ∈ text, m ≠ 62) : matchNext (n :: text) = none := by
  have hdrop : text.dropWhile (· ≠ 62) = [] := List.dropWhile_eq_nil_iff.2 fun m hm => by simpa using h m hm
  unfold matchNext
  dsimp only
  rw [hdrop]

theorem matchNext_end {n : Nat} {u v : List Nat} (hu : ∀ m ∈ u, m ≠ 62) :
    matchNext (n :: (u ++ 62 :: v)) = if n = 60 ∧ u ≠ [] ∧ relNext v = true then some u else none := by
  have hall : ∀ m ∈ u, decide (m ≠ 62) = true := fun m hm => by simpa using hu m hm
  have hdrop : (u ++ 62 :: v).dropWhile (· ≠ 62) = 62 :: v := by
    rw [List.dropWhile_append_of_pos hall, List.dropWhile_cons, if_neg (by decide)]
  have htake : (u ++ 62 :: v).takeWhile (· ≠ 62) = u := by
    rw [List.takeWhile_append_of_pos hall, List.takeWhile_cons, if_neg (by decide), List.append_nil]
  unfold matchNext
  dsimp only
  rw [hdrop, htake]

theorem not_ends {n : Nat} : ends n = false ↔ n ≠ 44 ∧ n ≠ 62 := by
  simp [ends]

theorem ends_or (text : List Nat) :
    (∀ n ∈ text, ends n = false) ∨ ∃ u x v, text = u ++ x :: v ∧ (∀ n ∈ u, ends n = false) ∧ ends x = true := by
  simpa using takeWhile_or (!ends ·) text

/-- A part is cut at the comma, where no link goes on. -/
theorem matchNext_part (n : Nat) (text : List Nat) : matchNext (n :: text.takeWhile (· ≠ 44)) = hit (n :: text) := by
  rcases ends_or text with hfree | ⟨u, x, v, rfl, hu, hx⟩
  · rw [hit_free hfree, matchNext_free fun m hm => (not_ends.1 (hfree m ((List.takeWhile_sublist _).subset hm))).2]
  · have hcomma : ∀ m ∈ u, decide (m ≠ 44) = true := fun m hm => by simpa using (not_ends.1 (hu m hm)).1
    have hclose : ∀ m ∈ u, m ≠ 62 := fun m hm => (not_ends.1 (hu m hm)).2
    rw [hit_end hu hx, List.takeWhile_append_of_pos hcomma]
    by_cases h62 : x = 62
    · subst h62
      have hrel : relNext (v.takeWhile (· ≠ 44)) = relNext v := by
        rcases takeWhile_or (· ≠ 44) v with hv | ⟨a, y, b, rfl, ha, hy⟩
        · rw [List.takeWhile_eq_self_iff.2 hv]
        · have hy : y = 44 := by simpa using hy
          subst hy
          rw [List.takeWhile_append_of_pos ha, List.takeWhile_cons, if_neg (by decide), List.append_nil,
            relNext_stop (by decide) (by decide)]
      rw [List.takeWhile_cons, if_pos (by decide), matchNext_end hclose, hrel]
      simp
    · have h44 : x = 44 := by
        simp only [ends, decide_eq_true_eq] at hx
        omega
      subst h44
      rw [List.takeWhile_cons, if_neg (by decide), List.append_nil, matchNext_free hclose, if_neg (fun h => h62 h.2.1)]

theorem findSome?_or {α β : Type} (f : α → Option β) (a : α) (as : List α) :
    (a :: as).findSome? f = (f a).or (as.findSome? f) := by
  rw [List.findSome?_cons]
  cases f a <;> rfl

/-- Looking part by part is looking for a link that no comma cuts. -/
theorem target_eq_scan (link : List Nat) : target link = scan link := by
  have hparts : ∃ rest, link.splitOn 44 = link.takeWhile (· ≠ 44) :: rest ∧
      (searchNext (link.takeWhile (· ≠ 44))).or (rest.findSome? searchNext) = scan link := by
    induction link with
    | nil => exact ⟨[], rfl, rfl⟩
    | cons n link ih =>
      obtain ⟨rest, hsplit, hscan⟩ := ih
      rw [List.splitOn_cons_eq_if_modifyHead, List.takeWhile_cons]
      by_cases hn : n = 44
      · subst hn
        refine ⟨link.splitOn 44, rfl, ?_⟩
        rw [scan, hit_ne (by decide), ← hscan, hsplit, findSome?_or]
        rfl
      · refine ⟨rest, ?_, ?_⟩
        · rw [if_neg (by simpa using hn), if_pos (by simpa using hn), hsplit]
          rfl
        · rw [if_pos (by simpa using hn), searchNext, scan, matchNext_part, Option.or_assoc, hscan]
  obtain ⟨rest, hsplit, hscan⟩ := hparts
  unfold target
  rw [hsplit, findSome?_or, hscan]

/-! ## A link around a query -/

/-- What follows the first `<` that no comma and no `>` comes after. -/
def opened : List Nat → Option (List Nat)
  | [] => none
  | n :: text => if n = 60 ∧ (∀ m ∈ text, ends m = false) then some text else opened text

/-- The first comma or `>` of the text closes a link. -/
def closes (text : List Nat) : Bool :=
  match text.dropWhile (!ends ·) with
  | [] => false
  | n :: tail => n = 62 && relNext tail

theorem scan_skip {u : List Nat} (h : ∀ n ∈ u, n ≠ 60) (text : List Nat) : scan (u ++ text) = scan text := by
  induction u with
  | nil => rfl
  | cons n u ih =>
    rw [List.cons_append, scan, hit_ne (h n List.mem_cons_self), ih fun m hm => h m (List.mem_cons_of_mem _ hm)]
    rfl

theorem scan_free {text : List Nat} (h : ∀ n ∈ text, ends n = false) : scan text = none := by
  induction text with
  | nil => rfl
  | cons n text ih =>
    have htext : ∀ m ∈ text, ends m = false := fun m hm => h m (List.mem_cons_of_mem _ hm)
    rw [scan, hit_free htext, ih htext]
    rfl

theorem hit_mem {n : Nat} {text link : List Nat} (h : hit (n :: text) = some link) : ∀ m ∈ link, m ∈ text := by
  unfold hit at h
  dsimp only at h
  split at h
  · cases h
  · split at h
    · cases h
      exact fun m hm => (List.takeWhile_sublist _).subset hm
    · cases h

/-- A link is of the text. -/
theorem scan_mem {text link : List Nat} (h : scan text = some link) : ∀ m ∈ link, m ∈ text := by
  induction text with
  | nil => cases h
  | cons n text ih =>
    unfold scan at h
    intro m hm
    rcases Option.or_eq_some_iff.1 h with h | ⟨-, h⟩
    · exact List.mem_cons_of_mem _ (hit_mem h m hm)
    · exact List.mem_cons_of_mem _ (ih h m hm)

section
variable {mid post : List Nat}

/-- A `<` that no comma and no `>` comes after is closed beyond the query, or not at all. -/
theorem hit_open {n : Nat} {pre : List Nat} (hpre : ∀ m ∈ pre, ends m = false) (hmid : ∀ m ∈ mid, ends m = false) :
    hit (n :: (pre ++ 63 :: (mid ++ post))) =
      if n = 60 ∧ closes post = true then some (pre ++ 63 :: (mid ++ post.takeWhile (!ends ·))) else none := by
  have hfree : ∀ {u : List Nat}, (∀ m ∈ u, ends m = false) → ∀ m ∈ pre ++ 63 :: (mid ++ u), ends m = false := by
    intro u hu m hm
    rcases List.mem_append.1 hm with hm | hm
    · exact hpre m hm
    · rcases List.mem_cons.1 hm with rfl | hm
      · rfl
      · rcases List.mem_append.1 hm with hm | hm
        · exact hmid m hm
        · exact hu m hm
  rcases ends_or post with hpost | ⟨u, x, v, rfl, hu, hx⟩
  · have hcloses : closes post = false := by
      unfold closes
      rw [List.dropWhile_eq_nil_iff.2 fun m hm => by simp [hpost m hm]]
    rw [hit_free (hfree hpost), if_neg (by simp [hcloses])]
  · have hall : ∀ m ∈ u, (!ends m) = true := fun m hm => by simp [hu m hm]
    have hcloses : closes (u ++ x :: v) = (decide (x = 62) && relNext v) := by
      unfold closes
      rw [List.dropWhile_append_of_pos hall, List.dropWhile_cons, if_neg (by simp [hx])]
    have htake : (u ++ x :: v).takeWhile (!ends ·) = u := by
      rw [List.takeWhile_append_of_pos hall, List.takeWhile_cons, if_neg (by simp [hx]), List.append_nil]
    have hsplit : pre ++ 63 :: (mid ++ (u ++ x :: v)) = (pre ++ 63 :: (mid ++ u)) ++ x :: v := by
      simp only [List.append_assoc, List.cons_append]
    rw [hsplit, hit_end (hfree hu) hx, hcloses, htake]
    simp

/-- Looking through a query, with its `?`, that holds no `<`, `>` or comma. -/
theorem scan_through (hmid : ∀ m ∈ mid, m ≠ 60 ∧ ends m = false) {pre : List Nat} (hpre : 63 ∉ pre) :
    scan (pre ++ 63 :: (mid ++ post)) = (scan pre).or (match opened pre with
      | some rest => if closes post = true then some (rest ++ 63 :: (mid ++ post.takeWhile (!ends ·))) else scan post
      | none => scan post) := by
  have hquery : ∀ m ∈ 63 :: mid, m ≠ 60 := by
    intro m hm
    rcases List.mem_cons.1 hm with rfl | hm
    · decide
    · exact (hmid m hm).1
  have hmid' : ∀ m ∈ mid, ends m = false := fun m hm => (hmid m hm).2
  induction pre with
  | nil => exact scan_skip hquery post
  | cons n pre ih =>
    rw [List.mem_cons, not_or] at hpre
    have ih := ih hpre.2
    rw [List.cons_append, scan, ih, scan, Option.or_assoc]
    rcases ends_or pre with hfree | ⟨u, x, v, rfl, hu, hx⟩
    · -- nothing ends in what follows
      rw [hit_open hfree hmid', hit_free hfree, scan_free hfree, opened]
      by_cases hn : n = 60
      · by_cases hclose : closes post = true
        · rw [if_pos ⟨hn, hclose⟩, if_pos ⟨hn, hfree⟩]
          dsimp only
          rw [if_pos hclose]
          rfl
        · rw [if_neg (fun h => hclose h.2), if_pos ⟨hn, hfree⟩]
          dsimp only
          rw [if_neg hclose]
          cases opened pre with
          | none => rfl
          | some rest =>
            dsimp only
            rw [if_neg hclose]
      · rw [if_neg (fun h => hn h.1), if_neg (fun h => hn h.1)]
    · -- a comma or a `>` does, and the query is beyond it
      have hopened : opened (n :: (u ++ x :: v)) = opened (u ++ x :: v) := by
        rw [opened, if_neg]
        intro h
        have := h.2 x (List.mem_append_right _ List.mem_cons_self)
        rw [hx] at this
        cases this
      have hsame : hit (n :: (u ++ x :: v ++ 63 :: (mid ++ post))) = hit (n :: (u ++ x :: v)) := by
        rw [List.append_assoc, List.cons_append, hit_end hu hx, hit_end hu hx, relNext_stop (by decide) (by decide)]
      rw [hsame, hopened]

end

/-! ## The request -/

namespace ListingRequest
variable (request : ListingRequest)

/-- What stands in the header before the query of the URL. -/
def before : List Nat := points "<" ++ request.origin.text ++ request.path

/-- And after it. -/
def after : List Nat := (if request.fragment = [] then [] else points "#" ++ request.fragment) ++ points ">; rel=\"next\""

/-- The header's value. -/
def link (cursor : List Nat) : List Nat := points "<" ++ request.includeQueryParams cursor ++ points ">; rel=\"next\""

/-- The header, around the query. -/
theorem link_eq (cursor : List Nat) :
    request.link cursor = request.before ++ 63 :: (urlencode (request.params cursor) ++ request.after) := by
  unfold link includeQueryParams before after
  rw [show points "?" = [63] from rfl]
  simp only [List.append_assoc, List.cons_append, List.nil_append]

theorem scalar_rest : ∀ n ∈ request.rest, Scalar n := by
  intro n hn
  rcases List.mem_append.1 hn with hn | hn
  · unfold Endpoint.path at hn
    split at hn
    · exact scalar_points _ n hn
    · rcases List.mem_append.1 hn with hn | hn
      · rcases List.mem_append.1 hn with hn | hn
        · exact scalar_points _ n hn
        · exact scalar_points _ n hn
      · exact scalar_points _ n hn
    · exact scalar_points _ n hn
    · exact scalar_points _ n hn
    · exact scalar_points _ n hn
  · split at hn
    · cases hn
    · rcases List.mem_append.1 hn with hn | hn
      · exact scalar_points _ n hn
      · exact scalar_points _ n hn

theorem writable_params {cursor : List Nat} (h : ∀ n ∈ cursor, Scalar n) : Writable (request.params cursor) := by
  intro item hitem
  rcases List.mem_append.1 hitem with hitem | hitem
  · refine parseQsl_writable (fun n hn => ?_) item (List.mem_filter.1 hitem).1
    have hbefore := mem_partition (.inl (mem_partition (.inr hn)))
    exact request.scalar_rest n (List.mem_filter.1 hbefore).1
  · rw [List.mem_singleton.1 hitem]
    exact ⟨scalar_points _, h⟩

/-- The query holds nothing that ends a URL, a query or a link. -/
theorem query_plain {cursor : List Nat} (h : ∀ n ∈ cursor, Scalar n) :
    ∀ n ∈ urlencode (request.params cursor), n < 128 ∧ n ≠ 35 ∧ n ≠ 60 ∧ n ≠ 63 ∧ ends n = false := by
  intro n hn
  rw [not_ends]
  rcases urlencode_quoted (request.writable_params h) n hn with (hn | hn | hn) | hn | hn
  · have := alwaysSafe_range hn
    omega
  all_goals omega

theorem param_cursor {cursor : List Nat} (h : ∀ n ∈ cursor, Scalar n) (url : List Nat)
    (hquery : queryOf url = urlencode (request.params cursor)) : param url (points "cursor") = some cursor := by
  unfold param
  rw [hquery, parseQsl_urlencode (request.writable_params h)]
  unfold params
  rw [List.find?_append, List.find?_eq_none.2]
  · simp
  · intro item hitem
    simpa using (List.mem_filter.1 hitem).2

theorem before_plain : 63 ∉ request.before ∧ 35 ∉ request.before := by
  have hscheme : ∀ secure : Bool, 63 ∉ points (if secure then "https://" else "http://") ∧
      35 ∉ points (if secure then "https://" else "http://") := by
    decide
  have horigin : 63 ∉ request.origin.text ∧ 35 ∉ request.origin.text := by
    unfold Origin.text
    rw [List.mem_append, List.mem_append, not_or, not_or]
    exact ⟨⟨(hscheme _).1, fun h => request.origin.plain 63 h (by simp)⟩,
      ⟨(hscheme _).2, fun h => request.origin.plain 35 h (by simp)⟩⟩
  have hquery : 63 ∉ request.path := notMem_partition
  have hfragment : 35 ∉ request.path := fun h => notMem_partition (mem_partition (.inl h))
  unfold before
  rw [List.mem_append, List.mem_append, List.mem_append, List.mem_append]
  constructor
  · rintro ((h | h) | h)
    · exact absurd h (by decide)
    · exact horigin.1 h
    · exact hquery h
  · rintro ((h | h) | h)
    · exact absurd h (by decide)
    · exact horigin.2 h
    · exact hfragment h

/-- What the reader takes for the URL: what the `<` opened, the query, and what follows it up to where the URL ends. -/
def shown (rest cursor : List Nat) : List Nat :=
  rest ++ 63 :: (urlencode (request.params cursor) ++ request.after.takeWhile (!ends ·))

theorem queryOf_shown {rest cursor : List Nat} (hcursor : ∀ n ∈ cursor, Scalar n) (hrest : 63 ∉ rest ∧ 35 ∉ rest) :
    queryOf (request.shown rest cursor) = urlencode (request.params cursor) := by
  have hplain : ∀ n ∈ rest, (n ≠ 63 && n ≠ 35) = true := by
    intro n hn
    have h63 : n ≠ 63 := fun h => hrest.1 (h ▸ hn)
    have h35 : n ≠ 35 := fun h => hrest.2 (h ▸ hn)
    simp [h63, h35]
  have hafter : request.after.takeWhile (!ends ·) = [] ∨ ∃ tail, request.after.takeWhile (!ends ·) = 35 :: tail := by
    unfold after
    by_cases h : request.fragment = []
    · rw [if_pos h]
      exact .inl rfl
    · rw [if_neg h]
      exact .inr ⟨_, rfl⟩
  have hquery : ∀ n ∈ urlencode (request.params cursor), decide (n ≠ 35) = true := by
    intro n hn
    simpa using (request.query_plain hcursor n hn).2.1
  unfold queryOf shown
  rw [List.dropWhile_append_of_pos hplain, List.dropWhile_cons, if_neg (by decide)]
  dsimp only
  rw [if_pos rfl, List.takeWhile_append_of_pos hquery]
  rcases hafter with h | ⟨tail, h⟩
  · rw [h, List.takeWhile_nil, List.append_nil]
  · rw [h, List.takeWhile_cons, if_neg (by decide), List.append_nil]

end ListingRequest

theorem opened_mem {text rest : List Nat} (h : opened text = some rest) : ∀ n ∈ rest, n ∈ text := by
  induction text with
  | nil => cases h
  | cons m text ih =>
    unfold opened at h
    split at h
    · cases h
      exact fun n hn => List.mem_cons_of_mem _ hn
    · exact fun n hn => List.mem_cons_of_mem _ (ih h n hn)

theorem opened_none {text : List Nat} (h : 60 ∉ text) : opened text = none := by
  induction text with
  | nil => rfl
  | cons n text ih =>
    rw [List.mem_cons, not_or] at h
    rw [opened, if_neg (fun hn => h.1 hn.1.symm), ih h.2]

/-- A URL without a `?` names no cursor. -/
theorem param_none {url : List Nat} (h : 63 ∉ url) (name : List Nat) : param url name = none := by
  have hquery : queryOf url = [] := by
    unfold queryOf
    split
    · rfl
    · next n rest heq =>
      have hmem : n ∈ url := (List.dropWhile_suffix _).subset (heq ▸ List.mem_cons_self)
      rw [if_neg]
      intro hn
      rw [hn] at hmem
      exact h hmem
  unfold param
  rw [hquery]
  rfl

/-! ## The round trip -/

section
variable (httpx : Httpx) (datetimes : Datetimes) (fields : CursorFields) (request : ListingRequest)

/-- The cursor of the position is read back from the link it is written into. -/
def ReadsBack (p : Position) : Prop :=
  ∃ link, linkNext datetimes fields request (some p) = .ok (some link) ∧
    nextCursor httpx (some link) = .ok (some (points (encodeCursor datetimes fields p)))

/-- The header can be written; before the query no link closes but one opens, which closes first of all after it; and
`httpx.URL` takes what lies between. -/
def ListingRequest.Linked : Prop :=
  (∀ n ∈ request.before ++ request.after, n < 256) ∧ target request.before = none ∧ closes request.after = true ∧
    ∃ rest, opened request.before = some rest ∧
      ∀ p, httpx.takes (request.shown rest (points (encodeCursor datetimes fields p))) = true

variable {httpx datetimes fields request}

/-- What the reader finds in a link. -/
theorem target_link {cursor : List Nat} (hcursor : ∀ n ∈ cursor, Scalar n) :
    target (request.link cursor) =
      (target request.before).or (match opened request.before with
        | some rest => if closes request.after = true then some (request.shown rest cursor) else scan request.after
        | none => scan request.after) := by
  have hmid : ∀ n ∈ urlencode (request.params cursor), n ≠ 60 ∧ ends n = false := by
    intro n hn
    have := request.query_plain hcursor n hn
    exact ⟨this.2.2.1, this.2.2.2.2⟩
  rw [request.link_eq, target_eq_scan, target_eq_scan, scan_through hmid request.before_plain.1]
  rfl

theorem latin_link {cursor : List Nat} (hcursor : ∀ n ∈ cursor, Scalar n) :
    (∀ n ∈ request.link cursor, n < 256) ↔ ∀ n ∈ request.before ++ request.after, n < 256 := by
  rw [request.link_eq]
  constructor
  · intro h n hn
    rcases List.mem_append.1 hn with hn | hn
    · exact h n (List.mem_append_left _ hn)
    · exact h n (List.mem_append_right _ (List.mem_cons_of_mem _ (List.mem_append_right _ hn)))
  · intro h n hn
    rcases List.mem_append.1 hn with hn | hn
    · exact h n (List.mem_append_left _ hn)
    · rcases List.mem_cons.1 hn with rfl | hn
      · decide
      · rcases List.mem_append.1 hn with hn | hn
        · have := (request.query_plain hcursor n hn).1
          omega
        · exact h n (List.mem_append_right _ hn)

theorem linkNext_ok {p : Position} {link : List Nat} : linkNext datetimes fields request (some p) = .ok (some link) ↔
    (∀ n ∈ request.before ++ request.after, n < 256) ∧ request.link (points (encodeCursor datetimes fields p)) = link := by
  have hlink : linkNext datetimes fields request (some p) =
      if ∀ n ∈ request.link (points (encodeCursor datetimes fields p)), n < 256
        then .ok (some (request.link (points (encodeCursor datetimes fields p)))) else .error .unicodeEncodeError := rfl
  rw [hlink, ← latin_link (scalar_points (encodeCursor datetimes fields p))]
  split
  · next h => simp only [Except.ok.injEq, Option.some.injEq, and_iff_right h]
  · next h => simp only [reduceCtorEq, h, false_and]

/-- No one text is what is found in the links of all cursors. -/
theorem not_alike (hread : ∀ p, nextCursor httpx (some (request.link (points (encodeCursor datetimes fields p)))) =
      .ok (some (points (encodeCursor datetimes fields p))))
    (found : Option (List Nat)) : ¬ ∀ p, target (request.link (points (encodeCursor datetimes fields p))) = found := by
  intro hsame
  have hfirst := hread ⟨0, []⟩
  have hsecond := hread ⟨0, [97]⟩
  unfold nextCursor at hfirst hsecond
  rw [Option.getD_some, hsame] at hfirst hsecond
  have heq := points_injective (Option.some.inj (Except.ok.inj (hfirst.symm.trans hsecond)))
  have hempty : decodeCursor datetimes fields (some (encodeCursor datetimes fields ⟨0, []⟩)) = .ok (some ⟨0, []⟩) :=
    decodeCursor_encodeCursor (List.forall_mem_nil _)
  have hone : decodeCursor datetimes fields (some (encodeCursor datetimes fields ⟨0, [97]⟩)) = .ok (some ⟨0, [97]⟩) := by
    refine decodeCursor_encodeCursor fun n hn => ?_
    rw [List.mem_singleton.1 hn]
    exact .inl (by decide)
  rw [heq, hone] at hempty
  cases hempty

/-- A link found before the query is of the path, and names no cursor. -/
theorem target_before_none {p : Position}
    (hread : nextCursor httpx (some (request.link (points (encodeCursor datetimes fields p)))) =
      .ok (some (points (encodeCursor datetimes fields p)))) : target request.before = none := by
  cases hbefore : target request.before with
  | none => rfl
  | some url =>
    have hno : 63 ∉ url := fun hmem => request.before_plain.1 (scan_mem (target_eq_scan _ ▸ hbefore) 63 hmem)
    unfold nextCursor at hread
    rw [Option.getD_some, target_link (scalar_points _), hbefore] at hread
    dsimp only [Option.or] at hread
    rw [param_none hno] at hread
    split at hread <;> cases hread

/-- A link that closes before the query, or opens after it, is not the cursor's. -/
theorem linked_of_readsBack (h : ∀ p, ReadsBack httpx datetimes fields request p) : request.Linked httpx datetimes fields := by
  have hread : ∀ p, nextCursor httpx (some (request.link (points (encodeCursor datetimes fields p)))) =
      .ok (some (points (encodeCursor datetimes fields p))) := by
    intro p
    obtain ⟨link, hlink, hread⟩ := h p
    rw [(linkNext_ok.1 hlink).2]
    exact hread
  have hlatin : ∀ n ∈ request.before ++ request.after, n < 256 := by
    obtain ⟨link, hlink, -⟩ := h ⟨0, []⟩
    exact (linkNext_ok.1 hlink).1
  have hclosed := target_before_none (hread ⟨0, []⟩)
  have hfound : ∀ p, target (request.link (points (encodeCursor datetimes fields p))) = match opened request.before with
      | some rest => if closes request.after = true then some (request.shown rest (points (encodeCursor datetimes fields p)))
        else scan request.after
      | none => scan request.after := by
    intro p
    rw [target_link (scalar_points _), hclosed]
    rfl
  cases hopened : opened request.before with
  | none =>
    refine absurd (fun p => ?_) (not_alike hread (scan request.after))
    rw [hfound, hopened]
  | some rest =>
    have hcloses : closes request.after = true := by
      by_contra hopen
      refine not_alike hread (scan request.after) fun p => ?_
      rw [hfound, hopened]
      exact if_neg hopen
    refine ⟨hlatin, hclosed, hcloses, rest, hopened, fun p => ?_⟩
    have hp := hread p
    unfold nextCursor at hp
    rw [Option.getD_some, hfound, hopened] at hp
    dsimp only at hp
    rw [if_pos hcloses] at hp
    dsimp only at hp
    split at hp
    · next htakes => exact htakes
    · cases hp

end

/-- The cursor of every next link of a request is read back exactly when its header is Latin-1, the text before the query shows
no link of its own but opens one, what follows the query closes it first, and `httpx.URL` takes what lies between. -/
theorem next_link_read_iff (httpx : Httpx) (datetimes : Datetimes) (collation : Collation) (tenantId : String) (request : ListingRequest) :
    (∀ p, ReadsBack httpx datetimes (request.endpoint.listing collation tenantId).fields request p) ↔
      request.Linked httpx datetimes (request.endpoint.listing collation tenantId).fields := by
  constructor
  · exact linked_of_readsBack
  · rintro ⟨hlatin, hclosed, hcloses, rest, hopened, htakes⟩ p
    refine ⟨_, linkNext_ok.2 ⟨hlatin, rfl⟩, ?_⟩
    have hcursor : ∀ n ∈ points (encodeCursor datetimes (request.endpoint.listing collation tenantId).fields p), Scalar n :=
      scalar_points _
    have hrest : 63 ∉ rest ∧ 35 ∉ rest := ⟨fun h => request.before_plain.1 (opened_mem hopened 63 h),
      fun h => request.before_plain.2 (opened_mem hopened 35 h)⟩
    have hne : points (encodeCursor datetimes (request.endpoint.listing collation tenantId).fields p) ≠ [] := by
      intro h
      have hempty : points "" = [] := rfl
      exact encodeCursor_ne p (points_injective (h.trans hempty.symm))
    unfold nextCursor
    rw [Option.getD_some, target_link hcursor, hclosed, hopened]
    dsimp only [Option.or]
    rw [if_pos hcloses]
    dsimp only
    rw [if_pos (htakes p), request.param_cursor hcursor _ (request.queryOf_shown hcursor hrest)]
    simp [hne]

/-! ## Which requests -/

section
variable {httpx : Httpx} {datetimes : Datetimes} {fields : CursorFields} {request : ListingRequest}

/-- Without a comma or a `>` in the origin, the path and the fragment, what is left is Latin-1 and `httpx.URL`. -/
theorem linked_plain (hbefore : ∀ n ∈ request.origin.text ++ request.path, ends n = false)
    (hfragment : ∀ n ∈ request.fragment, ends n = false) :
    request.Linked httpx datetimes fields ↔ (∀ n ∈ request.before ++ request.after, n < 256) ∧
      ∀ p, httpx.takes (request.shown (request.origin.text ++ request.path) (points (encodeCursor datetimes fields p))) = true := by
  have htext : request.before = 60 :: (request.origin.text ++ request.path) := by
    unfold ListingRequest.before
    rw [List.append_assoc]
    rfl
  have hopened : opened request.before = some (request.origin.text ++ request.path) := by
    rw [htext, opened, if_pos ⟨rfl, hbefore⟩]
  have hclosed : target request.before = none := by
    rw [target_eq_scan, htext, scan, hit_free hbefore, scan_free hbefore]
    rfl
  have hcloses : closes request.after = true := by
    have hfree : ∀ n ∈ (if request.fragment = [] then [] else points "#" ++ request.fragment), (!ends n) = true := by
      intro n hn
      split at hn
      · cases hn
      · rcases List.mem_append.1 hn with hn | hn
        · rw [List.mem_singleton.1 (show n ∈ [35] from hn)]
          rfl
        · rw [hfragment n hn]
          rfl
    unfold closes ListingRequest.after
    rw [List.dropWhile_append_of_pos hfree]
    decide
  constructor
  · rintro ⟨hlatin, -, -, rest, hrest, htakes⟩
    rw [hopened] at hrest
    cases hrest
    exact ⟨hlatin, htakes⟩
  · rintro ⟨hlatin, htakes⟩
    exact ⟨hlatin, hclosed, hcloses, _, hopened, htakes⟩

/-- With one in the origin or the path, and no `<` to open a link after it, no cursor is read back. -/
theorem not_linked (hopen : 60 ∉ request.origin.text ++ request.path) (hends : ∃ n ∈ request.origin.text ++ request.path, ends n = true) :
    ¬ request.Linked httpx datetimes fields := by
  have hopened : opened request.before = none := by
    obtain ⟨n, hn, hend⟩ := hends
    unfold ListingRequest.before
    rw [List.append_assoc, show points "<" = [60] from rfl, List.singleton_append, opened, if_neg, opened_none hopen]
    rintro ⟨-, hfree⟩
    rw [hfree n hn] at hend
    cases hend
  rintro ⟨-, -, -, rest, hrest, -⟩
  rw [hopened] at hrest
  cases hrest

end

/-- The resolutions of a run with a comma in its id. -/
def commaRequest : ListingRequest := ⟨⟨true, points "h", by decide⟩, .resolutions "a,b", "limit=1"⟩

/-- Their next link is written, and read as the last page's. -/
theorem comma_cursor_lost :
    linkNext secondDatetimes ((Endpoint.resolutions "a,b").listing plainCollation "t").fields commaRequest
      (some ⟨1, points "res_1"⟩) = .ok (some (points ("<https://h/v1/runs/a,b/resolutions?limit=1&cursor=" ++
      "eyJyZWNvcmRlZF9hdCI6IjE5NzAtMDEtMDFUMDA6MDA6MDErMDA6MDAiLCJyZXNvbHV0aW9uX2lkIjoicmVzXzEifQ>; rel=\"next\""))) ∧
    ∀ httpx, nextCursor httpx (some (points ("<https://h/v1/runs/a,b/resolutions?limit=1&cursor=" ++
      "eyJyZWNvcmRlZF9hdCI6IjE5NzAtMDEtMDFUMDA6MDA6MDErMDA6MDAiLCJyZXNvbHV0aW9uX2lkIjoicmVzXzEifQ>; rel=\"next\""))) = .ok none := by
  constructor
  · decide +kernel
  · intro httpx
    have htarget : target (points ("<https://h/v1/runs/a,b/resolutions?limit=1&cursor=" ++
      "eyJyZWNvcmRlZF9hdCI6IjE5NzAtMDEtMDFUMDA6MDA6MDErMDA6MDAiLCJyZXNvbHV0aW9uX2lkIjoicmVzXzEifQ>; rel=\"next\"")) = none := by
      decide +kernel
    unfold nextCursor
    rw [Option.getD_some, htarget]

end AgentRuns
