import AgentRuns.FileBlobs

/-!
# What the filesystem store keeps

The objects of the store are the files under the names no `mkstemp` makes (`FileBlobs.view`).  Whatever puts, reads and
deletes go on at once, whatever raises, whoever dies and however often the power goes,

* a name leads to nothing or to all the bytes of a put of that key whose chunks came to their end, synced   (objects_whole)
* every call takes effect at one moment: the events of a run are those of a store of objects that are written
  once, and what puts answer and readers yield is what they say of it       (file_store_linearizable)
-/

namespace AgentRuns

open Posix Timed ObjectStore

namespace FileBlobs

/-! ## The objects -/

/-- The bytes under a path. -/
def objects (s : FileBlobs) (path : BlobPath) : Option (List UInt8) :=
  if isTemporary path then none
  else
    match s.disk.entries path with
    | some (.file f) => s.disk.inodes[f]?.map Inode.bytes
    | _ => none

/-- The store as others see it. -/
def view (s : FileBlobs) : Objects BlobPath (List UInt8) where
  at_ := s.objects
  former path := {bytes | isTemporary path = false ∧ ∃ f, (path, f) ∈ s.disk.given ∧ s.disk.Sealed f bytes}

/-- What a link creates. -/
def creation (s : FileBlobs) (i : Nat) (outcome : Outcome) : List (Event Nat BlobPath (List UInt8)) :=
  match s.puts[i]? with
  | none => []
  | some p =>
    if p.stage = .linking ∧ outcome.took = true ∧ s.disk.entries p.path = none then [.created i p.path p.taken] else []

/-- What a delete removes. -/
def removal (key : String) (outcome : Outcome) : List (Event Nat BlobPath (List UInt8)) :=
  match pathOf key with
  | none => []
  | some path => if outcome.took then [.removed path] else []

/-- What a reader finds. -/
def finding (s : FileBlobs) (key : String) (outcome : Outcome) : List (Event Nat BlobPath (List UInt8)) :=
  match pathOf key, outcome with
  | some path, .returned => [.found s.readers.length path (s.objects path)]
  | _, _ => []

/-- What a step does to the objects, or reads of them. -/
def events (s : FileBlobs) (_ : Instant) : FileAct → List (Event Nat BlobPath (List UInt8))
  | .link i outcome => s.creation i outcome
  | .delete key outcome => removal key outcome
  | .read key outcome => s.finding key outcome
  | .powerCut _ _ => [.cut]
  | _ => []

end FileBlobs

/-- The key names no temporary file. -/
def ProperKey (key : String) : Prop := (pathOf key).all (!isTemporary ·) = true

instance : DecidablePred ProperKey := fun _ => inferInstanceAs (Decidable (_ = true))

theorem ProperKey.path {key : String} {path : BlobPath} (h : ProperKey key) (hpath : pathOf key = some path) :
    isTemporary path = false := by
  unfold ProperKey at h
  rw [hpath] at h
  simpa using h

/-- No call names a temporary file. -/
def FileAct.Proper : FileAct → Prop
  | .begin key => ProperKey key
  | .read key _ => ProperKey key
  | .delete key _ => ProperKey key
  | _ => True

instance : DecidablePred FileAct.Proper := fun act => by
  cases act <;> unfold FileAct.Proper <;> infer_instance

theorem isTemporary_beside (path : BlobPath) (drawn : List Char) : isTemporary (temporaryBeside path drawn) = true := by
  have hpre : ".tmp-".toList.isPrefixOf (".tmp-".toList ++ drawn ++ ".part".toList) = true := by
    rw [List.isPrefixOf_iff_prefix, List.append_assoc]
    exact List.prefix_append _ _
  have hsuf : ".part".toList.isSuffixOf (".tmp-".toList ++ drawn ++ ".part".toList) = true := by
    rw [List.isSuffixOf_iff_suffix]
    exact List.suffix_append _ _
  unfold isTemporary temporaryBeside
  rw [List.getLast?_append_of_ne_nil _ (by simp), List.getLast?_singleton, Option.any_some, hpre, hsuf]
  rfl

/-! ## The invariant -/

def PutStage.underWay : PutStage → Bool
  | .writing | .closing | .linking | .discarding => true
  | _ => false

/-- How far a put is says what there is of it on the disk. -/
def Put.Fits (d : Disk BlobPath) (p : Put) : Prop :=
  match p.stage with
  | .opening => p.linked = false ∧ p.raised = none ∧ p.temp = none ∧ p.buffer = p.taken
  | .writing => p.linked = false ∧ p.raised = none ∧
      ∃ t f w, p.temp = some (t, f) ∧ d.Loose f w ∧ w ++ p.buffer = p.taken
  | .closing => p.linked = false ∧
      ∃ t f w, p.temp = some (t, f) ∧ d.Loose f w ∧ (p.raised = none → p.whole = true ∧ w ++ p.buffer = p.taken)
  | .linking => p.linked = false ∧ p.raised = none ∧ p.whole = true ∧ ∃ t f, p.temp = some (t, f) ∧ d.Sealed f p.taken
  | .discarding | .ended => (p.raised = none → p.linked = true) ∧
      (p.linked = true → p.whole = true ∧ ∃ t f, p.temp = some (t, f) ∧ d.Sealed f p.taken)
  | .dead => p.linked = true → p.whole = true ∧ ∃ t f, p.temp = some (t, f) ∧ d.Sealed f p.taken

/-- What a reader has of the object it found, or that it found none. -/
def BlobReader.Fits (d : Disk BlobPath) (es : List (Event Nat BlobPath (List UInt8))) (j : Nat) (r : BlobReader) : Prop :=
  (r.yielded = [] ∧ r.raised.isSome = true ∧ r.stage = .finished ∧
    ∀ key, r.raised = some (.blobNotFound key) → .found j r.path none ∈ es) ∨
  ∃ bytes, .found j r.path (some bytes) ∈ es ∧ d.Sealed r.file bytes ∧ r.yielded.flatten = bytes.take r.offset ∧
    r.offset ≤ bytes.length ∧ (r.stage = .reading → r.raised = none) ∧ (∀ key, r.raised ≠ some (.blobNotFound key)) ∧
    (r.stage = .finished → r.raised = none → r.offset = bytes.length)

/-- Its creation by put `i`. -/
def isCreation (i : Nat) : Event Nat BlobPath (List UInt8) → Bool
  | .created k _ _ => k = i
  | _ => false

namespace FileBlobs

/-- What is so after the events `es`. -/
structure Inv (es : List (Event Nat BlobPath (List UInt8))) (s : FileBlobs) : Prop where
  entries : ∀ (path : BlobPath) (f : Nat), s.disk.entries path = some (.file f) → (path, f) ∈ s.disk.given
  /-- a put has a temporary file of its own, and its name while it is under way -/
  temps : ∀ (i : Nat) (p : Put) (t : BlobPath) (f : Nat), s.puts[i]? = some p → p.temp = some (t, f) →
    isTemporary t = true ∧ f < s.disk.inodes.length ∧ (p.stage.underWay = true → s.disk.entries t = some (.file f))
  distinct : ∀ (i j : Nat) (p q : Put) (t u : BlobPath) (f : Nat), s.puts[i]? = some p → s.puts[j]? = some q →
    p.temp = some (t, f) → q.temp = some (u, f) → i = j
  proper : ∀ (i : Nat) (p : Put), s.puts[i]? = some p → isTemporary p.path = false
  fits : ∀ (i : Nat) (p : Put), s.puts[i]? = some p → p.Fits s.disk
  /-- what a name was given is what a put of that key linked -/
  given : ∀ (path : BlobPath) (f : Nat), (path, f) ∈ s.disk.given → isTemporary path = false →
    ∃ (i : Nat) (p : Put) (t : BlobPath), s.puts[i]? = some p ∧ p.temp = some (t, f) ∧ p.path = path ∧ p.linked = true
  readers : ∀ (j : Nat) (r : BlobReader), s.readers[j]? = some r → r.Fits s.disk es j
  created : ∀ (i : Nat) (p : Put), s.puts[i]? = some p → p.linked = true → .created i p.path p.taken ∈ es
  once : ∀ i : Nat, es.countP (isCreation i) = if s.puts[i]?.any (·.linked) then 1 else 0

variable {es es' : List (Event Nat BlobPath (List UInt8))} {s : FileBlobs} {i : Nat} {p p' : Put} {d' : Disk BlobPath}
  {path : BlobPath} {f : Nat} {bytes : List UInt8}

theorem inv_empty : Inv [] empty where
  entries := fun _ _ h => by cases h
  temps := fun _ _ _ _ h => by cases h
  distinct := fun _ _ _ _ _ _ _ h => by cases h
  proper := fun _ _ h => by cases h
  fits := fun _ _ h => by cases h
  given := fun _ _ h => by cases h
  readers := fun _ _ h => by cases h
  created := fun _ _ h => by cases h
  once := fun _ => rfl

end FileBlobs

/-- A put that linked its file did so with all the bytes, synced. -/
theorem Put.Fits.linked {d : Disk BlobPath} {p : Put} (h : p.Fits d) (hl : p.linked = true) :
    p.whole = true ∧ ∃ t f, p.temp = some (t, f) ∧ d.Sealed f p.taken := by
  unfold Put.Fits at h
  split at h
  · rw [h.1] at hl
    cases hl
  · rw [h.1] at hl
    cases hl
  · rw [h.1] at hl
    cases hl
  · rw [h.1] at hl
    cases hl
  · exact h.2 hl
  · exact h.2 hl
  · exact h hl

/-- A put fits as long as its own file does. -/
theorem Put.Fits.mono {d d' : Disk BlobPath} {p : Put} (h : p.Fits d) (hsealed : ∀ f bytes, d.Sealed f bytes → d'.Sealed f bytes)
    (hloose : ∀ t f w, p.temp = some (t, f) → d.Loose f w → d'.Loose f w) : p.Fits d' := by
  have hlinked : (p.linked = true → p.whole = true ∧ ∃ t f, p.temp = some (t, f) ∧ d.Sealed f p.taken) →
      p.linked = true → p.whole = true ∧ ∃ t f, p.temp = some (t, f) ∧ d'.Sealed f p.taken := by
    intro h hl
    obtain ⟨hw, t, f, ht, hs⟩ := h hl
    exact ⟨hw, t, f, ht, hsealed f _ hs⟩
  unfold Put.Fits at h ⊢
  cases hs : p.stage with
  | opening =>
    simp only [hs] at h ⊢
    exact h
  | writing =>
    simp only [hs] at h ⊢
    obtain ⟨hl, hr, t, f, w, ht, hw, hb⟩ := h
    exact ⟨hl, hr, t, f, w, ht, hloose t f w ht hw, hb⟩
  | closing =>
    simp only [hs] at h ⊢
    obtain ⟨hl, t, f, w, ht, hw, hb⟩ := h
    exact ⟨hl, t, f, w, ht, hloose t f w ht hw, hb⟩
  | linking =>
    simp only [hs] at h ⊢
    obtain ⟨hl, hr, hw, t, f, ht, hf⟩ := h
    exact ⟨hl, hr, hw, t, f, ht, hsealed f _ hf⟩
  | discarding =>
    simp only [hs] at h ⊢
    exact ⟨h.1, hlinked h.2⟩
  | ended =>
    simp only [hs] at h ⊢
    exact ⟨h.1, hlinked h.2⟩
  | dead =>
    simp only [hs] at h ⊢
    exact hlinked h

/-- A reader keeps what it has, since nothing changes the object it found. -/
theorem BlobReader.Fits.mono {d d' : Disk BlobPath} {es : List (Event Nat BlobPath (List UInt8))} {j : Nat} {r : BlobReader}
    (h : r.Fits d es j) (hsealed : ∀ f bytes, d.Sealed f bytes → d'.Sealed f bytes)
    (new : List (Event Nat BlobPath (List UInt8))) : r.Fits d' (es ++ new) j := by
  rcases h with ⟨hy, hr, hstage, hnone⟩ | ⟨bytes, hfound, hs, h⟩
  · exact .inl ⟨hy, hr, hstage, fun key hkey => List.mem_append_left _ (hnone key hkey)⟩
  · exact .inr ⟨bytes, List.mem_append_left _ hfound, hsealed _ _ hs, h⟩

namespace FileBlobs

variable {es new : List (Event Nat BlobPath (List UInt8))} {s : FileBlobs} {i : Nat} {p p' : Put} {d' : Disk BlobPath}
  {path t : BlobPath} {f : Nat} {bytes : List UInt8}

theorem set_puts (hp : s.puts[i]? = some p) (j : Nat) :
    (s.set i p' d').puts[j]? = if j = i then some p' else s.puts[j]? := by
  obtain ⟨hlt, -⟩ := List.getElem?_eq_some_iff.1 hp
  show (s.puts.set i p')[j]? = _
  rw [List.getElem?_set]
  by_cases hj : i = j
  · rw [if_pos hj, if_pos (hj ▸ hlt), if_pos hj.symm]
  · rw [if_neg hj, if_neg (Ne.symm hj)]

/-- What a step of put `i` leaves of the disk for the others. -/
structure Spares (d d' : Disk BlobPath) (p' : Put) : Prop where
  length : d.inodes.length ≤ d'.inodes.length
  sealed : ∀ f bytes, d.Sealed f bytes → d'.Sealed f bytes
  loose : ∀ f w, d.Loose f w → (∀ t, p'.temp ≠ some (t, f)) → d'.Loose f w
  names : ∀ t f, isTemporary t = true → d.entries t = some (.file f) → (∀ u, p'.temp ≠ some (u, f)) →
    d'.entries t = some (.file f)
  entries : ∀ path f, d'.entries path = some (.file f) → (path, f) ∈ d'.given
  given : ∀ path f, (path, f) ∈ d'.given → isTemporary path = false →
    (path, f) ∈ d.given ∨ path = p'.path ∧ p'.linked = true ∧ ∃ t, p'.temp = some (t, f)

/-- A step that touches no disk. -/
theorem Inv.spares (hi : Inv es s) (p' : Put) : Spares s.disk s.disk p' :=
  ⟨le_rfl, fun _ _ h => h, fun _ _ h _ => h, fun _ _ _ h _ => h, hi.entries, fun _ _ h _ => .inl h⟩

/-- What a step of put `i` makes of it and shows of it. -/
structure Moved (es new : List (Event Nat BlobPath (List UInt8))) (s : FileBlobs) (i : Nat) (p p' : Put) (d' : Disk BlobPath) :
    Prop where
  path : p'.path = p.path
  temp : p'.temp = p.temp ∨ p.temp = none ∧ ∃ t, p'.temp = some (t, s.disk.inodes.length)
  own : ∀ t f, p'.temp = some (t, f) → isTemporary t = true ∧ f < d'.inodes.length ∧
    (p'.stage.underWay = true → d'.entries t = some (.file f))
  fits : p'.Fits d'
  shown : new = [] ∧ p'.linked = p.linked ∧ (p.linked = true → p'.taken = p.taken) ∨
    new = [.created i p'.path p'.taken] ∧ p.linked = false ∧ p'.linked = true

/-- **Frame.**  A step of one put. -/
theorem Inv.moved (hi : Inv es s) (hp : s.puts[i]? = some p) (hm : Moved es new s i p p' d') (hs : Spares s.disk d' p') :
    Inv (es ++ new) (s.set i p' d') := by
  have htemp : ∀ {t f}, p.temp = some (t, f) → p'.temp = some (t, f) := by
    intro t f h
    rcases hm.temp with he | ⟨hnone, -⟩
    · rw [he, h]
    · rw [hnone] at h
      cases h
  -- another put has another file
  have hother : ∀ {j q t u f}, j ≠ i → s.puts[j]? = some q → q.temp = some (t, f) → p'.temp ≠ some (u, f) := by
    intro j q t u f hj hq ht hu
    rcases hm.temp with he | ⟨-, t', he⟩
    · exact hj (hi.distinct j i q p t u f hq hp ht (he ▸ hu))
    · rw [he] at hu
      cases hu
      exact absurd (hi.temps j q t _ hq ht).2.1 (lt_irrefl _)
  have hlinked : p.linked = true → p'.linked = true := by
    intro h
    rcases hm.shown with ⟨-, he, -⟩ | ⟨-, -, he⟩
    · rw [he, h]
    · exact he
  constructor
  · exact hs.entries
  · intro j q t f hq ht
    rw [set_puts hp] at hq
    split at hq
    · cases hq
      exact hm.own t f ht
    · next hj =>
      obtain ⟨htemporary, hlt, hentry⟩ := hi.temps j q t f hq ht
      exact ⟨htemporary, hlt.trans_le hs.length, fun h => hs.names t f htemporary (hentry h) fun u => hother hj hq ht⟩
  · intro j k q r t u f hq hr ht hu
    rw [set_puts hp] at hq hr
    split at hq
    · next hj =>
      cases hq
      split at hr
      · next hk => exact hj.trans hk.symm
      · next hk => exact absurd ht (hother hk hr hu)
    · next hj =>
      split at hr
      · cases hr
        exact absurd hu (hother hj hq ht)
      · exact hi.distinct j k q r t u f hq hr ht hu
  · intro j q hq
    rw [set_puts hp] at hq
    split at hq
    · cases hq
      rw [hm.path]
      exact hi.proper i p hp
    · exact hi.proper j q hq
  · intro j q hq
    rw [set_puts hp] at hq
    split at hq
    · cases hq
      exact hm.fits
    · next hj => exact (hi.fits j q hq).mono hs.sealed fun t f w ht hw => hs.loose f w hw fun u => hother hj hq ht
  · intro path f hmem hproper
    rcases hs.given path f hmem hproper with hmem | ⟨rfl, hl, t, ht⟩
    · obtain ⟨j, q, t, hq, ht, hpath, hl⟩ := hi.given path f hmem hproper
      by_cases hj : j = i
      · subst hj
        rw [hp] at hq
        cases hq
        exact ⟨j, p', t, by rw [set_puts hp, if_pos rfl], htemp ht, hm.path.trans hpath, hlinked hl⟩
      · exact ⟨j, q, t, by rw [set_puts hp, if_neg hj, hq], ht, hpath, hl⟩
    · exact ⟨i, p', t, by rw [set_puts hp, if_pos rfl], ht, rfl, hl⟩
  · exact fun j r hr => (hi.readers j r hr).mono hs.sealed new
  · intro j q hq hl
    rw [set_puts hp] at hq
    split at hq
    · next hj =>
      cases hq
      subst hj
      rcases hm.shown with ⟨-, he, htaken⟩ | ⟨rfl, -, -⟩
      · rw [he] at hl
        rw [hm.path, htaken hl]
        exact List.mem_append_left _ (hi.created j p hp hl)
      · exact List.mem_append_right _ List.mem_cons_self
    · exact List.mem_append_left _ (hi.created j q hq hl)
  · intro j
    have honce := hi.once j
    rw [List.countP_append, set_puts hp]
    by_cases hj : j = i
    · subst hj
      rw [if_pos rfl]
      rw [hp] at honce
      rcases hm.shown with ⟨rfl, he, -⟩ | ⟨rfl, hl, hl'⟩
      · rw [honce, List.countP_nil, Option.any_some, Option.any_some, he]
        rfl
      · rw [honce, Option.any_some, Option.any_some, hl, hl', List.countP_singleton]
        simp [isCreation]
    · rw [if_neg hj, honce]
      rcases hm.shown with ⟨rfl, -, -⟩ | ⟨rfl, -, -⟩
      · rfl
      · rw [List.countP_singleton]
        simp [isCreation, Ne.symm hj]

/-! ## What is seen of a step -/

/-- A name leads to what a put of that key linked, whole. -/
theorem Inv.named (hi : Inv es s) (hmem : (path, f) ∈ s.disk.given) (hproper : isTemporary path = false) :
    ∃ (i : Nat) (p : Put), s.puts[i]? = some p ∧ p.path = path ∧ p.linked = true ∧ p.whole = true ∧
      s.disk.Sealed f p.taken := by
  obtain ⟨i, p, t, hp, ht, hpath, hl⟩ := hi.given path f hmem hproper
  obtain ⟨hw, t', f', ht', hs⟩ := (hi.fits i p hp).linked hl
  rw [ht] at ht'
  cases ht'
  exact ⟨i, p, hp, hpath, hl, hw, hs⟩

theorem Inv.objects_eq_some (hi : Inv es s) :
    s.objects path = some bytes ↔ isTemporary path = false ∧ ∃ f, s.disk.entries path = some (.file f) ∧ s.disk.Sealed f bytes := by
  constructor
  · intro h
    unfold objects at h
    split at h
    · cases h
    · next hproper =>
      have hproper := Bool.eq_false_iff.2 hproper
      split at h
      · next f hf =>
        obtain ⟨-, p, -, -, -, -, hs⟩ := hi.named (hi.entries path f hf) hproper
        rw [show s.disk.inodes[f]? = _ from hs] at h
        cases h
        exact ⟨hproper, f, hf, hs⟩
      · cases h
  · rintro ⟨hproper, f, hf, hs⟩
    unfold objects
    rw [if_neg (by simp [hproper]), hf]
    show s.disk.inodes[f]?.map Inode.bytes = _
    rw [show s.disk.inodes[f]? = _ from hs]
    rfl

/-- What a step is to do: it is seen as what it shows, and keeps the invariant. -/
def Keeps (es new : List (Event Nat BlobPath (List UInt8))) (s s' : FileBlobs) : Prop :=
  Legal s.view new s'.view ∧ Inv (es ++ new) s'

theorem Inv.same (hi : Inv es s) : Keeps es [] s s := by
  refine ⟨.nil _, ?_⟩
  rw [List.append_nil]
  exact hi

/-- Nothing is seen of a step that gives and takes no name of an object. -/
theorem Inv.unseen {s' : FileBlobs} (hi : Inv es s) (hi' : Inv (es ++ []) s')
    (hentries : ∀ path f, isTemporary path = false → (s'.disk.entries path = some (.file f) ↔ s.disk.entries path = some (.file f)))
    (hgiven : ∀ path f, isTemporary path = false → ((path, f) ∈ s'.disk.given ↔ (path, f) ∈ s.disk.given))
    (hsealed : ∀ f bytes, s.disk.Sealed f bytes → s'.disk.Sealed f bytes) : Keeps es [] s s' := by
  have hview : s'.view = s.view := by
    have hback : ∀ {path f bytes}, isTemporary path = false → (path, f) ∈ s.disk.given → s'.disk.Sealed f bytes →
        s.disk.Sealed f bytes := by
      intro path f bytes hproper hmem hs
      obtain ⟨-, p, -, -, -, -, hp⟩ := hi.named hmem hproper
      rwa [hs.unique (hsealed f _ hp)]
    unfold view
    congr 1
    · funext path
      refine Option.ext fun bytes => ?_
      show s'.objects path = some bytes ↔ s.objects path = some bytes
      rw [hi'.objects_eq_some, hi.objects_eq_some]
      refine and_congr_right fun hproper => exists_congr fun f => ?_
      rw [hentries path f hproper]
      exact and_congr_right fun hf => ⟨hback hproper (hi.entries path f hf), hsealed f bytes⟩
    · funext path
      refine Set.ext fun bytes => and_congr_right fun hproper => exists_congr fun f => ?_
      rw [hgiven path f hproper]
      exact and_congr_right fun hmem => ⟨hback hproper hmem, hsealed f bytes⟩
  refine ⟨?_, hi'⟩
  rw [hview]
  exact .nil _

/-- A step of one put that leaves the disk as it is. -/
theorem Inv.waits (hi : Inv es s) (hp : s.puts[i]? = some p) (hm : Moved es [] s i p p' s.disk) :
    Keeps es [] s (s.set i p' s.disk) :=
  hi.unseen (hi.moved hp hm (hi.spares p')) (fun _ _ _ => Iff.rfl) (fun _ _ _ => Iff.rfl) fun _ _ h => h

/-! ## The steps of a put -/

/-- A put begins. -/
theorem Inv.begun (hi : Inv es s) {p : Put} (htemp : p.temp = none) (hl : p.linked = false) (hproper : isTemporary p.path = false)
    (hfits : p.Fits s.disk) : Keeps es [] s { s with puts := s.puts ++ [p] } := by
  refine hi.unseen ?_ (fun _ _ _ => Iff.rfl) (fun _ _ _ => Iff.rfl) fun _ _ h => h
  rw [List.append_nil]
  constructor
  · exact hi.entries
  · intro j q t f hq ht
    rcases getElem?_concat hq with hq | ⟨-, rfl⟩
    · exact hi.temps j q t f hq ht
    · rw [htemp] at ht
      cases ht
  · intro j k q r t u f hq hr ht hu
    rcases getElem?_concat hq with hq | ⟨-, rfl⟩
    · rcases getElem?_concat hr with hr | ⟨-, rfl⟩
      · exact hi.distinct j k q r t u f hq hr ht hu
      · rw [htemp] at hu
        cases hu
    · rw [htemp] at ht
      cases ht
  · intro j q hq
    rcases getElem?_concat hq with hq | ⟨-, rfl⟩
    · exact hi.proper j q hq
    · exact hproper
  · intro j q hq
    rcases getElem?_concat hq with hq | ⟨-, rfl⟩
    · exact hi.fits j q hq
    · exact hfits
  · intro path f hmem hproper
    obtain ⟨j, q, t, hq, h⟩ := hi.given path f hmem hproper
    exact ⟨j, q, t, getElem?_concat_of_some hq, h⟩
  · exact hi.readers
  · intro j q hq hlq
    rcases getElem?_concat hq with hq | ⟨-, rfl⟩
    · exact hi.created j q hq hlq
    · rw [hl] at hlq
      cases hlq
  · intro j
    rw [hi.once j]
    cases hq : s.puts[j]? with
    | some q => rw [show (s.puts ++ [p])[j]? = some q from getElem?_concat_of_some hq]
    | none =>
      cases hq' : (s.puts ++ [p])[j]? with
      | none => rfl
      | some q =>
        rcases getElem?_concat hq' with hq' | ⟨-, rfl⟩
        · rw [hq] at hq'
          cases hq'
        · rw [Option.any_some, hl]
          rfl

/-- A put that goes on with the file it has, on a disk whose names are the same. -/
theorem Inv.goesOn (hi : Inv es s) (hp : s.puts[i]? = some p) (hpath : p'.path = p.path) (htemp : p'.temp = p.temp)
    (hstage : p'.stage.underWay = true → p.stage.underWay = true) (hlinked : p'.linked = p.linked)
    (htaken : p.linked = true → p'.taken = p.taken) (hentries : d'.entries = s.disk.entries)
    (hlength : d'.inodes.length = s.disk.inodes.length) (hfits : p'.Fits d') : Moved es [] s i p p' d' where
  path := hpath
  temp := .inl htemp
  own := by
    intro t f h
    rw [htemp] at h
    obtain ⟨ht, hlt, hentry⟩ := hi.temps i p t f hp h
    exact ⟨ht, hlength ▸ hlt, fun hu => hentries ▸ hentry (hstage hu)⟩
  fits := hfits
  shown := .inl ⟨rfl, hlinked, htaken⟩

/-- What it writes to its own file, and syncs, is nobody else's. -/
theorem Inv.spares_own (hi : Inv es s) (ht : p'.temp = some (t, f)) (hentries : d'.entries = s.disk.entries)
    (hgiven : d'.given = s.disk.given) (hlength : d'.inodes.length = s.disk.inodes.length)
    (hsealed : ∀ f bytes, s.disk.Sealed f bytes → d'.Sealed f bytes)
    (hloose : ∀ g w, s.disk.Loose g w → g ≠ f → d'.Loose g w) : Spares s.disk d' p' where
  length := hlength.ge
  sealed := hsealed
  loose g w hw hne := hloose g w hw fun h => hne t (h ▸ ht)
  names u g _ hu _ := hentries ▸ hu
  entries path g hg := by
    rw [hentries] at hg
    rw [hgiven]
    exact hi.entries path g hg
  given path g hmem _ := .inl (hgiven ▸ hmem)

theorem withTemp_of (ht : p.temp = some (t, f)) (g : BlobPath → Nat → FileBlobs) : s.withTemp p g = g t f := by
  unfold withTemp
  rw [ht]

theorem keeps_chunk (hi : Inv es s) (hp : s.puts[i]? = some p) (hstage : p.stage = .writing) (bytes : List UInt8)
    (outcome : Outcome) : Keeps es [] s (s.chunk i p bytes outcome) := by
  have hfits := hi.fits i p hp
  unfold Put.Fits at hfits
  rw [hstage] at hfits
  obtain ⟨hl, hr, t, f, w, ht, hw, hb⟩ := hfits
  have hnever : p.linked = true → p.taken ++ bytes = p.taken := by
    intro h
    rw [hl] at h
    cases h
  unfold chunk
  cases outcome with
  | returned =>
    refine hi.waits hp (hi.goesOn hp rfl rfl (fun h => h) rfl hnever rfl rfl ?_)
    unfold Put.Fits
    dsimp only
    rw [hstage]
    exact ⟨hl, hr, t, f, w, ht, hw, by rw [← List.append_assoc, hb]⟩
  | raised took =>
    refine hi.waits hp (hi.goesOn hp rfl rfl (fun _ => by rw [hstage]; rfl) rfl hnever rfl rfl ?_)
    exact ⟨hl, t, f, w, ht, hw, fun h => by cases h⟩

theorem keeps_ends (hi : Inv es s) (hp : s.puts[i]? = some p) (hstage : p.stage = .writing) (raises : Option BlobFailure) :
    Keeps es [] s (match raises with
      | none => s.set i { p with whole := true, stage := .closing } s.disk
      | some e => s.set i (p.fail e .closing) s.disk) := by
  have hfits := hi.fits i p hp
  unfold Put.Fits at hfits
  rw [hstage] at hfits
  obtain ⟨hl, hr, t, f, w, ht, hw, hb⟩ := hfits
  cases raises with
  | none =>
    refine hi.waits hp (hi.goesOn hp rfl rfl (fun _ => by rw [hstage]; rfl) rfl (fun _ => rfl) rfl rfl ?_)
    exact ⟨hl, t, f, w, ht, hw, fun _ => ⟨rfl, hb⟩⟩
  | some e =>
    refine hi.waits hp (hi.goesOn hp rfl rfl (fun _ => by rw [hstage]; rfl) rfl (fun _ => rfl) rfl rfl ?_)
    exact ⟨hl, t, f, w, ht, hw, fun h => by cases h⟩

theorem keeps_spill (hi : Inv es s) (hp : s.puts[i]? = some p) (hstage : p.stage = .writing) (n : Nat) :
    Keeps es [] s (s.withTemp p fun _ file =>
      s.set i { p with buffer := p.buffer.drop n } (s.disk.write file (p.buffer.take n))) := by
  have hfits := hi.fits i p hp
  unfold Put.Fits at hfits
  rw [hstage] at hfits
  obtain ⟨hl, hr, t, f, w, ht, hw, hb⟩ := hfits
  rw [withTemp_of ht]
  have hsealed : ∀ g bytes, s.disk.Sealed g bytes → (s.disk.write f (p.buffer.take n)).Sealed g bytes :=
    fun g bytes h => h.write hw _
  have hlength := s.disk.length_write f (p.buffer.take n)
  refine hi.unseen (hi.moved hp (hi.goesOn hp rfl rfl (fun h => h) rfl (fun _ => rfl) rfl hlength ?_)
    (hi.spares_own ht rfl rfl hlength hsealed fun g w hg hne => hg.write_of_ne hne _)) (fun _ _ _ => Iff.rfl)
    (fun _ _ _ => Iff.rfl) hsealed
  unfold Put.Fits
  dsimp only
  rw [hstage]
  exact ⟨hl, hr, t, f, _, ht, hw.write _, by rw [List.append_assoc, List.take_append_drop, hb]⟩

theorem keeps_close (hi : Inv es s) (hp : s.puts[i]? = some p) (hstage : p.stage = .closing) (outcome : Outcome) :
    Keeps es [] s (s.close i p outcome) := by
  have hfits := hi.fits i p hp
  unfold Put.Fits at hfits
  rw [hstage] at hfits
  obtain ⟨hl, t, f, w, ht, hw, hb⟩ := hfits
  have hlinked : p.linked = true → False := fun h => by rw [hl] at h; cases h
  have hclosed := (hw.write p.buffer).fsync
  have hsealed : ∀ g bytes, s.disk.Sealed g bytes → ((s.disk.write f p.buffer).fsync f).Sealed g bytes :=
    fun g bytes h => (h.write hw _).fsync f
  have hlength : ((s.disk.write f p.buffer).fsync f).inodes.length = s.disk.inodes.length := by
    rw [Disk.length_fsync, Disk.length_write]
  have hspares : ∀ p' : Put, p'.temp = some (t, f) → Spares s.disk ((s.disk.write f p.buffer).fsync f) p' := fun p' ht' =>
    hi.spares_own ht' rfl rfl hlength hsealed fun g w hg hne => (hg.write_of_ne hne _).fsync_of_ne hne
  have hway : ∀ stage : PutStage, stage.underWay = true → p.stage.underWay = true := fun _ _ => by rw [hstage]; rfl
  unfold close
  rw [withTemp_of ht]
  cases outcome with
  | returned =>
    refine hi.unseen (hi.moved hp (hi.goesOn hp rfl rfl (hway _) rfl (fun _ => rfl) rfl hlength ?_) (hspares _ ht))
      (fun _ _ _ => Iff.rfl) (fun _ _ _ => Iff.rfl) hsealed
    unfold Put.Fits
    dsimp only
    cases hr : p.raised with
    | none =>
      obtain ⟨hwhole, hall⟩ := hb hr
      rw [hall] at hclosed
      exact ⟨hl, rfl, hwhole, t, f, ht, hclosed⟩
    | some e => exact ⟨fun h => (by cases h), fun h => (hlinked h).elim⟩
  | raised took =>
    have hfailed : ∀ d', (p.fail Put.interrupted .discarding).Fits d' :=
      fun d' => ⟨fun h => (by cases h), fun h => (hlinked h).elim⟩
    cases took with
    | false => exact hi.waits hp (hi.goesOn hp rfl rfl (hway _) rfl (fun _ => rfl) rfl rfl (hfailed _))
    | true =>
      exact hi.unseen (hi.moved hp (hi.goesOn hp rfl rfl (hway _) rfl (fun _ => rfl) rfl hlength (hfailed _)) (hspares _ ht))
        (fun _ _ _ => Iff.rfl) (fun _ _ _ => Iff.rfl) hsealed

theorem keeps_temporary (hi : Inv es s) (hp : s.puts[i]? = some p) (hstage : p.stage = .opening) (drawn : List Char)
    (outcome : Outcome) : Keeps es [] s (s.temporary i p drawn outcome) := by
  have hfits := hi.fits i p hp
  unfold Put.Fits at hfits
  rw [hstage] at hfits
  obtain ⟨hl, hr, hnone, hb⟩ := hfits
  have hlinked : p.linked = true → False := fun h => by rw [hl] at h; cases h
  have hfailed : Keeps es [] s (s.set i (p.fail Put.interrupted .ended) s.disk) :=
    hi.waits hp (hi.goesOn hp rfl rfl (fun h => by cases h) rfl (fun _ => rfl) rfl rfl
      ⟨fun h => (by cases h), fun h => (hlinked h).elim⟩)
  unfold temporary
  cases hdirs : s.disk.mkdirs (ancestors p.path) with
  | error => exact hfailed
  | ok disk =>
    obtain ⟨hinodes, hgiven, -⟩ := Disk.mkdirs_ok hdirs
    have hfiles := Disk.mkdirs_file hdirs
    -- the temporary file is made, and the put goes on as `p'` with it
    have hmade : ∀ (disk' : Disk BlobPath) (file : Nat) (p' : Put),
        disk.create (temporaryBeside p.path drawn) = .ok (disk', file) → p'.path = p.path →
        p'.temp = some (temporaryBeside p.path drawn, file) → p'.linked = false → p'.Fits disk' →
        Keeps es [] s (s.set i p' disk') := by
      intro disk' file p' hcreate hpath htemp hl' hfits'
      obtain ⟨hfree, rfl, hinodes', hentries', hgiven'⟩ := Disk.create_ok hcreate
      rw [hinodes] at htemp hinodes' hentries' hgiven'
      rw [hgiven] at hgiven'
      have htmp := isTemporary_beside p.path drawn
      have hlength : s.disk.inodes.length < disk'.inodes.length := by
        rw [hinodes', List.length_append]
        exact Nat.lt_succ_self _
      have hlong : ∀ {g : Nat} {x : Inode}, s.disk.inodes[g]? = some x → disk'.inodes[g]? = some x := by
        intro g x hx
        rw [hinodes', List.getElem?_append_left (List.getElem?_eq_some_iff.1 hx).1, hx]
      have hentry : ∀ {path : BlobPath} {g : Nat}, path ≠ temporaryBeside p.path drawn →
          (disk'.entries path = some (.file g) ↔ s.disk.entries path = some (.file g)) := by
        intro path g hne
        rw [hentries', Function.update_of_ne hne]
        exact hfiles path g
      have hproper : ∀ {path : BlobPath}, isTemporary path = false → path ≠ temporaryBeside p.path drawn := by
        rintro path hpath rfl
        rw [htmp] at hpath
        cases hpath
      have hm : Moved es [] s i p p' disk' := by
        refine ⟨hpath, .inr ⟨hnone, _, htemp⟩, fun t f ht => ?_, hfits', .inl ⟨rfl, hl'.trans hl.symm, fun h => (hlinked h).elim⟩⟩
        rw [htemp] at ht
        cases ht
        exact ⟨htmp, hlength, fun _ => by rw [hentries', Function.update_self]⟩
      have hs : Spares s.disk disk' p' := by
        refine ⟨hlength.le, fun g bytes h => hlong h, fun g w h _ => hlong h, fun t g _ ht _ => ?_, fun path g hg => ?_,
          fun path g hmem hpath => ?_⟩
        · refine (hentry ?_).2 ht
          rintro rfl
          rw [(hfiles _ g).2 ht] at hfree
          cases hfree
        · rw [hgiven']
          by_cases hne : path = temporaryBeside p.path drawn
          · subst hne
            rw [hentries', Function.update_self] at hg
            cases hg
            exact List.mem_cons_self
          · exact List.mem_cons_of_mem _ (hi.entries path g ((hentry hne).1 hg))
        · rw [hgiven'] at hmem
          rcases List.mem_cons.1 hmem with he | hmem
          · cases he
            exact absurd rfl (hproper hpath)
          · exact .inl hmem
      refine hi.unseen (hi.moved hp hm hs) (fun path g hpath => hentry (hproper hpath)) (fun path g hpath => ?_) hs.sealed
      show (path, g) ∈ disk'.given ↔ _
      rw [hgiven', List.mem_cons]
      refine or_iff_right fun he => ?_
      cases he
      exact hproper hpath rfl
    cases outcome with
    | returned =>
      dsimp only
      cases hcreate : disk.create (temporaryBeside p.path drawn) with
      | error => exact hi.same
      | ok made =>
        obtain ⟨disk', file⟩ := made
        refine hmade disk' file _ hcreate rfl rfl hl ?_
        obtain ⟨-, rfl, hinodes', -, -⟩ := Disk.create_ok hcreate
        refine ⟨hl, hr, _, _, [], rfl, ?_, hb⟩
        rw [Disk.Loose, hinodes', List.getElem?_append_right le_rfl, Nat.sub_self]
        rfl
    | raised took =>
      cases took with
      | false => exact hfailed
      | true =>
        dsimp only
        cases hcreate : disk.create (temporaryBeside p.path drawn) with
        | error => exact hi.same
        | ok made =>
          obtain ⟨disk', file⟩ := made
          exact hmade disk' file _ hcreate rfl rfl hl ⟨fun h => (by cases h), fun h => (hlinked h).elim⟩

/-- A link gives the key its object. -/
theorem keeps_linked (hi : Inv es s) (hp : s.puts[i]? = some p) (hstage : p.stage = .linking) (ht : p.temp = some (t, f))
    (hs : s.disk.Sealed f p.taken) (hfree : s.disk.entries p.path = none) (hpath : p'.path = p.path) (htemp : p'.temp = p.temp)
    (htaken : p'.taken = p.taken) (hwhole : p'.whole = true) (hlinked : p'.linked = true) (hstage' : p'.stage = .discarding)
    (hl : p.linked = false) : Keeps es [.created i p.path p.taken] s (s.set i p' (s.disk.give p.path f)) := by
  obtain ⟨htmp, hlt, hentry⟩ := hi.temps i p t f hp ht
  have hentry := hentry (by rw [hstage]; rfl)
  have hproper := hi.proper i p hp
  have hne : ∀ {u : BlobPath}, isTemporary u = true → u ≠ p.path := by
    rintro u hu rfl
    rw [hproper] at hu
    cases hu
  have hm : Moved es [.created i p.path p.taken] s i p p' (s.disk.give p.path f) := by
    refine ⟨hpath, .inl htemp, fun u g hu => ?_, ?_, .inr ⟨by rw [hpath, htaken], hl, hlinked⟩⟩
    · rw [htemp, ht] at hu
      cases hu
      exact ⟨htmp, hlt, fun _ => (Function.update_of_ne (hne htmp) ..).trans hentry⟩
    · unfold Put.Fits
      rw [hstage']
      exact ⟨fun _ => hlinked, fun _ => ⟨hwhole, t, f, htemp.trans ht, htaken ▸ hs⟩⟩
  have hspares : Spares s.disk (s.disk.give p.path f) p' := by
    refine ⟨le_rfl, fun _ _ h => h, fun _ _ h _ => h, fun u g hu hg _ => (Function.update_of_ne (hne hu) ..).trans hg,
      fun path g hg => ?_, fun path g hmem _ => ?_⟩
    · by_cases hpath' : path = p.path
      · subst hpath'
        rw [show (s.disk.give p.path f).entries p.path = _ from Function.update_self ..] at hg
        cases hg
        exact List.mem_cons_self
      · rw [show (s.disk.give p.path f).entries path = _ from Function.update_of_ne hpath' ..] at hg
        exact List.mem_cons_of_mem _ (hi.entries path g hg)
    · rcases List.mem_cons.1 hmem with he | hmem
      · cases he
        exact .inr ⟨hpath.symm, hlinked, t, htemp.trans ht⟩
      · exact .inl hmem
  have hi' := hi.moved hp hm hspares
  refine ⟨?_, hi'⟩
  have hnone : s.view.at_ p.path = none := by
    show s.objects p.path = none
    unfold objects
    rw [hproper, hfree]
    rfl
  have hview : (s.set i p' (s.disk.give p.path f)).view =
      ⟨Function.update s.view.at_ p.path (some p.taken),
        Function.update s.view.former p.path (insert p.taken (s.view.former p.path))⟩ := by
    unfold view
    congr 1
    · funext path
      refine Option.ext fun bytes => ?_
      rw [hi'.objects_eq_some]
      by_cases hpath' : path = p.path
      · subst hpath'
        rw [Function.update_self]
        constructor
        · rintro ⟨-, g, hg, hb⟩
          rw [show (s.set i p' (s.disk.give p.path f)).disk.entries p.path = _ from Function.update_self ..] at hg
          cases hg
          rw [hs.unique hb]
        · intro h
          cases h
          exact ⟨hproper, f, Function.update_self .., hs⟩
      · rw [Function.update_of_ne hpath']
        show _ ↔ s.objects path = some bytes
        rw [hi.objects_eq_some]
        rw [show (s.set i p' (s.disk.give p.path f)).disk.entries path = _ from Function.update_of_ne hpath' ..]
        exact Iff.rfl
    · funext path
      refine Set.ext fun bytes => ?_
      by_cases hpath' : path = p.path
      · subst hpath'
        rw [Function.update_self, Set.mem_insert_iff]
        constructor
        · rintro ⟨-, g, hg, hb⟩
          rcases List.mem_cons.1 hg with he | hg
          · cases he
            exact .inl (hs.unique hb).symm
          · exact .inr ⟨hproper, g, hg, hb⟩
        · rintro (rfl | ⟨-, g, hg, hb⟩)
          · exact ⟨hproper, f, List.mem_cons_self, hs⟩
          · exact ⟨hproper, g, List.mem_cons_of_mem _ hg, hb⟩
      · rw [Function.update_of_ne hpath']
        refine and_congr_right fun _ => exists_congr fun g => and_congr_left fun _ => ?_
        show (path, g) ∈ (p.path, f) :: s.disk.given ↔ _
        rw [List.mem_cons]
        refine or_iff_right fun he => ?_
        cases he
        exact hpath' rfl
  rw [hview]
  exact .single (.created hnone)

theorem keeps_link (hi : Inv es s) (hp : s.puts[i]? = some p) (hstage : p.stage = .linking) (outcome : Outcome) :
    Keeps es (s.creation i outcome) s (s.link i p outcome) := by
  have hfits := hi.fits i p hp
  unfold Put.Fits at hfits
  rw [hstage] at hfits
  obtain ⟨hl, hr, hwhole, t, f, ht, hs⟩ := hfits
  have hlinked : p.linked = true → False := fun h => by rw [hl] at h; cases h
  have hlink := Disk.link_eq ((hi.temps i p t f hp ht).2.2 (by rw [hstage]; rfl)) p.path
  have hfailed : ∀ e, Keeps es [] s (s.set i (p.fail e .discarding) s.disk) := fun e =>
    hi.waits hp (hi.goesOn hp rfl rfl (fun _ => by rw [hstage]; rfl) rfl (fun _ => rfl) rfl rfl
      ⟨fun h => (by cases h), fun h => (hlinked h).elim⟩)
  unfold link creation
  rw [withTemp_of ht, hp]
  dsimp only
  by_cases hfree : s.disk.entries p.path = none
  · rw [if_neg (by rw [hfree]; simp)] at hlink
    rw [hlink]
    cases outcome with
    | returned =>
      rw [if_pos ⟨hstage, rfl, hfree⟩]
      exact keeps_linked hi hp hstage ht hs hfree rfl rfl rfl hwhole rfl rfl hl
    | raised took =>
      cases took with
      | false =>
        rw [if_neg (by rintro ⟨-, h, -⟩; cases h)]
        exact hfailed _
      | true =>
        rw [if_pos ⟨hstage, rfl, hfree⟩]
        exact keeps_linked hi hp hstage ht hs hfree rfl rfl rfl hwhole rfl rfl hl
  · rw [if_pos (Option.isSome_iff_ne_none.2 hfree)] at hlink
    rw [hlink, if_neg fun h => hfree h.2.2]
    cases outcome with
    | returned => exact hfailed _
    | raised took => cases took <;> exact hfailed _

theorem keeps_discard (hi : Inv es s) (hp : s.puts[i]? = some p) (hstage : p.stage = .discarding) (outcome : Outcome) :
    Keeps es [] s (s.discard i p outcome) := by
  have hfits := hi.fits i p hp
  unfold Put.Fits at hfits
  rw [hstage] at hfits
  obtain ⟨hr, hl⟩ := hfits
  cases ht : p.temp with
  | none =>
    unfold discard withTemp
    rw [ht]
    exact hi.same
  | some temp =>
    obtain ⟨t, f⟩ := temp
    obtain ⟨htmp, hlt, hentry⟩ := hi.temps i p t f hp ht
    have hentry := hentry (by rw [hstage]; rfl)
    -- the name goes, and with it no name of an object
    have hgone : ∀ p' : Put, p'.path = p.path → p'.temp = p.temp → p'.linked = p.linked → p'.taken = p.taken →
        p'.stage = .ended → p'.Fits s.disk →
        Keeps es [] s (s.set i p' { s.disk with entries := Function.update s.disk.entries t none }) := by
      intro p' hpath htemp hlinked htaken hstage' hfits'
      have hentries : ∀ {path : BlobPath} {g : Nat}, path ≠ t →
          (Function.update s.disk.entries t none path = some (.file g) ↔ s.disk.entries path = some (.file g)) := by
        intro path g hne
        rw [Function.update_of_ne hne]
      refine hi.unseen (hi.moved hp ⟨hpath, .inl htemp, fun u g hu => ?_, hfits'.mono (fun _ _ h => h) (fun _ _ _ _ h => h),
        .inl ⟨rfl, hlinked, fun _ => htaken⟩⟩ ⟨le_rfl, fun _ _ h => h, fun _ _ h _ => h, fun u g _ hg hne => ?_,
          fun path g hg => ?_, fun path g hmem _ => .inl hmem⟩) (fun path g hpath => ?_) (fun _ _ _ => Iff.rfl) fun _ _ h => h
      · rw [htemp, ht] at hu
        cases hu
        exact ⟨htmp, hlt, fun h => by rw [hstage'] at h; cases h⟩
      · refine (hentries ?_).2 hg
        rintro rfl
        rw [hentry] at hg
        cases hg
        exact hne u (htemp.trans ht)
      · have hg : Function.update s.disk.entries t none path = some (.file g) := hg
        have hne : path ≠ t := by
          rintro rfl
          rw [Function.update_self] at hg
          cases hg
        exact hi.entries path g ((hentries hne).1 hg)
      · refine hentries ?_
        rintro rfl
        rw [htmp] at hpath
        cases hpath
    have hended : ∀ e, (p.fail e .ended).Fits s.disk := fun e => ⟨fun h => (by cases h), hl⟩
    unfold discard
    rw [withTemp_of ht, Disk.unlink_eq hentry]
    cases outcome with
    | returned => exact hgone _ rfl rfl rfl rfl rfl ⟨hr, hl⟩
    | raised took =>
      cases took with
      | false =>
        exact hi.waits hp (hi.goesOn hp rfl rfl (fun h => by cases h) rfl (fun _ => rfl) rfl rfl (hended _))
      | true => exact hgone _ rfl rfl rfl rfl rfl (hended _)

end FileBlobs

/-- A put that dies leaves what it linked. -/
theorem Put.Fits.die {d : Disk BlobPath} {p : Put} (h : p.Fits d) : p.die.Fits d := by
  unfold Put.die
  split
  · exact h
  · exact h.linked

theorem Put.die_eq (p : Put) : p.die.path = p.path ∧ p.die.temp = p.temp ∧ p.die.taken = p.taken ∧ p.die.linked = p.linked ∧
    p.die.stage.underWay = false := by
  unfold Put.die
  split
  · next h => exact ⟨rfl, rfl, rfl, rfl, by rw [h]; rfl⟩
  · exact ⟨rfl, rfl, rfl, rfl, rfl⟩

namespace FileBlobs

variable {es new : List (Event Nat BlobPath (List UInt8))} {s : FileBlobs} {i : Nat} {p p' : Put} {d' : Disk BlobPath}
  {path t : BlobPath} {f : Nat} {bytes : List UInt8}

theorem keeps_kill (hi : Inv es s) (hp : s.puts[i]? = some p) : Keeps es [] s (s.set i p.die s.disk) := by
  obtain ⟨hpath, htemp, htaken, hlinked, hstage⟩ := p.die_eq
  exact hi.waits hp (hi.goesOn hp hpath htemp (fun h => by rw [hstage] at h; cases h) hlinked (fun _ => htaken) rfl rfl
    (hi.fits i p hp).die)

/-! ## Readers and deletes -/

/-- A step of a reader. -/
theorem Inv.reads (hi : Inv es s) {readers : List BlobReader} (honce : ∀ k, new.countP (isCreation k) = 0)
    (hreaders : ∀ (j : Nat) (r : BlobReader), readers[j]? = some r → r.Fits s.disk (es ++ new) j) :
    Inv (es ++ new) { s with readers := readers } :=
  ⟨hi.entries, hi.temps, hi.distinct, hi.proper, hi.fits, hi.given, hreaders,
    fun j q hq hl => List.mem_append_left _ (hi.created j q hq hl), fun j => by
      rw [List.countP_append, honce]
      exact hi.once j⟩

theorem Inv.reader_added (hi : Inv es s) (honce : ∀ k, new.countP (isCreation k) = 0) {r : BlobReader}
    (hr : r.Fits s.disk (es ++ new) s.readers.length) : Inv (es ++ new) { s with readers := s.readers ++ [r] } := by
  refine hi.reads honce fun j q hq => ?_
  by_cases hj : j < s.readers.length
  · rw [List.getElem?_append_left hj] at hq
    exact (hi.readers j q hq).mono (fun _ _ h => h) new
  · obtain ⟨hlt, -⟩ := List.getElem?_eq_some_iff.1 hq
    rw [List.length_append, List.length_singleton] at hlt
    obtain rfl : j = s.readers.length := by omega
    rw [List.getElem?_append_right le_rfl, Nat.sub_self] at hq
    cases hq
    exact hr

theorem keeps_read (hi : Inv es s) {key : String} (hkey : ProperKey key) (outcome : Outcome) :
    Keeps es (s.finding key outcome) s (s.read key outcome) := by
  have hfailed : ∀ {new : List (Event Nat BlobPath (List UInt8))} (path : BlobPath) (e : BlobFailure),
      (∀ k, e = .blobNotFound k → .found s.readers.length path none ∈ es ++ new) →
        BlobReader.Fits s.disk (es ++ new) s.readers.length ⟨key, path, 0, 0, [], some e, .finished⟩ :=
    fun path e he => .inl ⟨rfl, rfl, rfl, fun k hk => he k (Option.some.inj hk)⟩
  unfold read finding
  cases hpath : pathOf key with
  | none => exact ⟨.nil _, hi.reader_added (fun _ => rfl) (hfailed [] _ fun k h => by cases h)⟩
  | some path =>
    have hproper := hkey.path hpath
    cases outcome with
    | raised took => exact ⟨.nil _, hi.reader_added (fun _ => rfl) (hfailed path _ fun k h => by cases h)⟩
    | returned =>
      have hlegal : Legal s.view [.found s.readers.length path (s.objects path)] s.view := .single (.found rfl)
      dsimp only
      cases hopen : s.disk.openFile path with
      | ok file =>
        refine ⟨hlegal, hi.reader_added (fun _ => rfl) (.inr ?_)⟩
        have hentry := Disk.openFile_ok hopen
        obtain ⟨-, q, -, -, -, -, hs⟩ := hi.named (hi.entries path file hentry) hproper
        have hfound := hi.objects_eq_some.2 ⟨hproper, file, hentry, hs⟩
        refine ⟨q.taken, ?_, hs, rfl, Nat.zero_le _, fun _ => rfl, fun _ h => (by cases h), fun h => (by cases h)⟩
        rw [hfound]
        exact List.mem_append_right _ List.mem_cons_self
      | error e =>
        have hother : BlobReader.Fits s.disk (es ++ [.found s.readers.length path (s.objects path)]) s.readers.length
            ⟨key, path, 0, 0, [], some Put.interrupted, .finished⟩ := hfailed path _ fun k h => by cases h
        cases e with
        | ENOENT =>
          refine ⟨hlegal, hi.reader_added (fun _ => rfl) (hfailed path _ fun k _ => ?_)⟩
          have hnone : s.objects path = none := by
            unfold objects
            unfold Disk.openFile at hopen
            split at hopen
            · next hentry =>
              rw [hproper, hentry]
              rfl
            · cases hopen
            · cases hopen
          rw [hnone]
          exact List.mem_append_right _ List.mem_cons_self
        | EEXIST => exact ⟨hlegal, hi.reader_added (fun _ => rfl) hother⟩
        | ENOTDIR => exact ⟨hlegal, hi.reader_added (fun _ => rfl) hother⟩
        | EISDIR => exact ⟨hlegal, hi.reader_added (fun _ => rfl) hother⟩
        | EPERM => exact ⟨hlegal, hi.reader_added (fun _ => rfl) hother⟩

theorem keeps_next (hi : Inv es s) (j : Nat) (outcome : Outcome) : Keeps es [] s (s.next j outcome) := by
  unfold next
  cases hr : s.readers[j]? with
  | none => exact hi.same
  | some r =>
    dsimp only
    split
    · next hreading =>
      have hfits := hi.readers j r hr
      have hset : ∀ r' : BlobReader, (r.Fits s.disk es j → r'.Fits s.disk es j) →
          Keeps es [] s { s with readers := s.readers.set j r' } := by
        intro r' hr'
        refine ⟨.nil _, hi.reads (fun _ => rfl) fun k q hq => ?_⟩
        rw [List.append_nil]
        rw [List.getElem?_set] at hq
        split at hq
        · next hk =>
          subst hk
          split at hq
          · cases hq
            exact hr' hfits
          · cases hq
        · exact hi.readers k q hq
      have hopen : ¬ (r.stage = .finished) := by
        rw [hreading]
        intro h
        cases h
      cases outcome with
      | raised took =>
        refine hset _ fun h => ?_
        rcases h with ⟨-, -, hstage, -⟩ | ⟨bytes, hfound, hs, hy, hle, -, -, -⟩
        · exact absurd hstage hopen
        · exact .inr ⟨bytes, hfound, hs, hy, hle, fun h => (by cases h), fun _ h => (by cases h), fun _ h => (by cases h)⟩
      | returned =>
        dsimp only
        split
        · next hend =>
          refine hset _ fun h => ?_
          rcases h with ⟨-, -, hstage, -⟩ | ⟨bytes, hfound, hs, hy, hle, hraised, hnot, -⟩
          · exact absurd hstage hopen
          · refine .inr ⟨bytes, hfound, hs, hy, hle, fun h => (by cases h), hnot, fun _ _ => ?_⟩
            rw [Disk.read_of_sealed hs, List.take_eq_nil_iff, List.drop_eq_nil_iff] at hend
            rcases hend with h | h
            · cases h
            · exact le_antisymm hle h
        · refine hset _ fun h => ?_
          rcases h with ⟨-, -, hstage, -⟩ | ⟨bytes, hfound, hs, hy, hle, hraised, hnot, -⟩
          · exact absurd hstage hopen
          · have hread := Disk.read_of_sealed hs r.offset blobChunkBytes
            refine .inr ⟨bytes, hfound, hs, ?_, ?_, fun _ => hraised hreading, hnot, fun h => absurd h hopen⟩
            · rw [List.flatten_append, hy, hread, List.length_take, List.flatten_singleton, List.take_add]
              congr 1
              rw [List.take_eq_take_iff]
              simp
            · dsimp only
              rw [hread, List.length_take, List.length_drop]
              omega
    · exact hi.same

/-- A name of an object goes. -/
theorem keeps_removed (hi : Inv es s) (hproper : isTemporary path = false) : Keeps es [.removed path] s
    { s with disk := (s.disk.unlink path).toOption.getD s.disk } := by
  have hnew : ∀ k, List.countP (isCreation k) [(.removed path : Event Nat BlobPath (List UInt8))] = 0 := fun _ => rfl
  by_cases hentry : ∃ f, s.disk.entries path = some (.file f)
  · obtain ⟨f, hentry⟩ := hentry
    rw [Disk.unlink_eq hentry]
    have hentries : ∀ {q : BlobPath} {g : Nat}, q ≠ path →
        (Function.update s.disk.entries path none q = some (.file g) ↔ s.disk.entries q = some (.file g)) := by
      intro q g hne
      rw [Function.update_of_ne hne]
    have hi' : Inv (es ++ [.removed path])
        { s with disk := { s.disk with entries := Function.update s.disk.entries path none } } := by
      refine ⟨fun q g hq => ?_, fun i p t g hp ht => ?_, hi.distinct, hi.proper,
        fun i p hp => (hi.fits i p hp).mono (fun _ _ h => h) fun _ _ _ _ h => h, hi.given,
        fun j r hr => (hi.readers j r hr).mono (fun _ _ h => h) _,
        fun j q hq hl => List.mem_append_left _ (hi.created j q hq hl), fun j => ?_⟩
      · have hq : Function.update s.disk.entries path none q = some (.file g) := hq
        refine hi.entries q g ((hentries ?_).1 hq)
        rintro rfl
        rw [Function.update_self] at hq
        cases hq
      · obtain ⟨htmp, hlt, h⟩ := hi.temps i p t g hp ht
        refine ⟨htmp, hlt, fun hu => (hentries ?_).2 (h hu)⟩
        rintro rfl
        rw [hproper] at htmp
        cases htmp
      · rw [List.countP_append, hnew]
        exact hi.once j
    refine ⟨?_, hi'⟩
    have hview : ({ s with disk := { s.disk with entries := Function.update s.disk.entries path none } } : FileBlobs).view =
        { s.view with at_ := Function.update s.view.at_ path none } := by
      unfold view
      congr 1
      funext q
      refine Option.ext fun bytes => ?_
      rw [hi'.objects_eq_some]
      by_cases hq : q = path
      · subst hq
        rw [Function.update_self]
        constructor
        · rintro ⟨-, g, hg, -⟩
          have hg : Function.update s.disk.entries q none q = some (.file g) := hg
          rw [Function.update_self] at hg
          cases hg
        · intro h
          cases h
      · rw [Function.update_of_ne hq]
        show _ ↔ s.objects q = some bytes
        rw [hi.objects_eq_some]
        exact and_congr_right fun _ => exists_congr fun g => and_congr_left fun _ => hentries hq
    show Legal s.view _ (FileBlobs.view _)
    rw [show (Except.ok ({ s.disk with entries := Function.update s.disk.entries path none }) :
      Except Errno (Disk BlobPath)).toOption.getD s.disk = { s.disk with entries := Function.update s.disk.entries path none }
      from rfl, hview]
    exact .single .removed
  · have hsame : (s.disk.unlink path).toOption.getD s.disk = s.disk := by
      unfold Disk.unlink
      split
      · rfl
      · rfl
      · next f hf => exact absurd ⟨f, hf⟩ hentry
    rw [hsame]
    have hnone : s.objects path = none := by
      cases h : s.objects path with
      | none => rfl
      | some bytes =>
        obtain ⟨-, f, hf, -⟩ := hi.objects_eq_some.1 h
        exact absurd ⟨f, hf⟩ hentry
    have hview : ({ s.view with at_ := Function.update s.view.at_ path none } : Objects BlobPath (List UInt8)) = s.view := by
      have hat : Function.update s.objects path none = s.objects :=
        (congrArg (Function.update s.objects path) hnone.symm).trans (Function.update_eq_self ..)
      show (⟨Function.update s.objects path none, s.view.former⟩ : Objects BlobPath (List UInt8)) = s.view
      rw [hat]
      rfl
    refine ⟨?_, ⟨hi.entries, hi.temps, hi.distinct, hi.proper, hi.fits, hi.given,
      fun j r hr => (hi.readers j r hr).mono (fun _ _ h => h) _,
      fun j q hq hl => List.mem_append_left _ (hi.created j q hq hl), fun j => ?_⟩⟩
    · have htakes : Takes s.view (.removed path : Event Nat BlobPath (List UInt8))
        { s.view with at_ := Function.update s.view.at_ path none } := .removed
      rw [hview] at htakes
      exact .single htakes
    · rw [List.countP_append, hnew]
      exact hi.once j

theorem keeps_delete (hi : Inv es s) {key : String} (hkey : ProperKey key) (outcome : Outcome) :
    Keeps es (removal key outcome) s (s.delete key outcome) := by
  unfold delete removal
  cases hpath : pathOf key with
  | none => exact hi.same
  | some path =>
    dsimp only
    split
    · exact keeps_removed hi (hkey.path hpath)
    · exact hi.same

theorem keeps_cut (hi : Inv es s) (kept : BlobPath → Option Entry) (torn : Nat → List UInt8) (now : Instant) :
    Keeps es [.cut] s (s.step now (.powerCut kept torn)) := by
  have hsealed : ∀ f bytes, s.disk.Sealed f bytes → (s.disk.cut kept torn).Sealed f bytes := fun f bytes h => h.cut kept torn
  have hputs : ∀ {j : Nat} {q : Put}, (s.puts.map Put.die)[j]? = some q → ∃ p, s.puts[j]? = some p ∧ q = p.die := by
    intro j q hq
    rw [List.getElem?_map, Option.map_eq_some_iff] at hq
    obtain ⟨p, hp, rfl⟩ := hq
    exact ⟨p, hp, rfl⟩
  have hi' : Inv (es ++ [.cut]) (s.step now (.powerCut kept torn)) := by
    constructor
    · intro path f hf
      have hf : (s.disk.cut kept torn).entries path = some (.file f) := hf
      have hmem : (path, f) ∈ s.disk.given := Disk.cut_file hf
      exact hmem
    · intro j q t f hq ht
      obtain ⟨p, hp, rfl⟩ := hputs hq
      obtain ⟨-, htemp, -, -, hstage⟩ := p.die_eq
      obtain ⟨htmp, hlt, -⟩ := hi.temps j p t f hp (htemp ▸ ht)
      refine ⟨htmp, ?_, fun h => by rw [hstage] at h; cases h⟩
      show f < (s.disk.inodes.mapIdx _).length
      rwa [List.length_mapIdx]
    · intro j k q r t u f hq hr ht hu
      obtain ⟨p, hp, rfl⟩ := hputs hq
      obtain ⟨p', hp', rfl⟩ := hputs hr
      exact hi.distinct j k p p' t u f hp hp' (p.die_eq.2.1 ▸ ht) (p'.die_eq.2.1 ▸ hu)
    · intro j q hq
      obtain ⟨p, hp, rfl⟩ := hputs hq
      rw [p.die_eq.1]
      exact hi.proper j p hp
    · intro j q hq
      obtain ⟨p, hp, rfl⟩ := hputs hq
      have hdead := (hi.fits j p hp).die
      obtain ⟨-, -, -, -, hstage⟩ := p.die_eq
      unfold Put.Fits at hdead ⊢
      cases hs : p.die.stage with
      | opening => rw [hs] at hstage hdead; exact hdead
      | writing => rw [hs] at hstage; cases hstage
      | closing => rw [hs] at hstage; cases hstage
      | linking => rw [hs] at hstage; cases hstage
      | discarding => rw [hs] at hstage; cases hstage
      | ended =>
        rw [hs] at hdead
        exact ⟨hdead.1, fun h => (hdead.2 h).imp_right fun ⟨t, f, ht, hf⟩ => ⟨t, f, ht, hsealed f _ hf⟩⟩
      | dead =>
        rw [hs] at hdead
        exact fun h => (hdead h).imp_right fun ⟨t, f, ht, hf⟩ => ⟨t, f, ht, hsealed f _ hf⟩
    · intro path f hmem hproper
      obtain ⟨j, p, t, hp, ht, hpath, hl⟩ := hi.given path f hmem hproper
      obtain ⟨hpath', htemp, -, hlinked, -⟩ := p.die_eq
      exact ⟨j, p.die, t, by rw [show (s.step now (.powerCut kept torn)).puts = s.puts.map Put.die from rfl,
        List.getElem?_map, hp, Option.map_some], htemp.trans ht, hpath'.trans hpath, hlinked.trans hl⟩
    · intro j r hr
      have hr : (s.readers.map fun r => if r.stage = .reading then { r with stage := .dead } else r)[j]? = some r := hr
      rw [List.getElem?_map, Option.map_eq_some_iff] at hr
      obtain ⟨q, hq, rfl⟩ := hr
      have hfits := (hi.readers j q hq).mono hsealed [.cut]
      split
      · next hreading =>
        rcases hfits with ⟨-, -, hstage, -⟩ | ⟨bytes, hfound, hs, hy, hle, -, hnot, -⟩
        · rw [hreading] at hstage
          cases hstage
        · exact .inr ⟨bytes, hfound, hs, hy, hle, fun h => (by cases h), hnot, fun h => (by cases h)⟩
      · exact hfits
    · intro j q hq hl
      obtain ⟨p, hp, rfl⟩ := hputs hq
      obtain ⟨hpath, -, htaken, hlinked, -⟩ := p.die_eq
      rw [hpath, htaken]
      exact List.mem_append_left _ (hi.created j p hp (hlinked ▸ hl))
    · intro j
      rw [List.countP_append, show List.countP (isCreation j) [(.cut : Event Nat BlobPath (List UInt8))] = 0 from rfl]
      have honce := hi.once j
      show _ = if (s.puts.map Put.die)[j]?.any (·.linked) then 1 else 0
      rw [List.getElem?_map]
      cases hp : s.puts[j]? with
      | none =>
        rw [hp] at honce
        exact honce
      | some p =>
        rw [hp] at honce
        rw [Option.map_some, Option.any_some, p.die_eq.2.2.2.1]
        exact honce
  refine ⟨.single (.cut ?_ ?_), hi'⟩
  · intro path bytes hat
    obtain ⟨hproper, f, hf, hs⟩ := hi'.objects_eq_some.1 hat
    have hf : (s.disk.cut kept torn).entries path = some (.file f) := hf
    have hmem := Disk.cut_file hf
    obtain ⟨-, p, -, -, -, -, hp⟩ := hi.named hmem hproper
    refine ⟨hproper, f, hmem, ?_⟩
    rwa [hs.unique (hsealed f _ hp)]
  · funext path
    refine Set.ext fun bytes => and_congr_right fun hproper => exists_congr fun f => and_congr_right fun hmem => ?_
    obtain ⟨-, p, -, -, -, -, hp⟩ := hi.named hmem hproper
    refine ⟨fun hs => ?_, hsealed f bytes⟩
    have hs : (s.disk.cut kept torn).Sealed f bytes := hs
    rwa [hs.unique (hsealed f _ hp)]

/-! ## Every run -/

theorem on_cases {stage : PutStage} {g : Put → FileBlobs} (hi : Inv es s)
    (h : ∀ p, s.puts[i]? = some p → p.stage = stage → Keeps es new s (g p))
    (hnone : (∀ p, s.puts[i]? = some p → p.stage ≠ stage) → new = []) : Keeps es new s (s.on i stage g) := by
  unfold on
  cases hp : s.puts[i]? with
  | none =>
    rw [hnone fun p h => by rw [hp] at h; cases h]
    exact hi.same
  | some p =>
    dsimp only
    split
    · next hstage => exact h p hp hstage
    · next hstage =>
      rw [hnone fun q h => by
        rw [hp] at h
        cases h
        exact hstage]
      exact hi.same

theorem keeps_step (hi : Inv es s) (now : Instant) (act : FileAct) (hproper : act.Proper) :
    Keeps es (s.events now act) s (s.step now act) := by
  cases act with
  | begin key =>
    unfold step
    dsimp only
    cases hpath : pathOf key with
    | none =>
      have hfits : ((Put.start key []).fail (.valueError s!"invalid blob key {key}") .ended).Fits s.disk :=
        ⟨fun h => (by cases h), fun h => (by cases h)⟩
      exact hi.begun rfl rfl rfl hfits
    | some path =>
      have hfits : (Put.start key path).Fits s.disk := ⟨rfl, rfl, rfl, rfl⟩
      exact hi.begun rfl rfl (ProperKey.path hproper hpath) hfits
  | temporary i drawn outcome => exact on_cases hi (fun p hp hs => keeps_temporary hi hp hs drawn outcome) fun _ => rfl
  | chunk i bytes outcome => exact on_cases hi (fun p hp hs => keeps_chunk hi hp hs bytes outcome) fun _ => rfl
  | spill i n => exact on_cases hi (fun p hp hs => keeps_spill hi hp hs n) fun _ => rfl
  | ends i raises => exact on_cases hi (fun p hp hs => keeps_ends hi hp hs raises) fun _ => rfl
  | close i outcome => exact on_cases hi (fun p hp hs => keeps_close hi hp hs outcome) fun _ => rfl
  | link i outcome =>
    refine on_cases hi (fun p hp hs => keeps_link hi hp hs outcome) fun hnone => ?_
    show s.creation i outcome = []
    unfold creation
    cases hp : s.puts[i]? with
    | none => rfl
    | some p => exact if_neg fun h => hnone p hp h.1
  | discard i outcome => exact on_cases hi (fun p hp hs => keeps_discard hi hp hs outcome) fun _ => rfl
  | read key outcome => exact keeps_read hi hproper outcome
  | next j outcome => exact keeps_next hi j outcome
  | delete key outcome => exact keeps_delete hi hproper outcome
  | kill i =>
    unfold step
    dsimp only
    cases hp : s.puts[i]? with
    | none => exact hi.same
    | some p => exact keeps_kill hi hp
  | powerCut kept torn => exact keeps_cut hi kept torn now

theorem keeps_run (l : List (Instant × FileAct)) (h : ∀ x ∈ l, x.2.Proper) :
    Legal Objects.empty (Run.trace step events empty l) (Run.after step empty l).view ∧
      Inv (Run.trace step events empty l) (Run.after step empty l) := by
  have hempty : empty.view = Objects.empty := by
    unfold view Objects.empty
    congr 1
    · funext path
      unfold objects
      split <;> rfl
    · funext path
      refine Set.eq_empty_of_forall_notMem fun bytes => ?_
      rintro ⟨-, f, hmem, -⟩
      cases hmem
  rw [← hempty]
  have hstep : ∀ es s now act, Inv es s → FileAct.Proper act →
      Legal s.view (s.events now act) (s.step now act).view ∧ Inv (es ++ s.events now act) (s.step now act) :=
    fun es s now act hi hok => keeps_step hi now act hok
  exact legal_after hstep inv_empty l h

/-! ## What callers may rely on -/

/-- A run of a put and a read of its object. -/
def sampleRun : List (Instant × FileAct) :=
  [.begin "artifacts/a", .temporary 0 "x".toList .returned, .chunk 0 [1, 2] .returned, .spill 0 1, .read "artifacts/a" .returned,
    .ends 0 none, .close 0 .returned, .link 0 .returned, .discard 0 .returned, .read "artifacts/a" .returned,
    .next 1 .returned, .next 1 .returned].map fun act => (0, act)

theorem sampleRun_proper : ∀ x ∈ sampleRun, x.2.Proper := by decide +kernel

/-- **Whole or not at all.**  A name of an object leads to all the bytes of a put of that key whose chunks came to their end,
and they are on the device. -/
theorem objects_whole (l : List (Instant × FileAct)) (h : ∀ x ∈ l, x.2.Proper) (path : BlobPath) (f : Nat)
    (hproper : isTemporary path = false) (hf : (Run.after step empty l).disk.entries path = some (.file f)) :
    ∃ (i : Nat) (p : Put), (Run.after step empty l).puts[i]? = some p ∧ p.path = path ∧ p.linked = true ∧ p.whole = true ∧
      (Run.after step empty l).disk.Sealed f p.taken := by
  have hi := (keeps_run l h).2
  exact hi.named (hi.entries path f hf) hproper

theorem objects_whole_sample : ∃ (i : Nat) (p : Put), (Run.after step empty sampleRun).puts[i]? = some p ∧
    p.path = ["artifacts".toList, "a".toList] ∧ p.linked = true ∧ p.whole = true ∧
      (Run.after step empty sampleRun).disk.Sealed 0 p.taken :=
  objects_whole sampleRun sampleRun_proper ["artifacts".toList, "a".toList] 0 (by decide +kernel) (by decide +kernel)

/-- What the calls answer is what the events say. -/
structure Answered (es : List (Event Nat BlobPath (List UInt8))) (s : FileBlobs) : Prop where
  /-- a put that returns created its object, whole, and answers its size and digest -/
  puts : ∀ (i : Nat) (p : Put) (blob : StoredBlob), s.puts[i]? = some p → p.answer = some (.ok blob) →
    .created i p.path p.taken ∈ es ∧ p.whole = true ∧ blob = ⟨p.key, hexdigest p.taken, p.taken.length⟩
  once : ∀ i : Nat, es.countP (isCreation i) ≤ 1
  /-- a reader yields the object it found from its first byte on, and all of it when it ends normally -/
  readers : ∀ (j : Nat) (r : BlobReader), s.readers[j]? = some r → r.yielded ≠ [] ∨ r.raised = none →
    ∃ bytes, .found j r.path (some bytes) ∈ es ∧ r.yielded.flatten <+: bytes ∧
      (r.stage = .finished → r.raised = none → r.yielded.flatten = bytes)
  missing : ∀ (j : Nat) (r : BlobReader) (key : String), s.readers[j]? = some r → r.raised = some (.blobNotFound key) →
    .found j r.path none ∈ es

theorem Inv.answered (hi : Inv es s) : Answered es s := by
  constructor
  · intro i p blob hp hanswer
    unfold Put.answer at hanswer
    split at hanswer
    · next hstage =>
      cases hr : p.raised with
      | some e =>
        rw [hr] at hanswer
        cases hanswer
      | none =>
        rw [hr] at hanswer
        cases hanswer
        have hfits := hi.fits i p hp
        have hlinked : p.linked = true := by
          unfold Put.Fits at hfits
          rw [hstage] at hfits
          exact hfits.1 hr
        exact ⟨hi.created i p hp hlinked, (hfits.linked hlinked).1, rfl⟩
    · cases hanswer
  · intro i
    rw [hi.once i]
    split <;> decide
  · intro j r hr hsome
    rcases hi.readers j r hr with ⟨hy, hraised, -⟩ | ⟨bytes, hfound, -, hy, hle, -, -, hend⟩
    · rcases hsome with hne | hnone
      · exact absurd hy hne
      · rw [hnone] at hraised
        cases hraised
    · refine ⟨bytes, hfound, hy ▸ List.take_prefix .., fun hstage hnone => ?_⟩
      rw [hy, hend hstage hnone, List.take_length]
  · intro j r key hr hraised
    rcases hi.readers j r hr with ⟨-, -, -, hnone⟩ | ⟨-, -, -, -, -, -, hnot, -⟩
    · exact hnone key hraised
    · exact absurd hraised (hnot key)

example : (Run.after step empty sampleRun).readers.map BlobReader.yielded = [[], [[1, 2]]] := by decide +kernel

end FileBlobs

end AgentRuns
