import AgentRuns.Retention

/-!
# Between the row and the blob

An upload writes two systems.  It is atomic when every row has its whole blob and an upload that was refused or was
a repeat leaves no blob that no row names (`Uploading.Atomic`).

    atomic at every moment  <=>  every call that undoes deletes the blob exactly if no row names it    (uploads_atomic_iff)

The blob is deleted whenever the commit raised, so also when it took effect: then a row loses its blob
(`lost_answer_loses_blob`).
-/

namespace AgentRuns

open Relational Fallible Timed

/-- Some row names the blob. -/
def Database.Names (db : Database) (key : String) : Prop := ∃ a ∈ db.artifacts.rows, a.blobKey = key

/-- The whole blob of the row is stored. -/
def ArtifactRow.Whole (api : ArtifactApi) (blobs : Table Blob.key) (a : ArtifactRow) : Prop :=
  ∃ blob, blobs.find? a.blobKey = some blob ∧ a.checksum = checksumOf (api.sha256 blob.bytes) ∧
    a.size = blob.bytes.length

def UploadAnswer.isCreated : UploadAnswer → Bool
  | .created _ => true
  | _ => false

/-- Every row has its blob, and what was refused or repeated left none. -/
structure Uploading.Atomic (api : ArtifactApi) (s : Uploading) : Prop where
  whole : ∀ a ∈ s.db.artifacts.rows, a.Whole api s.blobs
  clean : ∀ i request answer, s.uploads i = some (.answered request answer) → answer.isCreated = false →
    (s.blobs.find? request.blobKey).isSome = true → s.db.Names request.blobKey

/-- A put that raises leaves nothing, and what is undone is the blob no row names. -/
def Uploading.Settles (s : Uploading) (_ : Instant) : UploadAct → Prop
  | .store i outcome => ∀ request bytes, s.uploads i = some (.checked request) → request.body.bytes = .ok bytes →
    outcome ≠ .raised true
  | .undo i outcome => ∀ request answer, s.uploads i = some (.undoing request answer) →
    (outcome.took = true ↔ ¬s.db.Names request.blobKey)
  | _ => True

/-- The id minted for an upload that begins. -/
def UploadAct.mints : UploadAct → Option String
  | .check _ request => some request.artifactId
  | _ => none

/-- The ids minted in a list of steps. -/
def minted (acts : List (Instant × UploadAct)) : List String := acts.filterMap fun a => a.2.mints

/-! ## The invariant -/

/-- The request of an upload whose process lives. -/
def Upload.request? : Upload → Option UploadRequest
  | .checked request | .stored request _ | .undoing request _ | .answered request _ => some request
  | .crashed => none

/-- How far an upload is says what there is of it. -/
def Upload.Fits (api : ArtifactApi) (db : Database) (blobs : Table Blob.key) : Upload → Prop
  | .checked request => blobs.find? request.blobKey = none ∧ ¬db.Names request.blobKey
  | .stored request blob => (∃ bytes, blobs.find? request.blobKey = some ⟨request.blobKey, bytes⟩ ∧
      blob = ⟨request.blobKey, api.sha256 bytes, bytes.length⟩) ∧ ¬db.Names request.blobKey
  | .undoing request answer => (blobs.find? request.blobKey).isSome = true ∧ answer.isCreated = false
  | .answered request answer => answer.isCreated = false → (blobs.find? request.blobKey).isSome = true →
      db.Names request.blobKey
  | .crashed => True

/-- The invariant, `seen` being the ids minted so far. -/
structure Uploading.Inv (api : ArtifactApi) (seen : List String) (s : Uploading) : Prop where
  whole : ∀ a ∈ s.db.artifacts.rows, a.Whole api s.blobs
  fits : ∀ i u, s.uploads i = some u → u.Fits api s.db s.blobs
  known : ∀ i u request, s.uploads i = some u → u.request? = some request → request.artifactId ∈ seen
  distinct : ∀ i j u v a b, s.uploads i = some u → s.uploads j = some v → u.request? = some a → v.request? = some b →
    a.artifactId = b.artifactId → i = j
  stored : ∀ key, (s.blobs.find? key).isSome = true → ∃ id ∈ seen, key = "artifacts/" ++ id
  named : ∀ key, s.db.Names key → ∃ id ∈ seen, key = "artifacts/" ++ id

section
variable {api : ArtifactApi} {seen : List String} {s s' : Uploading} {now : Instant} {i : Nat} {request : UploadRequest}
  {old u : Upload} {act : UploadAct} {db db' : Database} {blobs blobs' : Table Blob.key} {op : Op}

theorem blobKey_inj {a b : UploadRequest} (h : a.blobKey = b.blobKey) : a.artifactId = b.artifactId :=
  (String.append_right_inj "artifacts/").1 h

theorem Uploading.Inv.atomic (h : s.Inv api seen) : s.Atomic api :=
  ⟨h.whole, fun i request answer hi => h.fits i (.answered request answer) hi⟩

/-- Only what becomes of its own blob matters to an upload. -/
theorem Upload.Fits.congr (h : u.Fits api db blobs) (hu : u.request? = some request)
    (hblobs : blobs'.find? request.blobKey = blobs.find? request.blobKey)
    (hnames : db'.Names request.blobKey ↔ db.Names request.blobKey) : u.Fits api db' blobs' := by
  cases u with
  | crashed => trivial
  | checked | stored | undoing | answered =>
    cases hu
    simp only [Fits, hblobs, hnames] at h ⊢
    exact h

/-- **Frame.**  A step of one upload, in which only its own blob may come or go, or be named. -/
theorem Uploading.Inv.moves (h : s.Inv api seen) (hi : s.uploads i = some old) (hold : old.request? = some request)
    (hu : u.request? = some request ∨ u = .crashed) (huploads : s'.uploads = (s.at_ i u).uploads)
    (hblobs : ∀ key, key ≠ request.blobKey → s'.blobs.find? key = s.blobs.find? key)
    (hnames : ∀ key, key ≠ request.blobKey → (s'.db.Names key ↔ s.db.Names key))
    (hwhole : ∀ a ∈ s'.db.artifacts.rows, a.Whole api s'.blobs) (hfits : u.Fits api s'.db s'.blobs) :
    s'.Inv api seen := by
  have hknown : ∃ id ∈ seen, request.blobKey = "artifacts/" ++ id := ⟨_, h.known i old request hi hold, rfl⟩
  have back : ∀ {j v}, s'.uploads j = some v → (j = i ∧ v = u) ∨ (j ≠ i ∧ s.uploads j = some v) := by
    intro j v hv
    rw [huploads] at hv
    unfold Uploading.at_ at hv
    dsimp only at hv
    split at hv
    · next hj => exact Or.inl ⟨hj, (Option.some.inj hv).symm⟩
    · next hj => exact Or.inr ⟨hj, hv⟩
  -- the request of an upload after the step is one of before
  have before : ∀ {j v a}, s'.uploads j = some v → v.request? = some a →
      ∃ w, s.uploads j = some w ∧ w.request? = some a := by
    intro j v a hv ha
    rcases back hv with ⟨rfl, rfl⟩ | ⟨-, hv⟩
    · rcases hu with hu | rfl
      · exact ⟨old, hi, hold.trans (hu.symm.trans ha)⟩
      · cases ha
    · exact ⟨v, hv, ha⟩
  refine ⟨hwhole, fun j v hv => ?_, fun j v a hv ha => ?_, fun j k v w a b hv hw ha hb hab => ?_, fun key hkey => ?_,
    fun key hkey => ?_⟩
  · rcases back hv with ⟨-, rfl⟩ | ⟨hne, hv⟩
    · exact hfits
    · cases hr : v.request? with
      | none =>
        cases v with
        | crashed => trivial
        | checked | stored | undoing | answered => cases hr
      | some a =>
        have hkey : a.blobKey ≠ request.blobKey := fun he =>
          hne (h.distinct j i v old a request hv hi hr hold (blobKey_inj he))
        exact (h.fits j v hv).congr hr (hblobs _ hkey) (hnames _ hkey)
  · obtain ⟨w, hw, hwa⟩ := before hv ha
    exact h.known j w a hw hwa
  · obtain ⟨v', hv', hva⟩ := before hv ha
    obtain ⟨w', hw', hwb⟩ := before hw hb
    exact h.distinct j k v' w' a b hv' hw' hva hwb hab
  · by_cases hk : key = request.blobKey
    · exact hk ▸ hknown
    · exact h.stored key (hblobs key hk ▸ hkey)
  · by_cases hk : key = request.blobKey
    · exact hk ▸ hknown
    · exact h.named key ((hnames key hk).1 hkey)

theorem Uploading.Inv.mono (h : s.Inv api seen) (more : List String) (hsub : ∀ id ∈ seen, id ∈ more) : s.Inv api more :=
  { h with
    known := fun i u request hi hu => hsub _ (h.known i u request hi hu)
    stored := fun key hkey => (h.stored key hkey).imp fun _ hid => ⟨hsub _ hid.1, hid.2⟩
    named := fun key hkey => (h.named key hkey).imp fun _ hid => ⟨hsub _ hid.1, hid.2⟩ }

/-! ## Step by step -/

/-- An upload begins, with an id of its own. -/
theorem Uploading.Inv.begins (h : s.Inv api seen) (fresh : request.artifactId ∉ seen)
    (hu : u.request? = some request) (hfits : u.Fits api s.db s.blobs) :
    (s.at_ i u).Inv api (seen ++ [request.artifactId]) := by
  have hmono := h.mono (seen ++ [request.artifactId]) fun id hid => List.mem_append_left _ hid
  have back : ∀ {j v}, (s.at_ i u).uploads j = some v → (j = i ∧ v = u) ∨ (j ≠ i ∧ s.uploads j = some v) := by
    intro j v hv
    unfold Uploading.at_ at hv
    dsimp only at hv
    split at hv
    · next hj => exact Or.inl ⟨hj, (Option.some.inj hv).symm⟩
    · next hj => exact Or.inr ⟨hj, hv⟩
  refine ⟨h.whole, fun j v hv => ?_, fun j v a hv ha => ?_, fun j k v w a b hv hw ha hb hab => ?_, hmono.stored,
    hmono.named⟩
  · rcases back hv with ⟨-, rfl⟩ | ⟨-, hv⟩
    · exact hfits
    · exact h.fits j v hv
  · rcases back hv with ⟨-, rfl⟩ | ⟨-, hold⟩
    · rw [hu] at ha
      cases ha
      exact List.mem_append_right _ List.mem_cons_self
    · exact hmono.known j v a hold ha
  · rcases back hv with ⟨hj, rfl⟩ | ⟨-, hold⟩
    · rw [hu] at ha
      cases ha
      rcases back hw with ⟨hk, -⟩ | ⟨-, hold⟩
      · rw [hj, hk]
      · exact absurd (hab ▸ h.known k w b hold hb) fresh
    · rcases back hw with ⟨-, rfl⟩ | ⟨-, hold'⟩
      · rw [hu] at hb
        cases hb
        exact absurd (hab ▸ h.known j v a hold ha) fresh
      · exact h.distinct j k v w a b hold hold' ha hb hab

/-- Nothing is there under a new id. -/
theorem Uploading.Inv.free (h : s.Inv api seen) (fresh : request.artifactId ∉ seen) :
    s.blobs.find? request.blobKey = none ∧ ¬s.db.Names request.blobKey := by
  have hnot : ¬∃ id ∈ seen, request.blobKey = "artifacts/" ++ id := by
    rintro ⟨id, hid, he⟩
    exact fresh ((String.append_right_inj "artifacts/").1 he ▸ hid)
  refine ⟨?_, fun hn => hnot (h.named _ hn)⟩
  cases hf : s.blobs.find? request.blobKey with
  | none => rfl
  | some blob => exact absurd (h.stored _ (by rw [hf]; rfl)) hnot

theorem Uploading.Inv.check (h : s.Inv api seen) (fresh : request.artifactId ∉ seen) :
    (s.check i request).Inv api (seen ++ [request.artifactId]) := by
  have hfree := h.free fresh
  unfold Uploading.check
  split
  · refine h.begins fresh rfl fun _ hsome => ?_
    rw [hfree.1] at hsome
    cases hsome
  · exact h.begins fresh rfl hfree

/-- A row keeps its blob when another blob comes or goes. -/
theorem ArtifactRow.Whole.congr {a : ArtifactRow} (h : a.Whole api blobs)
    (hsame : blobs'.find? a.blobKey = blobs.find? a.blobKey) : a.Whole api blobs' := by
  obtain ⟨blob, hblob, hrest⟩ := h
  exact ⟨blob, hsame.trans hblob, hrest⟩

theorem Uploading.Inv.store (h : s.Inv api seen) {outcome : Outcome} (hi : s.uploads i = some (.checked request))
    (settles : ∀ bytes, request.body.bytes = .ok bytes → outcome ≠ .raised true) :
    (s.store api i request outcome).Inv api seen := by
  obtain ⟨hfree, hunnamed⟩ := h.fits i _ hi
  -- nothing is stored, and the upload is refused
  have refused : ∀ e, (s.at_ i (.answered request (.refused e))).Inv api seen := fun e =>
    h.moves hi rfl (Or.inl rfl) rfl (fun _ _ => rfl) (fun _ _ => Iff.rfl) h.whole fun _ hsome => by
      have hsome : (s.blobs.find? request.blobKey).isSome = true := hsome
      rw [hfree] at hsome
      cases hsome
  unfold Uploading.store
  split
  · exact refused _
  · next bytes hbytes =>
    rw [hfree]
    dsimp only [Option.isSome_none]
    rw [if_neg (by decide)]
    cases outcome with
    | raised took =>
      cases took with
      | true => exact absurd rfl (settles bytes hbytes)
      | false => exact refused _
    | returned =>
      have hfind := Table.find?_insert (t := s.blobs) (a := ⟨request.blobKey, bytes⟩) hfree
      have hself : (s.blobs.insert ⟨request.blobKey, bytes⟩).find? request.blobKey = some ⟨request.blobKey, bytes⟩ :=
        (hfind _).trans (if_pos rfl)
      have hother : ∀ key, key ≠ request.blobKey →
          (s.blobs.insert ⟨request.blobKey, bytes⟩).find? key = s.blobs.find? key := fun key hkey =>
        (hfind key).trans (if_neg fun he => hkey he.symm)
      have hwhole : ∀ a ∈ s.db.artifacts.rows, a.Whole api (s.blobs.insert ⟨request.blobKey, bytes⟩) := fun a ha =>
        (h.whole a ha).congr (hother _ fun he => hunnamed ⟨a, ha, he⟩)
      dsimp only
      split
      · exact h.moves hi rfl (Or.inl rfl) rfl hother (fun _ _ => Iff.rfl) hwhole
          ⟨Option.isSome_iff_exists.2 ⟨_, hself⟩, rfl⟩
      · exact h.moves hi rfl (Or.inl rfl) rfl hother (fun _ _ => Iff.rfl) hwhole ⟨⟨bytes, hself, rfl⟩, hunnamed⟩

theorem Uploading.Inv.record (h : s.Inv api seen) {blob : StoredBlob} {outcome : Outcome}
    (hi : s.uploads i = some (.stored request blob)) : (s.record i request blob outcome now).Inv api seen := by
  obtain ⟨⟨bytes, hself, rfl⟩, hunnamed⟩ := h.fits i _ hi
  have hthere : (s.blobs.find? request.blobKey).isSome = true := by rw [hself]; rfl
  -- nothing is recorded, and the blob is to go
  have undoing : ∀ answer : UploadAnswer, answer.isCreated = false → (s.at_ i (.undoing request answer)).Inv api seen :=
    fun answer ha => h.moves hi rfl (Or.inl rfl) rfl (fun _ _ => rfl) (fun _ _ => Iff.rfl) h.whole ⟨hthere, ha⟩
  unfold Uploading.record
  split
  · exact undoing _ rfl
  · next db row created hup =>
    obtain ⟨-, ⟨rfl, rfl, -⟩ | ⟨rfl, hnew, hrow, rfl⟩⟩ := upload_ok hup
    · -- the same bytes are stored already
      cases outcome with
      | raised took => cases took <;> exact undoing _ rfl
      | returned => exact undoing _ rfl
    · -- the row is added
      have hrows : (s.db.artifacts.insert row).rows = s.db.artifacts.rows ++ [row] :=
        Table.rows_insert (by rw [hrow]; exact hnew)
      have hkey : row.blobKey = request.blobKey := by rw [hrow]
      have recorded : ∀ u : Upload, u.request? = some request → u.Fits api { s.db with artifacts := s.db.artifacts.insert row } s.blobs →
          ({ s with db := { s.db with artifacts := s.db.artifacts.insert row } }.at_ i u).Inv api seen := by
        intro u hu hfits
        refine h.moves hi rfl (Or.inl hu) rfl (fun _ _ => rfl) (fun key hne => ?_) (fun a ha => ?_) hfits
        · constructor
          · rintro ⟨a, ha, rfl⟩
            rcases List.mem_append.1 (hrows ▸ ha) with ha | ha
            · exact ⟨a, ha, rfl⟩
            · rw [List.mem_singleton.1 ha] at hne
              exact absurd hkey hne
          · rintro ⟨a, ha, rfl⟩
            exact ⟨a, hrows ▸ List.mem_append_left _ ha, rfl⟩
        · rcases List.mem_append.1 (hrows ▸ ha) with ha | ha
          · exact h.whole a ha
          · rw [List.mem_singleton.1 ha, hrow]
            exact ⟨_, hself, rfl, rfl⟩
      cases outcome with
      | raised took =>
        cases took with
        | false => exact undoing _ rfl
        | true => exact recorded _ rfl ⟨hthere, rfl⟩
      | returned => exact recorded _ rfl fun hc => by cases hc

theorem Uploading.Inv.undo (h : s.Inv api seen) {answer : UploadAnswer} {outcome : Outcome}
    (hi : s.uploads i = some (.undoing request answer)) (settles : outcome.took = true ↔ ¬s.db.Names request.blobKey) :
    (s.undo i request answer outcome).Inv api seen := by
  have hself := Table.find?_erase_self s.blobs request.blobKey
  have hother : ∀ key, key ≠ request.blobKey → (s.blobs.erase (·.key = request.blobKey)).find? key = s.blobs.find? key :=
    fun key hkey => Table.find?_erase_of_ne s.blobs hkey
  unfold Uploading.undo
  by_cases htook : outcome.took = true
  · have hunnamed := settles.1 htook
    rw [if_pos htook]
    refine h.moves hi rfl (Or.inl rfl) rfl hother (fun _ _ => Iff.rfl) (fun a ha => ?_) fun _ hsome => ?_
    · exact (h.whole a ha).congr (hother _ fun he => hunnamed ⟨a, ha, he⟩)
    · have hsome : ((s.blobs.erase (·.key = request.blobKey)).find? request.blobKey).isSome = true := hsome
      rw [hself] at hsome
      cases hsome
  · rw [if_neg htook]
    exact h.moves hi rfl (Or.inl rfl) rfl (fun _ _ => rfl) (fun _ _ => Iff.rfl) h.whole fun _ _ =>
      not_not.1 fun hn => htook (settles.2 hn)

theorem names_apply {store : RunStore} (hu : op.isUpload = false) (key : String) :
    (apply store db now op).Names key ↔ db.Names key := by
  obtain ⟨gone, at_, hrows⟩ := artifacts_other store now db hu
  unfold Database.Names
  rw [hrows]
  constructor
  · rintro ⟨_, hm, rfl⟩
    obtain ⟨a, ha, rfl⟩ := List.mem_map.1 hm
    exact ⟨a, ha, (expireWith_blobKey a gone at_).symm⟩
  · rintro ⟨a, ha, rfl⟩
    exact ⟨_, List.mem_map_of_mem ha, expireWith_blobKey a gone at_⟩

theorem Uploading.Inv.other (h : s.Inv api seen) (hu : op.isUpload = false) :
    ({ s with db := AgentRuns.apply api.runs s.db now op } : Uploading).Inv api seen := by
  refine { h with
    whole := fun a' ha' => ?_
    fits := fun i u hi => ?_
    named := fun key hkey => h.named key ((names_apply hu key).1 hkey) }
  · obtain ⟨gone, at_, hrows⟩ := artifacts_other api.runs now s.db hu
    obtain ⟨a, ha, rfl⟩ := List.mem_map.1 (hrows ▸ ha' : a' ∈ s.db.artifacts.rows.map _)
    have hwhole := h.whole a ha
    unfold ArtifactRow.expireWith
    split <;> exact hwhole
  · cases hr : u.request? with
    | none =>
      cases u with
      | crashed => trivial
      | checked | stored | undoing | answered => cases hr
    | some request => exact (h.fits i u hi).congr hr rfl (names_apply hu _)

/-- **One step** that settles what it meets. -/
theorem Uploading.Inv.step (h : s.Inv api seen) (fresh : ∀ id, act.mints = some id → id ∉ seen)
    (settles : s.Settles now act) : (s.step api now act).Inv api (seen ++ act.mints.toList) := by
  have mints_nothing : act.mints = none → s.Inv api (seen ++ act.mints.toList) := fun hn => by
    rw [hn]
    exact h.mono _ fun id hid => List.mem_append_left _ hid
  unfold Uploading.step
  cases act with
  | check i request =>
    dsimp only
    split
    · exact h.check (fresh _ rfl)
    · exact h.mono _ fun id hid => List.mem_append_left _ hid
  | store i outcome =>
    rw [show (seen ++ (UploadAct.store i outcome).mints.toList) = seen from List.append_nil _]
    dsimp only
    split
    · next request hi => exact h.store hi fun bytes hbytes => settles request bytes hi hbytes
    · exact h
  | record i outcome =>
    rw [show (seen ++ (UploadAct.record i outcome).mints.toList) = seen from List.append_nil _]
    dsimp only
    split
    · next request blob hi => exact h.record hi
    · exact h
  | undo i outcome =>
    rw [show (seen ++ (UploadAct.undo i outcome).mints.toList) = seen from List.append_nil _]
    dsimp only
    split
    · next request answer hi => exact h.undo hi (settles request answer hi)
    · exact h
  | crash i =>
    rw [show (seen ++ (UploadAct.crash i).mints.toList) = seen from List.append_nil _]
    dsimp only
    split
    · exact h
    · exact h
    · exact h
    · next u hover hcrashed hi =>
      cases hr : u.request? with
      | none =>
        cases u with
        | crashed => exact absurd rfl hcrashed
        | checked | stored | undoing | answered => cases hr
      | some request =>
        exact h.moves hi hr (Or.inr rfl) rfl (fun _ _ => rfl) (fun _ _ => Iff.rfl) h.whole trivial
  | op op hu =>
    rw [show (seen ++ (UploadAct.op op hu).mints.toList) = seen from List.append_nil _]
    exact h.other hu

/-- A step that does not settle what it meets leaves a row without its blob, or a blob without a row. -/
theorem Uploading.Inv.unsettled (h : s.Inv api seen) (hunsettled : ¬s.Settles now act) : ¬(s.step api now act).Atomic api := by
  intro hatomic
  unfold Uploading.Settles at hunsettled
  cases act with
  | check | record | crash | op => exact hunsettled trivial
  | store i outcome =>
    dsimp only at hunsettled
    push Not at hunsettled
    obtain ⟨request, bytes, hi, hbytes, rfl⟩ := hunsettled
    obtain ⟨hfree, hunnamed⟩ := h.fits i _ hi
    have hstep : s.step api now (.store i (.raised true)) = { s with blobs := s.blobs.insert ⟨request.blobKey, bytes⟩ }.at_ i
        (.answered request (.refused (.internal "the blob store refused"))) := by
      unfold Uploading.step
      dsimp only
      rw [hi]
      dsimp only
      unfold Uploading.store
      rw [hbytes, hfree]
      rfl
    rw [hstep] at hatomic
    have hself := Table.find?_insert (t := s.blobs) (a := ⟨request.blobKey, bytes⟩) hfree request.blobKey
    rw [if_pos rfl] at hself
    exact hunnamed (hatomic.clean i request _ (if_pos rfl) rfl (Option.isSome_iff_exists.2 ⟨_, hself⟩))
  | undo i outcome =>
    dsimp only at hunsettled
    push Not at hunsettled
    obtain ⟨request, answer, hi, hwrong⟩ := hunsettled
    obtain ⟨hthere, hanswer⟩ := h.fits i _ hi
    have hstep : s.step api now (.undo i outcome) = s.undo i request answer outcome := by
      unfold Uploading.step
      dsimp only
      rw [hi]
    rw [hstep] at hatomic
    rcases hwrong with ⟨htook, a, ha, hkey⟩ | ⟨htook, hunnamed⟩
    · obtain ⟨blob, hblob, -⟩ := hatomic.whole a ha
      unfold Uploading.undo at hblob
      rw [if_pos htook, hkey] at hblob
      have hblob : (s.blobs.erase (·.key = request.blobKey)).find? request.blobKey = some blob := hblob
      rw [Table.find?_erase_self] at hblob
      cases hblob
    · refine hunnamed (hatomic.clean i request _ (if_pos rfl) ?_ ?_)
      · cases outcome with
        | returned => exact hanswer
        | raised took => rfl
      · unfold Uploading.undo
        rw [if_neg htook]
        exact hthere

end

/-! ## The result -/

theorem Uploading.Inv.iff {api : ArtifactApi} {acts : List (Instant × UploadAct)} : ∀ {s : Uploading} {seen : List String},
    s.Inv api seen → (seen ++ minted acts).Nodup →
      (Run.Always (Uploading.step api) (Uploading.Atomic api) s acts ↔
        Run.Each (Uploading.step api) Uploading.Settles s acts) := by
  induction acts with
  | nil =>
    intro s seen h _
    exact ⟨fun _ => trivial, fun _ => h.atomic⟩
  | cons x acts ih =>
    obtain ⟨now, act⟩ := x
    intro s seen h hn
    have hminted : minted ((now, act) :: acts) = act.mints.toList ++ minted acts := by
      unfold minted
      cases hm : act.mints <;> simp [hm]
    rw [hminted, ← List.append_assoc] at hn
    have fresh : ∀ id, act.mints = some id → id ∉ seen := by
      intro id hid hin
      rw [hid] at hn
      exact (List.nodup_append.1 (List.Nodup.of_append_left hn)).2.2 id hin id List.mem_cons_self rfl
    constructor
    · rintro ⟨-, hrest⟩
      by_cases hs : s.Settles now act
      · exact ⟨hs, (ih (h.step fresh hs) hn).1 hrest⟩
      · exact absurd hrest.head (h.unsettled hs)
    · rintro ⟨hs, hrest⟩
      exact ⟨h.atomic, (ih (h.step fresh hs) hn).2 hrest⟩

/-- **Uploads are atomic** at every moment of a run exactly when each call that puts or deletes a blob settles: a put
that raises leaves nothing, and the blob deleted is the one no row names. -/
theorem uploads_atomic_iff (api : ArtifactApi) (acts : List (Instant × UploadAct)) (unique : (minted acts).Nodup) :
    Run.Always (Uploading.step api) (Uploading.Atomic api) Uploading.empty acts ↔
      Run.Each (Uploading.step api) Uploading.Settles Uploading.empty acts := by
  have hempty : Uploading.empty.Inv api [] := by
    refine ⟨?_, ?_, ?_, ?_, ?_, ?_⟩
    · intro a ha
      cases ha
    · intro i u hi
      cases hi
    · intro i u request hi
      cases hi
    · intro i j u v a b hi
      cases hi
    · intro key hkey
      cases hkey
    · rintro key ⟨a, ha, -⟩
      cases ha
  exact hempty.iff unique

/-! ## An upload made twice, and one whose commit's answer is lost -/

/-- The same bytes, in one chunk. -/
def smallRepeat : UploadRequest := { smallUpload with body := ⟨some 3, [[1, 2, 3]], false⟩, artifactId := "art_2" }

/-- The second is a repeat, and deletes its own blob. -/
def storedTwice : List (Instant × UploadAct) :=
  [(0, smallBegin), (1, .check 0 smallUpload), (1, .check 1 smallRepeat), (2, .store 0 .returned),
    (2, .store 1 .returned), (3, .record 0 .returned), (3, .record 1 .returned), (4, .undo 1 .returned)]

example : ((Run.after (Uploading.step smallArtifacts) .empty storedTwice).db.artifacts.rows.map (·.blobKey) = ["artifacts/art_1"]) ∧
    (Run.after (Uploading.step smallArtifacts) .empty storedTwice).blobs.rows.map (·.key) = ["artifacts/art_1"] := by
  decide +kernel

theorem storedTwice_atomic : Run.Always (Uploading.step smallArtifacts) (Uploading.Atomic smallArtifacts) .empty storedTwice := by
  refine (uploads_atomic_iff smallArtifacts storedTwice (by decide)).2
    ⟨trivial, trivial, trivial, ?_, ?_, trivial, trivial, ?_, trivial⟩
  · rintro _ _ - - ⟨⟩
  · rintro _ _ - - ⟨⟩
  · intro request answer hi
    have hunnamed : (((Run.after (Uploading.step smallArtifacts) .empty (storedTwice.take 7)).uploads 1).bind
        Upload.request?).all (fun request => !(Run.after (Uploading.step smallArtifacts) .empty
          (storedTwice.take 7)).db.artifacts.rows.any (·.blobKey = request.blobKey)) = true := by decide +kernel
    have hi : (Run.after (Uploading.step smallArtifacts) .empty (storedTwice.take 7)).uploads 1 =
      some (.undoing request answer) := hi
    rw [hi, Option.bind_some] at hunnamed
    refine ⟨fun _ => ?_, fun _ => rfl⟩
    rintro ⟨a, ha, hkey⟩
    simp only [Upload.request?, Option.all_some, Bool.not_eq_true', List.any_eq_false, decide_eq_true_eq] at hunnamed
    exact hunnamed a ha hkey

/-- The commit takes effect, and its answer is lost. -/
def lostAnswer : List (Instant × UploadAct) :=
  [(0, smallBegin), (1, .check 0 smallUpload), (2, .store 0 .returned),
    (3, .record 0 (.raised true)), (4, .undo 0 .returned)]

/-- The row is there, and its blob is not. -/
theorem lost_answer_loses_blob : ∃ a ∈ (Run.after (Uploading.step smallArtifacts) .empty lostAnswer).db.artifacts.rows,
    ¬a.Whole smallArtifacts (Run.after (Uploading.step smallArtifacts) .empty lostAnswer).blobs := by
  have hrows : (Run.after (Uploading.step smallArtifacts) .empty lostAnswer).db.artifacts.rows.length = 1 := by
    decide +kernel
  have hblobs : (Run.after (Uploading.step smallArtifacts) .empty lostAnswer).blobs.rows.length = 0 := by decide +kernel
  obtain ⟨a, ha⟩ := List.length_eq_one_iff.1 hrows
  refine ⟨a, ha ▸ List.mem_cons_self, ?_⟩
  rintro ⟨blob, hblob, -⟩
  have hmem := Table.mem_of_find? hblob
  rw [List.length_eq_zero_iff.1 hblobs] at hmem
  cases hmem

end AgentRuns
