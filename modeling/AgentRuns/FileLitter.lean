import AgentRuns.FileObjects

/-!
# The temporary files of the filesystem store

"The temporary file goes whatever happens": whatever the chunks raise and whichever calls fail, a name that `mkstemp`
made leads to a file only while a put that works on it is under way  (no_litter).

What does leave one behind is a process that dies, a power cut, a `_temporary` that raises after it made the file, and
a `_discard` that raises before it removed it.
-/

namespace AgentRuns

open Posix Timed ObjectStore

/-- What may leave a temporary file behind. -/
def FileAct.litters : FileAct → Bool
  | .temporary _ _ (.raised true) => true
  | .discard _ (.raised false) => true
  | .kill _ => true
  | .powerCut _ _ => true
  | _ => false

namespace FileBlobs

/-- The temporary files are those of puts under way. -/
def Tidy (s : FileBlobs) : Prop := ∀ t f, isTemporary t = true → s.disk.entries t = some (.file f) →
  ∃ (i : Nat) (p : Put), s.puts[i]? = some p ∧ p.temp = some (t, f) ∧ p.stage.underWay = true

variable {es : List (Event Nat BlobPath (List UInt8))} {s : FileBlobs} {i : Nat} {p p' : Put} {d' : Disk BlobPath}
  {t : BlobPath} {f : Nat}

/-- A step of put `i` after which the temporary files are its own and those there were, less the one it had if it ended. -/
theorem Tidy.set (h : Tidy s) (hp : s.puts[i]? = some p)
    (hfile : ∀ t f, isTemporary t = true → d'.entries t = some (.file f) →
      p'.temp = some (t, f) ∧ p'.stage.underWay = true ∨
        s.disk.entries t = some (.file f) ∧ (p.temp = some (t, f) → p.stage.underWay = false)) : Tidy (s.set i p' d') := by
  intro t f htmp hf
  rcases hfile t f htmp hf with ⟨ht, hway⟩ | ⟨hf, hown⟩
  · exact ⟨i, p', by rw [set_puts hp, if_pos rfl], ht, hway⟩
  · obtain ⟨j, q, hq, ht, hway⟩ := h t f htmp hf
    have hj : j ≠ i := by
      rintro rfl
      rw [hp] at hq
      cases hq
      rw [hown ht] at hway
      cases hway
    exact ⟨j, q, by rw [set_puts hp, if_neg hj, hq], ht, hway⟩

/-- The put goes on with its file. -/
theorem Tidy.goesOn (h : Tidy s) (hp : s.puts[i]? = some p) (htemp : p'.temp = p.temp) (hstage : p'.stage.underWay = true)
    (hentries : ∀ t, isTemporary t = true → d'.entries t = s.disk.entries t) : Tidy (s.set i p' d') := by
  refine h.set hp fun t f htmp hf => ?_
  rw [hentries t htmp] at hf
  by_cases ht : p.temp = some (t, f)
  · exact .inl ⟨htemp.trans ht, hstage⟩
  · exact .inr ⟨hf, fun h => absurd h ht⟩

theorem tidy_temporary (hi : Inv es s) (h : Tidy s) (hp : s.puts[i]? = some p) (hstage : p.stage = .opening)
    (drawn : List Char) (outcome : Outcome) (hc : outcome ≠ .raised true) : Tidy (s.temporary i p drawn outcome) := by
  have hfits := hi.fits i p hp
  unfold Put.Fits at hfits
  rw [hstage] at hfits
  have hfailed : Tidy (s.set i (p.fail Put.interrupted .ended) s.disk) := by
    refine h.set hp fun t f _ hf => .inr ⟨hf, fun ht => ?_⟩
    rw [hfits.2.2.1] at ht
    cases ht
  unfold temporary
  cases hdirs : s.disk.mkdirs (ancestors p.path) with
  | error => exact hfailed
  | ok disk =>
    cases outcome with
    | returned =>
      dsimp only
      cases hcreate : disk.create (temporaryBeside p.path drawn) with
      | error => exact h
      | ok made =>
        obtain ⟨disk', file⟩ := made
        obtain ⟨-, rfl, -, hentries, -⟩ := Disk.create_ok hcreate
        refine h.set hp fun t f _ hf => ?_
        rw [hentries] at hf
        by_cases ht : t = temporaryBeside p.path drawn
        · subst ht
          rw [Function.update_self] at hf
          cases hf
          exact .inl ⟨rfl, rfl⟩
        · rw [Function.update_of_ne ht, Disk.mkdirs_file hdirs] at hf
          exact .inr ⟨hf, fun _ => by rw [hstage]; rfl⟩
    | raised took =>
      cases took with
      | false => exact hfailed
      | true => exact absurd rfl hc

/-- The name of the temporary file goes with the put. -/
theorem tidy_discard (hi : Inv es s) (h : Tidy s) (hp : s.puts[i]? = some p) (hstage : p.stage = .discarding)
    (outcome : Outcome) (hc : outcome ≠ .raised false) : Tidy (s.discard i p outcome) := by
  cases ht : p.temp with
  | none =>
    unfold discard withTemp
    rw [ht]
    exact h
  | some temp =>
    obtain ⟨t, f⟩ := temp
    have hentry := (hi.temps i p t f hp ht).2.2 (by rw [hstage]; rfl)
    have hgone : ∀ p', Tidy (s.set i p' { s.disk with entries := Function.update s.disk.entries t none }) := by
      intro p'
      refine h.set hp fun u g _ hu => ?_
      have hu : Function.update s.disk.entries t none u = some (.file g) := hu
      have hne : u ≠ t := by
        rintro rfl
        rw [Function.update_self] at hu
        cases hu
      rw [Function.update_of_ne hne] at hu
      refine .inr ⟨hu, fun hown => ?_⟩
      rw [ht] at hown
      cases hown
      exact absurd rfl hne
    unfold discard
    rw [withTemp_of ht, Disk.unlink_eq hentry]
    cases outcome with
    | returned => exact hgone _
    | raised took =>
      cases took with
      | false => exact absurd rfl hc
      | true => exact hgone _

theorem tidy_link (hi : Inv es s) (h : Tidy s) (hp : s.puts[i]? = some p) (outcome : Outcome) : Tidy (s.link i p outcome) := by
  have hfailed : ∀ e, Tidy (s.set i (p.fail e .discarding) s.disk) := fun e => h.goesOn hp rfl rfl fun _ _ => rfl
  unfold link
  cases ht : p.temp with
  | none =>
    unfold withTemp
    rw [ht]
    exact h
  | some temp =>
    obtain ⟨t, f⟩ := temp
    rw [withTemp_of ht]
    cases hlink : s.disk.link t p.path with
    | error e =>
      cases outcome with
      | returned => cases e <;> exact hfailed _
      | raised took => cases took <;> exact hfailed _
    | ok disk =>
      -- the name it gives is no temporary one
      have hentries : ∀ u, isTemporary u = true → disk.entries u = s.disk.entries u := by
        intro u hu
        have hne : u ≠ p.path := by
          rintro rfl
          rw [hi.proper i p hp] at hu
          cases hu
        obtain ⟨g, rfl⟩ := Disk.link_ok hlink
        exact Function.update_of_ne hne ..
      cases outcome with
      | returned => exact h.goesOn hp ht.symm rfl hentries
      | raised took =>
        cases took with
        | false => exact hfailed _
        | true => exact h.goesOn hp rfl rfl hentries

theorem tidy_close (h : Tidy s) (hp : s.puts[i]? = some p) (outcome : Outcome) : Tidy (s.close i p outcome) := by
  unfold close withTemp
  split
  · exact h
  · cases outcome with
    | returned =>
      refine h.goesOn hp rfl ?_ fun _ _ => rfl
      dsimp only
      split <;> rfl
    | raised took => cases took <;> exact h.goesOn hp rfl rfl fun _ _ => rfl

theorem Tidy.on {stage : PutStage} {g : Put → FileBlobs} (h : Tidy s)
    (hg : ∀ p, s.puts[i]? = some p → p.stage = stage → Tidy (g p)) : Tidy (s.on i stage g) := by
  unfold FileBlobs.on
  cases hp : s.puts[i]? with
  | none => exact h
  | some p =>
    dsimp only
    split
    · next hstage => exact hg p hp hstage
    · exact h

theorem Tidy.begun (h : Tidy s) (p : Put) : Tidy { s with puts := s.puts ++ [p] } := by
  intro t f htmp hf
  obtain ⟨i, q, hq, hrest⟩ := h t f htmp hf
  exact ⟨i, q, getElem?_concat_of_some hq, hrest⟩

theorem tidy_step (hi : Inv es s) (h : Tidy s) (now : Instant) (act : FileAct) (hproper : act.Proper)
    (hc : act.litters = false) : Tidy (s.step now act) := by
  cases act with
  | begin key =>
    unfold step
    dsimp only
    split <;> exact h.begun _
  | temporary i drawn outcome =>
    refine h.on fun p hp hs => tidy_temporary hi h hp hs drawn outcome ?_
    rintro rfl
    cases hc
  | chunk i bytes outcome =>
    refine h.on fun p hp hs => ?_
    unfold chunk
    cases outcome with
    | returned => exact h.goesOn hp rfl (by rw [hs]; rfl) fun _ _ => rfl
    | raised => exact h.goesOn hp rfl rfl fun _ _ => rfl
  | spill i n =>
    refine h.on fun p hp hs => ?_
    unfold withTemp
    split
    · exact h
    · exact h.goesOn hp rfl (by rw [hs]; rfl) fun _ _ => rfl
  | ends i raises =>
    refine h.on fun p hp hs => ?_
    cases raises <;> exact h.goesOn hp rfl rfl fun _ _ => rfl
  | close i outcome => exact h.on fun p hp _ => tidy_close h hp outcome
  | link i outcome => exact h.on fun p hp _ => tidy_link hi h hp outcome
  | discard i outcome =>
    refine h.on fun p hp hs => tidy_discard hi h hp hs outcome ?_
    rintro rfl
    cases hc
  | read key outcome =>
    show Tidy (s.read key outcome)
    unfold read
    split
    · exact h
    · split <;> exact h
  | next j outcome =>
    show Tidy (s.next j outcome)
    unfold next
    split
    · exact h
    · dsimp only
      split
      · split
        · exact h
        · split <;> exact h
      · exact h
  | delete key outcome =>
    show Tidy (s.delete key outcome)
    unfold delete
    split
    · exact h
    · next path hpath =>
      split
      · intro t f htmp hf
        refine h t f htmp ?_
        rcases hd : s.disk.unlink path with e | disk
        · rw [hd] at hf
          exact hf
        · rw [hd] at hf
          obtain ⟨-, rfl⟩ := Disk.unlink_ok hd
          have hf : Function.update s.disk.entries path none t = some (.file f) := hf
          have hne : t ≠ path := by
            rintro rfl
            rw [Function.update_self] at hf
            cases hf
          rwa [Function.update_of_ne hne] at hf
      · exact h
  | kill => cases hc
  | powerCut => cases hc

theorem tidy_run (l : List (Instant × FileAct)) (h : ∀ x ∈ l, x.2.Proper ∧ x.2.litters = false) :
    Tidy (Run.after step empty l) := by
  have hstep : ∀ s now act, (∃ es, Inv es s) ∧ Tidy s → FileAct.Proper act ∧ act.litters = false →
      (∃ es, Inv es (s.step now act)) ∧ Tidy (s.step now act) := by
    rintro s now act ⟨⟨es, hi⟩, ht⟩ ⟨hproper, hc⟩
    exact ⟨⟨_, (keeps_step hi now act hproper).2⟩, tidy_step hi ht now act hproper hc⟩
  have htidy : Tidy empty := by
    intro t f _ hf
    cases hf
  exact (Run.after_kept hstep l ⟨⟨[], inv_empty⟩, htidy⟩ h).2

/-- **No litter.**  Unless a process dies, the power goes, or `_temporary` or `_discard` itself fails, no temporary file is
left once every put has come to its end, whatever else went wrong on the way. -/
theorem no_litter (l : List (Instant × FileAct)) (h : ∀ x ∈ l, x.2.Proper ∧ x.2.litters = false)
    (hended : ∀ p ∈ (Run.after step empty l).puts, p.stage = .ended) (t : BlobPath) (htmp : isTemporary t = true) (f : Nat) :
    (Run.after step empty l).disk.entries t ≠ some (.file f) := by
  intro hf
  obtain ⟨i, p, hp, -, hway⟩ := tidy_run l h t f htmp hf
  rw [hended p (List.mem_of_getElem? hp)] at hway
  cases hway

/-- A put whose link finds the key taken. -/
def sampleClash : List (Instant × FileAct) :=
  [.begin "a", .temporary 0 "x".toList .returned, .ends 0 none, .close 0 .returned, .link 0 .returned, .discard 0 .returned,
    .begin "a", .temporary 1 "x".toList .returned, .chunk 1 [1] .returned, .ends 1 none, .close 1 .returned, .link 1 .returned,
    .discard 1 .returned].map fun act => (0, act)

theorem no_litter_clash :
    (Run.after step empty sampleClash).disk.entries (temporaryBeside ["a".toList] "x".toList) ≠ some (.file 1) :=
  no_litter sampleClash (by decide +kernel) (by decide +kernel) (temporaryBeside ["a".toList] "x".toList)
    (isTemporary_beside ["a".toList] "x".toList) 1

end FileBlobs

end AgentRuns
