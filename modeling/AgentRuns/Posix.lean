import Mathlib.Data.List.Basic
import Mathlib.Logic.Function.Basic

/-!
# A POSIX file system

Names `ν` lead to directories and files, several names to one file; a file goes on under its number when no name leads
to it any more.  `create` is `open(O_CREAT | O_EXCL)`.

A power cut (`cut`) keeps the bytes of the files that were synced, and of the other files nothing that can be told.  No
directory is ever synced here, so a name may be lost in it, and may lead to any file it was ever given.

    a file that was synced stays as it is while only loose ones are written to     (Sealed.write, Sealed.cut)
-/

namespace Posix

/-- A file: its bytes, and are they all on the device? -/
structure Inode where
  bytes : List UInt8
  synced : Bool
deriving DecidableEq

inductive Entry where
  | directory
  | file (inode : Nat)
deriving DecidableEq

inductive Errno where
  | ENOENT | EEXIST | ENOTDIR | EISDIR | EPERM
deriving DecidableEq

structure Disk (ν : Type) where
  entries : ν → Option Entry
  inodes : List Inode
  /-- the files each name was ever given -/
  given : List (ν × Nat)

namespace Disk

variable {ν : Type} [DecidableEq ν]

def empty : Disk ν := ⟨fun _ => none, [], []⟩

/-! ## System calls -/

/-- The name leads to a file now. -/
def give (d : Disk ν) (name : ν) (i : Nat) : Disk ν :=
  { d with entries := Function.update d.entries name (some (.file i)), given := (name, i) :: d.given }

/-- `mkdir -p` of these directories, the outermost first. -/
def mkdirs (d : Disk ν) : List ν → Except Errno (Disk ν)
  | [] => .ok d
  | name :: names =>
    match d.entries name with
    | none => mkdirs { d with entries := Function.update d.entries name (some .directory) } names
    | some .directory => d.mkdirs names
    | some (.file _) => .error .ENOTDIR

def create (d : Disk ν) (name : ν) : Except Errno (Disk ν × Nat) :=
  if (d.entries name).isSome then .error .EEXIST
  else .ok (({ d with inodes := d.inodes ++ [⟨[], false⟩] } : Disk ν).give name d.inodes.length, d.inodes.length)

def write (d : Disk ν) (i : Nat) (bytes : List UInt8) : Disk ν :=
  { d with inodes := d.inodes.modify i fun f => ⟨f.bytes ++ bytes, false⟩ }

def fsync (d : Disk ν) (i : Nat) : Disk ν := { d with inodes := d.inodes.modify i fun f => { f with synced := true } }

def link (d : Disk ν) (old new : ν) : Except Errno (Disk ν) :=
  match d.entries old with
  | none => .error .ENOENT
  | some .directory => .error .EPERM
  | some (.file i) => if (d.entries new).isSome then .error .EEXIST else .ok (d.give new i)

def unlink (d : Disk ν) (name : ν) : Except Errno (Disk ν) :=
  match d.entries name with
  | none => .error .ENOENT
  | some .directory => .error .EISDIR
  | some (.file _) => .ok { d with entries := Function.update d.entries name none }

def openFile (d : Disk ν) (name : ν) : Except Errno Nat :=
  match d.entries name with
  | none => .error .ENOENT
  | some .directory => .error .EISDIR
  | some (.file i) => .ok i

/-- `pread` -/
def read (d : Disk ν) (i offset n : Nat) : List UInt8 :=
  match d.inodes[i]? with
  | none => []
  | some f => (f.bytes.drop offset).take n

/-- May an entry be found after a power cut? -/
def survives (d : Disk ν) (name : ν) : Entry → Bool
  | .directory => d.entries name = some .directory
  | .file i => (name, i) ∈ d.given

/-- The power goes: `kept` of the entries are found again, `torn` in the files that were not synced. -/
def cut (d : Disk ν) (kept : ν → Option Entry) (torn : Nat → List UInt8) : Disk ν where
  entries name := (kept name).filter (d.survives name)
  inodes := d.inodes.mapIdx fun i f => if f.synced then f else ⟨torn i, false⟩
  given := d.given

/-! ## What they leave as it is -/

variable {d d' : Disk ν} {name old new : ν} {i j : Nat} {bytes : List UInt8}

@[simp] theorem give_inodes (d : Disk ν) (name : ν) (i : Nat) : (d.give name i).inodes = d.inodes := rfl

theorem mkdirs_ok : ∀ {names : List ν} {d d' : Disk ν}, d.mkdirs names = .ok d' →
    d'.inodes = d.inodes ∧ d'.given = d.given ∧
      (∀ name, d'.entries name = d.entries name ∨ d.entries name = none ∧ d'.entries name = some .directory)
  | [], d, d', h => by
    cases h
    exact ⟨rfl, rfl, fun _ => .inl rfl⟩
  | n :: names, d, d', h => by
    unfold mkdirs at h
    split at h
    · next hnone =>
      obtain ⟨hinodes, hgiven, hentries⟩ := mkdirs_ok h
      refine ⟨hinodes, hgiven, fun name => ?_⟩
      have hentry : d'.entries name = Function.update d.entries n (some .directory) name ∨
        Function.update d.entries n (some .directory) name = none ∧ d'.entries name = some .directory := hentries name
      by_cases hn : name = n
      · subst hn
        rw [Function.update_self] at hentry
        rcases hentry with he | ⟨he, -⟩
        · exact .inr ⟨hnone, he⟩
        · cases he
      · rw [Function.update_of_ne hn] at hentry
        exact hentry
    · exact mkdirs_ok h
    · cases h

/-- Making directories leads no name to a file, and none away from one. -/
theorem mkdirs_file {names : List ν} (h : d.mkdirs names = .ok d') (name : ν) (i : Nat) :
    d'.entries name = some (.file i) ↔ d.entries name = some (.file i) := by
  rcases (mkdirs_ok h).2.2 name with he | ⟨hnone, hdir⟩
  · rw [he]
  · rw [hnone, hdir]
    simp

theorem create_ok (h : d.create name = .ok (d', i)) :
    d.entries name = none ∧ i = d.inodes.length ∧ d'.inodes = d.inodes ++ [⟨[], false⟩] ∧
      d'.entries = Function.update d.entries name (some (.file i)) ∧ d'.given = (name, i) :: d.given := by
  unfold create at h
  split at h
  · cases h
  · next hnone =>
    cases h
    exact ⟨Option.not_isSome_iff_eq_none.1 hnone, rfl, rfl, rfl, rfl⟩

theorem link_eq (h : d.entries old = some (.file i)) (new : ν) :
    d.link old new = if (d.entries new).isSome then .error .EEXIST else .ok (d.give new i) := by
  unfold link
  rw [h]

theorem link_ok (h : d.link old new = .ok d') : ∃ i, d' = d.give new i := by
  unfold link at h
  split at h
  · cases h
  · cases h
  · next i _ =>
    split at h
    · cases h
    · cases h
      exact ⟨i, rfl⟩

theorem unlink_eq (h : d.entries name = some (.file i)) :
    d.unlink name = .ok { d with entries := Function.update d.entries name none } := by
  unfold unlink
  rw [h]

theorem unlink_ok (h : d.unlink name = .ok d') :
    (∃ i, d.entries name = some (.file i)) ∧ d' = { d with entries := Function.update d.entries name none } := by
  unfold unlink at h
  split at h
  · cases h
  · cases h
  · next i hi =>
    cases h
    exact ⟨⟨i, hi⟩, rfl⟩

omit [DecidableEq ν] in
theorem openFile_ok (h : d.openFile name = .ok i) : d.entries name = some (.file i) := by
  unfold openFile at h
  split at h
  · cases h
  · cases h
  · next j hj =>
    cases h
    exact hj

/-! ## Sealed files -/

/-- The file has these bytes, all of them on the device. -/
def Sealed (d : Disk ν) (i : Nat) (bytes : List UInt8) : Prop := d.inodes[i]? = some ⟨bytes, true⟩

/-- The file has these bytes, and a power cut may take them. -/
def Loose (d : Disk ν) (i : Nat) (bytes : List UInt8) : Prop := d.inodes[i]? = some ⟨bytes, false⟩

section
omit [DecidableEq ν]
variable {bytes' : List UInt8}

theorem Sealed.lt (h : d.Sealed i bytes) : i < d.inodes.length := (List.getElem?_eq_some_iff.1 h).1

theorem Loose.lt (h : d.Loose i bytes) : i < d.inodes.length := (List.getElem?_eq_some_iff.1 h).1

theorem Sealed.unique (h : d.Sealed i bytes) (h' : d.Sealed i bytes') : bytes = bytes' := by
  rw [Sealed, h] at h'
  exact congrArg Inode.bytes (Option.some.inj h')

theorem Sealed.ne (h : d.Sealed i bytes) (h' : d.Loose j bytes') : i ≠ j := by
  rintro rfl
  rw [Loose, h] at h'
  cases h'

theorem Loose.write (h : d.Loose i bytes) (more : List UInt8) : (d.write i more).Loose i (bytes ++ more) := by
  unfold Loose at h
  simp [Loose, Disk.write, h]

theorem Loose.fsync (h : d.Loose i bytes) : (d.fsync i).Sealed i bytes := by
  unfold Loose at h
  simp [Sealed, Disk.fsync, h]

theorem Loose.write_of_ne (h : d.Loose i bytes) (hne : i ≠ j) (more : List UInt8) : (d.write j more).Loose i bytes := by
  unfold Loose at h
  simp [Loose, Disk.write, h, hne.symm]

theorem Loose.fsync_of_ne (h : d.Loose i bytes) (hne : i ≠ j) : (d.fsync j).Loose i bytes := by
  unfold Loose at h
  simp [Loose, Disk.fsync, h, hne.symm]

/-- Whatever is written to a loose file, a sealed one stays as it is. -/
theorem Sealed.write (h : d.Sealed i bytes) (hj : d.Loose j bytes') (more : List UInt8) : (d.write j more).Sealed i bytes := by
  have hne := (h.ne hj).symm
  unfold Sealed at h
  simp [Sealed, Disk.write, h, hne]

theorem Sealed.fsync (h : d.Sealed i bytes) (j : Nat) : (d.fsync j).Sealed i bytes := by
  unfold Sealed at h
  by_cases hj : j = i
  · subst hj
    simp [Sealed, Disk.fsync, h]
  · simp [Sealed, Disk.fsync, h, hj]

/-- A sealed file outlives a power cut. -/
theorem Sealed.inodes_mapIdx (h : d.Sealed i bytes) (torn : Nat → List UInt8) :
    (d.inodes.mapIdx fun i f => if f.synced then f else ⟨torn i, false⟩)[i]? = some ⟨bytes, true⟩ := by
  rw [List.getElem?_mapIdx, h]
  rfl

theorem length_write (d : Disk ν) (i : Nat) (bytes : List UInt8) : (d.write i bytes).inodes.length = d.inodes.length :=
  List.length_modify ..

theorem length_fsync (d : Disk ν) (i : Nat) : (d.fsync i).inodes.length = d.inodes.length := List.length_modify ..

theorem read_of_sealed (h : d.Sealed i bytes) (offset n : Nat) : d.read i offset n = (bytes.drop offset).take n := by
  unfold read
  rw [h]

end

theorem Sealed.cut (h : d.Sealed i bytes) (kept : ν → Option Entry) (torn : Nat → List UInt8) :
    (d.cut kept torn).Sealed i bytes := h.inodes_mapIdx torn

/-- What is found after a power cut was there once. -/
theorem cut_file {kept : ν → Option Entry} {torn : Nat → List UInt8} (h : (d.cut kept torn).entries name = some (.file i)) :
    (name, i) ∈ d.given := by
  obtain ⟨-, hs⟩ := Option.filter_eq_some_iff.1 h
  simpa [survives] using hs

end Disk

end Posix
