import AgentRuns.Sha256

/-!
# The verified read of an artifact's bytes

`read` of `blob/port.py`: the store's chunks pass through as they come, the last one that is not empty held back
until the whole object is hashed.

    (∀ key, the reader keeps its word) ↔ intact ∨ what comes before the last chunk is short of the size    (reads_truly_iff)

An object that grew past its recorded size can come in chunks of which all but the last already make up the size
(`not_reads_truly`).
-/

namespace AgentRuns

open Sha256

/-! ## The reader -/

/-- What the blob store's calls raise. -/
inductive BlobError where
  | notFound (key : String)
  | corrupt (text : String)
  deriving DecidableEq, Repr

/-- What came out of a reader: the chunks it yielded, and what it raised after them, if it did not end normally. -/
structure Download where
  yielded : List (List UInt8)
  raised : Option BlobError
  deriving DecidableEq, Repr

namespace Download

def bytes (d : Download) : List UInt8 := d.yielded.flatten

/-- What comes out after a chunk, if there is one. -/
def after (held : Option (List UInt8)) (d : Download) : Download := { d with yielded := held.toList ++ d.yielded }

/-- A caller that was told `size` bytes takes what it got for the whole. -/
def Complete (size : Nat) (d : Download) : Prop := size ≤ d.bytes.length

@[simp] theorem bytes_after (held : Option (List UInt8)) (d : Download) :
    (d.after held).bytes = held.toList.flatten ++ d.bytes := by
  simp [bytes, after]

@[simp] theorem raised_after (held : Option (List UInt8)) (d : Download) : (d.after held).raised = d.raised := rfl

end Download

/-- What the database recorded of an artifact's bytes. -/
structure BlobRecord where
  sha256 : List Nat
  size : Nat
  deriving DecidableEq, Repr

namespace BlobRecord

/-- The record of some bytes. -/
def of (data : List UInt8) : BlobRecord := ⟨hex (Sha256.sha256 data), data.length⟩

/-- The bytes a store has under a key are the ones recorded, as far as their number and digest tell. -/
def Intact (record : BlobRecord) (data : List UInt8) : Prop :=
  data.length = record.size ∧ hex (Sha256.sha256 data) = record.sha256

instance (record : BlobRecord) (data : List UInt8) : Decidable (record.Intact data) :=
  inferInstanceAs (Decidable (_ ∧ _))

/-- `str` of a digest. -/
def digits (digest : List Nat) : String := String.ofList (digest.map Char.ofNat)

def corrupt (record : BlobRecord) (key : String) (seen : Nat) (hashed : List UInt8) : BlobError :=
  let hexdigest := digits (hex (Sha256.sha256 hashed))
  let size := record.size
  .corrupt s!"{key}: {seen} bytes, sha256 {hexdigest}; expected {size}"

/-- The loop of `read`, from where `hashed` went into the digest, `seen` bytes, and `held` is not yielded yet. -/
def reading (record : BlobRecord) (key : String) (raises : Option BlobError) (hashed : List UInt8) (seen : Nat)
    (held : Option (List UInt8)) : List (List UInt8) → Download
  | [] =>
    match raises with
    | some error => ⟨[], some error⟩
    | none =>
      if seen ≠ record.size ∨ hex (Sha256.sha256 hashed) ≠ record.sha256 then
        ⟨[], some (record.corrupt key seen hashed)⟩
      else ⟨held.toList, none⟩
  | chunk :: chunks =>
    if chunk = [] then reading record key raises hashed seen held chunks
    else (reading record key raises (hashed ++ chunk) (seen + chunk.length) (some chunk) chunks).after held

/-- `read`, of a store whose `chunks` yields these and then raises that, if anything. -/
def read (record : BlobRecord) (key : String) (chunks : List (List UInt8)) (raises : Option BlobError) : Download :=
  record.reading key raises [] 0 none chunks

/-! ## What comes out of it -/

/-- The chunks that are not empty. -/
def filled (chunks : List (List UInt8)) : List (List UInt8) := chunks.filter (· ≠ [])

@[simp] theorem filled_nil_cons (chunks : List (List UInt8)) : filled ([] :: chunks) = filled chunks := by
  simp [filled]

theorem filled_cons {chunk : List UInt8} (h : chunk ≠ []) (chunks : List (List UInt8)) :
    filled (chunk :: chunks) = chunk :: filled chunks := by
  simp [filled, h]

theorem flatten_filled (chunks : List (List UInt8)) : (filled chunks).flatten = chunks.flatten := by
  induction chunks with
  | nil => rfl
  | cons chunk chunks ih =>
    by_cases h : chunk = []
    · subst h
      simpa using ih
    · rw [filled_cons h, List.flatten_cons, List.flatten_cons, ih]

/-- How a read of these bytes ends. -/
def ending (record : BlobRecord) (key : String) (raises : Option BlobError) (data : List UInt8) : Option BlobError :=
  match raises with
  | some error => some error
  | none => if record.Intact data then none else some (record.corrupt key data.length data)

/-- All of these chunks, or all but the last when there is something to raise. -/
def letThrough (chunks : List (List UInt8)) : Option BlobError → Download
  | none => ⟨chunks, none⟩
  | some error => ⟨chunks.dropLast, some error⟩

theorem letThrough_cons (held : Option (List UInt8)) (chunk : List UInt8) (chunks : List (List UInt8))
    (raised : Option BlobError) :
    (letThrough (chunk :: chunks) raised).after held = letThrough (held.toList ++ chunk :: chunks) raised := by
  cases raised with
  | none => rfl
  | some error => simp [letThrough, Download.after, List.dropLast_append_of_ne_nil]

/-- What the loop does, from any point of it. -/
theorem reading_eq (record : BlobRecord) (key : String) (raises : Option BlobError) (chunks : List (List UInt8)) :
    ∀ (hashed : List UInt8) (held : Option (List UInt8)),
      record.reading key raises hashed hashed.length held chunks =
        letThrough (held.toList ++ filled chunks) (record.ending key raises (hashed ++ chunks.flatten)) := by
  induction chunks with
  | nil =>
    intro hashed held
    have hall : held.toList ++ filled [] = held.toList := by simp [filled]
    rw [hall, List.flatten_nil, List.append_nil]
    have hlast : held.toList.dropLast = [] := by cases held <;> rfl
    cases raises with
    | some error => simp [reading, ending, letThrough, hlast]
    | none =>
      simp only [reading, ending]
      by_cases h : record.Intact hashed
      · rw [if_pos h, if_neg (by rw [not_or, not_not, not_not]; exact h)]
        rfl
      · rw [if_neg h, if_pos (by by_contra hn; rw [not_or, not_not, not_not] at hn; exact h hn)]
        simp [letThrough, hlast]
  | cons chunk chunks ih =>
    intro hashed held
    unfold reading
    by_cases h : chunk = []
    · subst h
      rw [if_pos rfl, ih, filled_nil_cons]
      rfl
    · have hlen : hashed.length + chunk.length = (hashed ++ chunk).length := List.length_append.symm
      rw [if_neg h, hlen, ih, filled_cons h, List.flatten_cons, ← List.append_assoc]
      exact letThrough_cons held chunk (filled chunks) _

theorem read_eq (record : BlobRecord) (key : String) (chunks : List (List UInt8)) (raises : Option BlobError) :
    record.read key chunks raises = letThrough (filled chunks) (record.ending key raises chunks.flatten) :=
  record.reading_eq key raises chunks [] none

/-- What a caller may have of an object before the last chunk is let go. -/
def leading (chunks : List (List UInt8)) : List UInt8 := (filled chunks).dropLast.flatten

theorem bytes_of_intact {record : BlobRecord} {chunks : List (List UInt8)} (key : String)
    (h : record.Intact chunks.flatten) :
    (record.read key chunks none).bytes = chunks.flatten ∧ (record.read key chunks none).raised = none := by
  have hend : record.ending key none chunks.flatten = none := if_pos h
  rw [read_eq, hend]
  exact ⟨flatten_filled chunks, rfl⟩

theorem read_of_not_intact {record : BlobRecord} {chunks : List (List UInt8)} (key : String)
    (h : ¬ record.Intact chunks.flatten) :
    (record.read key chunks none).bytes = leading chunks ∧
      (record.read key chunks none).raised = some (record.corrupt key chunks.flatten.length chunks.flatten) := by
  have hend : record.ending key none chunks.flatten = some _ := if_neg h
  rw [read_eq, hend]
  exact ⟨rfl, rfl⟩

/-- A store that gives up on the way is not taken for one that ended. -/
theorem read_of_raises (record : BlobRecord) (key : String) (chunks : List (List UInt8)) (error : BlobError) :
    (record.read key chunks (some error)).bytes = leading chunks ∧
      (record.read key chunks (some error)).raised = some error := by
  rw [read_eq]
  exact ⟨rfl, rfl⟩

theorem leading_lt {chunks : List (List UInt8)} (h : chunks.flatten ≠ []) :
    (leading chunks).length < chunks.flatten.length := by
  have hne : filled chunks ≠ [] := by
    intro hnil
    rw [← flatten_filled, hnil] at h
    exact h rfl
  have hlast : (filled chunks).getLast hne ≠ [] := by
    have hmem := List.getLast_mem hne
    simpa using (List.mem_filter.1 hmem).2
  have hall : chunks.flatten = leading chunks ++ (filled chunks).getLast hne := by
    have hlen : [(filled chunks).getLast hne].flatten = (filled chunks).getLast hne := by simp
    rw [leading, ← hlen, ← List.flatten_append, List.dropLast_append_getLast, flatten_filled]
  have hpos := List.length_pos_of_ne_nil hlast
  rw [hall, List.length_append]
  omega

/-- Bytes that did not grow are let go in time to stop the last of them. -/
theorem leading_lt_size {record : BlobRecord} {chunks : List (List UInt8)} (hpos : 0 < record.size)
    (h : chunks.flatten.length ≤ record.size) : (leading chunks).length < record.size := by
  by_cases hnil : chunks.flatten = []
  · have hle : (leading chunks).length = 0 := by
      have hf : filled chunks = [] := by
        rw [filled, List.filter_eq_nil_iff]
        intro chunk hc
        simpa using List.flatten_eq_nil_iff.1 hnil chunk hc
      rw [leading, hf]
      rfl
    omega
  · have := leading_lt hnil
    omega

/-! ## What it promises -/

/-- The word `read` gives of an object that its store has in these chunks. -/
structure ReadsTruly (record : BlobRecord) (key : String) (chunks : List (List UInt8)) : Prop where
  /-- all of the bytes and a normal end, for what matches the record alone -/
  whole : (record.read key chunks none).bytes = chunks.flatten ∧ (record.read key chunks none).raised = none ↔
    record.Intact chunks.flatten
  /-- else the bytes stop short of the recorded size -/
  short : ¬ record.Intact chunks.flatten →
    (∃ text, (record.read key chunks none).raised = some (.corrupt text)) ∧
      (record.read key chunks none).bytes.length < record.size
  /-- so that other bytes than the recorded ones are never complete, where their digest is another one too -/
  never : ∀ original, record = .of original →
    (Sha256.sha256 chunks.flatten = Sha256.sha256 original → chunks.flatten = original) → chunks.flatten ≠ original →
      (∃ text, (record.read key chunks none).raised = some (.corrupt text)) ∧
        ¬ (record.read key chunks none).Complete record.size

theorem reads_truly_iff (record : BlobRecord) (key : String) (chunks : List (List UInt8)) :
    record.ReadsTruly key chunks ↔ record.Intact chunks.flatten ∨ (leading chunks).length < record.size := by
  constructor
  · intro h
    by_cases hi : record.Intact chunks.flatten
    · exact .inl hi
    · have hshort := (h.short hi).2
      rw [(read_of_not_intact key hi).1] at hshort
      exact .inr hshort
  · intro h
    have hshort : ¬ record.Intact chunks.flatten →
        (∃ text, (record.read key chunks none).raised = some (.corrupt text)) ∧
          (record.read key chunks none).bytes.length < record.size := by
      intro hi
      have hread := read_of_not_intact key hi
      refine ⟨⟨_, hread.2⟩, ?_⟩
      rw [hread.1]
      exact h.resolve_left hi
    refine ⟨⟨fun hw => ?_, bytes_of_intact key⟩, hshort, fun original ho hfree hne => ?_⟩
    · by_contra hi
      rw [(read_of_not_intact key hi).2] at hw
      cases hw.2
    · have hi : ¬ record.Intact chunks.flatten := by
        intro hi
        subst ho
        exact hne (hfree (hex_inj hi.2))
      exact ⟨(hshort hi).1, Nat.not_le.2 (hshort hi).2⟩

/-- Two bytes recorded, a third one there now, in a chunk of its own. -/
theorem not_reads_truly : ¬ (BlobRecord.of [1, 2]).ReadsTruly "artifacts/a" [[1, 2], [3]] := by
  intro h
  have hi : ¬ (BlobRecord.of [1, 2]).Intact [1, 2, 3] := fun hi => absurd hi.1 (by decide)
  exact absurd (h.short hi).2 (by
    rw [(read_of_not_intact "artifacts/a" hi).1]
    decide)

end BlobRecord

end AgentRuns
