import AgentRuns.CloudBlobs
import AgentRuns.FileObjects

/-!
# What the cloud store keeps

Whatever puts, reads and deletes go on at once, whatever requests and answers are lost and whoever gives up or is
cancelled on the way, the events of a run are those of a store of objects that are written once, and the answers are what
they say of it (cloud_store_linearizable).  A put whose own request took effect unheard may be told `BlobExists`.
-/

namespace AgentRuns

open Timed ObjectStore

namespace CloudBlobs

/-- What happens to the objects of a bucket. -/
abbrev Happened := List (Event Op String (List UInt8))

end CloudBlobs

open CloudBlobs (Happened)

/-! ## The invariant -/

/-- What a put answers is what happened. -/
structure CloudPut.Fits (es : Happened) (i : Nat) (p : CloudPut) : Prop where
  uploaded : p.uploaded = true → p.stage ≠ .spooling ∧ .created (.put i) p.key p.spool ∈ es
  waiting : p.stage = .spooling ∨ p.stage = .uploading → p.answer = none
  returned : ∀ blob : StoredBlob, p.answer = some (.ok blob) →
    p.stage = .ended ∧ p.uploaded = true ∧ blob = ⟨p.key, hexdigest p.spool, p.spool.length⟩
  raised : ∀ key : String, p.answer = some (.error (.blobExists key)) →
    key = p.key ∧ ∃ bytes, .found (.put i) key (some bytes) ∈ es

/-- A reader found none, or failed at once. -/
structure CloudReader.Empty (es : Happened) (j : Nat) (r : CloudReader) : Prop where
  yielded : r.yielded = []
  raised : r.raised.isSome = true
  finished : r.finished = true
  missing : (∃ key, r.raised = some (.blobNotFound key)) → .found (.reader j) r.key none ∈ es

/-- A reader is pinned to the object it found: it yields the bytes of that one until they end or the object is gone. -/
structure CloudReader.Pinned (bucket : Bucket) (es : Happened) (j : Nat) (r : CloudReader) (bytes : List UInt8) : Prop where
  found : .found (.reader j) r.key (some bytes) ∈ es
  size : r.size = bytes.length
  generation : r.generation < bucket.next
  yielded : r.yielded.flatten = bytes.take r.start
  reading : r.finished = false → r.raised = none
  ended : r.finished = true → r.raised = none → bytes.length ≤ r.start
  same : ∀ o, bucket.live r.key = some o → o.generation = r.generation → o.bytes = bytes
  here : (∃ o, bucket.live r.key = some o ∧ o.generation = r.generation) ∨ .removed r.key ∈ es
  missing : (∃ key, r.raised = some (.blobNotFound key)) → .removed r.key ∈ es

namespace CloudBlobs

/-- What is so after the events `es`. -/
structure Inv (es : Happened) (s : CloudBlobs) : Prop where
  generations : ∀ (key : String) (o : CloudObject), s.bucket.live key = some o → o.generation < s.bucket.next
  live : ∀ (key : String) (o : CloudObject), s.bucket.live key = some o → o.bytes ∈ s.view.former key
  puts : ∀ (i : Nat) (p : CloudPut), s.puts[i]? = some p → p.Fits es i
  readers : ∀ (j : Nat) (r : CloudReader), s.readers[j]? = some r → r.Empty es j ∨ ∃ bytes, r.Pinned s.bucket es j bytes

/-- What a step is to do: it is seen as what it shows, and keeps the invariant. -/
def Keeps (es new : Happened) (s s' : CloudBlobs) : Prop := Legal s.view new s'.view ∧ Inv (es ++ new) s'

variable {es new : Happened} {s s' : CloudBlobs} {i j : Nat} {p p' : CloudPut} {bucket bucket' : Bucket} {r : CloudReader}
  {key : String} {bytes : List UInt8}

theorem inv_empty : Inv [] empty where
  generations := fun _ _ h => by cases h
  live := fun _ _ h => by cases h
  puts := fun _ _ h => by cases h
  readers := fun _ _ h => by cases h

theorem Inv.same (hi : Inv es s) : Keeps es [] s s := by
  refine ⟨.nil _, ?_⟩
  rw [List.append_nil]
  exact hi

end CloudBlobs

open CloudBlobs in
theorem CloudPut.Fits.mono {es : Happened} {i : Nat} {p : CloudPut} (h : p.Fits es i) (new : Happened) : p.Fits (es ++ new) i where
  uploaded hu := (h.uploaded hu).imp_right (List.mem_append_left _)
  waiting := h.waiting
  returned := h.returned
  raised key hr := (h.raised key hr).imp_right fun ⟨bytes, hb⟩ => ⟨bytes, List.mem_append_left _ hb⟩

/-- A bucket goes on: fresh objects have fresh generations, and none goes unseen. -/
structure Bucket.Goes (new : Happened) (b b' : Bucket) : Prop where
  next : b.next ≤ b'.next
  fresh : ∀ key o, b'.live key = some o → b.live key = some o ∨ o.generation = b.next
  gone : ∀ key o, b.live key = some o → b'.live key = some o ∨ .removed key ∈ new

theorem Bucket.Goes.refl (new : Happened) (b : Bucket) : Bucket.Goes new b b :=
  ⟨le_rfl, fun _ _ h => .inl h, fun _ _ h => .inl h⟩

/-- A reader stays with the object it found. -/
theorem CloudReader.Pinned.mono {bucket bucket' : Bucket} {es new : Happened} {j : Nat} {r : CloudReader} {bytes : List UInt8}
    (h : r.Pinned bucket es j bytes) (hb : Bucket.Goes new bucket bucket') : r.Pinned bucket' (es ++ new) j bytes where
  found := List.mem_append_left _ h.found
  size := h.size
  generation := h.generation.trans_le hb.next
  yielded := h.yielded
  reading := h.reading
  ended := h.ended
  same o ho hg := by
    rcases hb.fresh r.key o ho with ho | hnew
    · exact h.same o ho hg
    · exact absurd h.generation (by rw [← hg, hnew]; exact lt_irrefl _)
  here := by
    rcases h.here with ⟨o, ho, hg⟩ | hgone
    · rcases hb.gone r.key o ho with ho | hgone
      · exact .inl ⟨o, ho, hg⟩
      · exact .inr (List.mem_append_right _ hgone)
    · exact .inr (List.mem_append_left _ hgone)
  missing hm := List.mem_append_left _ (h.missing hm)

theorem CloudReader.Empty.mono {es : Happened} {j : Nat} {r : CloudReader} (h : r.Empty es j) (new : Happened) :
    r.Empty (es ++ new) j where
  yielded := h.yielded
  raised := h.raised
  finished := h.finished
  missing hm := List.mem_append_left _ (h.missing hm)

namespace CloudBlobs

variable {es new : Happened} {s s' : CloudBlobs} {i j : Nat} {p p' : CloudPut} {bucket bucket' : Bucket} {r : CloudReader}
  {key : String} {bytes : List UInt8}

theorem Inv.readers_mono (hi : Inv es s) (hb : Bucket.Goes new s.bucket bucket') (j : Nat) (r : CloudReader)
    (hr : s.readers[j]? = some r) : r.Empty (es ++ new) j ∨ ∃ bytes, r.Pinned bucket' (es ++ new) j bytes := by
  rcases hi.readers j r hr with hempty | ⟨bytes, hpinned⟩
  · exact .inl (hempty.mono new)
  · exact .inr ⟨bytes, hpinned.mono hb⟩

/-! ## Puts -/

theorem set_puts (hp : s.puts[i]? = some p) (j : Nat) :
    (s.set i p' bucket').puts[j]? = if j = i then some p' else s.puts[j]? := by
  obtain ⟨hlt, -⟩ := List.getElem?_eq_some_iff.1 hp
  show (s.puts.set i p')[j]? = _
  rw [List.getElem?_set]
  by_cases hj : i = j
  · rw [if_pos hj, if_pos (hj ▸ hlt), if_pos hj.symm]
  · rw [if_neg hj, if_neg (Ne.symm hj)]

/-- What was ever under a key, after a step of one put. -/
theorem former_set (hp : s.puts[i]? = some p) (hkey : p'.key = p.key) (hup : p'.uploaded = p.uploaded)
    (hspool : p.uploaded = true → p'.spool = p.spool) : (s.set i p' bucket').view.former = s.view.former := by
  funext key
  refine Set.ext fun bytes => ⟨?_, ?_⟩
  · rintro ⟨j, q, hq, hqkey, hu, hb⟩
    rw [set_puts hp] at hq
    split at hq
    · cases hq
      rw [hup] at hu
      exact ⟨i, p, hp, hkey ▸ hqkey, hu, (hspool hu).symm.trans hb⟩
    · exact ⟨j, q, hq, hqkey, hu, hb⟩
  · rintro ⟨j, q, hq, hqkey, hu, hb⟩
    by_cases hj : j = i
    · subst hj
      rw [hp] at hq
      cases hq
      exact ⟨j, p', by rw [set_puts hp, if_pos rfl], hkey.trans hqkey, hup.trans hu, (hspool hu).trans hb⟩
    · exact ⟨j, q, by rw [set_puts hp, if_neg hj, hq], hqkey, hu, hb⟩

theorem Inv.set (hi : Inv es s) (hp : s.puts[i]? = some p) (hb : Bucket.Goes new s.bucket bucket')
    (hlive : ∀ key o, bucket'.live key = some o → o.generation < bucket'.next ∧ o.bytes ∈ (s.set i p' bucket').view.former key)
    (hfits : p'.Fits (es ++ new) i) : Inv (es ++ new) (s.set i p' bucket') := by
  refine ⟨fun key o ho => (hlive key o ho).1, fun key o ho => (hlive key o ho).2, fun j q hq => ?_, hi.readers_mono hb⟩
  rw [set_puts hp] at hq
  split at hq
  · next hj =>
    cases hq
    exact hj ▸ hfits
  · exact (hi.puts j q hq).mono new

/-- A step of a put that leaves the bucket as it is, and shows at most what it finds there. -/
theorem Inv.waits (hi : Inv es s) (hp : s.puts[i]? = some p) (hnew : Legal s.view new s.view) (hkey : p'.key = p.key)
    (hup : p'.uploaded = p.uploaded) (hspool : p.uploaded = true → p'.spool = p.spool) (hfits : p'.Fits (es ++ new) i) :
    Keeps es new s (s.set i p' s.bucket) := by
  have hformer : (s.set i p' s.bucket).view.former = s.view.former := former_set hp hkey hup hspool
  have hview : (s.set i p' s.bucket).view = s.view := by
    show (⟨s.view.at_, (s.set i p' s.bucket).view.former⟩ : Objects String (List UInt8)) = s.view
    rw [hformer]
  refine ⟨hview ▸ hnew, hi.set hp (.refl _ _) (fun key o ho => ⟨hi.generations key o ho, ?_⟩) hfits⟩
  rw [hformer]
  exact hi.live key o ho

/-- An upload gives the key its object, of a generation of its own. -/
theorem keeps_created (hi : Inv es s) (hp : s.puts[i]? = some p) (hnone : s.bucket.live p.key = none) (hkey : p'.key = p.key)
    (hspool : p'.spool = p.spool) (hup : p'.uploaded = true)
    (hfits : p'.Fits (es ++ [.created (.put i) p.key p.spool]) i) :
    Keeps es [.created (.put i) p.key p.spool] s
      (s.set i p' (s.bucket.put p.key p.spool (hexdigest p.spool))) := by
  set bucket' : Bucket := s.bucket.put p.key p.spool (hexdigest p.spool) with hbucket
  have hlive : ∀ key o, bucket'.live key = some o →
      key = p.key ∧ o = ⟨s.bucket.next, p.spool, hexdigest p.spool⟩ ∨ key ≠ p.key ∧ s.bucket.live key = some o := by
    intro key o ho
    have ho : Function.update s.bucket.live p.key (some ⟨s.bucket.next, p.spool, hexdigest p.spool⟩) key = some o := ho
    by_cases hk : key = p.key
    · subst hk
      rw [Function.update_self] at ho
      exact .inl ⟨rfl, (Option.some.inj ho).symm⟩
    · rw [Function.update_of_ne hk] at ho
      exact .inr ⟨hk, ho⟩
  have hgoes : Bucket.Goes [.created (.put i) p.key p.spool] s.bucket bucket' := by
    refine ⟨Nat.le_succ _, fun key o ho => ?_, fun key o ho => ?_⟩
    · rcases hlive key o ho with ⟨-, rfl⟩ | ⟨-, ho⟩
      · exact .inr rfl
      · exact .inl ho
    · have hk : key ≠ p.key := by
        rintro rfl
        rw [hnone] at ho
        cases ho
      exact .inl ((Function.update_of_ne hk ..).trans ho)
  have hmem : ∀ key bytes, bytes ∈ s.view.former key → bytes ∈ (s.set i p' bucket').view.former key := by
    rintro key bytes ⟨j, q, hq, hqkey, hu, hb⟩
    by_cases hj : j = i
    · subst hj
      rw [hp] at hq
      cases hq
      exact ⟨j, p', by rw [set_puts hp, if_pos rfl], hkey.trans hqkey, hup, hspool.trans hb⟩
    · exact ⟨j, q, by rw [set_puts hp, if_neg hj, hq], hqkey, hu, hb⟩
  have hown : p.spool ∈ (s.set i p' bucket').view.former p.key := ⟨i, p', by rw [set_puts hp, if_pos rfl], hkey, hup, hspool⟩
  refine ⟨?_, hi.set hp hgoes (fun key o ho => ?_) hfits⟩
  · have hview : (s.set i p' bucket').view = ⟨Function.update s.view.at_ p.key (some p.spool),
        Function.update s.view.former p.key (insert p.spool (s.view.former p.key))⟩ := by
      have hat : (s.set i p' bucket').view.at_ = Function.update s.view.at_ p.key (some p.spool) := by
        funext key
        show (Function.update s.bucket.live p.key (some ⟨s.bucket.next, p.spool, hexdigest p.spool⟩) key).map CloudObject.bytes = _
        by_cases hk : key = p.key
        · subst hk
          rw [Function.update_self, Function.update_self]
          rfl
        · rw [Function.update_of_ne hk, Function.update_of_ne hk]
          rfl
      have hformer : (s.set i p' bucket').view.former =
          Function.update s.view.former p.key (insert p.spool (s.view.former p.key)) := by
        funext key
        refine Set.ext fun bytes => ?_
        by_cases hk : key = p.key
        · subst hk
          rw [Function.update_self, Set.mem_insert_iff]
          refine ⟨?_, fun h => h.elim (fun hb => hb ▸ hown) (hmem p.key bytes)⟩
          rintro ⟨j, q, hq, hqkey, hu, hb⟩
          rw [set_puts hp] at hq
          split at hq
          · cases hq
            exact .inl (hb.symm.trans hspool)
          · exact .inr ⟨j, q, hq, hqkey, hu, hb⟩
        · rw [Function.update_of_ne hk]
          refine ⟨?_, hmem key bytes⟩
          rintro ⟨j, q, hq, hqkey, hu, hb⟩
          rw [set_puts hp] at hq
          split at hq
          · cases hq
            exact absurd (hqkey.symm.trans hkey) hk
          · exact ⟨j, q, hq, hqkey, hu, hb⟩
      rw [← hat, ← hformer]
    rw [hview]
    refine .single (.created ?_)
    show (s.bucket.live p.key).map CloudObject.bytes = none
    rw [hnone]
    rfl
  · rcases hlive key o ho with ⟨rfl, rfl⟩ | ⟨-, ho⟩
    · exact ⟨Nat.lt_succ_self _, hown⟩
    · exact ⟨(hi.generations key o ho).trans (Nat.lt_succ_self _), hmem key o.bytes (hi.live key o ho)⟩

end CloudBlobs

theorem CloudPut.finish_answer (p : CloudPut) (answer : Except CloudFailure StoredBlob) :
    (p.finish answer).answer = p.answer ∨ (p.finish answer).answer = some answer := by
  unfold CloudPut.finish
  cases p.answer with
  | none => exact .inr rfl
  | some => exact .inl rfl

/-- A put that ends, with an answer that is what happened. -/
theorem CloudPut.Fits.finish {es : Happened} {i : Nat} {p : CloudPut} {answer : Except CloudFailure StoredBlob} (h : p.Fits es i)
    (hok : ∀ blob, answer = .ok blob → p.uploaded = true ∧ blob = ⟨p.key, hexdigest p.spool, p.spool.length⟩)
    (herror : ∀ key, answer = .error (.blobExists key) → key = p.key ∧ ∃ bytes, .found (.put i) key (some bytes) ∈ es) :
    (p.finish answer).Fits es i := by
  refine ⟨fun hu => ⟨fun hs => (by cases hs), (h.uploaded hu).2⟩, fun hs => ?_, fun blob hb => ?_, fun key hk => ?_⟩
  · rcases hs with hs | hs <;> cases hs
  · rcases p.finish_answer answer with he | he
    · rw [he] at hb
      exact ⟨rfl, (h.returned blob hb).2⟩
    · rw [he] at hb
      exact ⟨rfl, hok blob (Option.some.inj hb)⟩
  · rcases p.finish_answer answer with he | he
    · rw [he] at hk
      exact h.raised key hk
    · rw [he] at hk
      exact herror key (Option.some.inj hk)

namespace CloudBlobs

variable {es new : Happened} {s s' : CloudBlobs} {i j : Nat} {p p' : CloudPut} {bucket bucket' : Bucket} {r : CloudReader}
  {key : String} {bytes : List UInt8}

/-- A put that ends with something raised, and nothing of it seen. -/
theorem keeps_fail (hi : Inv es s) (hp : s.puts[i]? = some p) (hfits : p'.Fits es i) (hkey : p'.key = p.key)
    (hup : p'.uploaded = p.uploaded) (hspool : p.uploaded = true → p'.spool = p.spool) (text : String) :
    Keeps es [] s (s.set i (p'.finish (.error (.other text))) s.bucket) := by
  refine hi.waits hp (.nil _) hkey hup hspool ?_
  rw [List.append_nil]
  exact hfits.finish (fun blob hb => by cases hb) fun key hk => by cases hk

theorem keeps_chunk (hi : Inv es s) (hp : s.puts[i]? = some p) (hstage : p.stage = .spooling) (bytes : List UInt8)
    (outcome : Outcome) : Keeps es [] s (match outcome with
      | .returned => s.set i { p with spool := p.spool ++ bytes } s.bucket
      | .raised _ => s.set i (CloudPut.finish { p with spool := p.spool ++ bytes } (.error CloudPut.interrupted)) s.bucket) := by
  have hfits := hi.puts i p hp
  have hnever : p.uploaded = true → False := fun hu => (hfits.uploaded hu).1 hstage
  have hmore : ({ p with spool := p.spool ++ bytes } : CloudPut).Fits es i :=
    ⟨fun hu => (hnever hu).elim, hfits.waiting, fun blob hb => (hnever (hfits.returned blob hb).2.1).elim, hfits.raised⟩
  cases outcome with
  | returned =>
    refine hi.waits hp (.nil _) rfl rfl (fun hu => (hnever hu).elim) ?_
    rw [List.append_nil]
    exact hmore
  | raised => exact keeps_fail hi hp hmore rfl rfl (fun hu => (hnever hu).elim) _

theorem keeps_ends (hi : Inv es s) (hp : s.puts[i]? = some p) (hstage : p.stage = .spooling) (raises : Option String) :
    Keeps es [] s (match raises with
      | none => s.set i { p with stage := .uploading } s.bucket
      | some text => s.set i (p.finish (.error (.other text))) s.bucket) := by
  have hfits := hi.puts i p hp
  have hwaiting := hfits.waiting (.inl hstage)
  cases raises with
  | none =>
    refine hi.waits hp (.nil _) rfl rfl (fun _ => rfl) ?_
    rw [List.append_nil]
    refine ⟨fun hu => ⟨fun hs => (by cases hs), (hfits.uploaded hu).2⟩, fun _ => hwaiting, fun blob hb => ?_, hfits.raised⟩
    rw [show p.answer = none from hwaiting] at hb
    cases hb
  | some text => exact keeps_fail hi hp hfits rfl rfl (fun _ => rfl) text

theorem keeps_abandon (hi : Inv es s) (hp : s.puts[i]? = some p) :
    Keeps es [] s (s.set i { p with stage := .abandoned, answer := some (.error CloudPut.interrupted) } s.bucket) := by
  have hfits := hi.puts i p hp
  refine hi.waits hp (.nil _) rfl rfl (fun _ => rfl) ?_
  rw [List.append_nil]
  refine ⟨fun hu => ⟨fun hs => (by cases hs), (hfits.uploaded hu).2⟩, fun hs => ?_, fun blob hb => (by cases hb),
    fun key hk => (by cases hk)⟩
  rcases hs with hs | hs <;> cases hs

/-- A request that arrives where there is an object finds it. -/
theorem keeps_found (hi : Inv es s) (hp : s.puts[i]? = some p) {o : CloudObject} (ho : s.bucket.live p.key = some o)
    (hkey : p'.key = p.key) (hup : p'.uploaded = p.uploaded) (hspool : p'.spool = p.spool)
    (hfits : p'.Fits (es ++ [.found (.put i) p.key (some o.bytes)]) i) :
    Keeps es [.found (.put i) p.key (some o.bytes)] s (s.set i p' s.bucket) := by
  refine hi.waits hp (.single (.found ?_)) hkey hup (fun _ => hspool) hfits
  show (s.bucket.live p.key).map CloudObject.bytes = some o.bytes
  rw [ho]
  rfl

theorem keeps_request (hi : Inv es s) (hp : s.puts[i]? = some p) (hway : p.underWay = true) (sent : Requested) :
    Keeps es (s.requested i p sent) s (s.request i p sent) := by
  have hfits := hi.puts i p hp
  have hstage : p.stage ≠ .spooling := by
    rintro hs
    unfold CloudPut.underWay at hway
    rw [hs] at hway
    cases hway
  unfold request requested
  by_cases harrived : sent.arrived = true
  · rw [if_pos harrived, if_pos harrived]
    cases hlive : s.bucket.live p.key with
    | none =>
      have hup : s.bucket.upload p.key p.spool (hexdigest p.spool) = some (s.bucket.put p.key p.spool (hexdigest p.spool)) := by
        unfold Bucket.upload
        rw [hlive]
      rw [hup]
      -- the put as it is when its request took effect
      have hmade : ({ p with uploaded := true } : CloudPut).Fits (es ++ [.created (.put i) p.key p.spool]) i :=
        ⟨fun _ => ⟨hstage, List.mem_append_right _ List.mem_cons_self⟩, hfits.waiting,
          fun blob hb => ⟨(hfits.returned blob hb).1, rfl, (hfits.returned blob hb).2.2⟩, (hfits.mono _).raised⟩
      simp only [Option.isSome_some, Bool.or_true, Option.getD_some, if_true]
      cases sent with
      | answered =>
        refine keeps_created hi hp hlive rfl rfl rfl ?_
        exact hmade.finish (fun blob hb => ⟨rfl, by cases hb; rfl⟩) fun key hk => by cases hk
      | lost arrived => exact keeps_created hi hp hlive rfl rfl rfl hmade
      | gaveUp arrived =>
        refine keeps_created hi hp hlive rfl rfl rfl ?_
        exact hmade.finish (fun blob hb => by cases hb) fun key hk => by cases hk
    | some o =>
      have hup : s.bucket.upload p.key p.spool (hexdigest p.spool) = none := by
        unfold Bucket.upload
        rw [hlive]
      rw [hup]
      have hfound := hfits.mono [.found (.put i) p.key (some o.bytes)]
      simp only [Option.isSome_none, Bool.or_false, Option.getD_none, Bool.false_eq_true, if_false]
      cases sent with
      | answered =>
        refine keeps_found hi hp hlive rfl rfl rfl (hfound.finish (fun blob hb => by cases hb) fun key hk => ?_)
        cases hk
        exact ⟨rfl, o.bytes, List.mem_append_right _ List.mem_cons_self⟩
      | lost arrived => exact keeps_found hi hp hlive rfl rfl rfl hfound
      | gaveUp arrived =>
        exact keeps_found hi hp hlive rfl rfl rfl (hfound.finish (fun blob hb => by cases hb) fun key hk => by cases hk)
  · rw [if_neg harrived, if_neg harrived]
    simp only [Option.isSome_none, Bool.or_false, Option.getD_none]
    cases sent with
    | answered => exact absurd rfl harrived
    | lost arrived =>
      refine hi.waits hp (.nil _) rfl rfl (fun _ => rfl) ?_
      rw [List.append_nil]
      exact hfits
    | gaveUp arrived => exact keeps_fail hi hp hfits rfl rfl (fun _ => rfl) _

/-! ## Readers and deletes -/

/-- A step of a reader. -/
theorem Inv.reads (hi : Inv es s) {readers : List CloudReader} (hnew : Legal s.view new s.view)
    (hreaders : ∀ (j : Nat) (r : CloudReader), readers[j]? = some r →
      r.Empty (es ++ new) j ∨ ∃ bytes, r.Pinned s.bucket (es ++ new) j bytes) : Keeps es new s { s with readers := readers } :=
  ⟨hnew, hi.generations, hi.live, fun i p hp => (hi.puts i p hp).mono new, hreaders⟩

theorem Inv.made (hi : Inv es s) (hnew : Legal s.view new s.view)
    (hr : r.Empty (es ++ new) s.readers.length ∨ ∃ bytes, r.Pinned s.bucket (es ++ new) s.readers.length bytes) :
    Keeps es new s { s with readers := s.readers ++ [r] } := by
  refine hi.reads hnew fun j q hq => ?_
  rcases getElem?_concat hq with hq | ⟨rfl, rfl⟩
  · exact hi.readers_mono (.refl _ _) j q hq
  · exact hr

theorem keeps_read (hi : Inv es s) (key : String) (outcome : Outcome) :
    Keeps es (s.events 0 (.read key outcome)) s (s.read key outcome) := by
  unfold read
  cases outcome with
  | raised took =>
    refine hi.made (.nil _) (.inl ⟨rfl, rfl, rfl, ?_⟩)
    rintro ⟨_, h⟩
    cases h
  | returned =>
    have hfound : Legal s.view [.found (Op.reader s.readers.length) key (s.view.at_ key)] s.view := .single (.found rfl)
    have hevents : s.events 0 (.read key .returned) = [.found (Op.reader s.readers.length) key (s.view.at_ key)] := rfl
    rw [hevents]
    cases hlive : s.bucket.live key with
    | none =>
      have hat : s.view.at_ key = none := by
        show (s.bucket.live key).map CloudObject.bytes = none
        rw [hlive]
        rfl
      rw [hat] at hfound ⊢
      exact hi.made hfound (.inl ⟨rfl, rfl, rfl, fun _ => List.mem_append_right _ List.mem_cons_self⟩)
    | some o =>
      have hat : s.view.at_ key = some o.bytes := by
        show (s.bucket.live key).map CloudObject.bytes = some o.bytes
        rw [hlive]
        rfl
      rw [hat] at hfound ⊢
      refine hi.made hfound (.inr ⟨o.bytes, List.mem_append_right _ List.mem_cons_self, rfl, hi.generations key o hlive, rfl,
        fun _ => rfl, fun h => (by cases h), fun o' ho' _ => ?_, .inl ⟨o, hlive, rfl⟩, ?_⟩)
      · have ho' : s.bucket.live key = some o' := ho'
        rw [hlive] at ho'
        exact congrArg CloudObject.bytes (Option.some.inj ho').symm
      · rintro ⟨_, h⟩
        cases h

/-- The range a reader asks for next, of what it is pinned to. -/
theorem take_range (bytes : List UInt8) {start n : Nat} (hlt : start < bytes.length) (hn : 0 < n) :
    bytes.take start ++ (bytes.drop start).take (min (start + n) bytes.length - 1 + 1 - start) = bytes.take (start + n) := by
  have hlen : min (start + n) bytes.length - 1 + 1 - start = min n (bytes.length - start) := by omega
  rw [hlen, List.take_add, List.take_eq_take_min (i := n), List.length_drop]

theorem keeps_next (hi : Inv es s) (j : Nat) (outcome : Outcome) : Keeps es [] s (s.next j outcome) := by
  unfold next
  cases hr : s.readers[j]? with
  | none => exact hi.same
  | some r =>
    dsimp only
    -- the reader goes on as `r'`, and the others stay
    have hnow : ∀ r' : CloudReader, (∀ bytes, r.Pinned s.bucket es j bytes → r'.Pinned s.bucket es j bytes) →
        (r.Empty es j → r'.Empty es j) → Keeps es [] s { s with readers := s.readers.set j r' } := by
      intro r' hpinned hempty
      refine hi.reads (.nil _) fun k q hq => ?_
      rw [List.append_nil]
      rw [List.getElem?_set] at hq
      split at hq
      · next hk =>
        subst hk
        split at hq
        · cases hq
          exact (hi.readers j r hr).imp hempty fun ⟨bytes, h⟩ => ⟨bytes, hpinned bytes h⟩
        · cases hq
      · exact hi.readers k q hq
    split
    · exact hi.same
    · next hfinished =>
      have hfinished : r.finished = false := Bool.eq_false_iff.2 hfinished
      have hnever : ∀ r', r.Empty es j → CloudReader.Empty es j r' := fun r' h => by
        rw [h.finished] at hfinished
        cases hfinished
      split
      · next hend =>
        refine hnow _ (fun bytes h => ⟨h.found, h.size, h.generation, h.yielded, fun hf => (by cases hf), fun _ _ => ?_, h.same,
          h.here, h.missing⟩) (hnever _)
        exact h.size ▸ hend
      · next hmore =>
        have hmore := Nat.not_le.1 hmore
        cases outcome with
        | raised took =>
          refine hnow _ (fun bytes h => ⟨h.found, h.size, h.generation, h.yielded, fun hf => (by cases hf),
            fun _ hf => (by cases hf), h.same, h.here, ?_⟩) (hnever _)
          rintro ⟨_, hf⟩
          cases hf
        | returned =>
          cases hd : s.bucket.download r.key r.generation r.start (min (r.start + blobChunkBytes) r.size - 1) with
          | none =>
            refine hnow _ (fun bytes h => ⟨h.found, h.size, h.generation, h.yielded, fun hf => (by cases hf),
              fun _ hf => (by cases hf), h.same, h.here, fun _ => ?_⟩) (hnever _)
            rcases h.here with ⟨o, ho, hg⟩ | hgone
            · unfold Bucket.download at hd
              rw [ho] at hd
              dsimp only at hd
              rw [if_pos hg] at hd
              cases hd
            · exact hgone
          | some range =>
            refine hnow _ (fun bytes h => ⟨h.found, h.size, h.generation, ?_, h.reading, fun hf => ?_, h.same, h.here,
              h.missing⟩) (hnever _)
            · have hrange : range = (bytes.drop r.start).take (min (r.start + blobChunkBytes) bytes.length - 1 + 1 - r.start) := by
                unfold Bucket.download at hd
                split at hd
                · cases hd
                · next o ho =>
                  split at hd
                  · next hg =>
                    cases hd
                    rw [h.same o ho hg, h.size]
                  · cases hd
              show (r.yielded ++ [range]).flatten = _
              rw [List.flatten_append, h.yielded, hrange, List.flatten_singleton]
              exact take_range bytes (h.size ▸ hmore) (by decide)
            · have hf : r.finished = true := hf
              rw [hf] at hfinished
              cases hfinished

theorem keeps_delete (hi : Inv es s) (key : String) : Keeps es [.removed key] s { s with bucket := s.bucket.delete key } := by
  have hlive : ∀ k o, (s.bucket.delete key).live k = some o → k ≠ key ∧ s.bucket.live k = some o := by
    intro k o ho
    have ho : Function.update s.bucket.live key none k = some o := ho
    have hk : k ≠ key := by
      rintro rfl
      rw [Function.update_self] at ho
      cases ho
    rw [Function.update_of_ne hk] at ho
    exact ⟨hk, ho⟩
  have hgoes : Bucket.Goes [.removed key] s.bucket (s.bucket.delete key) := by
    refine ⟨le_rfl, fun k o ho => .inl (hlive k o ho).2, fun k o ho => ?_⟩
    by_cases hk : k = key
    · subst hk
      exact .inr List.mem_cons_self
    · exact .inl ((Function.update_of_ne hk ..).trans ho)
  have hat : Function.update s.view.at_ key none = fun k => ((s.bucket.delete key).live k).map CloudObject.bytes := by
    funext k
    show _ = (Function.update s.bucket.live key none k).map CloudObject.bytes
    by_cases hk : k = key
    · subst hk
      rw [Function.update_self, Function.update_self]
      rfl
    · rw [Function.update_of_ne hk, Function.update_of_ne hk]
      rfl
  refine ⟨?_, fun k o ho => hi.generations k o (hlive k o ho).2, fun k o ho => hi.live k o (hlive k o ho).2,
    fun i p hp => (hi.puts i p hp).mono _, hi.readers_mono hgoes⟩
  have htakes : Takes s.view (.removed key : Event Op String (List UInt8))
    { s.view with at_ := Function.update s.view.at_ key none } := .removed
  rw [hat] at htakes
  exact .single htakes

/-! ## Every run -/

theorem keeps_begin (hi : Inv es s) (key : String) :
    Keeps es [] s { s with puts := s.puts ++ [⟨key, [], false, none, .spooling⟩] } := by
  have hformer : ({ s with puts := s.puts ++ [⟨key, [], false, none, .spooling⟩] } : CloudBlobs).view.former = s.view.former := by
    funext k
    refine Set.ext fun bytes => ⟨?_, fun ⟨j, q, hq, h⟩ => ⟨j, q, getElem?_concat_of_some hq, h⟩⟩
    rintro ⟨j, q, hq, hk, hu, hb⟩
    rcases getElem?_concat hq with hq | ⟨-, rfl⟩
    · exact ⟨j, q, hq, hk, hu, hb⟩
    · cases hu
  have hview : ({ s with puts := s.puts ++ [⟨key, [], false, none, .spooling⟩] } : CloudBlobs).view = s.view :=
    congrArg (Objects.mk s.view.at_) hformer
  refine ⟨hview ▸ .nil _, ?_⟩
  rw [List.append_nil]
  refine ⟨hi.generations, fun k o ho => hformer ▸ hi.live k o ho, fun j q hq => ?_, hi.readers⟩
  rcases getElem?_concat hq with hq | ⟨-, rfl⟩
  · exact hi.puts j q hq
  · exact ⟨fun hu => (by cases hu), fun _ => rfl, fun blob hb => (by cases hb), fun key hk => (by cases hk)⟩

theorem keeps_step (hi : Inv es s) (now : Instant) (act : CloudAct) : Keeps es (s.events now act) s (s.step now act) := by
  cases act with
  | begin key => exact keeps_begin hi key
  | chunk i bytes outcome =>
    unfold step
    dsimp only
    split
    · exact hi.same
    · next p hp =>
      split
      · next hstage => exact keeps_chunk hi hp hstage bytes outcome
      · exact hi.same
  | ends i raises =>
    unfold step
    dsimp only
    split
    · exact hi.same
    · next p hp =>
      split
      · next hstage => exact keeps_ends hi hp hstage raises
      · exact hi.same
  | request i sent =>
    unfold step events
    dsimp only
    cases hp : s.puts[i]? with
    | none => exact hi.same
    | some p =>
      dsimp only
      by_cases hway : p.underWay = true
      · rw [if_pos hway, if_pos hway]
        exact keeps_request hi hp hway sent
      · rw [if_neg hway, if_neg hway]
        exact hi.same
  | abandon i =>
    unfold step
    dsimp only
    split
    · exact hi.same
    · next p hp =>
      split
      · exact keeps_abandon hi hp
      · exact hi.same
  | read key outcome => exact keeps_read hi key outcome
  | next j outcome => exact keeps_next hi j outcome
  | delete key outcome =>
    unfold step events
    dsimp only
    split
    · exact keeps_delete hi key
    · exact hi.same

theorem keeps_run (l : List (Instant × CloudAct)) :
    Legal Objects.empty (Run.trace step events empty l) (Run.after step empty l).view ∧
      Inv (Run.trace step events empty l) (Run.after step empty l) := by
  have hempty : empty.view = Objects.empty := by
    unfold view Objects.empty
    congr 1
    funext key
    refine Set.eq_empty_of_forall_notMem fun bytes => ?_
    rintro ⟨j, q, hq, -⟩
    cases hq
  have hstep : ∀ es s now act, Inv es s → True →
      Legal s.view (s.events now act) (s.step now act).view ∧ Inv (es ++ s.events now act) (s.step now act) :=
    fun es s now act hi _ => keeps_step hi now act
  rw [← hempty]
  exact legal_after hstep inv_empty l fun _ _ => trivial

/-! ## What callers may rely on -/

/-- What the calls answer is what the events say. -/
structure Answered (es : Happened) (s : CloudBlobs) : Prop where
  /-- a put that returns created its object, and answers its size and digest -/
  puts : ∀ (i : Nat) (p : CloudPut) (blob : StoredBlob), s.puts[i]? = some p → p.answer = some (.ok blob) →
    .created (.put i) p.key p.spool ∈ es ∧ blob = ⟨p.key, hexdigest p.spool, p.spool.length⟩
  /-- `BlobExists` is of an object that is there -/
  exists_ : ∀ (i : Nat) (p : CloudPut) (key : String), s.puts[i]? = some p → p.answer = some (.error (.blobExists key)) →
    key = p.key ∧ ∃ bytes, .found (.put i) key (some bytes) ∈ es
  /-- a reader yields the object it found from its first byte on, and all of it when it ends normally -/
  readers : ∀ (j : Nat) (r : CloudReader), s.readers[j]? = some r → r.yielded ≠ [] ∨ r.raised = none →
    ∃ bytes, .found (.reader j) r.key (some bytes) ∈ es ∧ r.yielded.flatten <+: bytes ∧
      (r.finished = true → r.raised = none → r.yielded.flatten = bytes)
  /-- `BlobNotFound` is of a key that has none, or whose object was removed on the way -/
  missing : ∀ (j : Nat) (r : CloudReader) (key : String), s.readers[j]? = some r → r.raised = some (.blobNotFound key) →
    .found (.reader j) r.key none ∈ es ∨ .removed r.key ∈ es

theorem Inv.answered (hi : Inv es s) : Answered es s := by
  constructor
  · intro i p blob hp hanswer
    have hfits := hi.puts i p hp
    obtain ⟨-, hu, hblob⟩ := hfits.returned blob hanswer
    exact ⟨(hfits.uploaded hu).2, hblob⟩
  · exact fun i p key hp hanswer => (hi.puts i p hp).raised key hanswer
  · intro j r hr hsome
    rcases hi.readers j r hr with hempty | ⟨bytes, hpinned⟩
    · rcases hsome with hne | hnone
      · exact absurd hempty.yielded hne
      · have hraised := hempty.raised
        rw [hnone] at hraised
        cases hraised
    · refine ⟨bytes, hpinned.found, hpinned.yielded ▸ List.take_prefix .., fun hfinished hnone => ?_⟩
      rw [hpinned.yielded, List.take_of_length_le (hpinned.ended hfinished hnone)]
  · intro j r key hr hraised
    rcases hi.readers j r hr with hempty | ⟨bytes, hpinned⟩
    · exact .inl (hempty.missing ⟨key, hraised⟩)
    · exact .inr (hpinned.missing ⟨key, hraised⟩)

/-- **Linearizable.**  Every run is one of a store of objects that are written once, and its answers are what happened. -/
theorem cloud_store_linearizable (l : List (Instant × CloudAct)) :
    Legal Objects.empty (Run.trace step events empty l) (Run.after step empty l).view ∧
      Answered (Run.trace step events empty l) (Run.after step empty l) := by
  obtain ⟨hlegal, hi⟩ := keeps_run l
  exact ⟨hlegal, hi.answered⟩

/-- A put whose answer is lost is told that the object is there: it is its own. -/
example : ((Run.after step empty ([.begin "a", .chunk 0 [1, 2] .returned, .ends 0 none, .request 0 (.lost true),
    .request 0 .answered].map fun act => ((0 : Instant), act))).puts.map fun p => (p.uploaded, p.answer.map Except.isOk)) = [(true, some false)] := by
  decide +kernel

end CloudBlobs

end AgentRuns
