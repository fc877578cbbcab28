import Mathlib.Data.List.Basic

/-!
# Programs that talk, and what stands between

A `Program` asks its peer for messages and tells it others; each may raise in it.  Two kinds of things stand between the two:
one that hears for it (`heard`: what is asked for goes through a transducer) and one that speaks for it (`spoken`: what is told is
rewritten, and noted).  Neither changes the program:

    run_heard   :  a program heard for runs as it does with the peer heard so
    run_spoken  :  a program spoken for tells and notes what is made of what it tells
-/

namespace Dialogue

/-- `ask` and `tell` may raise, and the program goes on from there; `note` does not. -/
inductive Program (ι ω ν ε : Type) where
  | ask (next : Except ε ι → Program ι ω ν ε)
  | tell (message : ω) (next : Except ε Unit → Program ι ω ν ε)
  | note (what : ν) (next : Program ι ω ν ε)
  | done
  | raises (error : ε)

/-- What a program told and noted, how often it asked, and what it raised. -/
structure Ran (ω ν ε : Type) where
  said : List (ω ⊕ ν)
  asked : Nat
  raised : Option ε
deriving DecidableEq

/-- What answers a program's asking and telling, one after the other. -/
structure Peer (ι ε : Type) where
  asked : Nat → Except ε ι
  told : Nat → Except ε Unit

variable {ι ω ω' ν ν' ε σ : Type}

namespace Ran

def told (r : Ran ω ν ε) : List ω := r.said.filterMap Sum.getLeft?

def noted (r : Ran ω ν ε) : List ν := r.said.filterMap Sum.getRight?

end Ran

namespace Peer

def askedOnce (p : Peer ι ε) : Peer ι ε := ⟨fun n => p.asked (n + 1), p.told⟩

def toldOnce (p : Peer ι ε) : Peer ι ε := ⟨p.asked, fun n => p.told (n + 1)⟩

/-- What is heard of a peer, through `hear` from the state `s` on. -/
def hearing (hear : σ → Except ε ι → σ × Except ε ι) (s : σ) (asked : Nat → Except ε ι) : Nat → Except ε ι
  | 0 => (hear s (asked 0)).2
  | n + 1 => hearing hear (hear s (asked 0)).1 (fun n => asked (n + 1)) n

def heard (hear : σ → Except ε ι → σ × Except ε ι) (s : σ) (p : Peer ι ε) : Peer ι ε := ⟨hearing hear s p.asked, p.told⟩

end Peer

/-- One that speaks: what it notes and tells instead of each message, and what it notes of what is raised. -/
structure Speaker (ω ω' ν ε σ : Type) where
  notes : σ → ω → List ν
  words : ω → ω'
  next : σ → ω → σ
  last : σ → ε → List ν

namespace Speaker

/-- What is made of what a program says. -/
def respoken (speaker : Speaker ω ω' ν ε σ) (raised : Option ε) : σ → List (ω ⊕ Empty) → List (ω' ⊕ ν)
  | s, [] => (raised.toList.flatMap (speaker.last s)).map .inr
  | s, .inl message :: said =>
    (speaker.notes s message).map .inr ++ .inl (speaker.words message) :: speaker.respoken raised (speaker.next s message) said

/-- What is noted of the messages of a program, and of what it raises. -/
def notesOf (speaker : Speaker ω ω' ν ε σ) (raised : Option ε) : σ → List ω → List ν
  | s, [] => raised.toList.flatMap (speaker.last s)
  | s, message :: told => speaker.notes s message ++ speaker.notesOf raised (speaker.next s message) told

end Speaker

namespace Program

def run : Program ι ω ν ε → Peer ι ε → Ran ω ν ε
  | .ask next, p =>
    let r := (next (p.asked 0)).run p.askedOnce
    ⟨r.said, r.asked + 1, r.raised⟩
  | .tell message next, p =>
    let r := (next (p.told 0)).run p.toldOnce
    ⟨.inl message :: r.said, r.asked, r.raised⟩
  | .note what next, p =>
    let r := next.run p
    ⟨.inr what :: r.said, r.asked, r.raised⟩
  | .done, _ => ⟨[], 0, none⟩
  | .raises error, _ => ⟨[], 0, some error⟩

/-! ## Hearing for a program -/

def heard (hear : σ → Except ε ι → σ × Except ε ι) : σ → Program ι ω ν ε → Program ι ω ν ε
  | s, .ask next => .ask fun message => (next (hear s message).2).heard hear (hear s message).1
  | s, .tell message next => .tell message fun sent => (next sent).heard hear s
  | s, .note what next => .note what (next.heard hear s)
  | _, .done => .done
  | _, .raises error => .raises error

theorem run_heard (hear : σ → Except ε ι → σ × Except ε ι) (p : Program ι ω ν ε) : ∀ (s : σ) (peer : Peer ι ε),
    (p.heard hear s).run peer = p.run (peer.heard hear s) := by
  induction p with
  | ask next ih =>
    intro s peer
    simp only [heard, run, ih]
    rfl
  | tell message next ih =>
    intro s peer
    simp only [heard, run, ih]
    rfl
  | note what next ih =>
    intro s peer
    simp only [heard, run, ih]
  | done => exact fun _ _ => rfl
  | raises error => exact fun _ _ => rfl

/-! ## Speaking for a program -/

def noting (notes : List ν) (p : Program ι ω ν ε) : Program ι ω ν ε := notes.foldr .note p

def spoken (speaker : Speaker ω ω' ν ε σ) : σ → Program ι ω Empty ε → Program ι ω' ν ε
  | s, .ask next => .ask fun message => (next message).spoken speaker s
  | s, .tell message next =>
    noting (speaker.notes s message) (.tell (speaker.words message) fun sent => (next sent).spoken speaker (speaker.next s message))
  | _, .done => .done
  | s, .raises error => noting (speaker.last s error) (.raises error)

theorem run_noting (notes : List ν) (p : Program ι ω ν ε) (peer : Peer ι ε) :
    (noting notes p).run peer = ⟨notes.map .inr ++ (p.run peer).said, (p.run peer).asked, (p.run peer).raised⟩ := by
  induction notes with
  | nil => rfl
  | cons what notes ih =>
    have hone : (noting (what :: notes) p).run peer = (Program.note what (noting notes p)).run peer := rfl
    simp only [hone, run, ih, List.map_cons, List.cons_append]

theorem run_spoken (speaker : Speaker ω ω' ν ε σ) (p : Program ι ω Empty ε) : ∀ (s : σ) (peer : Peer ι ε),
    (p.spoken speaker s).run peer =
      ⟨speaker.respoken (p.run peer).raised s (p.run peer).said, (p.run peer).asked, (p.run peer).raised⟩ := by
  induction p with
  | ask next ih =>
    intro s peer
    simp only [spoken, run, ih]
  | tell message next ih =>
    intro s peer
    simp only [spoken, run_noting, run, ih, Speaker.respoken]
  | note what next => exact what.elim
  | done => exact fun _ _ => rfl
  | raises error =>
    intro s peer
    simp only [spoken, run_noting, run, Speaker.respoken, Option.toList_some, List.flatMap_cons, List.flatMap_nil, List.append_nil]

theorem told_respoken (speaker : Speaker ω ω' ν ε σ) (raised : Option ε) (said : List (ω ⊕ Empty)) : ∀ s : σ,
    (speaker.respoken raised s said).filterMap Sum.getLeft? = (said.filterMap Sum.getLeft?).map speaker.words := by
  induction said with
  | nil => exact fun s => by simp [Speaker.respoken]
  | cons first said ih =>
    intro s
    cases first with
    | inl message => simp [Speaker.respoken, ih]
    | inr what => exact what.elim

theorem filterMap_inr (notes : List ν) : (notes.map (Sum.inr : ν → ω ⊕ ν)).filterMap Sum.getRight? = notes := by
  rw [List.filterMap_map]
  exact List.filterMap_some

theorem noted_respoken (speaker : Speaker ω ω' ν ε σ) (raised : Option ε) (said : List (ω ⊕ Empty)) : ∀ s : σ,
    (speaker.respoken raised s said).filterMap Sum.getRight? = speaker.notesOf raised s (said.filterMap Sum.getLeft?) := by
  induction said with
  | nil => exact fun s => filterMap_inr _
  | cons first said ih =>
    intro s
    cases first with
    | inl message =>
      show List.filterMap Sum.getRight? (_ ++ _ :: _) = speaker.notes s message ++ _
      rw [List.filterMap_append, filterMap_inr, List.filterMap_cons_none rfl, ih]
    | inr what => exact what.elim

/-- A program spoken for. -/
theorem ran_spoken (speaker : Speaker ω ω' ν ε σ) (p : Program ι ω Empty ε) (s : σ) (peer : Peer ι ε) :
    ((p.spoken speaker s).run peer).told = (p.run peer).told.map speaker.words ∧
      ((p.spoken speaker s).run peer).noted = speaker.notesOf (p.run peer).raised s (p.run peer).told ∧
      ((p.spoken speaker s).run peer).asked = (p.run peer).asked ∧
      ((p.spoken speaker s).run peer).raised = (p.run peer).raised := by
  rw [run_spoken]
  exact ⟨told_respoken speaker _ _ s, noted_respoken speaker _ _ s, rfl, rfl⟩

end Program

end Dialogue
