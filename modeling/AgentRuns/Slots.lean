import AgentRuns.Timeline
import Mathlib.Tactic.SplitIfs

/-!
# The worker's slots

`Worker.run` claims a run only with a slot to execute it in: `_slot` takes a permit of an `asyncio.Semaphore`, unless the worker
is told to stop first, and the permit goes back when the run's task is done, or at once when no run was queued.
The stop, the end of a run and the waits of the loop come in any order (`Slots.step`), between two steps of the tasks.

    never more runs at once than slots, no permit lost, none waited for while one is free       (slots_kept)
    no claim is begun once the worker is told to stop                                           (slots_kept)
-/

namespace AgentRuns

open Timed

/-- The future of an `acquire` that waits in the semaphore. -/
inductive Waiter where
  | pending
  | granted
  | cancelled
deriving DecidableEq

/-- The task `_slot` waits for a permit with. -/
inductive Acquiring where
  | created
  | waiting
  | acquired
deriving DecidableEq

/-- Where `run` is: at `_slot`, waiting in it, in the claim, in `_idle`, in `_wind_down`, and over. -/
inductive Loop where
  | next
  | acquiring (task : Acquiring)
  | claiming
  | idling
  | windingDown
  | returned
  | cancelled
deriving DecidableEq

/-- The semaphore, the loop, its runs (`running`: executing; `ended`: done, their callbacks to be called), and the events. -/
structure Slots where
  value : Nat
  waiter : Option Waiter
  loop : Loop
  running : Nat
  ended : Nat
  idle : Nat
  stopping : Bool
  hurry : Bool

/-- What goes on, each from one `await` to the next. -/
inductive SlotAct where
  | stop
  /-- the loop comes to `_slot` -/
  | turns
  /-- the task begins its `acquire` -/
  | begins
  /-- its future was granted, and the task goes on -/
  | resumes
  /-- `asyncio.wait` returns -/
  | wakes
  /-- an `acquire` that was cancelled goes on -/
  | leaves
  /-- the claim is answered, with a run or none -/
  | answered (claimed : Bool)
  | rested
  /-- a run's `_execute` is done -/
  | ends
  /-- and its callbacks are called -/
  | called
  /-- all of them are done, and `run` returns -/
  | returns
  /-- `run` itself is cancelled -/
  | cancel

namespace Slots

/-! ## The semaphore -/

/-- `Semaphore.locked` -/
def locked (s : Slots) : Bool := s.value = 0 || s.waiter.any (· ≠ .cancelled)

/-- `Semaphore._wake_up_next` -/
def wakeUpNext (s : Slots) : Slots :=
  match s.waiter with
  | some .pending => { s with value := s.value - 1, waiter := some .granted }
  | _ => s

def release (s : Slots) : Slots := wakeUpNext { s with value := s.value + 1 }

/-! ## The loop -/

/-- A worker of `n` slots. -/
def start (n : Nat) : Slots := ⟨n, none, .next, 0, 0, 0, false, false⟩

/-- `Worker.stop` -/
def stop (s : Slots) : Slots := { s with hurry := s.hurry || s.stopping, stopping := true }

/-- `_slot`, up to where it waits. -/
def slot (s : Slots) : Slots :=
  if s.stopping then { s with loop := .windingDown }
  else if s.locked then { s with loop := .acquiring .created }
  else { s with value := s.value - 1, loop := .claiming }

/-- `Semaphore.acquire`, up to where it waits. -/
def acquire (s : Slots) : Slots :=
  if s.locked then { s with waiter := some .pending, loop := .acquiring .waiting }
  else { s with value := s.value - 1, loop := .acquiring .acquired }

/-- `acquiring.cancel()`: a future that is done stays so. -/
def cancelAcquiring (s : Slots) : Slots :=
  match s.waiter with
  | some .pending => { s with waiter := some .cancelled }
  | _ => s

/-- `_slot`, once one of the two is done. -/
def woken (s : Slots) (task : Acquiring) : Slots :=
  if task = .acquired then
    if s.stopping then { s.release with loop := .windingDown } else { s with loop := .claiming }
  else if s.stopping then { s.cancelAcquiring with loop := .windingDown }
  else s

/-- `acquire`'s `except CancelledError` and `finally`: a permit it was granted goes back. -/
def leave (s : Slots) : Slots :=
  match s.waiter with
  | some .granted => { s with value := s.value + 1, waiter := none }
  | some .cancelled => { s with waiter := none }
  | _ => s

def answer (s : Slots) (claimed : Bool) : Slots :=
  if claimed then { s with running := s.running + 1, idle := 0, loop := .next }
  else { s.release with idle := s.idle + 1, loop := .idling }

def step (s : Slots) (_ : Nat) (act : SlotAct) : Slots :=
  match act, s.loop with
  | .stop, _ => s.stop
  | .turns, .next => s.slot
  | .begins, .acquiring .created => s.acquire
  | .resumes, .acquiring .waiting => if s.waiter = some .granted then { s with waiter := none, loop := .acquiring .acquired } else s
  | .wakes, .acquiring task => s.woken task
  | .leaves, .acquiring _ => s
  | .leaves, _ => s.leave
  | .answered claimed, .claiming => s.answer claimed
  | .rested, .idling => { s with loop := .next }
  | .ends, _ => if 0 < s.running then { s with running := s.running - 1, ended := s.ended + 1 } else s
  | .called, _ => if 0 < s.ended then { s with ended := s.ended - 1 }.release else s
  | .returns, .windingDown => if s.running = 0 then { s with loop := .returned } else s
  | .cancel, .returned => s
  | .cancel, _ => { s.cancelAcquiring with loop := .cancelled }
  | _, _ => s

/-- The step begins a claim. -/
def Claims (s : Slots) (now : Nat) (act : SlotAct) : Prop := s.loop ≠ .claiming ∧ (s.step now act).loop = .claiming

/-! ## Where the permits are -/

/-- Granted to the task that waits. -/
def granted (s : Slots) : Nat := if s.waiter = some .granted then 1 else 0

/-- With the loop: acquired, or for the claim that is under way. -/
def mine (s : Slots) : Nat := if s.loop = .claiming ∨ s.loop = .acquiring .acquired then 1 else 0

def total (s : Slots) : Nat := s.value + s.granted + s.mine + s.running + s.ended

/-- What every step keeps. -/
structure Inv (n : Nat) (s : Slots) : Prop where
  /-- a permit is lost only with a `run` that is cancelled -/
  total_le : s.total ≤ n
  total_eq : s.loop ≠ .cancelled → s.total = n
  /-- nobody waits while there is a permit -/
  pending : s.waiter = some .pending → s.value = 0 ∧ s.loop = .acquiring .waiting
  waiting : s.loop = .acquiring .waiting → s.waiter = some .pending ∨ s.waiter = some .granted
  /-- otherwise there is no future in the semaphore, or one that was cancelled with the wait -/
  alone : s.waiter.isSome → s.loop = .acquiring .waiting ∨ s.loop = .windingDown ∨ s.loop = .returned ∨ s.loop = .cancelled
  stopped : s.loop = .windingDown ∨ s.loop = .returned → s.stopping = true
  done : s.loop = .returned → s.running = 0

theorem inv_start (n : Nat) : Inv n (start n) := by
  constructor <;> simp [start, total, granted, mine]

section
variable {n : Nat} {s : Slots} {now : Nat}

theorem Inv.quiet (h : Inv n s) (hloop : s.loop = .next ∨ s.loop = .claiming ∨ s.loop = .idling ∨ s.loop = .acquiring .created ∨
    s.loop = .acquiring .acquired) : s.waiter = none := by
  cases hw : s.waiter with
  | none => rfl
  | some f =>
    have halone := h.alone (by rw [hw]; rfl)
    rcases hloop with hl | hl | hl | hl | hl <;> rw [hl] at halone <;> simp at halone

theorem release_of_none (h : s.waiter = none) : s.release = { s with value := s.value + 1 } := by
  unfold release wakeUpNext
  rw [h]

theorem locked_of_none (h : s.waiter = none) : s.locked = decide (s.value = 0) := by
  unfold locked
  rw [h]
  simp

theorem Inv.slot (h : Inv n s) (hloop : s.loop = .next) : Inv n s.slot := by
  have hnone := h.quiet (.inl hloop)
  have htotal := h.total_eq (by rw [hloop]; decide)
  unfold Slots.slot
  rw [locked_of_none hnone]
  split_ifs with hstop hlocked
  · constructor <;> simp_all [total, granted, mine]
  · constructor <;> simp_all [total, granted, mine]
  · have hvalue : 0 < s.value := by simpa [Nat.pos_iff_ne_zero] using hlocked
    constructor <;> simp_all [total, granted, mine]
    all_goals omega

theorem Inv.acquire (h : Inv n s) (hloop : s.loop = .acquiring .created) : Inv n s.acquire := by
  have hnone := h.quiet (by rw [hloop]; simp)
  have htotal := h.total_eq (by rw [hloop]; decide)
  unfold Slots.acquire
  rw [locked_of_none hnone]
  split_ifs with hlocked
  · constructor <;> simp_all [total, granted, mine]
  · have hvalue : 0 < s.value := by simpa [Nat.pos_iff_ne_zero] using hlocked
    constructor <;> simp_all [total, granted, mine]
    all_goals omega

theorem Inv.resumes (h : Inv n s) (hloop : s.loop = .acquiring .waiting) (hgranted : s.waiter = some .granted) :
    Inv n { s with waiter := none, loop := .acquiring .acquired } := by
  have htotal := h.total_eq (by rw [hloop]; decide)
  constructor <;> simp_all [total, granted, mine]

theorem Inv.woken (h : Inv n s) {task : Acquiring} (hloop : s.loop = .acquiring task) : Inv n (s.woken task) := by
  have htotal := h.total_eq (by rw [hloop]; simp)
  unfold Slots.woken
  split_ifs with htask hstop hstop
  · subst htask
    have hnone := h.quiet (by rw [hloop]; simp)
    rw [release_of_none hnone]
    constructor <;> simp_all [total, granted, mine]
  · subst htask
    have hnone := h.quiet (by rw [hloop]; simp)
    constructor <;> simp_all [total, granted, mine]
  · unfold cancelAcquiring
    split
    · next hpending =>
      constructor <;> simp_all [total, granted, mine]
    · next hother =>
      constructor <;> simp_all [total, granted, mine]
  · exact h

theorem Inv.leave (h : Inv n s) (hloop : ∀ task, s.loop ≠ .acquiring task) : Inv n s.leave := by
  have hle := h.total_le
  have heq := h.total_eq
  have hstopped := h.stopped
  have hdone := h.done
  unfold Slots.leave
  split
  · next hgranted =>
    -- the permit moves from the future to the semaphore
    have hmoved (w : Slots) (hw : w = { s with value := s.value + 1, waiter := none }) : w.total = s.total := by
      subst hw
      simp only [total, granted, mine, hgranted]
      simp
    exact ⟨by rw [hmoved _ rfl]; exact hle, fun hl => by rw [hmoved _ rfl]; exact heq hl, by simp, fun hl => absurd hl (hloop _),
      by simp, hstopped, hdone⟩
  · next hcancelled => constructor <;> simp_all [total, granted, mine]
  · exact h

theorem Inv.answer (h : Inv n s) (hloop : s.loop = .claiming) (claimed : Bool) : Inv n (s.answer claimed) := by
  have hnone := h.quiet (by rw [hloop]; simp)
  have htotal := h.total_eq (by rw [hloop]; decide)
  unfold Slots.answer
  split_ifs with hclaimed
  · constructor <;> simp_all [total, granted, mine]
    all_goals omega
  · rw [release_of_none hnone]
    constructor <;> simp_all [total, granted, mine]

/-- A permit that is given back is free, or granted to the task that waits. -/
theorem total_release (s : Slots) : s.release.total = s.total + 1 := by
  unfold release wakeUpNext
  split
  · next hpending =>
    have hwaiter : s.waiter = some .pending := hpending
    simp only [total, granted, mine, hwaiter]
    simp
    omega
  · simp only [total, granted, mine]
    omega

theorem waiter_release (s : Slots) :
    s.release.waiter = s.waiter ∨ s.waiter = some .pending ∧ s.release.waiter = some .granted := by
  unfold release wakeUpNext
  split
  · next hpending => exact .inr ⟨hpending, rfl⟩
  · exact .inl rfl

theorem release_not_pending (s : Slots) : s.release.waiter ≠ some .pending := by
  unfold release wakeUpNext
  split
  · simp
  · next hother => exact fun h => hother h

theorem loop_release (s : Slots) : s.release.loop = s.loop := by
  unfold release wakeUpNext
  split <;> rfl

theorem stopping_release (s : Slots) : s.release.stopping = s.stopping := by
  unfold release wakeUpNext
  split <;> rfl

theorem running_release (s : Slots) : s.release.running = s.running := by
  unfold release wakeUpNext
  split <;> rfl

theorem stopping_cancelAcquiring (s : Slots) : s.cancelAcquiring.stopping = s.stopping := by
  unfold cancelAcquiring
  split <;> rfl

/-- A run that is done gives its permit back. -/
theorem Inv.called (h : Inv n s) (hended : 0 < s.ended) : Inv n { s with ended := s.ended - 1 }.release := by
  have hle := h.total_le
  have heq := h.total_eq
  have hkept : { s with ended := s.ended - 1 }.release.total = s.total := by
    rw [total_release]
    simp only [total, granted, mine]
    omega
  have hloop : { s with ended := s.ended - 1 }.release.loop = s.loop := loop_release _
  have hstopping : { s with ended := s.ended - 1 }.release.stopping = s.stopping := stopping_release _
  have hrunning : { s with ended := s.ended - 1 }.release.running = s.running := running_release _
  refine ⟨by omega, fun hl => ?_, fun hp => absurd hp (release_not_pending _), fun hl => ?_, fun hw => ?_, fun hl => ?_,
    fun hl => ?_⟩
  · rw [hkept]
    exact heq (by rwa [hloop] at hl)
  · rw [hloop] at hl
    rcases waiter_release { s with ended := s.ended - 1 } with hsame | ⟨-, hgranted⟩
    · rw [hsame]
      exact h.waiting hl
    · exact .inr hgranted
  · rw [hloop]
    rcases waiter_release { s with ended := s.ended - 1 } with hsame | ⟨hpending, -⟩
    · rw [hsame] at hw
      exact h.alone hw
    · exact .inl (h.pending hpending).2
  · rw [hstopping]
    exact h.stopped (by rwa [hloop] at hl)
  · rw [hrunning]
    exact h.done (by rwa [hloop] at hl)

theorem Inv.ends (h : Inv n s) (hrunning : 0 < s.running) :
    Inv n { s with running := s.running - 1, ended := s.ended + 1 } := by
  have hle := h.total_le
  have heq := h.total_eq
  have htotal : { s with running := s.running - 1, ended := s.ended + 1 }.total = s.total := by
    simp only [total, granted, mine]
    omega
  refine ⟨by omega, fun hl => htotal.trans (heq hl), h.pending, h.waiting, h.alone, h.stopped, fun hl => ?_⟩
  have hdone := h.done hl
  omega

/-- The permit that the loop had is lost with it. -/
theorem Inv.cancel (h : Inv n s) : Inv n { s.cancelAcquiring with loop := .cancelled } := by
  have hle := h.total_le
  have hlost (w : Slots) (hw : w = { s.cancelAcquiring with loop := .cancelled }) : w.total ≤ s.total := by
    subst hw
    unfold cancelAcquiring
    split
    · next hpending => simp [total, granted, mine, hpending]
    · simp [total, granted, mine]
  have hlost' := hlost _ rfl
  refine ⟨Nat.le_trans hlost' hle, by simp, fun hp => ?_, by simp, fun _ => by simp, by simp, by simp⟩
  unfold cancelAcquiring at hp
  split at hp
  · simp at hp
  · next hother => exact absurd hp hother

theorem Inv.rested (h : Inv n s) (hloop : s.loop = .idling) : Inv n { s with loop := .next } := by
  have hnone := h.quiet (by rw [hloop]; simp)
  have htotal := h.total_eq (by rw [hloop]; decide)
  constructor <;> simp_all [total, granted, mine]

theorem Inv.returns (h : Inv n s) (hloop : s.loop = .windingDown) (hrunning : s.running = 0) :
    Inv n { s with loop := .returned } := by
  have htotal := h.total_eq (by rw [hloop]; decide)
  have hstopped := h.stopped (.inl hloop)
  have hwaiter : s.waiter ≠ some .pending := fun hp => by
    have hwaits := (h.pending hp).2
    rw [hloop] at hwaits
    exact absurd hwaits (by decide)
  constructor <;> simp_all [total, granted, mine]

theorem Inv.step (h : Inv n s) (now : Nat) (act : SlotAct) : Inv n (s.step now act) := by
  fun_cases Slots.step s now act with
  | case1 => exact ⟨h.total_le, h.total_eq, h.pending, h.waiting, h.alone, fun _ => rfl, h.done⟩
  | case2 hloop => exact h.slot hloop
  | case3 hloop => exact h.acquire hloop
  | case4 hloop hgranted => exact h.resumes hloop hgranted
  | case6 task hloop => exact h.woken hloop
  | case8 hloop => exact h.leave hloop
  | case9 claimed hloop => exact h.answer hloop claimed
  | case10 hloop => exact h.rested hloop
  | case11 hrunning => exact h.ends hrunning
  | case13 hended => exact h.called hended
  | case15 hloop hrunning => exact h.returns hloop hrunning
  | case18 => exact h.cancel
  | _ => exact h

theorem Inv.after (h : Inv n s) (l : List (Nat × SlotAct)) : Inv n (Run.after Slots.step s l) := by
  induction l generalizing s with
  | nil => exact h
  | cons x l ih => exact ih (h.step x.1 x.2)

/-- Only `_slot` begins a claim: with a permit that was free, or with the one its task acquired. -/
theorem claims_cases {act : SlotAct} (h : s.Claims now act) :
    s.stopping = false ∧ (s.loop = .next ∧ s.locked = false ∨ s.loop = .acquiring .acquired) := by
  obtain ⟨hbefore, hafter⟩ := h
  revert hafter
  fun_cases Slots.step s now act with
  | case1 => exact fun hafter => absurd hafter hbefore
  | case2 hloop =>
    unfold Slots.slot
    split_ifs with hstop hlocked
    · intro hafter; cases hafter
    · intro hafter; cases hafter
    · exact fun _ => ⟨by simpa using hstop, .inl ⟨hloop, by simpa using hlocked⟩⟩
  | case3 hloop =>
    unfold Slots.acquire
    split_ifs
    · intro hafter; cases hafter
    · intro hafter; cases hafter
  | case4 => intro hafter; cases hafter
  | case6 task hloop =>
    unfold Slots.woken
    split_ifs with htask hstop hstop
    · intro hafter; cases hafter
    · exact fun _ => ⟨by simpa using hstop, .inr (by rw [hloop, htask])⟩
    · intro hafter; cases hafter
    · exact fun hafter => absurd hafter hbefore
  | case8 hloop =>
    unfold Slots.leave
    split <;> exact fun hafter => absurd hafter hbefore
  | case9 claimed hloop => exact absurd hloop hbefore
  | case10 => intro hafter; cases hafter
  | case11 => exact fun hafter => absurd hafter hbefore
  | case13 =>
    rw [loop_release]
    exact fun hafter => absurd hafter hbefore
  | case15 => intro hafter; cases hafter
  | case18 => intro hafter; cases hafter
  | _ => exact fun hafter => absurd hafter hbefore

/-- A claim is begun with a slot that no run has. -/
theorem Inv.claims (h : Inv n s) {act : SlotAct} (hclaims : s.Claims now act) : s.running + s.ended < n := by
  obtain ⟨-, ⟨hloop, hfree⟩ | hloop⟩ := claims_cases hclaims
  · have hnone := h.quiet (.inl hloop)
    have htotal := h.total_eq (by rw [hloop]; decide)
    rw [locked_of_none hnone] at hfree
    have hvalue : s.value ≠ 0 := by simpa using hfree
    unfold total at htotal
    omega
  · have htotal := h.total_eq (by rw [hloop]; decide)
    have hmine : s.mine = 1 := by
      unfold mine
      rw [if_pos (.inr hloop)]
    unfold total at htotal
    omega

/-- Nobody tells a worker to go on again. -/
theorem stopping_step (h : s.stopping = true) (act : SlotAct) : (s.step now act).stopping = true := by
  fun_cases Slots.step s now act with
  | case1 => rfl
  | case2 =>
    unfold Slots.slot
    split_ifs
    exact h
  | case3 =>
    unfold Slots.acquire
    split_ifs <;> exact h
  | case6 task =>
    unfold Slots.woken
    split_ifs
    · exact (stopping_release s).trans h
    · exact (stopping_cancelAcquiring s).trans h
  | case8 =>
    unfold Slots.leave
    split <;> exact h
  | case9 claimed =>
    unfold Slots.answer
    split_ifs
    · exact h
    · exact (stopping_release s).trans h
  | case13 => exact (stopping_release _).trans h
  | case18 => exact (stopping_cancelAcquiring s).trans h
  | _ => exact h

/-- Once it is told to stop, it begins no claim. -/
theorem unclaimed (h : s.stopping = true) (l : List (Nat × SlotAct)) :
    Run.Each Slots.step (fun b now act => ¬ b.Claims now act) s l := by
  induction l generalizing s with
  | nil => trivial
  | cons x l ih =>
    refine ⟨fun hclaims => ?_, ih (stopping_step h x.2)⟩
    have hgoing := (claims_cases hclaims).1
    rw [h] at hgoing
    cases hgoing

end

/-- **The worker never has more runs than slots.**  Whatever order its claims, the ends of its runs, its waits, its stop and its
cancellation come in: the runs it executes and those whose end it has yet to hear of fit its slots, every permit is where
something will give it back (only a `run` that is cancelled loses one), a loop that waits for a slot has been granted one unless
they are all taken, a claim is begun only with a slot free for its run and before the stop, no claim is begun after it, and `run`
returns only when its runs are done. -/
theorem slots_kept (n : Nat) (l : List (Nat × SlotAct)) :
    let s := Run.after step (start n) l
    s.running + s.ended ≤ n ∧
      (s.loop ≠ .cancelled → s.value + s.granted + s.mine + s.running + s.ended = n) ∧
      (s.loop = .acquiring .waiting → s.running + s.ended < n → s.waiter = some .granted) ∧
      (∀ now act, s.Claims now act → s.stopping = false ∧ s.running + s.ended < n) ∧
      (s.stopping = true → ∀ l', Run.Each step (fun b now act => ¬ b.Claims now act) s l') ∧
      (s.loop = .returned → s.running = 0) := by
  intro s
  have hinv : Inv n s := (inv_start n).after l
  refine ⟨?_, hinv.total_eq, fun hloop hroom => ?_, fun now act hclaims => ⟨(claims_cases hclaims).1, hinv.claims hclaims⟩,
    fun hstop l' => unclaimed hstop l', hinv.done⟩
  · have hle := hinv.total_le
    unfold total at hle
    omega
  · rcases hinv.waiting hloop with hpending | hgranted
    · have hvalue := (hinv.pending hpending).1
      have htotal := hinv.total_eq (by rw [hloop]; decide)
      simp [total, granted, mine, hpending, hloop, hvalue] at htotal
      omega
    · exact hgranted

end Slots

end AgentRuns
