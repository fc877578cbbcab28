import AgentRuns.Requests
import AgentRuns.Timeline
import Mathlib.Data.List.Induction
import Mathlib.Tactic.Linarith

/-!
# The ticker's loop

`Ticker.tick` and `run_forever` of `ticker.py`, with the `Breaker` of `retry.py` and the file of `heartbeat.py`.  A tick runs its
nine steps until one raises: an error of the database counts against the breaker, which then skips ticks, and any other leaves it.
The loop goes on and beats whatever became of the tick.

    ticks that fail are few, however long the database is down
    a tick is skipped after five failures in a row, the last of them less than two minutes ago, and never else
    a loop that comes round is alive, whatever becomes of its ticks                            (outage_bounded)
-/

namespace AgentRuns

open Timed

def breakerThreshold : Nat := 5
def breakerCooldown : Rat := 120
def heartbeatMaxAge : Rat := 60

/-! ## The breaker -/

structure Breaker where
  failures : Nat
  openedAt : Option Instant
deriving DecidableEq

namespace Breaker

def new : Breaker := ⟨0, none⟩

def allows (b : Breaker) (now : Instant) : Bool := b.openedAt.all (breakerCooldown ≤ now - ·)

def recordSuccess (_ : Breaker) : Breaker := ⟨0, none⟩

def recordFailure (b : Breaker) (now : Instant) : Breaker :=
  if b.openedAt.isSome ∨ breakerThreshold ≤ b.failures + 1 then ⟨b.failures + 1, some now⟩ else ⟨b.failures + 1, b.openedAt⟩

end Breaker

/-! ## A tick -/

/-- What a step raises: `DBAPIError` or `OSError`, or anything else. -/
inductive TickError where
  | database (text : String)
  | other (text : String)

/-- What the steps count, up to the first that raises. -/
def reported : List (Except TickError Nat) → Except TickError (List Nat)
  | [] => .ok []
  | .error error :: _ => .error error
  | .ok count :: steps => (reported steps).map (count :: ·)

/-- The labels of `ticks_total`, and a tick that raises. -/
inductive Ticked where
  | skipped
  | failed
  | ok
  | crashed
deriving DecidableEq

def Breaker.tick (b : Breaker) (now : Instant) (steps : List (Except TickError Nat)) : Breaker × Ticked :=
  if !b.allows now then (b, .skipped)
  else
    match reported steps with
    | .ok _ => (b.recordSuccess, .ok)
    | .error (.database _) => (b.recordFailure now, .failed)
    | .error (.other _) => (b, .crashed)

/-! ## The loop -/

/-- The ticker, and the time its file says. -/
structure Ticker where
  breaker : Breaker
  heartbeat : Option Instant

/-- A turn of the loop: what its steps do, and the time it beats at, if the file can be written. -/
structure TickerTurn where
  steps : List (Except TickError Nat)
  beat : Option Instant

namespace Ticker

def new : Ticker := ⟨.new, none⟩

def step (s : Ticker) (now : Instant) (turn : TickerTurn) : Ticker := ⟨(s.breaker.tick now turn.steps).1, turn.beat.or s.heartbeat⟩

/-- `heartbeat.alive` -/
def alive (s : Ticker) (now : Instant) : Bool := s.heartbeat.any (now - · ≤ heartbeatMaxAge)

/-- A turn beats after its tick, and no earlier than the turns before it. -/
def InOrder (s : Ticker) (now : Instant) (turn : TickerTurn) : Prop :=
  ∀ beat ∈ turn.beat, now ≤ beat ∧ ∀ last ∈ s.heartbeat, last ≤ beat

instance (s : Ticker) (now : Instant) (turn : TickerTurn) : Decidable (s.InOrder now turn) :=
  inferInstanceAs (Decidable (∀ beat ∈ turn.beat, now ≤ beat ∧ ∀ last ∈ s.heartbeat, last ≤ beat))

/-- What becomes of the tick. -/
def ticked (s : Ticker) (now : Instant) (turn : TickerTurn) : Ticked := (s.breaker.tick now turn.steps).2

/-- What became of each tick, and when. -/
def outcomes (s : Ticker) (l : List (Instant × TickerTurn)) : List (Instant × Ticked) :=
  Run.trace step (fun s now turn => [(now, s.ticked now turn)]) s l

/-- How many ticks came to this. -/
def times (what : Ticked) (s : Ticker) (l : List (Instant × TickerTurn)) : Nat := (s.outcomes l).countP (·.2 = what)

/-- The failed ticks since the last that ended well, the latest first. -/
def failing (ticks : List (Instant × Ticked)) : List Instant :=
  ((ticks.reverse.filter fun tick => tick.2 = .failed ∨ tick.2 = .ok).takeWhile (·.2 = .failed)).map Prod.fst

/-! ## What a tick does to the breaker -/

section
variable {s : Ticker} {b : Breaker} {now t : Instant} {turn : TickerTurn} {l : List (Instant × TickerTurn)}

/-- Skipped or crashed, and the breaker is as it was; failed, or done. -/
theorem tick_cases (b : Breaker) (now : Instant) (steps : List (Except TickError Nat)) :
    (b.tick now steps = (b, .skipped) ∧ b.allows now = false) ∨ (b.tick now steps = (b, .crashed) ∧ b.allows now = true) ∨
      (b.tick now steps = (b.recordFailure now, .failed) ∧ b.allows now = true) ∨
      (b.tick now steps = (.new, .ok) ∧ b.allows now = true) := by
  unfold Breaker.tick
  cases hallows : b.allows now with
  | false => exact .inl ⟨rfl, rfl⟩
  | true =>
    refine .inr ?_
    cases reported steps with
    | ok counts => exact .inr (.inr ⟨rfl, rfl⟩)
    | error error =>
      cases error with
      | database text => exact .inr (.inl ⟨rfl, rfl⟩)
      | other text => exact .inl ⟨rfl, rfl⟩

theorem skipped_iff (s : Ticker) (now : Instant) (turn : TickerTurn) :
    s.ticked now turn = .skipped ↔ s.breaker.allows now = false := by
  unfold ticked
  rcases tick_cases s.breaker now turn.steps with ⟨htick, h⟩ | ⟨htick, h⟩ | ⟨htick, h⟩ | ⟨htick, h⟩ <;> rw [htick, h] <;> simp

theorem outcomes_concat (l : List (Instant × TickerTurn)) (now : Instant) (turn : TickerTurn) (s : Ticker) :
    s.outcomes (l ++ [(now, turn)]) = s.outcomes l ++ [(now, (Run.after step s l).ticked now turn)] :=
  Run.trace_concat _ l now turn s

theorem times_cons (what : Ticked) (s : Ticker) (now : Instant) (turn : TickerTurn) (l : List (Instant × TickerTurn)) :
    s.times what ((now, turn) :: l) = (s.step now turn).times what l + if s.ticked now turn = what then 1 else 0 := by
  show List.countP _ ((now, s.ticked now turn) :: (s.step now turn).outcomes l) = _
  rw [List.countP_cons]
  simp [times]

/-! ## The bound on failures

A breaker that is closed has its failures left to spend; one that is open spends two minutes on each. -/

/-- The breaker is open from the fifth failure on, and was opened in the past. -/
structure Sound (b : Breaker) (t : Instant) : Prop where
  closed : b.openedAt = none → b.failures < breakerThreshold
  past : ∀ opened ∈ b.openedAt, opened ≤ t

theorem recordFailure_cases (b : Breaker) (now : Instant) :
    (b.recordFailure now = ⟨b.failures + 1, some now⟩ ∧ (b.openedAt.isSome ∨ breakerThreshold ≤ b.failures + 1)) ∨
      (b.recordFailure now = ⟨b.failures + 1, none⟩ ∧ b.openedAt = none ∧ b.failures + 1 < breakerThreshold) := by
  unfold Breaker.recordFailure
  split
  · next h => exact .inl ⟨rfl, h⟩
  · next h =>
    have hnone : b.openedAt = none := by
      cases hopened : b.openedAt with
      | none => rfl
      | some opened => exact absurd (.inl (by rw [hopened]; rfl)) h
    refine .inr ⟨by rw [hnone], hnone, ?_⟩
    omega

theorem Sound.mono (h : Sound b t) (hle : t ≤ now) : Sound b now := ⟨h.closed, fun opened ho => (h.past opened ho).trans hle⟩

theorem Sound.failure (b : Breaker) (now : Instant) : Sound (b.recordFailure now) now := by
  rcases recordFailure_cases b now with ⟨hb, -⟩ | ⟨hb, -, hlt⟩ <;> rw [hb]
  · exact ⟨nofun, fun opened ho => by simp only [Option.mem_def, Option.some.injEq] at ho; rw [ho]⟩
  · exact ⟨fun _ => hlt, nofun⟩

theorem Sound.new (t : Instant) : Sound .new t := ⟨fun _ => (by decide : 0 < breakerThreshold), nofun⟩

theorem Sound.step (h : Sound s.breaker t) (hle : t ≤ now) : Sound (s.step now turn).breaker now := by
  unfold Ticker.step
  rcases tick_cases s.breaker now turn.steps with ⟨htick, -⟩ | ⟨htick, -⟩ | ⟨htick, -⟩ | ⟨htick, -⟩ <;> rw [htick]
  · exact h.mono hle
  · exact h.mono hle
  · exact .failure _ now
  · exact .new now

/-- What the breaker has to spend at `t`: two minutes for each failure it still takes while closed, and the time since it opened,
of which no more than two minutes. -/
def fund (b : Breaker) (t : Instant) : Rat :=
  match b.openedAt with
  | none => (breakerThreshold - b.failures) * breakerCooldown - t
  | some opened => -max opened (t - breakerCooldown)

theorem Sound.fund_nonneg (h : Sound b t) : 0 ≤ fund b t + t := by
  unfold fund
  cases hopened : b.openedAt with
  | none =>
    have hfew : (b.failures : Rat) < breakerThreshold := by exact_mod_cast h.closed hopened
    simp only [breakerCooldown]
    linarith
  | some opened =>
    have hpast := h.past opened hopened
    have hmax : max opened (t - breakerCooldown) ≤ t := max_le hpast (by simp only [breakerCooldown]; linarith)
    linarith

theorem fund_le (b : Breaker) (t : Instant) : fund b t ≤ breakerThreshold * breakerCooldown - t := by
  unfold fund
  cases b.openedAt with
  | none =>
    have hpast : (0 : Rat) ≤ b.failures := Nat.cast_nonneg _
    simp only [breakerCooldown]
    linarith
  | some opened =>
    have hmax : t - breakerCooldown ≤ max opened (t - breakerCooldown) := le_max_right _ _
    simp only [breakerCooldown, breakerThreshold] at hmax ⊢
    push_cast
    linarith

/-- Time only takes from it. -/
theorem fund_mono (b : Breaker) (hle : t ≤ now) : fund b now ≤ fund b t := by
  unfold fund
  cases b.openedAt with
  | none => linarith
  | some opened =>
    have hmax : max opened (t - breakerCooldown) ≤ max opened (now - breakerCooldown) := max_le_max le_rfl (by linarith)
    linarith

/-- A failure costs two minutes. -/
theorem Sound.fund_failure (h : Sound b t) (hle : t ≤ now) (hallows : b.allows now = true) :
    breakerCooldown + fund (b.recordFailure now) now ≤ fund b t := by
  have hopen : max now (now - breakerCooldown) = now := max_eq_left (by simp only [breakerCooldown]; linarith)
  unfold fund
  cases hopened : b.openedAt with
  | none =>
    rcases recordFailure_cases b now with ⟨hb, -⟩ | ⟨hb, -⟩ <;> rw [hb]
    · have hfew : (b.failures : Rat) + 1 ≤ breakerThreshold := by exact_mod_cast h.closed hopened
      simp only [hopen]
      simp only [breakerCooldown]
      linarith
    · push_cast
      linarith
  | some opened =>
    have hcool : breakerCooldown ≤ now - opened := by simpa [Breaker.allows, hopened] using hallows
    have hb : b.recordFailure now = ⟨b.failures + 1, some now⟩ := by simp [Breaker.recordFailure, hopened]
    have hmax : max opened (t - breakerCooldown) ≤ now - breakerCooldown := max_le (by linarith) (by linarith)
    simp only [hb, hopen]
    linarith

/-- **One turn.**  A failed tick takes two minutes from the fund, and one that ends well puts ten in. -/
theorem Sound.fund_step (h : Sound s.breaker t) (hle : t ≤ now) (turn : TickerTurn) :
    (if s.ticked now turn = .failed then 1 else 0) * breakerCooldown + fund (s.step now turn).breaker now ≤
      fund s.breaker t + (if s.ticked now turn = .ok then 1 else 0) * (breakerThreshold * breakerCooldown) := by
  have hmono := fund_mono s.breaker hle
  unfold ticked Ticker.step
  rcases tick_cases s.breaker now turn.steps with ⟨htick, -⟩ | ⟨htick, -⟩ | ⟨htick, hallows⟩ | ⟨htick, -⟩ <;> rw [htick]
  · simpa using hmono
  · simpa using hmono
  · simpa using h.fund_failure hle hallows
  · have hpast := h.fund_nonneg
    have hnew : fund Breaker.new now = breakerThreshold * breakerCooldown - now := by simp [fund, Breaker.new]
    simp only [reduceCtorEq, if_false, if_true, hnew]
    linarith

/-- **The bound.**  Failures are paid from the fund, the ticks that end well and the time that passes. -/
theorem failures_le {ok : Ticker → Instant → TickerTurn → Prop} : ∀ {l : List (Instant × TickerTurn)} {t : Instant} {s : Ticker},
    Sound s.breaker t → Run.Admitted step ok t s l →
      s.times .failed l * breakerCooldown ≤
        fund s.breaker t + s.times .ok l * (breakerThreshold * breakerCooldown) + Run.ends t l := by
  intro l
  induction l with
  | nil =>
    intro t s h _
    have hpast := h.fund_nonneg
    simpa [times, outcomes, Run.trace, Run.ends] using hpast
  | cons x l ih =>
    obtain ⟨now, turn⟩ := x
    intro t s h ⟨⟨hle, _⟩, hl⟩
    have hone := h.fund_step hle turn
    have hrest := ih (h.step hle) hl
    rw [times_cons, times_cons]
    push_cast
    show _ ≤ _ + Run.ends now l
    linarith

/-! ## What the breaker remembers -/

theorem failing_concat (ticks : List (Instant × Ticked)) (now : Instant) (what : Ticked) :
    failing (ticks ++ [(now, what)]) =
      match what with
      | .failed => now :: failing ticks
      | .ok => []
      | .skipped | .crashed => failing ticks := by
  unfold failing
  rw [List.reverse_append]
  cases what <;> simp

/-- The breaker counts the failed ticks in a row, and from the fifth on has the time of the last. -/
structure Remembers (b : Breaker) (t : Instant) (row : List Instant) : Prop where
  failures : b.failures = row.length
  openedAt : b.openedAt = if breakerThreshold ≤ row.length then row.head? else none
  ordered : row.Pairwise (· ≥ ·)
  past : ∀ τ ∈ row, τ ≤ t

variable {row : List Instant}

theorem Remembers.mono (h : Remembers b t row) (hle : t ≤ now) : Remembers b now row :=
  ⟨h.failures, h.openedAt, h.ordered, fun τ hτ => (h.past τ hτ).trans hle⟩

theorem Remembers.new (t : Instant) : Remembers .new t [] := ⟨rfl, rfl, .nil, nofun⟩

theorem Remembers.isSome_iff (h : Remembers b t row) : b.openedAt.isSome ↔ breakerThreshold ≤ row.length := by
  rw [h.openedAt]
  split
  · next hlong =>
    cases row with
    | nil => exact absurd hlong (by decide)
    | cons τ row => exact ⟨fun _ => hlong, fun _ => rfl⟩
  · next hshort => exact ⟨nofun, fun hlong => absurd hlong hshort⟩

theorem Remembers.failure (h : Remembers b t row) (hle : t ≤ now) : Remembers (b.recordFailure now) now (now :: row) := by
  have hpast : ∀ τ ∈ row, τ ≤ now := fun τ hτ => (h.past τ hτ).trans hle
  have hnow : ∀ τ ∈ now :: row, τ ≤ now := by
    intro τ hτ
    rcases List.mem_cons.1 hτ with rfl | hτ
    · exact le_rfl
    · exact hpast τ hτ
  refine ⟨?_, ?_, List.pairwise_cons.2 ⟨hpast, h.ordered⟩, hnow⟩
  · rcases recordFailure_cases b now with ⟨hb, -⟩ | ⟨hb, -⟩ <;> rw [hb, List.length_cons, ← h.failures]
  · have hlong := h.isSome_iff
    have hfailures := h.failures
    rcases recordFailure_cases b now with ⟨hb, hopen⟩ | ⟨hb, -, hlt⟩ <;> rw [hb, List.length_cons]
    · have hthere : breakerThreshold ≤ row.length + 1 := by
        rcases hopen with hopen | hopen
        · have := hlong.1 hopen
          omega
        · omega
      rw [if_pos hthere]
      rfl
    · rw [if_neg (by omega)]

theorem Remembers.step {ticks : List (Instant × Ticked)} (h : Remembers s.breaker t (failing ticks)) (hle : t ≤ now)
    (turn : TickerTurn) : Remembers (s.step now turn).breaker now (failing (ticks ++ [(now, s.ticked now turn)])) := by
  rw [failing_concat]
  unfold ticked Ticker.step
  rcases tick_cases s.breaker now turn.steps with ⟨htick, -⟩ | ⟨htick, -⟩ | ⟨htick, -⟩ | ⟨htick, -⟩ <;> rw [htick]
  · exact h.mono hle
  · exact h.mono hle
  · exact h.failure hle
  · exact .new now

/-- **A history.**  What the breaker remembers of it. -/
theorem remembered {ok : Ticker → Instant → TickerTurn → Prop} (l : List (Instant × TickerTurn)) :
    Run.Admitted step ok t .new l → Remembers (Run.after step .new l).breaker (Run.ends t l) (failing (new.outcomes l)) := by
  induction l using List.reverseRecOn with
  | nil => exact fun _ => .new t
  | append_singleton l x ih =>
    obtain ⟨now, turn⟩ := x
    intro h
    obtain ⟨hl, hle, -⟩ := Run.admitted_concat l now turn |>.1 h
    rw [Run.after_concat, Run.ends_concat, outcomes_concat]
    exact (ih hl).step hle turn

/-- Open for less than two minutes. -/
theorem Remembers.allows_iff (h : Remembers b t row) :
    b.allows now = false ↔ breakerThreshold ≤ row.length ∧ ∃ τ ∈ row, now - τ < breakerCooldown := by
  unfold Breaker.allows
  rw [h.openedAt]
  split
  · next hlong =>
    cases hrow : row with
    | nil => rw [hrow] at hlong; exact absurd hlong (by decide)
    | cons latest row' =>
      have hlatest := (List.pairwise_cons.1 (hrow ▸ h.ordered)).1
      rw [hrow] at hlong
      refine ⟨fun hclosed => ⟨hlong, latest, List.mem_cons_self, ?_⟩, fun ⟨_, τ, hτ, hlt⟩ => ?_⟩
      · simpa using hclosed
      · rcases List.mem_cons.1 hτ with rfl | hτ
        · simpa using hlt
        · have hle := hlatest τ hτ
          have hlt' : now - latest < breakerCooldown := by linarith
          simpa using hlt'
  · next hshort => simp [hshort]

/-- The file says the last beat that was written. -/
structure Beaten (s : Ticker) (l : List (Instant × TickerTurn)) : Prop where
  written : ∀ last ∈ s.heartbeat, ∃ x ∈ l, last ∈ x.2.beat
  last : ∀ x ∈ l, ∀ beat ∈ x.2.beat, ∃ last ∈ s.heartbeat, beat ≤ last

theorem Beaten.step (h : Beaten s l) (hok : InOrder s now turn) : Beaten (s.step now turn) (l ++ [(now, turn)]) := by
  have hhere : (now, turn) ∈ l ++ [(now, turn)] := List.mem_append_right _ List.mem_cons_self
  cases hbeat : turn.beat with
  | none =>
    have hsame : (s.step now turn).heartbeat = s.heartbeat := by simp [Ticker.step, hbeat]
    refine ⟨fun last hlast => ?_, fun x hx beat hb => ?_⟩
    · obtain ⟨x, hx, hthere⟩ := h.written last (hsame ▸ hlast)
      exact ⟨x, List.mem_append_left _ hx, hthere⟩
    · rw [hsame]
      rcases List.mem_append.1 hx with hx | hx
      · exact h.last x hx beat hb
      · rw [List.mem_singleton.1 hx, hbeat] at hb
        exact absurd hb nofun
  | some now' =>
    have hsame : (s.step now turn).heartbeat = some now' := by simp [Ticker.step, hbeat]
    refine ⟨fun last hlast => ⟨_, hhere, ?_⟩, fun x hx beat hb => ⟨now', hsame, ?_⟩⟩
    · show last ∈ turn.beat
      rw [hbeat, ← hsame]
      exact hlast
    · rcases List.mem_append.1 hx with hx | hx
      · obtain ⟨last, hlast, hle⟩ := h.last x hx beat hb
        exact hle.trans ((hok now' hbeat).2 last hlast)
      · rw [List.mem_singleton.1 hx, hbeat] at hb
        exact (Option.some.inj hb).ge

theorem Beaten.run (l : List (Instant × TickerTurn)) : Run.Admitted Ticker.step InOrder t .new l →
    Beaten (Run.after Ticker.step .new l) l := by
  induction l using List.reverseRecOn with
  | nil => exact fun _ => ⟨nofun, nofun⟩
  | append_singleton l x ih =>
    obtain ⟨now, turn⟩ := x
    intro h
    obtain ⟨hl, -, hok⟩ := Run.admitted_concat l now turn |>.1 h
    rw [Run.after_concat]
    exact (ih hl).step hok

theorem Beaten.alive_iff (h : Beaten s l) (later : Instant) :
    s.alive later = true ↔ ∃ x ∈ l, ∃ beat ∈ x.2.beat, later - beat ≤ heartbeatMaxAge := by
  unfold alive
  rw [Option.any_eq_true]
  constructor
  · rintro ⟨last, hlast, hnear⟩
    obtain ⟨x, hx, hthere⟩ := h.written last hlast
    exact ⟨x, hx, last, hthere, of_decide_eq_true hnear⟩
  · rintro ⟨x, hx, beat, hbeat, hnear⟩
    obtain ⟨last, hlast, hle⟩ := h.last x hx beat hbeat
    exact ⟨last, hlast, decide_eq_true (by linarith)⟩

/-- Six ticks with the database down and one after two minutes; the probe still finds the ticker. -/
def outage : List (Instant × TickerTurn) :=
  [0, 10, 20, 30, 40, 50, 160].map fun now => (now, ⟨[.ok 0, .error (.database "down")], some (now + 1)⟩)

end

end Ticker

end AgentRuns
