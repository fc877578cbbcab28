import AgentRuns.Timeline
import Mathlib.Order.Lattice

/-!
# Alarms

Each key has an alarm, or none.  No action sets one to an instant that came, but for leaving it as it is; and where an alarm
that came rings, it is set past now.  So of one key the later of two rings is for an alarm past the earlier one, and of
the alarms that came by an instant at most one rings behind it.
-/

namespace Timed

variable {σ α κ τ ρ : Type} [LinearOrder τ]

/-- A system of alarms: `ring` is what rings in an action, of a key, at an instant, for its alarm. -/
structure Alarms (step : σ → τ → α → σ) (alarm : σ → κ → Option τ) (ring : σ → τ → α → Option ρ) (key : ρ → κ) (at_ tick : ρ → τ) :
    Prop where
  stands : ∀ {s now a k t}, alarm (step s now a) k = some t → alarm s k = some t ∨ now < t
  rings : ∀ {s now a r}, ring s now a = some r → at_ r = now ∧ alarm s (key r) = some (tick r) ∧ tick r ≤ now ∧
    ∀ t, alarm (step s now a) (key r) = some t → now < t

namespace Alarms

variable {step : σ → τ → α → σ} {alarm : σ → κ → Option τ} {ring : σ → τ → α → Option ρ} {key : ρ → κ} {at_ tick : ρ → τ}

/-- What rings in a list of actions. -/
def rung (step : σ → τ → α → σ) (ring : σ → τ → α → Option ρ) : σ → List (τ × α) → List ρ :=
  Run.trace step fun s now a => (ring s now a).toList

variable (h : Alarms step alarm ring key at_ tick)
include h

theorem rung_le {ops : List (τ × α)} : ∀ {t : τ} {s : σ}, Run.Admitted step anything t s ops →
    ∀ r ∈ rung step ring s ops, t ≤ at_ r ∧ tick r ≤ at_ r := by
  induction ops with
  | nil => intro t s _ r hr; cases hr
  | cons x ops ih =>
    obtain ⟨now, a⟩ := x
    rintro t s ⟨⟨hle, -⟩, hops⟩ r hr
    rcases List.mem_append.1 hr with hr | hr
    · obtain ⟨hat, -, htick, -⟩ := h.rings (Option.mem_toList.1 hr)
      rw [hat]
      exact ⟨hle, htick⟩
    · obtain ⟨hnow, htick⟩ := ih hops r hr
      exact ⟨le_trans hle hnow, htick⟩

/-- An alarm that is past an instant only rings for what is. -/
theorem rung_beyond {ops : List (τ × α)} {bound : τ} {k : κ} : ∀ {t : τ} {s : σ}, Run.Admitted step anything t s ops →
    (∀ u, alarm s k = some u → bound < u) → bound ≤ t → ∀ r ∈ rung step ring s ops, key r = k → bound < tick r := by
  induction ops with
  | nil => intro t s _ _ _ r hr; cases hr
  | cons x ops ih =>
    obtain ⟨now, a⟩ := x
    rintro t s ⟨⟨hle, -⟩, hops⟩ hb ht r hr hk
    rcases List.mem_append.1 hr with hr | hr
    · obtain ⟨-, halarm, -⟩ := h.rings (Option.mem_toList.1 hr)
      exact hb (tick r) (hk ▸ halarm)
    · refine ih hops (fun u hu => ?_) (le_trans ht hle) r hr hk
      rcases h.stands hu with hu | hu
      · exact hb u hu
      · exact lt_of_le_of_lt (le_trans ht hle) hu

/-- Of two rings of one key the later one is for an alarm past the earlier one. -/
theorem rung_pairwise {ops : List (τ × α)} : ∀ {t : τ} {s : σ}, Run.Admitted step anything t s ops →
    (rung step ring s ops).Pairwise fun a b => key a = key b → at_ a < tick b := by
  induction ops with
  | nil => intro t s _; exact List.Pairwise.nil
  | cons x ops ih =>
    obtain ⟨now, a⟩ := x
    rintro t s ⟨⟨hle, -⟩, hops⟩
    refine List.pairwise_append.2 ⟨?_, ih hops, ?_⟩
    · cases ring s now a <;> simp
    · intro r hr r' hr' hk
      obtain ⟨hat, -, -, hpast⟩ := h.rings (Option.mem_toList.1 hr)
      rw [hat]
      exact h.rung_beyond hops hpast le_rfl r' hr' hk.symm

/-- Each is for a later alarm than the one before. -/
theorem rung_increasing {ops : List (τ × α)} {t : τ} {s : σ} (hops : Run.Admitted step anything t s ops) :
    (rung step ring s ops).Pairwise fun a b => key a = key b → tick a < tick b :=
  (h.rung_pairwise hops).imp_of_mem fun hr _ hlt hk => lt_of_le_of_lt (h.rung_le hops _ hr).2 (hlt hk)

/-- Of the alarms that came by an instant, at most one rings from then on. -/
theorem rung_late [DecidableEq κ] {ops : List (τ × α)} {t : τ} {s : σ} (hops : Run.Admitted step anything t s ops) (k : κ) (back : τ) :
    ((rung step ring s ops).filter fun r => key r = k ∧ back ≤ at_ r ∧ tick r ≤ back).length ≤ 1 := by
  have hlate := (h.rung_pairwise hops).filter fun r => key r = k ∧ back ≤ at_ r ∧ tick r ≤ back
  have hmem : ∀ r ∈ (rung step ring s ops).filter fun r => key r = k ∧ back ≤ at_ r ∧ tick r ≤ back,
      key r = k ∧ back ≤ at_ r ∧ tick r ≤ back := fun r hr => by simpa using (List.mem_filter.1 hr).2
  revert hlate hmem
  generalize (rung step ring s ops).filter _ = late
  intro hlate hmem
  match late with
  | [] | [_] => simp
  | a :: b :: _ =>
    -- the second one would be for an alarm past the first one's instant
    obtain ⟨hka, hnow, -⟩ := hmem a List.mem_cons_self
    obtain ⟨hkb, -, htick⟩ := hmem b (List.mem_cons_of_mem _ List.mem_cons_self)
    have hlt := (List.pairwise_cons.1 hlate).1 b List.mem_cons_self (hka.trans hkb.symm)
    exact absurd (lt_of_lt_of_le hlt (le_trans htick hnow)) (lt_irrefl _)

end Alarms

end Timed
