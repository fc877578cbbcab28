import AgentRuns.Schedules
import AgentRuns.Uploads
import Mathlib.Data.Nat.Digits.Defs
import Mathlib.Data.Rat.Floor

/-!
# Libraries that spell their arguments out

Stand-ins for the packages the store calls, to run the model on: an id of `stableId` spells its
parts (`spelled_injective`), every value is a schema every answer fits, and a resolution answers
the interrupt it names; in a calendar every cron expression fires on the hour.  With them, a small
deployment's requests.
-/

namespace AgentRuns

/-! ## Ids -/

/-- A part, its length first. -/
def Part.spell : Part → List Char
  | .text s => List.replicate s.length 'l' ++ 't' :: s.toList
  | .number n => List.replicate n 'l' ++ ['n']
  | .none => ['-']

def spelledId (pre : String) (parts : List Part) : String :=
  String.ofList (pre.toList ++ parts.flatMap Part.spell)

theorem replicate_cancel {c d e : Char} (hc : c ≠ e) (hd : d ≠ e) {u v : List Char} : ∀ {n m : Nat},
    List.replicate n e ++ c :: u = List.replicate m e ++ d :: v → n = m ∧ c = d ∧ u = v := by
  intro n
  induction n with
  | zero =>
    intro m h
    cases m with
    | zero => simpa using h
    | succ m =>
      rw [List.replicate_succ, List.replicate_zero, List.nil_append, List.cons_append] at h
      exact absurd (List.cons.inj h).1 hc
  | succ n ih =>
    intro m h
    cases m with
    | zero =>
      rw [List.replicate_succ, List.replicate_zero, List.nil_append, List.cons_append] at h
      exact absurd (List.cons.inj h).1.symm hd
    | succ m =>
      rw [List.replicate_succ, List.replicate_succ, List.cons_append, List.cons_append] at h
      obtain ⟨hn, hcd, huv⟩ := ih (List.cons.inj h).2
      exact ⟨by rw [hn], hcd, huv⟩

theorem spell_cancel {a b : Part} {x y : List Char} (h : a.spell ++ x = b.spell ++ y) : a = b ∧ x = y := by
  have head : ∀ p : Part, ∃ n c u, p.spell = List.replicate n 'l' ++ c :: u ∧ c ≠ 'l' ∧
      (∀ s, p = .text s → n = s.length ∧ c = 't' ∧ u = s.toList) ∧ (∀ k, p = .number k → n = k ∧ c = 'n' ∧ u = []) ∧
      (p = .none → c = '-' ∧ u = []) := by
    intro p
    cases p with
    | text s => exact ⟨s.length, 't', s.toList, rfl, by decide, by rintro _ ⟨rfl⟩; simp, by simp, by simp⟩
    | number k => exact ⟨k, 'n', [], rfl, by decide, by simp, by rintro _ ⟨rfl⟩; simp, by simp⟩
    | none => exact ⟨0, '-', [], rfl, by decide, by simp, by simp, by simp⟩
  obtain ⟨n, c, u, ha, hc, hat, han, hao⟩ := head a
  obtain ⟨m, d, v, hb, hd, hbt, hbn, hbo⟩ := head b
  rw [ha, hb, List.append_assoc, List.append_assoc, List.cons_append, List.cons_append] at h
  obtain ⟨hnm, hcd, huv⟩ := replicate_cancel hc hd h
  cases a with
  | text s =>
    obtain ⟨hns, hct, rfl⟩ := hat s rfl
    cases b with
    | text s' =>
      obtain ⟨hms, -, rfl⟩ := hbt s' rfl
      have hl : s.toList.length = s'.toList.length := by
        rw [String.length_toList, String.length_toList]
        omega
      obtain ⟨hs, hxy⟩ := List.append_inj huv hl
      exact ⟨by rw [String.toList_inj.1 hs], hxy⟩
    | number k => exact absurd (hct.symm.trans (hcd.trans (hbn k rfl).2.1)) (by decide)
    | none => exact absurd (hct.symm.trans (hcd.trans (hbo rfl).1)) (by decide)
  | number k =>
    obtain ⟨hnk, hct, rfl⟩ := han k rfl
    cases b with
    | text s' => exact absurd (hct.symm.trans (hcd.trans (hbt s' rfl).2.1)) (by decide)
    | number k' =>
      obtain ⟨hmk, -, rfl⟩ := hbn k' rfl
      exact ⟨by rw [← hnk, ← hmk, hnm], huv⟩
    | none => exact absurd (hct.symm.trans (hcd.trans (hbo rfl).1)) (by decide)
  | none =>
    obtain ⟨hct, rfl⟩ := hao rfl
    cases b with
    | text s' => exact absurd (hct.symm.trans (hcd.trans (hbt s' rfl).2.1)) (by decide)
    | number k => exact absurd (hct.symm.trans (hcd.trans (hbn k rfl).2.1)) (by decide)
    | none =>
      obtain ⟨-, rfl⟩ := hbo rfl
      exact ⟨rfl, huv⟩

/-- Different parts never spell one id. -/
theorem spelled_injective (pre : String) : Function.Injective (spelledId pre) := by
  intro as
  suffices ∀ bs, as.flatMap Part.spell = bs.flatMap Part.spell → as = bs by
    intro bs h
    exact this bs (List.append_cancel_left (String.ofList_injective h))
  have ne : ∀ p : Part, p.spell ≠ [] := by
    intro p
    cases p <;> simp [Part.spell]
  induction as with
  | nil =>
    intro bs h
    cases bs with
    | nil => rfl
    | cons b bs => exact absurd (List.append_eq_nil_iff.1 h.symm).1 (ne b)
  | cons a as ih =>
    intro bs h
    cases bs with
    | nil => exact absurd (List.append_eq_nil_iff.1 h).1 (ne a)
    | cons b bs =>
      obtain ⟨rfl, hr⟩ := spell_cancel h
      rw [ih bs hr]

def spelledLibraries : Libraries where
  stableId := spelledId
  resolves resolution interrupt :=
    resolution.interruptId = interrupt.interruptId && resolution.runId = interrupt.runId
  checkSchema _ := none
  bestMatch _ _ := .ok none
  pyRepr _ := ""
  strDatetime _ := ""
  fixed0 _ := ""
  general _ := ""
  hashText name := name.length

/-! ## A calendar -/

/-- A number, digit by digit. -/
def spellNat (n : Nat) : List Part := (Nat.digits 10 n).map Part.number ++ [.none]

theorem spellNat_cancel {n m : Nat} {x y : List Part} (h : spellNat n ++ x = spellNat m ++ y) : n = m ∧ x = y := by
  suffices ∀ l k : List Nat, l.map Part.number ++ .none :: x = k.map Part.number ++ .none :: y → l = k ∧ x = y by
    obtain ⟨hd, hx⟩ := this _ _ (by simpa [spellNat] using h)
    exact ⟨Nat.digits_inj_iff.1 hd, hx⟩
  intro l
  induction l with
  | nil =>
    intro k h
    cases k with
    | nil => exact ⟨rfl, by simpa using h⟩
    | cons => simp at h
  | cons a l ih =>
    intro k h
    cases k with
    | nil => simp at h
    | cons b k =>
      simp only [List.map_cons, List.cons_append, List.cons.injEq, Part.number.injEq] at h
      obtain ⟨hl, hx⟩ := ih k h.2
      exact ⟨by rw [h.1, hl], hx⟩

/-- The instant and the offset, each in two numbers. -/
def spelledDatetime (d : AwareDatetime) : String :=
  spelledId "" (spellNat d.at_.num.toNat ++ (spellNat (-d.at_.num).toNat ++ (spellNat d.at_.den ++
    (spellNat d.offset.toNat ++ (spellNat (-d.offset).toNat ++ [])))))

theorem spelledDatetime_injective : Function.Injective spelledDatetime := by
  rintro ⟨x, i⟩ ⟨y, j⟩ h
  obtain ⟨hpos, h⟩ := spellNat_cancel (spelled_injective "" h)
  obtain ⟨hneg, h⟩ := spellNat_cancel h
  obtain ⟨hden, h⟩ := spellNat_cancel h
  obtain ⟨hup, h⟩ := spellNat_cancel h
  obtain ⟨hdown, -⟩ := spellNat_cancel h
  dsimp only at hpos hneg hden hup hdown
  have hx : x = y := Rat.ext (by omega) hden
  have hi : i = j := by omega
  rw [hx, hi]

def spelledCalendar : Calendar where
  isValid _ := true
  next _ _ after := ((after / 3600).floor + 1) * 3600
  next_gt _ _ after := by
    have h : after / 3600 < ((after / 3600).floor : Rat) + 1 := Int.lt_floor_add_one (after / 3600)
    exact (div_lt_iff₀ (by norm_num)).1 h
  isoformat := spelledDatetime
  isoformat_injective := spelledDatetime_injective
  strTimedelta _ := ""

/-! ## A small deployment -/

/-- One run per concurrency key, no other limit. -/
def smallStore : RunStore := ⟨spelledLibraries, none, 1, none⟩

/-- Run `"r"` of tenant `"t"`. -/
def smallStart : RunStart where
  runId := "r"
  tenantId := "t"
  agentId := "a"
  parentRunId := none
  threadId := none
  userId := none
  workspaceId := none
  onBehalfOf := none
  input := .null
  deadline := none
  timeoutSeconds := none
  idempotencyKey := none
  agentVersion := none
  priority := 0
  concurrencyKey := none
  metadata := []

/-- A lease of a minute. -/
def smallLease : LeaseSeconds := ⟨60, by decide⟩

/-- Its question. -/
def smallInterrupt : Interrupt where
  interruptId := "i"
  tenantId := "t"
  runId := "r"
  assignee := none
  escalateTo := none
  deadline := none
  expects := none
  optionValues := []
  multiple := false
  toolCall := none
  body := .null

def smallPause : RunPause := ⟨smallInterrupt, none⟩

/-- Its answer. -/
def smallResolution : InterruptResolution where
  interruptId := "i"
  runId := "r"
  decision := .ANSWER
  answer := .null
  payload := .null
  reviewer := none
  comment := none
  remember := .once
  resolvedAt := ⟨0, 0⟩

/-- Its success. -/
def smallFinish : RunFinish := ⟨.SUCCESS, .null, none, rfl, fun h => by cases h⟩

/-- The shortest wait. -/
def smallDraw : Draw := ⟨0, by norm_num⟩

/-- Schedules whose spec is valid as it is. -/
def smallSchedules : ScheduleStore := ⟨smallStore, spelledCalendar, some, fun _ => ""⟩

/-- An hourly schedule. -/
def smallSpec : ScheduleSpec where
  tenantId := "t"
  agentId := "a"
  name := "n"
  cadence := "hourly"
  timezone := "UTC"
  input := .null
  onBehalfOf := "u"
  workspaceId := none
  enabled := true
  timeoutSeconds := none
  agentVersion := none
  priority := 0
  concurrencyKey := none
  metadata := []

/-- Uploads to it, the digest of some bytes being themselves. -/
def smallArtifacts : ArtifactApi := ⟨smallStore, fun bytes => spelledId "" (bytes.map fun b => .number b.toNat)⟩

/-- A run in its caller's process starts, beside the uploads. -/
def smallBegin : UploadAct := .op (.start smallStart false false) rfl

/-- It succeeds. -/
def smallEnd : UploadAct := .op (.finish "t" "r" smallFinish none smallDraw) rfl

/-- The application's own key. -/
def smallKey : KeyInfo := ⟨"service:app", "service", ["*"]⟩

end AgentRuns
