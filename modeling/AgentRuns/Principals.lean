import AgentRuns.Answering
import Mathlib.Data.Option.Basic

/-!
# Names of principals, and the decisions made over them

A bare id is a user's: `priya` and `user:priya` are one person.  A reviewer and an assignee are
read so wherever they come from; a key's own principal and the list it may act for are compared
as they are written.  `Respelled` puts some of the names of a request in their canonical form
(`*` in the list is no name, it stands for anyone; the empty text is none either), and a decision
over a key that is not unrestricted depends on the spelling only through the names it holds bare:

    requireMayAnswer respelled decides as before   ↔  ¬ key.answersByForm assignee reviewer
    requireMayCancel respelled decides as before   ↔  ¬ key.cancelsByForm assignee
                                                              (decisions_up_to_form)
    requireMayCancel key assignee accepts   ↔   ∃ reviewer, requireMayAnswer accepts
                                                              (cancel_iff_some_answer)
-/

namespace AgentRuns

/-! ## Canonical names -/

theorem colon_mem_asPrincipal (name : String) : ':' ∈ (asPrincipal name).toList := by
  unfold asPrincipal
  by_cases h : ':' ∈ name.toList
  · rw [if_pos h]
    exact h
  · rw [if_neg h, String.toList_append]
    exact List.mem_append_left _ (by decide +kernel)

theorem asPrincipal_of_colon {name : String} (h : ':' ∈ name.toList) : asPrincipal name = name := if_pos h

@[simp] theorem asPrincipal_asPrincipal (name : String) : asPrincipal (asPrincipal name) = asPrincipal name :=
  asPrincipal_of_colon (colon_mem_asPrincipal name)

/-- `name` is written bare: without its kind. -/
def Bare (name : String) : Prop := name ≠ "" ∧ asPrincipal name ≠ name

theorem bare_iff {name : String} : Bare name ↔ name ≠ "" ∧ ':' ∉ name.toList := by
  unfold Bare
  refine and_congr_right fun _ => ?_
  constructor
  · intro h hc
    exact h (asPrincipal_of_colon hc)
  · intro h he
    exact h (he ▸ colon_mem_asPrincipal name)

theorem asPrincipal_of_bare {name : String} (h : Bare name) : asPrincipal name = "user:" ++ name :=
  if_neg (bare_iff.1 h).2

theorem asPrincipal_ne_star (name : String) : asPrincipal name ≠ "*" := by
  intro h
  have hc := colon_mem_asPrincipal name
  rw [h] at hc
  exact absurd hc (by decide)

theorem asPrincipal_ne_empty (name : String) : asPrincipal name ≠ "" := by
  intro h
  have hc := colon_mem_asPrincipal name
  rw [h] at hc
  exact absurd hc (by decide)

/-- A bare id names one person. -/
theorem individual_of_bare {name : String} (h : Bare name) :
    individualKinds.contains (kindOf (asPrincipal name)) = true := by
  have hk : kindOf (asPrincipal name) = "user" := by
    rw [asPrincipal_of_bare h, kindOf, String.toList_append]
    rfl
  rw [hk]
  decide

/-! ## The rule, in short -/

/-- An administrator's key, or one that may act for anyone. -/
def KeyInfo.unrestricted (key : KeyInfo) : Bool :=
  administeringRoles.contains key.role || key.mayActAs.contains "*"

/-- Whom the key answers as: itself, or one it may act for. -/
def KeyInfo.names (key : KeyInfo) : List String := key.principal :: key.mayActAs

/-- The reviewer a resolution names: `if reviewer`. -/
def named : Option String → Option String
  | some r => if r = "" then none else some r
  | none => none

/-- The principal the key answers as. -/
def KeyInfo.answering (key : KeyInfo) (reviewer : Option String) : String :=
  match named reviewer with
  | some r => asPrincipal r
  | none => key.principal

theorem requireMayAnswer_unrestricted {key : KeyInfo} (h : key.unrestricted = true)
    (assignee reviewer : Option String) : requireMayAnswer key assignee reviewer = .ok () := if_pos h

theorem mayActFor_iff {key : KeyInfo} (h : key.unrestricted = false) (name : String) :
    key.mayActFor name = true ↔ name ∈ key.names := by
  have hs : key.mayActAs.contains "*" = false := (Bool.or_eq_false_iff.1 h).2
  simp only [KeyInfo.mayActFor, KeyInfo.names, hs, Bool.or_false, Bool.or_eq_true, beq_iff_eq,
    List.contains_iff_mem, List.mem_cons]

/-- The run waits on nobody, or on the individual `answering`. -/
def assignedTo (assignee : Option String) (answering : String) : Prop :=
  ∀ a, assignee = some a → individualKinds.contains (kindOf (asPrincipal a)) = true ∧ asPrincipal a = answering

/-- The rule of a restricted key, once it is settled whom it answers as. -/
def KeyInfo.answersAs (key : KeyInfo) (answering : String) (assignee : Option String) : Prop :=
  answering ∈ key.names ∧ assignedTo assignee answering

/-- A restricted key answers as a name it holds, a run of that individual's or of nobody's. -/
theorem requireMayAnswer_iff {key : KeyInfo} (h : key.unrestricted = false) (assignee reviewer : Option String) :
    (requireMayAnswer key assignee reviewer).isOk = true ↔ key.answersAs (key.answering reviewer) assignee := by
  have hu : ¬ (administeringRoles.contains key.role || key.mayActAs.contains "*") = true := by
    intro h'
    rw [KeyInfo.unrestricted, h'] at h
    exact absurd h (by decide)
  unfold requireMayAnswer
  rw [if_neg hu]
  extract_lets allowed c
  have hc : c = key.answering reviewer := by
    rcases reviewer with _ | r
    · rfl
    · by_cases hr : r = "" <;> simp [c, KeyInfo.answering, named, hr]
  rw [← hc]
  clear_value c
  have hmay := mayActFor_iff h c
  by_cases hm : key.mayActFor c = true
  · have hn : c ∈ key.names := hmay.1 hm
    rcases assignee with _ | a
    · simp [KeyInfo.answersAs, assignedTo, hm, hn, Except.isOk, Except.toBool]
    · by_cases hi : individualKinds.contains (kindOf (asPrincipal a)) = true
      · by_cases he : asPrincipal a = c <;>
          simp_all [KeyInfo.answersAs, assignedTo, Except.isOk, Except.toBool]
      · simp_all [KeyInfo.answersAs, assignedTo, Except.isOk, Except.toBool]
  · have hn : c ∉ key.names := fun hn => hm (hmay.2 hn)
    simp [KeyInfo.answersAs, assignedTo, hm, hn, Except.isOk, Except.toBool]

/-- A restricted key cancels a run of an individual it holds the name of, or of nobody. -/
theorem requireMayCancel_iff {key : KeyInfo} (h : key.unrestricted = false) (a : String) (hne : a ≠ "") :
    (requireMayCancel key (some a)).isOk = true ↔
      individualKinds.contains (kindOf (asPrincipal a)) = true ∧ asPrincipal a ∈ key.names := by
  have hmay := mayActFor_iff h (asPrincipal a)
  unfold requireMayCancel
  by_cases hm : key.mayActFor (asPrincipal a) = true
  · have hans : key.answering (some a) = asPrincipal a := by simp [KeyInfo.answering, named, hne]
    simp only [hm, hne, ne_eq, not_false_eq_true, and_self, if_true, requireMayAnswer_iff h, hans]
    have hn := hmay.1 hm
    simp [KeyInfo.answersAs, assignedTo, hn]
  · have hans : key.answering none = key.principal := rfl
    simp only [hm, hne, ne_eq, not_false_eq_true, and_false, if_false, Bool.false_eq_true, requireMayAnswer_iff h,
      hans]
    constructor
    · rintro ⟨-, hall⟩
      obtain ⟨-, he⟩ := hall a rfl
      exact absurd (hmay.2 (he ▸ List.mem_cons_self)) hm
    · rintro ⟨-, hn⟩
      exact absurd (hmay.2 hn) hm

/-! ## Names spelled another way -/

/-- `name'` is `name`, or its canonical form. -/
def Respelled (name name' : String) : Prop := name' = name ∨ (name ≠ "" ∧ name' = asPrincipal name)

/-- A key with some of its names put in canonical form. -/
structure KeyInfo.Respelled (key key' : KeyInfo) : Prop where
  role : key'.role = key.role
  principal : AgentRuns.Respelled key.principal key'.principal
  mayActAs : List.Forall₂ (fun n n' => n' = n ∨ (n ≠ "*" ∧ AgentRuns.Respelled n n')) key.mayActAs key'.mayActAs

@[refl] theorem Respelled.refl (name : String) : Respelled name name := .inl rfl

theorem Respelled.asPrincipal {name name' : String} (h : Respelled name name') :
    asPrincipal name' = asPrincipal name := by
  rcases h with rfl | ⟨-, rfl⟩
  · rfl
  · exact asPrincipal_asPrincipal name

theorem Respelled.eq_empty {name name' : String} (h : Respelled name name') : name' = "" ↔ name = "" := by
  rcases h with rfl | ⟨hne, rfl⟩
  · rfl
  · exact iff_of_false (asPrincipal_ne_empty name) hne

theorem named_respelled {reviewer reviewer' : Option String} (h : Option.Rel Respelled reviewer reviewer') :
    (named reviewer').map asPrincipal = (named reviewer).map asPrincipal := by
  rcases h with ⟨hr⟩ | _
  · next r r' =>
    by_cases he : r = ""
    · simp [named, he, hr.eq_empty.2 he]
    · have he' : r' ≠ "" := fun h' => he (hr.eq_empty.1 h')
      simp [named, he, he', hr.asPrincipal]
  · rfl

/-- `*` comes of no name. -/
theorem contains_star {l l' : List String}
    (hl : List.Forall₂ (fun n n' => n' = n ∨ (n ≠ "*" ∧ AgentRuns.Respelled n n')) l l') :
    l'.contains "*" = l.contains "*" := by
  induction hl with
  | nil => rfl
  | @cons n n' l l' hn _ ih =>
    have hstar : ("*" == n') = ("*" == n) := by
      rcases hn with rfl | ⟨hne, rfl | ⟨-, rfl⟩⟩
      · rfl
      · rfl
      · have h1 := (asPrincipal_ne_star n).symm
        simp [h1, hne.symm]
    rw [List.contains_cons, List.contains_cons, ih, hstar]

theorem KeyInfo.Respelled.unrestricted {key key' : KeyInfo} (h : key.Respelled key') :
    key'.unrestricted = key.unrestricted := by
  unfold KeyInfo.unrestricted
  rw [h.role, contains_star h.mayActAs]

/-- Every name of the key is kept, as it was or in canonical form. -/
theorem KeyInfo.Respelled.kept {key key' : KeyInfo} (h : key.Respelled key') {name : String}
    (hn : name ∈ key.names) : ∃ name' ∈ key'.names, AgentRuns.Respelled name name' := by
  rcases List.mem_cons.1 hn with rfl | hn
  · exact ⟨key'.principal, List.mem_cons_self, h.principal⟩
  · obtain ⟨n', hn', hr⟩ := Fallible.exists_of_mem_left h.mayActAs hn
    exact ⟨n', List.mem_cons_of_mem _ hn', hr.elim Or.inl And.right⟩

/-- And every name it has afterwards came of one of its names. -/
theorem KeyInfo.Respelled.came {key key' : KeyInfo} (h : key.Respelled key') {name' : String}
    (hn : name' ∈ key'.names) : ∃ name ∈ key.names, AgentRuns.Respelled name name' := by
  rcases List.mem_cons.1 hn with rfl | hn
  · exact ⟨key.principal, List.mem_cons_self, h.principal⟩
  · obtain ⟨n, hn, hr⟩ := Fallible.exists_of_mem_right h.mayActAs hn
    exact ⟨n, List.mem_cons_of_mem _ hn, hr.elim Or.inl And.right⟩

/-- The key with each of its names in canonical form. -/
def KeyInfo.canonical (key : KeyInfo) : KeyInfo :=
  { key with
    principal := if key.principal = "" then "" else asPrincipal key.principal
    mayActAs := key.mayActAs.map fun n => if n = "" ∨ n = "*" then n else asPrincipal n }

theorem KeyInfo.canonical_respelled (key : KeyInfo) : key.Respelled key.canonical := by
  refine ⟨rfl, ?_, ?_⟩
  · by_cases h : key.principal = ""
    · left
      simp [KeyInfo.canonical, h]
    · right
      exact ⟨h, if_neg h⟩
  · show List.Forall₂ _ key.mayActAs (key.mayActAs.map _)
    rw [List.forall₂_map_right_iff, List.forall₂_same]
    intro n _
    by_cases h : n = "" ∨ n = "*"
    · left
      exact if_pos h
    · right
      obtain ⟨h1, h2⟩ := not_or.1 h
      exact ⟨h2, .inr ⟨h1, if_neg h⟩⟩

/-- `name` is in canonical form, and the key holds it in another one only. -/
def KeyInfo.onlyBare (key : KeyInfo) (name : String) : Prop :=
  name ∉ key.names ∧ ∃ n ∈ key.names, n ≠ "" ∧ asPrincipal n = name

theorem canonical_of_onlyBare {key : KeyInfo} (hu : key.unrestricted = false) {name : String}
    (h : key.onlyBare name) : name ∈ key.canonical.names := by
  obtain ⟨-, n, hn, hne, rfl⟩ := h
  have hs : key.mayActAs.contains "*" = false := (Bool.or_eq_false_iff.1 hu).2
  rcases List.mem_cons.1 hn with rfl | hn
  · show _ ∈ (if key.principal = "" then "" else asPrincipal key.principal) :: _
    rw [if_neg hne]
    exact List.mem_cons_self
  · refine List.mem_cons_of_mem _ (List.mem_map.2 ⟨n, hn, if_neg ?_⟩)
    rintro (h | rfl)
    · exact hne h
    · rw [List.contains_iff_mem.2 hn] at hs
      exact absurd hs (by decide)

/-- A canonical name is held whatever the spelling. -/
theorem KeyInfo.Respelled.held {key key' : KeyInfo} (h : key.Respelled key') {name : String}
    (hc : asPrincipal name = name) (hn : name ∈ key.names) : name ∈ key'.names := by
  obtain ⟨n', hn', rfl | ⟨-, he⟩⟩ := h.kept hn
  · exact hn'
  · rw [← hc, ← he]
    exact hn'

/-- A name comes to be held by respelling only where it was held bare. -/
theorem KeyInfo.Respelled.gained {key key' : KeyInfo} (h : key.Respelled key') {name : String}
    (hn : name ∈ key'.names) : name ∈ key.names ∨ key.onlyBare name := by
  by_cases hk : name ∈ key.names
  · exact .inl hk
  · obtain ⟨n, hn', rfl | ⟨hne, he⟩⟩ := h.came hn
    · exact .inl hn'
    · exact .inr ⟨hk, n, hn', hne, he.symm⟩

theorem onlyBare_individual {key : KeyInfo} {name : String} (h : key.onlyBare name) :
    individualKinds.contains (kindOf name) = true := by
  obtain ⟨hn, n, hmem, hne, rfl⟩ := h
  refine individual_of_bare ⟨hne, fun he => hn ?_⟩
  rw [he]
  exact hmem

theorem assignedTo_respelled {assignee assignee' : Option String} (h : Option.Rel Respelled assignee assignee')
    (name : String) : assignedTo assignee' name ↔ assignedTo assignee name := by
  rcases h with ⟨ha⟩ | _
  · simp [assignedTo, ha.asPrincipal]
  · rfl

/-! ## Decisions up to the form of a name -/

/-- The answer hangs on a name the restricted key holds bare: the reviewer's, in the list or as
its own, or the key's own where no reviewer is named. -/
def KeyInfo.answersByForm (key : KeyInfo) (assignee reviewer : Option String) : Prop :=
  key.unrestricted = false ∧
    match named reviewer with
    | some r => key.onlyBare (asPrincipal r) ∧ assignedTo assignee (asPrincipal r)
    | none => Bare key.principal ∧ assignee.map asPrincipal = some (asPrincipal key.principal)

/-- The cancel hangs on the assignee's name, which the restricted key holds bare. -/
def KeyInfo.cancelsByForm (key : KeyInfo) (assignee : Option String) : Prop :=
  key.unrestricted = false ∧ ∃ a, assignee = some a ∧ a ≠ "" ∧ key.onlyBare (asPrincipal a)

theorem isOk_eq_iff {ε : Type} {x y : Except ε Unit} : x.isOk = y.isOk ↔ (x.isOk = true ↔ y.isOk = true) :=
  Bool.eq_iff_iff

/-- A named reviewer is answered for alike, unless the key holds that name bare. -/
theorem answersAs_named {key key' : KeyInfo} (hk : key.Respelled key') {assignee assignee' : Option String}
    (ha : Option.Rel Respelled assignee assignee') {name : String} (hc : asPrincipal name = name)
    (hb : ¬ (key.onlyBare name ∧ assignedTo assignee name)) :
    key'.answersAs name assignee' ↔ key.answersAs name assignee := by
  unfold KeyInfo.answersAs
  rw [assignedTo_respelled ha]
  refine and_congr_left fun hto => ⟨fun hn => ?_, hk.held hc⟩
  rcases hk.gained hn with h | h
  · exact h
  · exact absurd ⟨h, hto⟩ hb

/-- The key answers as itself alike, unless its own name is bare and the run is assigned to it. -/
theorem answersAs_self {key key' : KeyInfo} (hk : key.Respelled key') {assignee assignee' : Option String}
    (ha : Option.Rel Respelled assignee assignee')
    (hb : ¬ (Bare key.principal ∧ assignee.map asPrincipal = some (asPrincipal key.principal))) :
    key'.answersAs key'.principal assignee' ↔ key.answersAs key.principal assignee := by
  have h1 : key.principal ∈ key.names := List.mem_cons_self
  have h2 : key'.principal ∈ key'.names := List.mem_cons_self
  simp only [KeyInfo.answersAs, h1, h2, true_and, assignedTo_respelled ha]
  rcases hk.principal with he | ⟨hne, he⟩
  · rw [he]
  · by_cases hbare : asPrincipal key.principal = key.principal
    · rw [he, hbare]
    · -- the bare principal is no canonical name: neither spelling is the assignee
      rw [he]
      refine forall₂_congr fun a hae => and_congr_right fun _ => iff_of_false ?_ ?_
      · intro h
        refine hb ⟨⟨hne, hbare⟩, ?_⟩
        rw [hae, Option.map_some, h]
      · intro h
        rw [← h, asPrincipal_asPrincipal] at hbare
        exact hbare rfl

theorem requireMayAnswer_respelled {key key' : KeyInfo} {assignee assignee' reviewer reviewer' : Option String}
    (hk : key.Respelled key') (ha : Option.Rel Respelled assignee assignee')
    (hr : Option.Rel Respelled reviewer reviewer') (hb : ¬ key.answersByForm assignee reviewer) :
    (requireMayAnswer key' assignee' reviewer').isOk = (requireMayAnswer key assignee reviewer).isOk := by
  by_cases hu : key.unrestricted = true
  · rw [requireMayAnswer_unrestricted hu, requireMayAnswer_unrestricted (hk.unrestricted.trans hu)]
  · have hu := Bool.eq_false_iff.2 hu
    rw [isOk_eq_iff, requireMayAnswer_iff hu, requireMayAnswer_iff (hk.unrestricted.trans hu)]
    have hn := named_respelled hr
    have hb : ¬ _ := fun h => hb ⟨hu, h⟩
    unfold KeyInfo.answering
    rcases h : named reviewer with _ | r <;> rcases h' : named reviewer' with _ | r' <;>
      simp only [h, h', Option.map_some, Option.map_none, Option.some.injEq, reduceCtorEq] at hn hb ⊢
    · exact answersAs_self hk ha hb
    · rw [hn]
      exact answersAs_named hk ha (asPrincipal_asPrincipal r) hb

theorem requireMayCancel_respelled {key key' : KeyInfo} {assignee assignee' : Option String}
    (hk : key.Respelled key') (ha : Option.Rel Respelled assignee assignee') (hb : ¬ key.cancelsByForm assignee) :
    (requireMayCancel key' assignee').isOk = (requireMayCancel key assignee).isOk := by
  by_cases hu : key.unrestricted = true
  · unfold requireMayCancel
    rw [requireMayAnswer_unrestricted hu, requireMayAnswer_unrestricted (hk.unrestricted.trans hu)]
  · have hu := Bool.eq_false_iff.2 hu
    have hu' := hk.unrestricted.trans hu
    rcases ha with @⟨a, a', ha⟩ | _
    · by_cases he : a = ""
      · -- the empty text is no name: nothing but the key is spelled another way
        have he' := ha.eq_empty.2 he
        have hp : (requireMayAnswer key' (some "") none).isOk = (requireMayAnswer key (some "") none).isOk := by
          refine requireMayAnswer_respelled hk (.some (.refl "")) .none ?_
          rintro ⟨-, hbare, hx⟩
          rw [asPrincipal_of_bare hbare, Option.map_some, Option.some.injEq] at hx
          have hlist : ("user:" : String).toList ++ key.principal.toList = "user:".toList ++ "".toList := by
            rw [← String.toList_append, ← hx]
            decide +kernel
          exact hbare.1 (String.toList_inj.1 (List.append_cancel_left hlist))
        simpa [requireMayCancel, he, he'] using hp
      · have he' : a' ≠ "" := fun h => he (ha.eq_empty.1 h)
        rw [isOk_eq_iff, requireMayCancel_iff hu a he, requireMayCancel_iff hu' a' he', ha.asPrincipal]
        refine and_congr_right fun _ => ⟨fun hn => ?_, hk.held (asPrincipal_asPrincipal a)⟩
        rcases hk.gained hn with h | h
        · exact h
        · exact absurd ⟨hu, a, rfl, he, h⟩ hb
    · rw [requireMayCancel_nobody, requireMayCancel_nobody]

theorem rel_refl : ∀ name : Option String, Option.Rel Respelled name name
  | none => .none
  | some n => .some (.refl n)

/-- The decisions are the same under every spelling of the names in the key and the request
exactly where none hangs on a name the restricted key holds bare. -/
theorem decisions_up_to_form (key : KeyInfo) (assignee reviewer : Option String) :
    ((∀ key' assignee' reviewer', key.Respelled key' → Option.Rel Respelled assignee assignee' →
        Option.Rel Respelled reviewer reviewer' →
        (requireMayAnswer key' assignee' reviewer').isOk = (requireMayAnswer key assignee reviewer).isOk) ↔
      ¬ key.answersByForm assignee reviewer) ∧
    ((∀ key' assignee', key.Respelled key' → Option.Rel Respelled assignee assignee' →
        (requireMayCancel key' assignee').isOk = (requireMayCancel key assignee).isOk) ↔
      ¬ key.cancelsByForm assignee) := by
  have hk := key.canonical_respelled
  refine ⟨⟨fun hall hb => ?_, fun hb key' a' r' h ha hr => requireMayAnswer_respelled h ha hr hb⟩,
    ⟨fun hall hb => ?_, fun hb key' a' h ha => requireMayCancel_respelled h ha hb⟩⟩
  · have hall := hall key.canonical assignee reviewer hk (rel_refl _) (rel_refl _)
    obtain ⟨hu, hb⟩ := hb
    rw [isOk_eq_iff, requireMayAnswer_iff hu, requireMayAnswer_iff (hk.unrestricted.trans hu)] at hall
    unfold KeyInfo.answering at hall
    rcases h : named reviewer with _ | r <;> rw [h] at hb hall
    · obtain ⟨hbare, hmap⟩ := hb
      obtain ⟨a, rfl, ha⟩ := Option.map_eq_some_iff.1 hmap
      have hp : key.canonical.principal = asPrincipal key.principal := if_neg hbare.1
      have hyes : key.canonical.answersAs key.canonical.principal (some a) := by
        refine ⟨List.mem_cons_self, ?_⟩
        rintro _ ⟨⟩
        rw [hp, ha]
        exact ⟨individual_of_bare hbare, rfl⟩
      obtain ⟨-, hto⟩ := hall.1 hyes
      exact hbare.2 (ha ▸ (hto a rfl).2)
    · obtain ⟨hb, hto⟩ := hb
      exact hb.1 (hall.1 ⟨canonical_of_onlyBare hu hb, hto⟩).1
  · obtain ⟨hu, a, rfl, hne, hb⟩ := hb
    have hall := hall key.canonical (some a) hk (rel_refl _)
    rw [isOk_eq_iff, requireMayCancel_iff hu a hne, requireMayCancel_iff (hk.unrestricted.trans hu) a hne] at hall
    exact hb.1 (hall.1 ⟨onlyBare_individual hb, canonical_of_onlyBare hu hb⟩).2

/-- A key that may act for `priya` may not answer the run assigned to `user:priya` as `priya`;
the same key listing `user:priya` may. -/
theorem bare_in_the_list_locks_out :
    let key : KeyInfo := ⟨"key:k", "service", ["priya"]⟩
    let key' : KeyInfo := ⟨"key:k", "service", ["user:priya"]⟩
    key.Respelled key' ∧ (requireMayAnswer key (some "user:priya") (some "priya")).isOk = false ∧
      (requireMayAnswer key' (some "user:priya") (some "priya")).isOk = true ∧
      (requireMayCancel key (some "user:priya")).isOk = false ∧
      (requireMayCancel key' (some "user:priya")).isOk = true := by
  refine ⟨⟨rfl, .refl _, .cons (.inr ⟨by decide, .inr ⟨by decide, by decide +kernel⟩⟩) .nil⟩, ?_⟩
  decide +kernel

/-! ## Cancelling and answering -/

/-- Who may cancel a run may answer it as some reviewer, and the other way round. -/
theorem cancel_iff_some_answer (key : KeyInfo) (assignee : Option String) (hne : assignee ≠ some "") :
    requireMayCancel key assignee = .ok () ↔ ∃ reviewer, requireMayAnswer key assignee reviewer = .ok () := by
  have hok : ∀ {x : Except ServiceError Unit}, x = .ok () ↔ x.isOk = true := by
    intro x
    cases x <;> simp [Except.isOk, Except.toBool]
  constructor
  · -- the reviewer is the one the cancel answers as
    intro h
    exact ⟨_, h⟩
  · rintro ⟨reviewer, h⟩
    by_cases hu : key.unrestricted = true
    · exact requireMayAnswer_unrestricted hu _ _
    · have hu := Bool.eq_false_iff.2 hu
      rcases assignee with _ | a
      · exact requireMayCancel_nobody key
      · have ha : a ≠ "" := fun he => hne (congrArg some he)
        obtain ⟨hn, hto⟩ := (requireMayAnswer_iff hu _ _).1 (hok.1 h)
        obtain ⟨hi, he⟩ := hto a rfl
        rw [hok, requireMayCancel_iff hu a ha, he]
        exact ⟨he ▸ hi, hn⟩

theorem cancel_iff_some_answer_priya :
    requireMayCancel ⟨"key:k", "service", ["user:priya"]⟩ (some "priya") = .ok () ↔
      ∃ reviewer, requireMayAnswer ⟨"key:k", "service", ["user:priya"]⟩ (some "priya") reviewer = .ok () :=
  cancel_iff_some_answer _ _ (by decide)

end AgentRuns
