import Mathlib.Data.List.Basic

/-!
# Lines of a text

`str.splitlines`: a text cut behind each line boundary, `\r\n` being one, with the boundaries left out.

    splitlines (l ++ '\n' :: text)  =  l :: splitlines text       when `l` holds no boundary      (splitlines_line)

A text written line by line is read line by line (`splitlines_terminated`), and no line that is read holds
a boundary (`boundary_of_mem_splitlines`).
-/

namespace Lines

/-- A boundary of `str.splitlines`. -/
def boundary (c : Char) : Bool :=
  ['\n', '\r', '\x0b', '\x0c', '\x1c', '\x1d', '\x1e', '\x85', '\u2028', '\u2029'].contains c

def splitlines : List Char → List (List Char)
  | [] => []
  | '\r' :: '\n' :: cs => [] :: splitlines cs
  | c :: cs =>
    if boundary c then [] :: splitlines cs
    else
      match splitlines cs with
      | [] => [[c]]
      | l :: ls => (c :: l) :: ls

/-- The lines, each with its end. -/
def terminated (ls : List (List Char)) : List Char := ls.flatMap (· ++ ['\n'])

theorem terminated_cons (l : List Char) (ls : List (List Char)) :
    terminated (l :: ls) = l ++ '\n' :: terminated ls := by
  simp [terminated]

theorem terminated_append (ls ms : List (List Char)) : terminated (ls ++ ms) = terminated ls ++ terminated ms :=
  List.flatMap_append

theorem splitlines_newline (cs : List Char) : splitlines ('\n' :: cs) = [] :: splitlines cs := by
  rw [splitlines]
  · rfl
  · intro _ h
    cases h

theorem splitlines_cons {c : Char} {cs l : List Char} {ls : List (List Char)} (hc : boundary c = false)
    (h : splitlines cs = l :: ls) : splitlines (c :: cs) = (c :: l) :: ls := by
  rw [splitlines, hc, h]
  · rfl
  · rintro _ rfl
    cases hc

theorem splitlines_line {l : List Char} (hl : ∀ c ∈ l, boundary c = false) (cs : List Char) :
    splitlines (l ++ '\n' :: cs) = l :: splitlines cs := by
  induction l with
  | nil => exact splitlines_newline cs
  | cons c l ih =>
    exact splitlines_cons (hl c List.mem_cons_self) (ih fun d hd => hl d (List.mem_cons_of_mem _ hd))

/-- What was written as lines is read as these lines. -/
theorem splitlines_terminated {ls : List (List Char)} (hl : ∀ l ∈ ls, ∀ c ∈ l, boundary c = false) :
    splitlines (terminated ls) = ls := by
  induction ls with
  | nil => rfl
  | cons l ls ih =>
    rw [terminated_cons, splitlines_line (hl l List.mem_cons_self),
      ih fun m hm => hl m (List.mem_cons_of_mem _ hm)]

/-- A line that is read holds no boundary. -/
theorem boundary_of_mem_splitlines {text l : List Char} (hl : l ∈ splitlines text) {c : Char} (hc : c ∈ l) :
    boundary c = false := by
  induction text using splitlines.induct generalizing l with
  | case1 => cases hl
  | case2 cs ih =>
    rw [splitlines] at hl
    rcases List.mem_cons.1 hl with rfl | hl
    · cases hc
    · exact ih hl hc
  | case3 d cs hd hb ih =>
    rw [splitlines, if_pos hb] at hl
    · rcases List.mem_cons.1 hl with rfl | hl
      · cases hc
      · exact ih hl hc
    · exact hd
  | case4 d cs hd hb hn =>
    rw [splitlines, if_neg hb, hn] at hl
    · cases List.mem_singleton.1 hl
      cases List.mem_singleton.1 hc
      simpa using hb
    · exact hd
  | case5 d cs hd hb m ms hm ih =>
    rw [splitlines, if_neg hb, hm] at hl
    · rcases List.mem_cons.1 hl with rfl | hl
      · rcases List.mem_cons.1 hc with rfl | hc
        · simpa using hb
        · exact ih (hm ▸ List.mem_cons_self) hc
      · exact ih (hm ▸ List.mem_cons_of_mem _ hl) hc
    · exact hd

/-- A line end counts once, and the last line need not have one. -/
example : splitlines "a\r\nb\n\nc".toList = ["a".toList, "b".toList, [], "c".toList] := by decide +kernel

end Lines
