import Mathlib.Algebra.Order.Ring.Rat

/-!
# JSON values

What a request body, a JSONB column and `json.dumps` agree on.  A number is its value together
with the text Python writes it as; an object's members stand in the order of their names, so
that two dicts equal in Python are one list here.

* `pyEq`: Python's `==` on JSON values: numbers by value, and `True == 1`, `False == 0`.
* `dumpsSize`: `len(json.dumps(value, separators=(",", ":"), ensure_ascii=False).encode())`.
* `storable`: PostgreSQL takes no text that holds NUL, in a text column or inside JSONB.
-/

namespace AgentRuns

inductive Json where
  | null
  | bool (b : Bool)
  | num (value : Rat) (text : String)
  | str (s : String)
  | arr (items : List Json)
  | obj (members : List (String × Json))

namespace Json

/-- The number Python compares a bool as. -/
def ofBool (b : Bool) : Rat := if b then 1 else 0

mutual

/-- Python's `a == b`. -/
def pyEq : Json → Json → Bool
  | null, null => true
  | bool a, bool b => a == b
  | bool a, num v _ => ofBool a == v
  | num v _, bool b => v == ofBool b
  | num v _, num w _ => v == w
  | str s, str t => s == t
  | arr xs, arr ys => pyEqItems xs ys
  | obj ms, obj ns => pyEqMembers ms ns
  | _, _ => false

def pyEqItems : List Json → List Json → Bool
  | [], [] => true
  | x :: xs, y :: ys => pyEq x y && pyEqItems xs ys
  | _, _ => false

def pyEqMembers : List (String × Json) → List (String × Json) → Bool
  | [], [] => true
  | (k, x) :: ms, (l, y) :: ns => k == l && pyEq x y && pyEqMembers ms ns
  | _, _ => false

end

mutual

@[simp] theorem pyEq_refl : ∀ j : Json, pyEq j j = true
  | null => by simp [pyEq]
  | bool _ => by simp [pyEq]
  | num _ _ => by simp [pyEq]
  | str _ => by simp [pyEq]
  | arr xs => by simp [pyEq, pyEqItems_refl xs]
  | obj ms => by simp [pyEq, pyEqMembers_refl ms]

theorem pyEqItems_refl : ∀ xs : List Json, pyEqItems xs xs = true
  | [] => by simp [pyEqItems]
  | x :: xs => by simp [pyEqItems, pyEq_refl x, pyEqItems_refl xs]

theorem pyEqMembers_refl : ∀ ms : List (String × Json), pyEqMembers ms ms = true
  | [] => by simp [pyEqMembers]
  | (_, x) :: ms => by simp [pyEqMembers, pyEq_refl x, pyEqMembers_refl ms]

end

/-- Bytes of one character inside a JSON string (`json.encoder.ESCAPE`, UTF-8 otherwise). -/
def escapedSize (c : Char) : Nat :=
  if c = '"' ∨ c = '\\' ∨ c = '\n' ∨ c = '\r' ∨ c = '\t' ∨ c = '\x0c' ∨ c = '\x08' then 2
  else if c.toNat < 0x20 then 6
  else c.utf8Size

/-- Bytes of a JSON string, its quotes included. -/
def stringSize (s : String) : Nat := s.toList.foldl (fun size c => size + escapedSize c) 2

mutual

/-- Bytes of the value as compact JSON. -/
def dumpsSize : Json → Nat
  | null => 4
  | bool b => if b then 4 else 5
  | num _ text => text.utf8ByteSize
  | str s => stringSize s
  | arr xs => 2 + (xs.length - 1) + itemsSize xs
  | obj ms => 2 + (ms.length - 1) + membersSize ms

def itemsSize : List Json → Nat
  | [] => 0
  | x :: xs => dumpsSize x + itemsSize xs

def membersSize : List (String × Json) → Nat
  | [] => 0
  | (k, x) :: ms => stringSize k + 1 + dumpsSize x + membersSize ms

end

/-- `{"a":[1,true]}` is 14 bytes. -/
example : dumpsSize (obj [("a", arr [num 1 "1", bool true])]) = 14 := by decide

/-- No NUL in a text. -/
def textStorable (s : String) : Bool := s.toList.all (· != '\x00')

theorem textStorable_append (s t : String) : textStorable (s ++ t) = (textStorable s && textStorable t) := by
  unfold textStorable
  rw [String.toList_append, List.all_append]

mutual

/-- Does a JSONB column take the value? -/
def storable : Json → Bool
  | null | bool _ | num _ _ => true
  | str s => textStorable s
  | arr xs => itemsStorable xs
  | obj ms => membersStorable ms

def itemsStorable : List Json → Bool
  | [] => true
  | x :: xs => storable x && itemsStorable xs

def membersStorable : List (String × Json) → Bool
  | [] => true
  | (k, x) :: ms => textStorable k && storable x && membersStorable ms

end

end Json

/-- Does a `varchar(n)` column take the text? -/
def fitsVarchar (n : Nat) (s : String) : Bool := decide (s.length ≤ n) && Json.textStorable s

/-- Does a nullable `varchar(n)` column take it? -/
def fitsVarchar? (n : Nat) : Option String → Bool
  | none => true
  | some s => fitsVarchar n s

@[simp] theorem fitsVarchar?_none (n : Nat) : fitsVarchar? n none = true := rfl

end AgentRuns
