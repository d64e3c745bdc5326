/-!
# JSON values

Whole numbers are kept as integers.  A number written with a fraction, an exponent or as `-0` is
not whole, even where its value is, and is kept as its text.
-/

namespace MonkeyLang

/-- Values of JSON.  A number that is no whole one keeps its text. -/
inductive Json where
  | null
  | bool (b : Bool)
  | int (n : Int)
  | decimal (text : String)
  | str (s : String)
  | arr (items : List Json)
  /-- The members in the order they are written. -/
  | obj (members : List (String × Json))
deriving Inhabited

namespace Json

/-- The last member of that name. -/
def member? (members : List (String × Json)) (name : String) : Option Json :=
  members.reverse.lookup name

/-- The member of an object, if the value is one and has it. -/
def field? (name : String) : Json → Option Json
  | .obj members => member? members name
  | _ => none

def str? : Json → Option String
  | .str s => some s
  | _ => none

def int? : Json → Option Int
  | .int n => some n
  | _ => none

def bool? : Json → Option Bool
  | .bool b => some b
  | _ => none

def arr? : Json → Option (List Json)
  | .arr items => some items
  | _ => none

/-- A whole number of 64 bits without sign. -/
def size? (j : Json) : Option Nat := do
  let n ← j.int?
  if 0 ≤ n ∧ n < 0x10000000000000000 then some n.toNat else none

/-- A whole number of 64 bits with sign. -/
def int64? (j : Json) : Option Int64 := do
  let n ← j.int?
  if -0x8000000000000000 ≤ n ∧ n < 0x8000000000000000 then some (Int64.ofInt n) else none

mutual

/-- The number of values on the longest way down. -/
def height : Json → Nat
  | .arr items => heightItems 0 items + 1
  | .obj members => heightMembers 0 members + 1
  | _ => 1

/-- The height of the highest item, or `most` if that is more. -/
def heightItems (most : Nat) : List Json → Nat
  | [] => most
  | j :: js => heightItems (max most j.height) js

def heightMembers (most : Nat) : List (String × Json) → Nat
  | [] => most
  | (_, j) :: ms => heightMembers (max most j.height) ms

end

end Json

end MonkeyLang
