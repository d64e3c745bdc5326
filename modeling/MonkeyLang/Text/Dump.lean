/-!
# Constructor text

One-line text of a data value: a constructor's name with its arguments, a record with its named
fields, or a list.
-/

namespace MonkeyLang.Text.Dump

/-- `a, b, c` -/
def commaSep (items : List String) : String := ", ".intercalate items

/-- `[a, b]` -/
def list (items : List String) : String := "[" ++ commaSep items ++ "]"

/-- `(a, b)` -/
def pair (a b : String) : String := "(" ++ a ++ ", " ++ b ++ ")"

/-- `Name(a, b)` -/
def constructed (name : String) (args : List String) : String :=
  name ++ "(" ++ commaSep args ++ ")"

/-- `Name \x7b field: a, other: b \x7d`, braces around the fields. -/
def record (name : String) (fields : List (String × String)) : String :=
  name ++ " \x7b " ++ commaSep (fields.map fun f => f.1 ++ ": " ++ f.2) ++ " \x7d"

end MonkeyLang.Text.Dump
