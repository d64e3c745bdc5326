import MonkeyLang.Json.Basic

/-!
# Writing JSON

`compact` writes a value with no blanks, `pretty` with one item or member a line, two spaces
deeper at each level; an empty list or object stays on its line.  Strings escape quote, backslash
and the controls below space, all else stands as it is.
-/

namespace MonkeyLang.Json

def hexPair (n : Nat) : String :=
  String.ofList [Nat.digitChar (n / 16), Nat.digitChar (n % 16)]

/-- A character in a string: quote, backslash and control characters are escaped. -/
def escaped (c : Char) : String :=
  match c with
  | '"' => "\\\""
  | '\\' => "\\\\"
  | '\x08' => "\\b"
  | '\x0c' => "\\f"
  | '\n' => "\\n"
  | '\r' => "\\r"
  | '\t' => "\\t"
  | c => if c.toNat < 0x20 then "\\u00" ++ hexPair c.toNat else String.singleton c

def quote (s : String) : String := (s.foldl (fun acc c => acc ++ escaped c) "\"").push '"'

/-- The text of a value that holds no others. -/
def leaf : Json → String
  | .null => "null"
  | .bool b => if b then "true" else "false"
  | .int n => toString n
  | .decimal text => text
  | .str s => quote s
  | .arr _ => "[]"
  | .obj _ => "\x7b\x7d"

mutual

/-- Puts a value behind `text`. -/
def compactOnto (text : String) : Json → String
  | .arr (j :: js) => compactItems (j.compactOnto (text ++ "[")) js ++ "]"
  | .obj ((name, j) :: ms) =>
    compactMembers (j.compactOnto (text ++ "\x7b" ++ quote name ++ ":")) ms ++ "\x7d"
  | j => text ++ j.leaf

/-- Puts the items after a first one behind `text`. -/
def compactItems (text : String) : List Json → String
  | [] => text
  | j :: js => compactItems (j.compactOnto (text ++ ",")) js

def compactMembers (text : String) : List (String × Json) → String
  | [] => text
  | (name, j) :: ms => compactMembers (j.compactOnto (text ++ "," ++ quote name ++ ":")) ms

end

/-- The text with no blanks between its parts. -/
def compact (j : Json) : String := j.compactOnto ""

/-- A line end, and the blanks at the start of a line of that level, behind `text`. -/
def newline (text : String) (level : Nat) : String :=
  (List.replicate (2 * level) ' ').foldl String.push (text ++ "\n")

mutual

/-- Puts a value that starts on a line of that level behind `text`. -/
def prettyOnto (text : String) (level : Nat) : Json → String
  | .arr (j :: js) =>
    let text := j.prettyOnto (newline (text ++ "[") (level + 1)) (level + 1)
    newline (prettyItems text (level + 1) js) level ++ "]"
  | .obj ((name, j) :: ms) =>
    let text := newline (text ++ "\x7b") (level + 1) ++ quote name ++ ": "
    let text := j.prettyOnto text (level + 1)
    newline (prettyMembers text (level + 1) ms) level ++ "\x7d"
  | j => text ++ j.leaf

def prettyItems (text : String) (level : Nat) : List Json → String
  | [] => text
  | j :: js => prettyItems (j.prettyOnto (newline (text ++ ",") level) level) level js

def prettyMembers (text : String) (level : Nat) : List (String × Json) → String
  | [] => text
  | (name, j) :: ms =>
    let text := newline (text ++ ",") level ++ quote name ++ ": "
    prettyMembers (j.prettyOnto text level) level ms

end

/-- The text with each item and member on a line of its own. -/
def pretty (j : Json) : String := j.prettyOnto "" 0

end MonkeyLang.Json
