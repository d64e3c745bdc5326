import MonkeyLang.Json.Basic
import MonkeyLang.Text.Digits

/-!
# Reading JSON

`read` takes a text that is one JSON value with blanks around it, and refuses all else.  Each
reader takes what it reads off the head of the text.  The readers of nested values carry the
number of steps they may still take; a text twice as long as that many characters has no more
steps in it, so none is refused for want of them.
-/

namespace MonkeyLang.Json

/-- The blanks between the parts of a text. -/
def isSpace (c : Char) : Bool := c == ' ' || c == '\t' || c == '\n' || c == '\r'

def skipSpace (cs : List Char) : List Char := cs.dropWhile isSpace

/-- The rest of a text that starts with these characters. -/
def skip? : (expected cs : List Char) → Option (List Char)
  | [], cs => some cs
  | e :: es, c :: cs => if e = c then skip? es cs else none
  | _ :: _, [] => none

/-- The value of a hexadecimal digit, small or capital. -/
def hexValue? (c : Char) : Option Nat :=
  if c.isDigit then some (Text.digitValue c)
  else if 'a' ≤ c ∧ c ≤ 'f' then some (c.toNat - 'a'.toNat + 10)
  else if 'A' ≤ c ∧ c ≤ 'F' then some (c.toNat - 'A'.toNat + 10)
  else none

/-- Four hexadecimal digits. -/
def readUnit : List Char → Option (Nat × List Char)
  | a :: b :: c :: d :: cs => do
    let a ← hexValue? a
    let b ← hexValue? b
    let c ← hexValue? c
    let d ← hexValue? d
    return (((a * 16 + b) * 16 + c) * 16 + d, cs)
  | _ => none

/-- The character of a number escape, whose backslash and `u` are taken off: one unit, or a high
surrogate followed by the escape of a low one. -/
def readCodePoint (cs : List Char) : Option (Char × List Char) := do
  let (n, cs) ← readUnit cs
  if 0xD800 ≤ n ∧ n < 0xDC00 then
    let cs ← skip? ['\\', 'u'] cs
    let (m, cs) ← readUnit cs
    if 0xDC00 ≤ m ∧ m < 0xE000 then
      return (Char.ofNat (0x10000 + (n - 0xD800) * 0x400 + (m - 0xDC00)), cs)
    else none
  else if n.isValidChar then return (Char.ofNat n, cs)
  else none

/-- The character behind a backslash, `u` apart. -/
def escape? (c : Char) : Option Char :=
  match c with
  | '"' => some '"'
  | '\\' => some '\\'
  | '/' => some '/'
  | 'b' => some '\x08'
  | 'f' => some '\x0c'
  | 'n' => some '\n'
  | 'r' => some '\r'
  | 't' => some '\t'
  | _ => none

/-- The rest of a string, whose opening quote is taken off, behind `text`. -/
def readString : (steps : Nat) → (text : String) → List Char → Option (String × List Char)
  | 0, _, _ => none
  | steps + 1, text, cs =>
    match cs with
    | '"' :: cs => some (text, cs)
    | '\\' :: 'u' :: cs =>
      match readCodePoint cs with
      | some (c, cs) => readString steps (text.push c) cs
      | none => none
    | '\\' :: c :: cs =>
      match escape? c with
      | some e => readString steps (text.push e) cs
      | none => none
    | c :: cs => if c = '\\' ∨ c.toNat < 0x20 then none else readString steps (text.push c) cs
    | [] => none

def takeDigits (cs : List Char) : List Char × List Char :=
  (cs.takeWhile Char.isDigit, cs.dropWhile Char.isDigit)

/-- The digits behind a number's whole part: a point with at least one. -/
def readFraction : List Char → Option (List Char × List Char)
  | '.' :: cs =>
    let (ds, rest) := takeDigits cs
    if ds.isEmpty then none else some ('.' :: ds, rest)
  | cs => some ([], cs)

/-- A power of ten behind a number, if there is one. -/
def readExponent : List Char → Option (List Char × List Char)
  | c :: cs =>
    if c = 'e' ∨ c = 'E' then
      let (sign, cs) := match cs with
        | '+' :: cs => (['+'], cs)
        | '-' :: cs => (['-'], cs)
        | cs => ([], cs)
      let (ds, rest) := takeDigits cs
      if ds.isEmpty then none else some (c :: sign ++ ds, rest)
    else some ([], c :: cs)
  | [] => some ([], [])

/-- A whole number without sign: no digit follows a leading zero. -/
def readWhole (cs : List Char) : Option (List Char × List Char) :=
  match takeDigits cs with
  | ([], _) => none
  | ('0' :: _ :: _, _) => none
  | (ds, rest) => some (ds, rest)

/-- A number.  It is an integer if it has neither fraction nor exponent; `-0` is none. -/
def readNumber (cs : List Char) : Option (Json × List Char) := do
  let (negative, cs) := match cs with
    | '-' :: cs => (true, cs)
    | cs => (false, cs)
  let (whole, cs) ← readWhole cs
  let (fraction, cs) ← readFraction cs
  let (exponent, cs) ← readExponent cs
  let n := Text.natOfDigits whole
  if fraction.isEmpty && exponent.isEmpty && !(negative && n == 0) then
    return (.int (if negative then -n else n), cs)
  else
    let sign := if negative then ['-'] else []
    return (.decimal (String.ofList (sign ++ whole ++ fraction ++ exponent)), cs)

mutual

/-- A value, with the blanks in front of it.  Every step goes at least one character on or one level
down. -/
def readValue : (steps : Nat) → List Char → Option (Json × List Char)
  | 0, _ => none
  | steps + 1, cs =>
    match skipSpace cs with
    | '[' :: cs =>
      match skipSpace cs with
      | ']' :: cs => some (.arr [], cs)
      | cs => readItems steps [] cs
    | '\x7b' :: cs =>
      match skipSpace cs with
      | '\x7d' :: cs => some (.obj [], cs)
      | cs => readMembers steps [] cs
    | '"' :: cs => (readString steps "" cs).map fun r => (.str r.1, r.2)
    | 'n' :: cs => (skip? ['u', 'l', 'l'] cs).map fun r => (.null, r)
    | 't' :: cs => (skip? ['r', 'u', 'e'] cs).map fun r => (.bool true, r)
    | 'f' :: cs => (skip? ['a', 'l', 's', 'e'] cs).map fun r => (.bool false, r)
    | cs => readNumber cs

/-- The items of a list up to its end, after those in `done`, which are in reverse order. -/
def readItems : (steps : Nat) → (done : List Json) → List Char → Option (Json × List Char)
  | 0, _, _ => none
  | steps + 1, done, cs =>
    match readValue steps cs with
    | none => none
    | some (j, cs) =>
      match skipSpace cs with
      | ',' :: cs => readItems steps (j :: done) cs
      | ']' :: cs => some (.arr (j :: done).reverse, cs)
      | _ => none

/-- The members of an object up to its end, after those in `done`, which are in reverse order. -/
def readMembers :
    (steps : Nat) → (done : List (String × Json)) → List Char → Option (Json × List Char)
  | 0, _, _ => none
  | steps + 1, done, cs =>
    match skipSpace cs with
    | '"' :: cs =>
      match readString steps "" cs with
      | none => none
      | some (name, cs) =>
        match skipSpace cs with
        | ':' :: cs =>
          match readValue steps cs with
          | none => none
          | some (j, cs) =>
            match skipSpace cs with
            | ',' :: cs => readMembers steps ((name, j) :: done) cs
            | '\x7d' :: cs => some (.obj ((name, j) :: done).reverse, cs)
            | _ => none
        | _ => none
    | _ => none

end

def read (text : String) : Option Json := do
  let cs := text.toList
  let (j, rest) ← readValue (2 * cs.length + 2) cs
  if (skipSpace rest).isEmpty then some j else none

end MonkeyLang.Json
