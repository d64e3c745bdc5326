import MonkeyLang.Text.Unprintable

/-!
# Quoted text

A text between double quotes on one line: quote, backslash, line ends, tab and NUL by a letter,
other characters without a shape by number, all else as it is.
-/

namespace MonkeyLang.Text

/-- The form of one character inside quotes. -/
def escaped (c : Char) : String :=
  match c with
  | '"' => "\\\""
  | '\\' => "\\\\"
  | '\n' => "\\n"
  | '\r' => "\\r"
  | '\t' => "\\t"
  | '\x00' => "\\0"
  | c =>
    if isUnprintable c then "\\u\x7b" ++ String.ofList (Nat.toDigits 16 c.toNat) ++ "\x7d"
    else String.singleton c

def quote (s : String) : String := (s.foldl (fun acc c => acc ++ escaped c) "\"").push '"'

end MonkeyLang.Text
