import MonkeyLang.Text.Ranges

/-!
# Blank characters

The characters with the Unicode property White_Space, and `trim`, which takes them off both ends
of a text.
-/

namespace MonkeyLang.Text

/-! ## Algorithm -/

/-- Inclusive ranges of code points, ascending. -/
def blankRanges : List (Nat × Nat) :=
  [(0x09, 0x0D), (0x20, 0x20), (0x85, 0x85), (0xA0, 0xA0), (0x1680, 0x1680), (0x2000, 0x200A),
   (0x2028, 0x2029), (0x202F, 0x202F), (0x205F, 0x205F), (0x3000, 0x3000)]

/-- Whether a character is blank in Unicode. -/
def isBlank (c : Char) : Bool := inRanges c.toNat blankRanges

def trim (s : String) : String :=
  String.ofList ((s.toList.dropWhile isBlank).reverse.dropWhile isBlank).reverse

/-! ## Lemmas -/

/-- Every space that core knows is blank. -/
theorem isBlank_of_isWhitespace {c : Char} (h : c.isWhitespace = true) : isBlank c = true := by
  simp only [Char.isWhitespace, Bool.or_eq_true, decide_eq_true_eq] at h
  rcases h with ((h | h) | h) | h <;> subst h <;> decide

/-- A line end alone is no text. -/
example : trim "\r\n" = "" := by decide +kernel

end MonkeyLang.Text
