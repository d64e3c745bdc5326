import MonkeyLang.Json.Basic
import MonkeyLang.Text.Digits

/-!
# The grammar of JSON

Which texts stand for which value.  Blanks may stand around a value, around a name and in an empty
list or object, and nowhere else; a character of a string may stand for itself or be written as an
escape; a number is written in digits, with a fraction and an exponent if need be.

The rules are those of the language alone.  They do not say how a text is read, and most values
have many texts; `IsText` is met by those of a value.
-/

namespace MonkeyLang.Json.Grammar

/-- What may stand around values. -/
def Blank (cs : List Char) : Prop := ∀ c ∈ cs, c ∈ [' ', '\t', '\n', '\r']

theorem blank_nil : Blank [] := List.forall_mem_nil _

theorem Blank.append {a b : List Char} (ha : Blank a) (hb : Blank b) : Blank (a ++ b) :=
  List.forall_mem_append.2 ⟨ha, hb⟩

/-! ## Numbers -/

def Digits (ds : List Char) : Prop := ds ≠ [] ∧ ∀ d ∈ ds, d.isDigit

/-- A whole number without a sign; no digit stands behind a leading zero. -/
structure Whole (ds : List Char) : Prop where
  digits : Digits ds
  zero (h : ds.head? = some '0') : ds = ['0']

/-- Nothing, or a point with digits behind it. -/
inductive Fraction : List Char → Prop
  | absent : Fraction []
  | point {ds : List Char} (h : Digits ds) : Fraction ('.' :: ds)

/-- Nothing, or a power of ten, perhaps with a sign. -/
inductive Exponent : List Char → Prop
  | absent : Exponent []
  | power {e : Char} {sign ds : List Char} (he : e ∈ ['e', 'E']) (hsign : sign ∈ [[], ['+'], ['-']])
      (hds : Digits ds) : Exponent (e :: (sign ++ ds))

/-- A number that is not whole, and `-0`, is kept as its text. -/
inductive Number : List Char → Json → Prop
  | whole {ds : List Char} (h : Whole ds) : Number ds (.int (Text.natOfDigits ds))
  | negative {ds : List Char} (h : Whole ds) (hne : Text.natOfDigits ds ≠ 0) :
      Number ('-' :: ds) (.int (-Text.natOfDigits ds))
  | decimal {sign ds fraction exponent : List Char} (hsign : sign ∈ [[], ['-']]) (h : Whole ds)
      (hfraction : Fraction fraction) (hexponent : Exponent exponent)
      (hnot : fraction ≠ [] ∨ exponent ≠ [] ∨ sign = ['-'] ∧ Text.natOfDigits ds = 0) :
      Number (sign ++ ds ++ fraction ++ exponent)
        (.decimal (String.ofList (sign ++ ds ++ fraction ++ exponent)))

/-! ## Strings -/

/-- What stands behind the backslash of a short escape, and what it stands for. -/
def escapes : List (Char × Char) :=
  [('"', '"'), ('\\', '\\'), ('/', '/'), ('b', '\x08'), ('f', '\x0c'), ('n', '\n'), ('r', '\r'),
    ('t', '\t')]

/-- A hexadecimal digit, small or capital, and its value. -/
def HexDigit (c : Char) (n : Nat) : Prop :=
  "0123456789abcdef".toList[n]? = some c ∨ "0123456789ABCDEF".toList[n]? = some c

/-- Four hexadecimal digits and their number. -/
inductive CodeUnit : List Char → Nat → Prop
  | mk {a b c d : Char} {i j k l : Nat} (ha : HexDigit a i) (hb : HexDigit b j) (hc : HexDigit c k)
      (hd : HexDigit d l) : CodeUnit [a, b, c, d] (((i * 16 + j) * 16 + k) * 16 + l)

/-- One character of a string, as it is written. -/
inductive Piece : List Char → Char → Prop
  | plain {c : Char} (hc : 0x20 ≤ c.toNat) (hquote : c ≠ '"') (hslash : c ≠ '\\') : Piece [c] c
  | short {e c : Char} (h : (e, c) ∈ escapes) : Piece ['\\', e] c
  | unit {u : List Char} {n : Nat} (hu : CodeUnit u n) (hn : n.isValidChar) :
      Piece ('\\' :: 'u' :: u) (Char.ofNat n)
  /-- A character beyond those of one unit, as a high surrogate and a low one. -/
  | pair {u v : List Char} {n m : Nat} (hu : CodeUnit u n) (hv : CodeUnit v m)
      (hn : 0xD800 ≤ n ∧ n < 0xDC00) (hm : 0xDC00 ≤ m ∧ m < 0xE000) :
      Piece ('\\' :: 'u' :: (u ++ '\\' :: 'u' :: v))
        (Char.ofNat (0x10000 + (n - 0xD800) * 0x400 + (m - 0xDC00)))

/-- The characters of a string one by one, as they are written. -/
inductive Pieces : List Char → List Char → Prop
  | nil : Pieces [] []
  | cons {w cs s : List Char} {c : Char} (hc : Piece w c) (hs : Pieces cs s) :
      Pieces (w ++ cs) (c :: s)

/-- A string in its quotes. -/
inductive Quoted : List Char → String → Prop
  | mk {cs s : List Char} (h : Pieces cs s) : Quoted ('"' :: (cs ++ ['"'])) (String.ofList s)

/-! ## Values -/

mutual

/-- The characters of a value, from its first to its last. -/
inductive Denotes : List Char → Json → Prop
  | null : Denotes ['n', 'u', 'l', 'l'] .null
  | true : Denotes ['t', 'r', 'u', 'e'] (.bool true)
  | false : Denotes ['f', 'a', 'l', 's', 'e'] (.bool false)
  | number {cs : List Char} {j : Json} (h : Number cs j) : Denotes cs j
  | str {cs : List Char} {s : String} (h : Quoted cs s) : Denotes cs (.str s)
  | emptyArr {a : List Char} (ha : Blank a) : Denotes ('[' :: (a ++ [']'])) (.arr [])
  | arr {cs : List Char} {js : List Json} (h : Items cs js) :
      Denotes ('[' :: (cs ++ [']'])) (.arr js)
  | emptyObj {a : List Char} (ha : Blank a) : Denotes ('\x7b' :: (a ++ ['\x7d'])) (.obj [])
  | obj {cs : List Char} {ms : List (String × Json)} (h : Members cs ms) :
      Denotes ('\x7b' :: (cs ++ ['\x7d'])) (.obj ms)

/-- A value with blanks around it. -/
inductive Padded : List Char → Json → Prop
  | mk {a v b : List Char} {j : Json} (ha : Blank a) (hv : Denotes v j) (hb : Blank b) :
      Padded (a ++ (v ++ b)) j

/-- One or more values with commas between them. -/
inductive Items : List Char → List Json → Prop
  | one {cs : List Char} {j : Json} (h : Padded cs j) : Items cs [j]
  | cons {cs cs' : List Char} {j : Json} {js : List Json} (h : Padded cs j) (hs : Items cs' js) :
      Items (cs ++ ',' :: cs') (j :: js)

inductive Member : List Char → String × Json → Prop
  | mk {a n b cs : List Char} {name : String} {j : Json} (ha : Blank a) (hname : Quoted n name)
      (hb : Blank b) (h : Padded cs j) : Member (a ++ (n ++ (b ++ ':' :: cs))) (name, j)

inductive Members : List Char → List (String × Json) → Prop
  | one {cs : List Char} {m : String × Json} (h : Member cs m) : Members cs [m]
  | cons {cs cs' : List Char} {m : String × Json} {ms : List (String × Json)} (h : Member cs m)
      (hs : Members cs' ms) : Members (cs ++ ',' :: cs') (m :: ms)

end

theorem Denotes.padded {cs : List Char} {j : Json} (h : Denotes cs j) : Padded cs j := by
  have h := Padded.mk blank_nil h blank_nil
  rwa [List.nil_append, List.append_nil] at h

/-- The text is one of the value. -/
def IsText (text : String) (j : Json) : Prop := Padded text.toList j

end MonkeyLang.Json.Grammar
