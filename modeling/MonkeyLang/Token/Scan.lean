import MonkeyLang.Text.Digits
import MonkeyLang.Token.Basic

/-!
# Scanning

`scan` cuts a source text into lexemes.  At each place it takes the longest piece that some word,
literal or gap fits (`firstPiece`), so `==` is one token and `lets` is a name; blanks and comments
are gaps.  The first piece that fits nothing, or that is a number too large, ends the scan.

A piece and what follows it make up the text (`firstPiece_append`), and no piece is empty.
-/

namespace MonkeyLang

/-- Why a piece of source text is no token. -/
inductive ScanCause where
  | unexpected (slice : String)
  | outOfRange (digits : String)
deriving DecidableEq

/-- The text that is no token, by its span. -/
structure ScanError where
  cause : ScanCause
  span : Span
deriving DecidableEq

def ScanCause.message : ScanCause → String
  | unexpected slice => "unexpected character: " ++ Text.quote slice
  | outOfRange digits => "integer literal out of range: " ++ digits

def ScanError.message (e : ScanError) : String := e.cause.message

namespace Token

/-! ## Algorithm -/

/-- The characters that stand between tokens. -/
def isSpace (c : Char) : Bool := c == ' ' || c == '\t' || c == '\n' || c == '\r'

/-- ASCII letters and the underscore. -/
def isNameStart (c : Char) : Bool := c.isAlpha || c == '_'

/-- A name goes on with digits, too. -/
def isNameRest (c : Char) : Bool := isNameStart c || c.isDigit

/-- The bytes that the characters take up in UTF-8. -/
def width (cs : List Char) : Nat := cs.foldl (fun n c => n + c.utf8Size) 0

/-- The largest integer. -/
def maxInt : Nat := 0x7FFFFFFFFFFFFFFF

/-- The longest run of string body at the head of the text, and what follows: characters other
than quote and backslash, and backslashes with the character after them, which is no line feed.
`seen` is the run so far, last character first. -/
def stringBody (seen : List Char) : List Char → List Char × List Char
  | '\\' :: c :: cs =>
    if c = '\n' then (seen.reverse, '\\' :: c :: cs) else stringBody (c :: '\\' :: seen) cs
  | c :: cs =>
    if c = '"' ∨ c = '\\' then (seen.reverse, c :: cs) else stringBody (c :: seen) cs
  | [] => (seen.reverse, [])

/-- The character that a backslash and `c` stand for. -/
def escape? (c : Char) : Option Char :=
  match c with
  | 'n' => some '\n'
  | 't' => some '\t'
  | 'r' => some '\r'
  | '\\' => some '\\'
  | '"' => some '"'
  | _ => none

/-- Puts the text that a string body stands for behind `text`; a backslash that starts no known
escape stands for itself. -/
def unescapeOnto (text : String) : List Char → String
  | '\\' :: c :: cs =>
    match escape? c with
    | some e => unescapeOnto (text.push e) cs
    | none => unescapeOnto ((text.push '\\').push c) cs
  | c :: cs => unescapeOnto (text.push c) cs
  | [] => text

/-- The text that the body of a string literal stands for. -/
def unescape (body : List Char) : String := unescapeOnto "" body

/-- What a piece of a source is: a gap, a token, or neither. -/
inductive PieceKind where
  | gap
  | token (t : Token)
  | bad (cause : ScanCause)
deriving DecidableEq

/-- The text at the head of a source, by what it is, and the text after it. -/
structure Piece where
  kind : PieceKind
  slice : List Char
  rest : List Char

/-- An integer literal, if the number is not too large. -/
def intPiece (digits rest : List Char) : Piece :=
  let n := Text.cappedNat (maxInt + 1) digits
  if n ≤ maxInt then ⟨.token (int (.ofNat n)), digits, rest⟩
  else ⟨.bad (.outOfRange (.ofList digits)), digits, rest⟩

def namePiece (letters rest : List Char) : Piece :=
  let name := String.ofList letters
  ⟨.token ((reserved? name).getD (ident name)), letters, rest⟩

/-- A string literal, whose opening quote is already taken off. -/
def stringPiece (cs : List Char) : Piece :=
  match stringBody [] cs with
  | (body, '"' :: rest) => ⟨.token (str (unescape body)), '"' :: body ++ ['"'], rest⟩
  | (body, rest) => ⟨.bad (.unexpected (.ofList ('"' :: body))), '"' :: body, rest⟩

/-- The operator or bracket that a character is, unless it is the first of two. -/
def sign? (c : Char) : Option Token :=
  match c with
  | '=' => some assign
  | '+' => some plus
  | '-' => some minus
  | '*' => some star
  | '/' => some slash
  | '!' => some bang
  | '<' => some lt
  | '>' => some gt
  | ',' => some comma
  | ';' => some semi
  | ':' => some colon
  | '(' => some lparen
  | ')' => some rparen
  | '\x7b' => some lbrace
  | '\x7d' => some rbrace
  | '[' => some lbracket
  | ']' => some rbracket
  | _ => none

/-- A sign by itself, or a character that begins no token. -/
def signPiece (c : Char) (cs : List Char) : Piece :=
  match sign? c with
  | some t => ⟨.token t, [c], cs⟩
  | none => ⟨.bad (.unexpected (.singleton c)), [c], cs⟩

/-- The longest piece at the head of the text `c :: cs`. -/
def firstPiece (c : Char) (cs : List Char) : Piece :=
  if isSpace c then ⟨.gap, c :: cs.takeWhile isSpace, cs.dropWhile isSpace⟩
  else if c.isDigit then intPiece (c :: cs.takeWhile Char.isDigit) (cs.dropWhile Char.isDigit)
  else if isNameStart c then namePiece (c :: cs.takeWhile isNameRest) (cs.dropWhile isNameRest)
  else match c, cs with
    | '"', cs => stringPiece cs
    | '/', '/' :: cs => ⟨.gap, '/' :: '/' :: cs.takeWhile (· != '\n'), cs.dropWhile (· != '\n')⟩
    | '=', '=' :: cs => ⟨.token eqEq, ['=', '='], cs⟩
    | '!', '=' :: cs => ⟨.token notEq, ['!', '='], cs⟩
    | c, cs => signPiece c cs

/-! ## Lemmas -/

/-- The body of a string and what follows it are the whole text. -/
theorem stringBody_append (seen cs : List Char) :
    (stringBody seen cs).1 ++ (stringBody seen cs).2 = seen.reverse ++ cs := by
  fun_induction stringBody seen cs <;> simp_all

@[simp] theorem intPiece_slice (digits rest : List Char) :
    (intPiece digits rest).slice = digits := by
  unfold intPiece
  simp only
  split <;> rfl

@[simp] theorem intPiece_rest (digits rest : List Char) :
    (intPiece digits rest).rest = rest := by
  unfold intPiece
  simp only
  split <;> rfl

theorem stringPiece_append (cs : List Char) :
    (stringPiece cs).slice ++ (stringPiece cs).rest = '"' :: cs := by
  have h := stringBody_append [] cs
  unfold stringPiece
  split <;> simp_all

/-- A piece is cut off at the head, and nothing is lost. -/
theorem firstPiece_append (c : Char) (cs : List Char) :
    (firstPiece c cs).slice ++ (firstPiece c cs).rest = c :: cs := by
  unfold firstPiece
  split
  · simp
  split
  · simp
  split
  · simp [namePiece]
  split
  · exact stringPiece_append _
  · simp
  · rfl
  · rfl
  · unfold signPiece
    split <;> rfl

/-- Every piece takes a character, so the scan ends. -/
theorem firstPiece_slice_ne_nil (c : Char) (cs : List Char) : (firstPiece c cs).slice ≠ [] := by
  unfold firstPiece
  split
  · simp
  split
  · simp
  split
  · simp [namePiece]
  split
  · unfold stringPiece
    split <;> simp
  · simp
  · simp
  · simp
  · unfold signPiece
    split <;> simp

theorem length_firstPiece_rest (c : Char) (cs : List Char) :
    (firstPiece c cs).rest.length < (c :: cs).length := by
  have h := congrArg List.length (firstPiece_append c cs)
  have := List.length_pos_iff.2 (firstPiece_slice_ne_nil c cs)
  rw [List.length_append] at h
  omega

/-! ## The scan -/

/-- The lexemes of a text that starts at byte `offset`, behind those in `done`, which are in
reverse order. -/
def scanFrom (offset : Nat) (done : List Lexeme) : List Char → Except ScanError (List Lexeme)
  | [] => .ok done.reverse
  | c :: cs =>
    let piece := firstPiece c cs
    let span : Span := ⟨offset, offset + width piece.slice⟩
    match piece.kind with
    | .gap => scanFrom span.stop done piece.rest
    | .token t => scanFrom span.stop (⟨t, span⟩ :: done) piece.rest
    | .bad cause => .error ⟨cause, span⟩
termination_by cs => cs.length
decreasing_by all_goals exact length_firstPiece_rest c cs

/-- The tokens of a source, or the first text that is none. -/
def scan (source : String) : Except ScanError (List Lexeme) := scanFrom 0 [] source.toList

end Token

end MonkeyLang
