import MonkeyLang.Program.Parse
import MonkeyLang.Token.Scan

/-!
# Compiling

`compile` scans a source text and parses it.  A text that does not scan is never parsed, so the
errors of the scanner come first.  `CompileError` is what a reader of sources is told: the stage
that failed, a message, and the span at fault where there is one.
-/

namespace MonkeyLang

/-- What can go wrong before a source runs. -/
inductive CompileError where
  | lexer (message : String) (span : Span)
  | parser (message : String) (span : Span)
  | io (message : String)
deriving DecidableEq

namespace CompileError

def message : CompileError → String
  | lexer m _ => m
  | parser m _ => m
  | io m => m

def span? : CompileError → Option Span
  | lexer _ s => some s
  | parser _ s => some s
  | io _ => none

/-- The stage at fault, as a heading. -/
def title : CompileError → String
  | lexer .. => "Lexer error"
  | parser .. => "Parser error"
  | io _ => "IO error"

/-- The error in one line. -/
def display (e : CompileError) : String :=
  match e.span? with
  | some s => e.title ++ " at " ++ s.display ++ ": " ++ e.message
  | none => e.title ++ ": " ++ e.message

/-- Errors of the scanner, as they are reported. -/
def ofScanError (e : ScanError) : CompileError := lexer e.message e.span

/-- Errors of the parser; at the end of the input they stand behind the last byte of the source. -/
def ofParseError (sourceSize : Nat) (e : ParseError) : CompileError :=
  parser e.message (e.span sourceSize)

end CompileError

/-- The tokens of a source with their spans. -/
def tokenize (source : String) : Except CompileError (List Lexeme) :=
  (Token.scan source).mapError .ofScanError

/-- The program that a source stands for. -/
def compile (source : String) : Except CompileError Program := do
  let lexemes ← tokenize source
  (Program.parse lexemes).mapError (.ofParseError source.utf8ByteSize)

/-! ## Lemmas -/

theorem mapError_eq_ok_iff {ε ε' α : Type} {f : ε → ε'} {r : Except ε α} {a : α} :
    r.mapError f = .ok a ↔ r = .ok a := by
  cases r with
  | error e =>
    constructor
    · rintro ⟨⟩
    · rintro ⟨⟩
  | ok b =>
    constructor
    · rintro ⟨⟩
      rfl
    · rintro ⟨⟩
      rfl

theorem tokenize_eq_ok_iff {source : String} {ls : List Lexeme} :
    tokenize source = .ok ls ↔ Token.scan source = .ok ls :=
  mapError_eq_ok_iff

/-- What does not scan does not compile, for the same reason. -/
theorem compile_of_tokenize_error {source : String} {e : CompileError}
    (h : tokenize source = .error e) : compile source = .error e := by
  rw [compile, h]
  rfl

/-- A source compiles if it scans and its tokens parse. -/
theorem compile_eq_ok_iff {source : String} {p : Program} :
    compile source = .ok p ↔
      ∃ ls, Token.scan source = .ok ls ∧ Program.parse ls = .ok p := by
  unfold compile
  cases htokenize : tokenize source with
  | error e =>
    constructor
    · rintro ⟨⟩
    · rintro ⟨ls, hscan, _⟩
      rw [tokenize_eq_ok_iff.2 hscan] at htokenize
      cases htokenize
  | ok ls =>
    have hscan := tokenize_eq_ok_iff.1 htokenize
    show (Program.parse ls).mapError _ = _ ↔ _
    rw [mapError_eq_ok_iff]
    constructor
    · exact fun h => ⟨ls, hscan, h⟩
    · rintro ⟨ms, hms, h⟩
      cases hscan.symm.trans hms
      exact h

end MonkeyLang
