/-!
# Consoles

Where a program writes its lines and reads its input.  A transcript is scripted: its input is a
list of lines, and it keeps what is written and the prompts apart.  A terminal has its input as
one text and writes lines and prompts to one text.
-/

namespace MonkeyLang

/-- What a program can do to the outside: write a line and read one. -/
class Console (κ : Type) where
  writeLine : κ → String → κ
  /-- Shows the prompt, if any, and takes a line without its end; none if the input has ended. -/
  readLine : κ → (prompt : Option String) → Option String × κ

/-- A line without the line feed at its end, or the carriage return and line feed. -/
def stripLineEnd (line : List Char) : List Char :=
  match line.reverse with
  | '\n' :: '\r' :: cs => cs.reverse
  | '\n' :: cs => cs.reverse
  | _ => line

/-- The console of a host: lines are handed in, and what is written is kept. -/
structure Transcript where
  input : List String := []
  output : Array String := #[]
  prompts : Array String := #[]

namespace Transcript

/-- A line is kept without its end. -/
def writeLine (c : Transcript) (line : String) : Transcript :=
  { c with output := c.output.push line }

/-- The prompt is kept whether there is a line or not. -/
def readLine (c : Transcript) (prompt : Option String) : Option String × Transcript :=
  let c := match prompt with
    | some p => { c with prompts := c.prompts.push p }
    | none => c
  match c.input with
  | line :: input => (some (.ofList (stripLineEnd line.toList)), { c with input })
  | [] => (none, c)

instance : Console Transcript := ⟨writeLine, readLine⟩

end Transcript

/-- The console of a process. -/
structure Terminal where
  /-- The input not read yet. -/
  stdin : List Char := []
  stdout : String := ""
  /-- A line was asked for after the last one. -/
  ended : Bool := false

namespace Terminal

/-- Shows a text as it is, with no line end. -/
def write (c : Terminal) (text : String) : Terminal := { c with stdout := c.stdout ++ text }

def writeLine (c : Terminal) (line : String) : Terminal := c.write (line ++ "\n")

/-- The first line of a text with its line feed, and the rest. -/
def splitLine (text : List Char) : List Char × List Char :=
  match text.dropWhile (· != '\n') with
  | '\n' :: rest => (text.takeWhile (· != '\n') ++ ['\n'], rest)
  | rest => (text, rest)

/-- The last line may have no line feed; an empty rest is no line. -/
def readLine (c : Terminal) (prompt : Option String) : Option String × Terminal :=
  let c := match prompt with
    | some p => c.write p
    | none => c
  match c.stdin with
  | [] => (none, { c with ended := true })
  | text =>
    let (line, stdin) := splitLine text
    (some (.ofList (stripLineEnd line)), { c with stdin })

instance : Console Terminal := ⟨writeLine, readLine⟩

end Terminal

end MonkeyLang
