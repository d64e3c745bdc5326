import MonkeyLang.Machine.Eval
import MonkeyLang.Text.Blank
import MonkeyLang.Text.Typed

/-!
# The interactive loop

Lines of the terminal are read one at a time.  A line is a colon command or a source text, which
runs in the machine that the lines before it left; a line that a running program asks for is not
read again.  Values are written to the terminal and faults to the error text.  The loop breaks off
at a line whose backspaces cut a character in two.
-/

namespace MonkeyLang

/-- What a compile error shows: a heading, and where and why. -/
def CompileError.report (origin : String) (e : CompileError) : String :=
  match e.span? with
  | some s =>
    "Error: " ++ e.title ++ "\n  at " ++ origin ++ ":" ++ s.display ++ "\n  " ++ e.message ++ "\n"
  | none => "Error: " ++ e.display ++ "\n"

namespace Builtin

/-- A usage, filled up with blanks to a column. -/
def padded (usage : String) : String :=
  usage ++ String.ofList (List.replicate (30 - usage.length) ' ')

/-- All functions with what they do, one on each line. -/
def listing : String :=
  all.foldl (fun text b => text ++ "  " ++ padded b.usage ++ b.summary ++ "\n")
    ("Built-in functions (" ++ toString all.length ++ "):\n")

end Builtin

namespace Repl

def banner : String := "Monkey REPL v0.1.0\nType :help for help, :quit to exit.\n\n"

def helpText : String :=
  "Monkey REPL Commands:\n" ++
  "  :help, :h, :?   Show this help\n" ++
  "  :builtins       List built-in functions\n" ++
  "  :quit, :q       Exit the REPL\n" ++
  "  :clear          Clear the screen\n" ++
  "\n" ++
  "You can enter:\n" ++
  "  - Bindings: let xs = [1, 2, 3];\n" ++
  "  - Expressions: len(xs) * 2\n" ++
  "  - Hashes: let h = \x7b\"k\": 1\x7d; object_set(h, \"j\", 2);\n"

/-- Takes the cursor of a screen home, over a screen that is wiped. -/
def clearScreen : String := "\x1b[2J\x1b[1;1H"

/-- What a line asks for. -/
inductive Line where
  | blank
  | quit
  | help
  | builtins
  | clear
  | unknown (command : String)
  | source (text : String)
  /-- A character is cut in two. -/
  | torn
deriving DecidableEq

/-- A line that has been typed, without the blanks around it. -/
def Line.ofTrimmed (text : String) : Line :=
  match text with
  | "" => blank
  | ":quit" => quit
  | ":q" => quit
  | ":exit" => quit
  | ":help" => help
  | ":h" => help
  | ":?" => help
  | ":builtins" => builtins
  | ":clear" => clear
  | text => if text.startsWith ":" then unknown text else source text

/-- The line that stays when backspaces have been followed and blanks taken off both ends. -/
def Line.ofString (s : String) : Line :=
  match Text.typed s.toList with
  | some cs => ofTrimmed (Text.trim (.ofList cs))
  | none => torn

/-- How the loop ends. -/
inductive Ending where
  /-- A line asks for it, or the input has ended. -/
  | farewell
  /-- A line is torn. -/
  | torn
deriving DecidableEq

/-- The last words. -/
def Ending.text : Ending → String
  | farewell => "Goodbye!\n"
  | torn => ""

/-- The machine that all lines run in, and the error text so far. -/
structure State where
  machine : Machine Terminal
  stderr : String := ""

namespace State

def print (s : State) (text : String) : State :=
  { s with machine := { s.machine with console := s.machine.console.write text } }

def complain (s : State) (text : String) : State := { s with stderr := s.stderr ++ text }

/-- Runs a source, and shows its value, or says why there is none.  Null is not shown. -/
def runLine (s : State) (text : String) : State :=
  let (result, machine) := s.machine.runSource text
  let s := { s with machine }
  match result with
  | .error e => s.complain (e.report "<repl>")
  | .ok (.error f) => s.complain (machine.heap.inspect f.toValue ++ "\n")
  | .ok (.ok .null) => s
  | .ok (.ok v) => s.print (machine.heap.inspect v ++ "\n")

/-- The state after a line, or the end of the loop. -/
def step (s : State) : Line → Except Ending State
  | .blank => .ok s
  | .quit => .error .farewell
  | .help => .ok (s.print helpText)
  | .builtins => .ok (s.print Builtin.listing)
  | .clear => .ok (s.print clearScreen)
  | .unknown command =>
    .ok (s.print ("Unknown command: " ++ command ++ "\nType :help for help.\n"))
  | .source text => .ok (s.runLine text)
  | .torn => .error .torn

/-- The loop ends with its last words. -/
def finish (s : State) (e : Ending) : Ending × State := (e, s.print e.text)

/-- Takes lines up to the one that ends the loop, or the end of the input.  Every round takes at
least one character of the input, so one as long as `bound` is never cut off. -/
def loop : (bound : List Char) → State → Ending × State
  | bound, s =>
    let (line, console) := s.machine.console.readLine none
    let s := { s with machine := { s.machine with console } }
    match line with
    | none => s.finish .farewell
    | some line =>
      match s.step (.ofString line) with
      | .error e => s.finish e
      | .ok s =>
        match bound with
        | _ :: bound => loop bound s
        | [] => s.finish .farewell

end State

def run (stdin : List Char) : Ending × State :=
  ({ machine := .start { stdin } : State }.print banner).loop stdin

end Repl

end MonkeyLang
