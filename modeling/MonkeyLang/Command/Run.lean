import MonkeyLang.Command.Arguments
import MonkeyLang.Command.Repl
import MonkeyLang.Command.Source
import MonkeyLang.Json.Write
import MonkeyLang.Program.Json

/-!
# Running a command

A report is all that a run of the program shows.  The exit code is 0 if all went well, 1 if a
source could not be read or compiled or its run ended in a fault, 2 for a misuse, and 101 if the
interactive loop broke off.
-/

namespace MonkeyLang

/-- What a process leaves: its exit code, and all that it has shown. -/
structure Report where
  exitCode : Nat
  stdout : String := ""
  stderr : String := ""
  /-- More input would have been read. -/
  starved : Bool := false

namespace Report

def ok (stdout : String) : Report := { exitCode := 0, stdout }

/-- Nothing came of a source. -/
def refused (text : String) : Report := { exitCode := 1, stderr := text }

end Report

/-- A character that is cut in two is a failure of the host, not one that it reports. -/
def Repl.Ending.exitCode : Ending → Nat
  | farewell => 0
  | torn => 101

namespace Command

/-- The text of a source file put through `use`, or a report of the error on one line. -/
def fromText {α : Type} (file : SourceFile) (use : String → Except CompileError α)
    (shown : α → String) : Report :=
  match file.text.bind use with
  | .ok a => .ok (shown a)
  | .error e => .refused ("Error: " ++ e.display ++ "\n")

/-- A token with its span, on a line of its own. -/
def lexemeLine (l : Lexeme) : String := l.token.dump ++ " @ " ++ l.span.display ++ "\n"

/-- Runs a source file; its run may end in a fault. -/
def runFile (file : SourceFile) (stdin : List Char) : Report :=
  match file.text with
  | .error e => .refused ("Error: " ++ e.display ++ "\n")
  | .ok source =>
    let (result, m) := (Machine.start ({ stdin } : Terminal)).runSource source
    match result with
    | .error e => .refused (e.report file.path)
    | .ok outcome =>
      let (exitCode, stderr) := match outcome with
        | .ok _ => (0, "")
        | .error f => (1, m.heap.inspect f.toValue ++ "\n")
      { exitCode, stdout := m.console.stdout, stderr, starved := m.console.ended }

/-- What a command does with the files that it names. -/
def execute (c : Command SourceFile) (stdin : List Char) : Report :=
  match c with
  | run file => runFile file stdin
  | repl =>
    let (ending, s) := Repl.run stdin
    let console := s.machine.console
    { exitCode := ending.exitCode, stdout := console.stdout, stderr := s.stderr,
      starved := console.ended }
  | parse file => fromText file compile fun p => p.toJson.pretty ++ "\n"
  | tokens file => fromText file tokenize fun ls => String.join (ls.map lexemeLine)
  | builtins => .ok Builtin.listing

end Command

namespace Request

def usage : String :=
  "Usage: monkey [-v] [COMMAND]\n\n" ++
  "Commands:\n" ++
  "  run FILE     Run a source file\n" ++
  "  repl         Start the interactive loop (default)\n" ++
  "  parse FILE   Show a source file's syntax tree as JSON\n" ++
  "  tokens FILE  Show a source file's tokens\n" ++
  "  builtins     List the built-in functions\n" ++
  "  help         Show this help\n\n" ++
  "Options:\n" ++
  "  -v, --verbose  Ask for a log\n" ++
  "  -h, --help     Show this help\n" ++
  "  -V, --version  Show the version\n"

/-- Answers a request, given a way to get at the file that it names. -/
def answer {m : Type → Type} [Monad m] (readFile : String → m (Except ReadFailure ByteArray))
    (execute : Command SourceFile → m Report) : Request → m Report
  | command c => do
    let c ← c.mapM fun path => do
      let content ← readFile path
      return { path, content : SourceFile }
    execute c
  | help => return .ok usage
  | version => return .ok "monkey 0.1.0\n"
  | misuse =>
    return { exitCode := 2, stderr := "error: these arguments make no command\n\n" ++ usage }

end Request

end MonkeyLang
