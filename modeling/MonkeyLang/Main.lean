import MonkeyLang.Command.Run

/-!
# The program

Reads files and input, and shows what the library answers.  On a terminal the input is read when
it is asked for: a run that starves is run again from where it started with one more line, and
only what it shows beyond the last time is shown.
-/

namespace MonkeyLang.Main

/-- The reason that the system gives. -/
def failureOf : IO.Error → ReadFailure
  | .noFileOrDirectory .. => .notFound
  | .inappropriateType _ 21 _ => .isDirectory
  | .inappropriateType .. => .notDirectory
  | e => .other (toString e)

def readFile (path : String) : IO (Except ReadFailure ByteArray) := do
  try
    return .ok (← IO.FS.readBinFile path)
  catch e => return .error (failureOf e)

def readLine : IO String := do (← IO.getStdin).getLine

partial def readRest (text : String) : IO String := do
  let line ← readLine
  if line.isEmpty then return text else readRest (text ++ line)

def display (text : String) : IO Unit := do
  IO.print text
  (← IO.getStdout).flush

/-- Runs `attempt` on more and more lines until it does not starve or the input ends; `view` is the
text it shows and whether it starves. -/
partial def listen {α : Type} (attempt : List Char → α) (view : α → String × Bool)
    (heard : String) (shown : Nat) : IO α := do
  let a := attempt heard.toList
  let (text, starved) := view a
  display (String.ofList (text.toList.drop shown))
  if starved then
    let line ← readLine
    if line.isEmpty then return a else listen attempt view (heard ++ line) text.length
  else return a

/-- Takes lines from a terminal up to the end of the loop. -/
partial def converse (machine : Machine Terminal) : IO Repl.Ending := do
  display ">> "
  let line ← readLine
  if line.isEmpty then
    display Repl.Ending.farewell.text
    return .farewell
  let attempt (stdin : List Char) : Except Repl.Ending Repl.State :=
    let s : Repl.State := { machine := { machine with console := { stdin } } }
    s.step (.ofString line)
  let view (s : Except Repl.Ending Repl.State) : String × Bool :=
    match s with
    | .ok s => (s.machine.console.stdout, s.machine.console.ended)
    | .error e => (e.text, false)
  match ← listen attempt view "" 0 with
  | .ok s =>
    IO.eprint s.stderr
    converse s.machine
  | .error e => return e

/-- At a keyboard a command is run as lines come in; else all of the input is read at first, if the
command may want it. -/
def execute (c : Command SourceFile) : IO Report := do
  if ← (← IO.getStdin).isTty then
    match c with
    | .repl =>
      display Repl.banner
      let ending ← converse (.start {})
      return { exitCode := ending.exitCode }
    | c =>
      let report ← listen c.execute (fun r => (r.stdout, r.starved)) "" 0
      return { report with stdout := "" }
  else
    match c with
    | .run _ => return c.execute (← readRest "").toList
    | .repl => return c.execute (← readRest "").toList
    | c => return c.execute []

end MonkeyLang.Main

open MonkeyLang in
/-- Does what the words on the command line ask for, and shows what there is to report. -/
def main (args : List String) : IO UInt32 := do
  let report ← (Request.ofArguments args).answer Main.readFile Main.execute
  Main.display report.stdout
  IO.eprint report.stderr
  return report.exitCode.toUInt32
