/-!
# Arguments

What the words behind the program's name ask for.  Words are read from left to right, and the
first one that settles the matter does: a request for help or for the version, or a misuse.

Options may stand before or behind the command.  `-v` may be given once before and once behind.
Nothing behind `--` is an option or the name of a command.
-/

namespace MonkeyLang

/-- What to do, where files are known as `α`: by their paths at first, then by what is in them. -/
inductive Command (α : Type) where
  | run (file : α)
  | repl
  | parse (file : α)
  | tokens (file : α)
  | builtins

/-- Replaces the file, if there is one. -/
def Command.mapM {α β : Type} {m : Type → Type} [Monad m] (f : α → m β) : Command α → m (Command β)
  | run file => return run (← f file)
  | repl => pure repl
  | parse file => return parse (← f file)
  | tokens file => return tokens (← f file)
  | builtins => pure builtins

/-- What the words on the command line ask for. -/
inductive Request where
  | command (c : Command String)
  | help
  | version
  | misuse

namespace Request

/-- A word by its dashes: `--` alone, a long option, a group of letters, or anything else. -/
inductive Word where
  | separator
  | long (name : String)
  | short (letters : List Char)
  | plain (word : String)

def Word.ofString (s : String) : Word :=
  match s.toList with
  | ['-', '-'] => separator
  | '-' :: '-' :: cs => long (String.ofList cs)
  | '-' :: c :: cs => short (c :: cs)
  | _ => plain s

/-- Whether options stand before the command or behind it. -/
inductive Place where
  | before
  | behind
deriving DecidableEq

/-- Asks for the log, which may be done once in each place; `logged` says whether it was. -/
def askLog (logged : Bool) : Except Request Bool := if logged then throw misuse else pure true

/-- The version is only told before a command. -/
def askVersion : Place → Except Request Bool
  | .before => throw version
  | .behind => throw misuse

/-- The letters behind one dash, each an option of its own. -/
def readShort (place : Place) : (logged : Bool) → List Char → Except Request Bool
  | logged, [] => pure logged
  | logged, c :: cs => do
    let logged ← match c with
      | 'v' => askLog logged
      | 'V' => askVersion place
      | 'h' => throw help
      | _ => throw misuse
    readShort place logged cs

/-- The name behind two dashes. -/
def readLong (place : Place) (logged : Bool) : String → Except Request Bool
  | "verbose" => askLog logged
  | "version" => askVersion place
  | "help" => throw help
  | _ => throw misuse

/-- What a command takes: the files still wanted, and how the command follows from them. -/
inductive Wanted where
  | file (make : String → Command String)
  | nothing (c : Command String)

def Wanted.ofName? : String → Option Wanted
  | "run" => some (.file .run)
  | "repl" => some (.nothing .repl)
  | "parse" => some (.file .parse)
  | "tokens" => some (.file .tokens)
  | "builtins" => some (.nothing .builtins)
  | _ => none

/-- A file has a name of at least one character. -/
def Wanted.give : Wanted → String → Except Request Wanted
  | file make, name => if name.isEmpty then throw misuse else pure (nothing (make name))
  | nothing _, _ => throw misuse

/-- What is asked for if no more words come: a file that is still wanted is missed. -/
def Wanted.finish : Wanted → Request
  | file _ => misuse
  | nothing c => command c

/-- The words behind `--`. -/
def readPlain (wanted : Wanted) : List String → Except Request Request
  | [] => pure wanted.finish
  | w :: ws => do readPlain (← wanted.give w) ws

/-- The words behind a command's name. -/
def readBehind : (logged : Bool) → (wanted : Wanted) → List String → Except Request Request
  | _, wanted, [] => pure wanted.finish
  | logged, wanted, w :: ws => do
    match Word.ofString w with
    | .separator => readPlain wanted ws
    | .long name => readBehind (← readLong .behind logged name) wanted ws
    | .short cs => readBehind (← readShort .behind logged cs) wanted ws
    | .plain name => readBehind logged (← wanted.give name) ws

/-- The words behind `help`: the name of a command, which is `help` at most. -/
def readHelp : List String → Request
  | [] => help
  | [name] => if name == "help" || (Wanted.ofName? name).isSome then help else misuse
  | _ => misuse

/-- All words.  Without a command the program is interactive. -/
def readBefore : (logged : Bool) → List String → Except Request Request
  | _, [] => pure (command .repl)
  | logged, w :: ws => do
    match Word.ofString w with
    | .separator => readPlain (.nothing .repl) ws
    | .long name => readBefore (← readLong .before logged name) ws
    | .short cs => readBefore (← readShort .before logged cs) ws
    | .plain "help" => pure (readHelp ws)
    | .plain name =>
      match Wanted.ofName? name with
      | some wanted => readBehind false wanted ws
      | none => throw misuse

/-- What all the words ask for.  Reading stops at the word that settles it. -/
def ofArguments (words : List String) : Request :=
  match readBefore false words with
  | .ok request => request
  | .error request => request

end Request

end MonkeyLang
