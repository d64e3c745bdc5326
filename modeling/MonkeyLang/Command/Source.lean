import MonkeyLang.CompileError

/-!
# Source files

What is in the file that a command names, or why it cannot be read.  A source is a text in UTF-8.
-/

namespace MonkeyLang

/-- Why a file cannot be read. -/
inductive ReadFailure where
  | notFound
  | isDirectory
  | notDirectory
  | notText
  | other (reason : String)
deriving DecidableEq

/-- The reason in the words of the system. -/
def ReadFailure.reason : ReadFailure → String
  | notFound => "No such file or directory (os error 2)"
  | isDirectory => "Is a directory (os error 21)"
  | notDirectory => "Not a directory (os error 20)"
  | notText => "stream did not contain valid UTF-8"
  | other reason => reason

/-- A path, and what was found there. -/
structure SourceFile where
  path : String
  content : Except ReadFailure ByteArray

namespace SourceFile

def failure (file : SourceFile) (f : ReadFailure) : CompileError :=
  .io (file.path ++ ": " ++ f.reason)

def text (file : SourceFile) : Except CompileError String :=
  match file.content with
  | .error f => .error (file.failure f)
  | .ok bytes =>
    match String.fromUTF8? bytes with
    | some s => .ok s
    | none => .error (file.failure .notText)

end SourceFile

end MonkeyLang
