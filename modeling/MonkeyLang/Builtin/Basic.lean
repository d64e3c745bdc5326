import MonkeyLang.Text.Dump
import MonkeyLang.Text.Quoted

/-!
# Built-in functions

The ten functions that are there without a definition: their names, the argument counts they
accept, and the lines of the list that describes them.
-/

namespace MonkeyLang

/-- The argument counts that a function accepts; the bounds of a range are included. -/
inductive Arity where
  | exact (n : Nat)
  | range (least most : Nat)
  | any
deriving DecidableEq

namespace Arity

/-- Whether a function takes that many arguments. -/
def accepts : Arity → Nat → Bool
  | exact n, count => count == n
  | range least most, count => least ≤ count && count ≤ most
  | any, _ => true

/-- The count that is asked for when another is given: of a range the least. -/
def wanted : Arity → Nat
  | exact n => n
  | range least _ => least
  | any => 0

/-- The arity as it is listed for debugging. -/
def dump : Arity → String
  | exact n => Text.Dump.constructed "Exact" [toString n]
  | range least most => Text.Dump.constructed "Range" [toString least, toString most]
  | any => "Any"

end Arity

/-- The functions that every program finds by their names. -/
inductive Builtin where
  | len
  | first
  | last
  | rest
  | push
  | puts
  | isNull
  | stdinRead
  | objectSet
  | charAt
deriving DecidableEq

namespace Builtin

/-- Every function once, in the order in which they are listed. -/
def all : List Builtin :=
  [len, first, last, rest, push, puts, isNull, stdinRead, objectSet, charAt]

def name : Builtin → String
  | len => "len"
  | first => "first"
  | last => "last"
  | rest => "rest"
  | push => "push"
  | puts => "puts"
  | isNull => "is_null"
  | stdinRead => "stdin_read"
  | objectSet => "object_set"
  | charAt => "char_at"

/-- How many arguments the function takes. -/
def arity : Builtin → Arity
  | len => .exact 1
  | first => .exact 1
  | last => .exact 1
  | rest => .exact 1
  | push => .exact 2
  | puts => .any
  | isNull => .exact 1
  | stdinRead => .range 0 1
  | objectSet => .exact 3
  | charAt => .exact 2

/-- The shape of a call. -/
def usage : Builtin → String
  | len => "len(s | arr)"
  | first => "first(arr)"
  | last => "last(arr)"
  | rest => "rest(arr)"
  | push => "push(arr, x)"
  | puts => "puts(x, ...)"
  | isNull => "is_null(x)"
  | stdinRead => "stdin_read([prompt])"
  | objectSet => "object_set(hash, key, value)"
  | charAt => "char_at(s, i)"

def summary : Builtin → String
  | len => "Byte length of a string or element count of an array"
  | first => "First element, or null when empty"
  | last => "Last element, or null when empty"
  | rest => "New array without the first element, or null when empty"
  | push => "New array with x appended"
  | puts => "Print each argument on its own line"
  | isNull => "true if x is null"
  | stdinRead => "Read one line from standard input"
  | objectSet => "Store value under key in hash, in place"
  | charAt => "One-byte string at byte offset i"

/-- The function of a name. -/
def ofName? (s : String) : Option Builtin := all.find? (·.name == s)

def dump (b : Builtin) : String :=
  Text.Dump.record "Builtin" [("name", Text.quote b.name), ("arity", b.arity.dump)]

/-! ## Lemmas -/

theorem ofName?_name (b : Builtin) : ofName? b.name = some b := by cases b <;> decide

/-- No two functions have the same name. -/
theorem ofName?_eq_some {s : String} {b : Builtin} : ofName? s = some b ↔ b.name = s := by
  constructor
  · intro h
    simpa using List.find?_some h
  · rintro rfl
    exact ofName?_name b

end Builtin

end MonkeyLang
