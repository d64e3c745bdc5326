import MonkeyLang.Machine.Basic
import MonkeyLang.Value.Inspect

/-!
# Calling built-in functions

Each function has its own definition, on arguments of the right number.  `call` checks the number
first, so a wrong count is named before a wrong kind.  Only `object_set` changes a table, only
`puts` writes, only `stdin_read` reads, and none of them does so if it then fails, except that
`stdin_read` shows its prompt before it finds that the input has ended.
-/

namespace MonkeyLang.Builtin

open Run (value valueOrNull)

variable {κ : Type}

/-- Bytes of a text, or items of an array. -/
def callLen : Value → Run κ Value
  | .str s => pure (.int (.ofNat s.utf8ByteSize))
  | .array vs => pure (.int (.ofNat vs.size))
  | v => throw (.noLength v.kind)

/-- The first item; null if there is none. -/
def callFirst : Value → Run κ Value
  | .array vs => valueOrNull vs[0]?
  | v => throw (.argumentKind first .array v.kind)

/-- The last item; null if there is none. -/
def callLast : Value → Run κ Value
  | .array vs => valueOrNull vs.back?
  | v => throw (.argumentKind last .array v.kind)

/-- A new array of all items but the first; null if there are none. -/
def callRest : Value → Run κ Value
  | .array vs => pure (if vs.isEmpty then .null else .array (vs.extract 1))
  | v => throw (.argumentKind rest .array v.kind)

/-- A new array with one more item; the old one stays as it was. -/
def callPush : Value → Value → Run κ Value
  | .array vs, v => pure (.array (vs.push v))
  | v, _ => throw (.argumentKind push .array v.kind)

/-- Writes each value on a line of its own. -/
def callPuts [Console κ] : List Value → Run κ Value
  | [] => pure .null
  | v :: vs => do
    let m ← get
    Run.writeLine (m.heap.inspect v)
    callPuts vs

/-- A line of the console.  A prompt is shown even if no line follows. -/
def readValue [Console κ] (prompt : Option String) : Run κ Value := do
  match ← Run.readLine prompt with
  | some line => pure (.str line)
  | none => throw .inputExhausted

/-- Reads a line, with a prompt or without. -/
def callStdinRead [Console κ] : List Value → Run κ Value
  | [] => readValue none
  | .str prompt :: _ => readValue (some prompt)
  | v :: _ => throw (.argumentKind stdinRead .string v.kind)

/-- An error given as the value comes back before the key is looked at. -/
def callObjectSet : Value → Value → Value → Run κ Value
  | .table id, key, v => do
    let v ← value v
    match key.key? with
    | some k =>
      Run.setEntry id k v
      pure v
    | none => throw .invalidKey
  | v, _, _ => throw (.argumentKind objectSet .hash v.kind)

/-- The text of one byte: its character, or U+FFFD if the byte is no character by itself. -/
def byteText (b : UInt8) : String :=
  .singleton (if b.toNat < 0x80 then Char.ofNat b.toNat else '\ufffd')

/-- The byte of that number in UTF-8; none if the number is negative or too large. -/
def byteAt? (s : String) (i : Int) : Option UInt8 :=
  if h : 0 ≤ i ∧ i.toNat < s.utf8ByteSize then some (s.getUTF8Byte ⟨i.toNat⟩ h.2) else none

/-- The text of one byte.  Both arguments are checked before the byte is looked for. -/
def callCharAt : Value → Value → Run κ Value
  | .str s, .int i =>
    match byteAt? s i.toInt with
    | some b => pure (.str (byteText b))
    | none => throw .outOfBounds
  | .str _, v => throw (.argumentKind charAt .integer v.kind)
  | v, _ => throw (.argumentKind charAt .string v.kind)

/-- Calls the function: first the number of arguments is checked, and then their kinds. -/
def call [Console κ] (b : Builtin) (args : List Value) : Run κ Value :=
  if b.arity.accepts args.length then
    match b, args with
    | len, [v] => callLen v
    | first, [v] => callFirst v
    | last, [v] => callLast v
    | rest, [v] => callRest v
    | push, [vs, v] => callPush vs v
    | puts, vs => callPuts vs
    | isNull, [v] => pure (.bool v.isNull)
    | stdinRead, vs => callStdinRead vs
    | objectSet, [h, k, v] => callObjectSet h k v
    | charAt, [s, i] => callCharAt s i
    | b, args => throw (.argumentCount args.length b.arity.wanted)
  else throw (.argumentCount args.length b.arity.wanted)

end MonkeyLang.Builtin
