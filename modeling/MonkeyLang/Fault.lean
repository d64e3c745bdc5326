import MonkeyLang.Program.Basic
import MonkeyLang.Value.Basic

/-!
# Faults

What can go wrong while a program runs, each with its message.
-/

namespace MonkeyLang

/-- The ways in which a run can fail. -/
inductive Fault where
  | unboundName (name : String)
  | unaryOperand (op : UnaryOp) (kind : ValueKind)
  | operandsDiffer (left : ValueKind) (op : BinaryOp) (right : ValueKind)
  | binaryOperand (op : BinaryOp) (kind : ValueKind)
  | divisionByZero
  | unhashable (kind : ValueKind)
  | notIndexable (kind : ValueKind)
  | notCallable (kind : ValueKind)
  | argumentCount (got wanted : Nat)
  | argumentKind (callee : Builtin) (wanted got : ValueKind)
  | noLength (kind : ValueKind)
  | inputExhausted
  | invalidKey
  | outOfBounds
  /-- An error value that a host has stored, met again as the value of an expression. -/
  | stored (message : String)
deriving DecidableEq

namespace Fault

def message : Fault → String
  | unboundName x => "identifier not found: " ++ x
  | unaryOperand op k => "unknown operator: " ++ op.display ++ k.display
  | operandsDiffer l op r =>
    "type mismatch: " ++ l.display ++ " " ++ op.display ++ " " ++ r.display
  | binaryOperand op k =>
    "unknown operator: " ++ k.display ++ " " ++ op.display ++ " " ++ k.display
  | divisionByZero => "division by zero"
  | unhashable k => "unusable as hash key: " ++ k.display
  | notIndexable k => "index operator not supported: " ++ k.display
  | notCallable k => "not a function: " ++ k.display
  | argumentCount got wanted =>
    "wrong number of arguments. got=" ++ toString got ++ ", want=" ++ toString wanted
  | argumentKind callee wanted got =>
    "argument to `" ++ callee.name ++ "` must be " ++ wanted.display ++ ", got " ++ got.display
  | noLength k => "argument to `" ++ Builtin.len.name ++ "` not supported, got " ++ k.display
  | inputExhausted => "failed to read stdin"
  | invalidKey => "Invalid key"
  | outOfBounds => "Index out of bounds"
  | stored m => m

/-- The fault as a value that a host can keep. -/
def toValue (f : Fault) : Value := .error f.message

end Fault

/-- The value that a host gets for the outcome of a run. -/
def Value.ofOutcome : Except Fault Value → Value
  | .ok v => v
  | .error f => f.toValue

end MonkeyLang
