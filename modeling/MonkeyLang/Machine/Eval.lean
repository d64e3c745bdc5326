import MonkeyLang.Builtin.Call
import MonkeyLang.CompileError

/-!
# Evaluation

`Expr.eval` and `Stmt.evalAll` go down the tree from left to right, so every run ends.  The first
fault ends the run.  A block is evaluated in a scope of its own, which no one sees after it.
-/

namespace MonkeyLang

open Run (value valueOrNull)

variable {κ : Type}

/-- `!` has an answer for every value, `-` for integers only. -/
def UnaryOp.apply : UnaryOp → Value → Run κ Value
  | .not, v => pure (.bool !v.isTruthy)
  | .neg, .int n => pure (.int (-n))
  | .neg, v => throw (.unaryOperand .neg v.kind)

/-- Integers wrap around; a quotient is truncated. -/
def BinaryOp.applyInt : BinaryOp → Int64 → Int64 → Run κ Value
  | .add, a, b => pure (.int (a + b))
  | .sub, a, b => pure (.int (a - b))
  | .mul, a, b => pure (.int (a * b))
  | .div, a, b => if b = 0 then throw .divisionByZero else pure (.int (a / b))
  | .lt, a, b => pure (.bool (a < b))
  | .gt, a, b => pure (.bool (b < a))
  | .eq, a, b => pure (.bool (a == b))
  | .notEq, a, b => pure (.bool (a != b))

/-- Integers have all operators, texts can be joined, and any two values can be compared. -/
def BinaryOp.apply (op : BinaryOp) (v w : Value) : Run κ Value :=
  match v, w, op with
  | .int a, .int b, op => op.applyInt a b
  | .str a, .str b, .add => pure (.str (a ++ b))
  | v, w, .eq => pure (.bool (v == w))
  | v, w, .notEq => pure (.bool (v != w))
  | v, w, op =>
    if v.kind = w.kind then throw (.binaryOperand op v.kind)
    else throw (.operandsDiffer v.kind op w.kind)

/-- The item of that number; none if the number is negative or too large. -/
def itemAt? (items : Array Value) (i : Int) : Option Value :=
  if 0 ≤ i then items[i.toNat]? else none

/-- What lies in a value under an index; `null` if nothing does. -/
def Value.at : Value → Value → Run κ Value
  | .array vs, .int i => valueOrNull (itemAt? vs i.toInt)
  | .table id, v =>
    match v.key? with
    | some k => do
      let m ← get
      valueOrNull ((m.heap.table id).get? k)
    | none => throw (.unhashable v.kind)
  | v, _ => throw (.notIndexable v.kind)

/-- The value of a name: what a scope binds it to, else the function of that name. -/
def resolve (scope : Nat) (name : String) : Run κ Value := do
  let m ← get
  match m.scopes.get? scope name with
  | some v => value v
  | none =>
    match Builtin.ofName? name with
    | some b => pure (.builtin b)
    | none => throw (.unboundName name)

/-- Calls a value, which must be a function. -/
def Value.apply [Console κ] (callee : Value) (args : List Value) : Run κ Value :=
  match callee with
  | .builtin b => b.call args
  | v => throw (.notCallable v.kind)

variable [Console κ]

mutual

/-- Evaluates an expression in a scope, its parts from left to right.  A fault in a part ends all of
it. -/
def Expr.eval (scope : Nat) : Expr → Run κ Value
  | .int n _ => pure (.int n)
  | .str s _ => pure (.str s)
  | .bool b _ => pure (.bool b)
  | .null _ => pure .null
  | .ident x _ => resolve scope x
  | .unary op e _ => do
    let v ← e.eval scope
    op.apply v
  | .binary l op r _ => do
    let v ← l.eval scope
    let w ← r.eval scope
    op.apply v w
  | .cond test yes no _ => do
    let v ← test.eval scope
    if v.isTruthy then
      let inner ← Run.enter scope
      Stmt.evalAll inner .null yes
    else Stmt.evalElse scope no
  | .array es _ => do
    let vs ← Expr.evalItems scope [] es
    pure (.array vs.toArray)
  | .hash ps _ => do
    let t ← Expr.evalPairs scope {} ps
    Run.newTable t
  | .index target subscript _ => do
    let v ← target.eval scope
    let w ← subscript.eval scope
    v.at w
  | .call callee args _ => do
    let f ← callee.eval scope
    let vs ← Expr.evalItems scope [] args
    f.apply vs

/-- The values of the expressions, after those in `done`, which are in reverse order. -/
def Expr.evalItems (scope : Nat) (done : List Value) : List Expr → Run κ (List Value)
  | [] => pure done.reverse
  | e :: es => do
    let v ← e.eval scope
    Expr.evalItems scope (v :: done) es

/-- Puts the entries into `t`.  A key is looked at when its value is known. -/
def Expr.evalPairs (scope : Nat) (t : Table) : List (Expr × Expr) → Run κ Table
  | [] => pure t
  | (k, e) :: ps => do
    let key ← k.eval scope
    let v ← e.eval scope
    match key.key? with
    | some k => Expr.evalPairs scope (t.insert k v) ps
    | none => throw (.unhashable key.kind)

/-- A definition has no value; its name is bound when its expression has been evaluated. -/
def Stmt.eval (scope : Nat) : Stmt → Run κ Value
  | .define x _ e _ => do
    let v ← e.eval scope
    Run.define scope x v
    pure .null
  | .expr e _ => e.eval scope

/-- The value of the last statement, or `last` if there is none. -/
def Stmt.evalAll (scope : Nat) (last : Value) : List Stmt → Run κ Value
  | [] => pure last
  | s :: ss => do
    let v ← s.eval scope
    Stmt.evalAll scope v ss

/-- The block for when a test does not hold; null if there is none. -/
def Stmt.evalElse (scope : Nat) : Option (List Stmt) → Run κ Value
  | none => pure .null
  | some ss => do
    let inner ← Run.enter scope
    Stmt.evalAll inner .null ss

end

/-- Evaluates a program in the global scope. -/
def Program.eval (p : Program) : Run κ Value := Stmt.evalAll globalScope .null p.statements

namespace Machine

/-- Compiles a source text and evaluates it.  A text that does not compile changes nothing. -/
def runSource (m : Machine κ) (source : String) :
    Except CompileError (Except Fault Value) × Machine κ :=
  match compile source with
  | .error e => (.error e, m)
  | .ok p =>
    let (result, m) := p.eval.outcome m
    (.ok result, m)

/-- Calls the function of that name, whatever the scopes bind the name to. -/
def callBuiltin (m : Machine κ) (name : String) (args : List Value) :
    Option (Except Fault Value) × Machine κ :=
  match Builtin.ofName? name with
  | none => (none, m)
  | some b =>
    let (result, m) := (b.call args).outcome m
    (some result, m)

end Machine

end MonkeyLang
