import MonkeyLang.Span

/-!
# Programs

A program is a list of statements, a statement a definition or an expression.  Every node bears
the span of its text; a parenthesised expression is the expression inside with the wider span.
-/

namespace MonkeyLang

/-- Operators before one operand. -/
inductive UnaryOp where
  | not
  | neg
deriving DecidableEq

/-- Operators between two operands. -/
inductive BinaryOp where
  | add
  | sub
  | mul
  | div
  | lt
  | gt
  | eq
  | notEq
deriving DecidableEq

mutual

/-- Expressions, each with the span that it was read from. -/
inductive Expr where
  | int (value : Int64) (span : Span)
  | str (text : String) (span : Span)
  | bool (value : Bool) (span : Span)
  | null (span : Span)
  | ident (name : String) (span : Span)
  | unary (op : UnaryOp) (operand : Expr) (span : Span)
  | binary (left : Expr) (op : BinaryOp) (right : Expr) (span : Span)
  /-- A condition, the block for when it holds, and the one for when it does not. -/
  | cond (test : Expr) (yes : List Stmt) (no : Option (List Stmt)) (span : Span)
  | array (items : List Expr) (span : Span)
  | hash (pairs : List (Expr × Expr)) (span : Span)
  | index (target subscript : Expr) (span : Span)
  | call (callee : Expr) (args : List Expr) (span : Span)

/-- Statements: a definition, with the span of its name, or an expression. -/
inductive Stmt where
  | define (name : String) (nameSpan : Span) (value : Expr) (span : Span)
  | expr (e : Expr) (span : Span)

end

/-- The tree of a source. -/
structure Program where
  statements : List Stmt

namespace UnaryOp

def all : List UnaryOp := [not, neg]

/-- The sign that is written before the operand. -/
def display : UnaryOp → String
  | not => "!"
  | neg => "-"

def name : UnaryOp → String
  | not => "Not"
  | neg => "Neg"

def ofName? (s : String) : Option UnaryOp := all.find? (·.name == s)

theorem ofName?_name (op : UnaryOp) : ofName? op.name = some op := by
  cases op <;> decide

end UnaryOp

namespace BinaryOp

def all : List BinaryOp := [add, sub, mul, div, lt, gt, eq, notEq]

def display : BinaryOp → String
  | add => "+"
  | sub => "-"
  | mul => "*"
  | div => "/"
  | lt => "<"
  | gt => ">"
  | eq => "=="
  | notEq => "!="

def name : BinaryOp → String
  | add => "Add"
  | sub => "Sub"
  | mul => "Mul"
  | div => "Div"
  | lt => "Lt"
  | gt => "Gt"
  | eq => "Eq"
  | notEq => "NotEq"

def ofName? (s : String) : Option BinaryOp := all.find? (·.name == s)

theorem ofName?_name (op : BinaryOp) : ofName? op.name = some op := by
  cases op <;> decide

end BinaryOp

namespace Expr

def span : Expr → Span
  | int _ s => s
  | str _ s => s
  | bool _ s => s
  | null s => s
  | ident _ s => s
  | unary _ _ s => s
  | binary _ _ _ s => s
  | cond _ _ _ s => s
  | array _ s => s
  | hash _ s => s
  | index _ _ s => s
  | call _ _ s => s

/-- The same node over another span. -/
def withSpan (s : Span) : Expr → Expr
  | int n _ => int n s
  | str t _ => str t s
  | bool b _ => bool b s
  | null _ => null s
  | ident x _ => ident x s
  | unary op e _ => unary op e s
  | binary l op r _ => binary l op r s
  | cond c yes no _ => cond c yes no s
  | array es _ => array es s
  | hash ps _ => hash ps s
  | index t i _ => index t i s
  | call f es _ => call f es s

@[simp] theorem span_withSpan (s : Span) (e : Expr) : (e.withSpan s).span = s := by
  cases e <;> rfl

@[simp] theorem withSpan_withSpan (s t : Span) (e : Expr) :
    (e.withSpan s).withSpan t = e.withSpan t := by
  cases e <;> rfl

end Expr

namespace Stmt

def span : Stmt → Span
  | define _ _ _ s => s
  | expr _ s => s

end Stmt

end MonkeyLang
