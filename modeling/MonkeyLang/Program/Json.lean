import MonkeyLang.Json.Basic
import MonkeyLang.Program.Basic

/-!
# Programs as JSON

`toJson` writes a node as a record of `node` and `span`, where the node is an object whose one
member bears the name of the form, or that name alone if there is nothing more to say.  `ofJson?`
reads this back and is lenient where nothing is lost: other members are passed over, a missing
alternative is none, and a program, a node with its span or a span may be a list of its fields in
order.  What a form holds is never such a list.
-/

namespace MonkeyLang

/-! ## Writing -/

namespace Span

def toJson (s : Span) : Json := .obj [("start", .int s.start), ("end", .int s.stop)]

/-- A node over a span. -/
def around (s : Span) (node : Json) : Json := .obj [("node", node), ("span", s.toJson)]

end Span

/-- The form of that name with what it holds. -/
def Json.form (name : String) (content : Json) : Json := .obj [(name, content)]

mutual

/-- An expression over its span; the form of it has the name of the node. -/
def Expr.toJson : Expr → Json
  | .int n s => s.around (.form "IntLit" (.int n.toInt))
  | .str t s => s.around (.form "StringLit" (.str t))
  | .bool b s => s.around (.form "BoolLit" (.bool b))
  | .null s => s.around (.str "Null")
  | .ident x s => s.around (.form "Ident" (.str x))
  | .unary op e s => s.around (.form "Prefix" (.obj [("op", .str op.name), ("expr", e.toJson)]))
  | .binary l op r s =>
    s.around (.form "Infix"
      (.obj [("left", l.toJson), ("op", .str op.name), ("right", r.toJson)]))
  | .cond c yes no s =>
    s.around (.form "If" (.obj [("cond", c.toJson), ("consequence", .arr (Stmt.toJsons [] yes)),
      ("alternative", Stmt.elseToJson no)]))
  | .array es s => s.around (.form "Array" (.arr (Expr.toJsons [] es)))
  | .hash ps s => s.around (.form "Hash" (.arr (Expr.pairsToJson [] ps)))
  | .index t i s => s.around (.form "Index" (.obj [("target", t.toJson), ("index", i.toJson)]))
  | .call f es s =>
    s.around (.form "Call" (.obj [("callee", f.toJson), ("args", .arr (Expr.toJsons [] es))]))

/-- The expressions' values, after those in `done`, which are in reverse order. -/
def Expr.toJsons (done : List Json) : List Expr → List Json
  | [] => done.reverse
  | e :: es => Expr.toJsons (e.toJson :: done) es

def Expr.pairsToJson (done : List Json) : List (Expr × Expr) → List Json
  | [] => done.reverse
  | (k, v) :: ps => Expr.pairsToJson (.arr [k.toJson, v.toJson] :: done) ps

def Stmt.toJson : Stmt → Json
  | .define x xs e s =>
    s.around (.form "Let" (.obj [("name", xs.around (.str x)), ("value", e.toJson)]))
  | .expr e s => s.around (.form "Expr" e.toJson)

def Stmt.toJsons (done : List Json) : List Stmt → List Json
  | [] => done.reverse
  | s :: ss => Stmt.toJsons (s.toJson :: done) ss

def Stmt.elseToJson : Option (List Stmt) → Json
  | none => .null
  | some ss => .arr (Stmt.toJsons [] ss)

end

/-- The tree of a program as one JSON value. -/
def Program.toJson (p : Program) : Json :=
  .obj [("statements", .arr (Stmt.toJsons [] p.statements))]

/-! ## Reading -/

namespace Json

/-- The two members of an object under these names. -/
def members₂? (a b : String) : Json → Option (Json × Json)
  | .obj ms => do return (← member? ms a, ← member? ms b)
  | _ => none

/-- The three members of an object under these names. -/
def members₃? (a b c : String) : Json → Option (Json × Json × Json)
  | .obj ms => do return (← member? ms a, ← member? ms b, ← member? ms c)
  | _ => none

/-- The parts of a conditional; the last may be missing. -/
def condMembers? : Json → Option (Json × Json × Json)
  | .obj ms => do
    return (← member? ms "cond", ← member? ms "consequence", (member? ms "alternative").getD .null)
  | _ => none

/-- The two fields of a record, which is an object under these names or a list. -/
def fields₂? (a b : String) : Json → Option (Json × Json)
  | .arr [x, y] => some (x, y)
  | j => j.members₂? a b

/-- The form's name and what it holds, which is none for a name alone. -/
def form? : Json → Option (String × Option Json)
  | .str name => some (name, none)
  | .obj [(name, content)] => some (name, some content)
  | _ => none

/-- The name of a form that holds nothing. -/
def bareForm? (j : Json) : Option String :=
  match j.form? with
  | some (name, none) => some name
  | some (name, some .null) => some name
  | _ => none

end Json

def Span.ofJson? (j : Json) : Option Span := do
  let (a, b) ← j.fields₂? "start" "end"
  return ⟨← a.size?, ← b.size?⟩

/-- The node and the span of a record of both. -/
def Span.apart? (j : Json) : Option (Json × Span) := do
  let (node, s) ← j.fields₂? "node" "span"
  return (node, ← Span.ofJson? s)

/-- Reads every item, after those in `done`, which are in reverse order. -/
def Json.readAll {α : Type} (item : Json → Option α) (done : List α) : List Json → Option (List α)
  | [] => some done.reverse
  | j :: js =>
    match item j with
    | some a => readAll item (a :: done) js
    | none => none

def Json.listOf? {α : Type} (item : Json → Option α) (j : Json) : Option (List α) := do
  Json.readAll item [] (← j.arr?)

def Json.pairOf? {α : Type} (item : Json → Option α) : Json → Option (α × α)
  | .arr [a, b] => do return (← item a, ← item b)
  | _ => none

def UnaryOp.ofJson? (j : Json) : Option UnaryOp := do UnaryOp.ofName? (← j.bareForm?)

def BinaryOp.ofJson? (j : Json) : Option BinaryOp := do BinaryOp.ofName? (← j.bareForm?)

/-- Reads a statement; `expr` reads the expressions in it. -/
def Stmt.ofJsonWith? (expr : Json → Option Expr) (j : Json) : Option Stmt := do
  let (node, s) ← Span.apart? j
  let (name, content) ← node.form?
  let content ← content
  match name with
  | "Let" =>
    let (x, e) ← content.members₂? "name" "value"
    let (x, xs) ← Span.apart? x
    return .define (← x.str?) xs (← expr e) s
  | "Expr" => return .expr (← expr content) s
  | _ => none

/-- Reads the form of that name over the span `s`; `expr` reads the expressions in it. -/
def Expr.formOfJson? (expr : Json → Option Expr) (s : Span) (name : String) (content : Json) :
    Option Expr := do
  match name with
  | "IntLit" => return .int (← content.int64?) s
  | "StringLit" => return .str (← content.str?) s
  | "BoolLit" => return .bool (← content.bool?) s
  | "Null" =>
    match content with
    | .null => return .null s
    | _ => none
  | "Ident" => return .ident (← content.str?) s
  | "Prefix" =>
    let (op, e) ← content.members₂? "op" "expr"
    return .unary (← UnaryOp.ofJson? op) (← expr e) s
  | "Infix" =>
    let (l, op, r) ← content.members₃? "left" "op" "right"
    return .binary (← expr l) (← BinaryOp.ofJson? op) (← expr r) s
  | "If" =>
    let (c, yes, no) ← content.condMembers?
    let c ← expr c
    let yes ← yes.listOf? (Stmt.ofJsonWith? expr)
    match no with
    | .null => return .cond c yes none s
    | no => return .cond c yes (some (← no.listOf? (Stmt.ofJsonWith? expr))) s
  | "Array" => return .array (← content.listOf? expr) s
  | "Hash" => return .hash (← content.listOf? (Json.pairOf? expr)) s
  | "Index" =>
    let (t, i) ← content.members₂? "target" "index"
    return .index (← expr t) (← expr i) s
  | "Call" =>
    let (f, es) ← content.members₂? "callee" "args"
    return .call (← expr f) (← es.listOf? expr) s
  | _ => none

/-- Reads an expression no more than `height` values high. -/
def Expr.ofJsonWithin? : (height : Nat) → Json → Option Expr
  | 0, _ => none
  | height + 1, j => do
    let (node, s) ← Span.apart? j
    match ← node.form? with
    | ("Null", none) => return .null s
    | (_, none) => none
    | (name, some content) => Expr.formOfJson? (Expr.ofJsonWithin? height) s name content

/-- Reads a program.  No expression in it is higher than the JSON value. -/
def Program.ofJson? (j : Json) : Option Program := do
  let statements ← match j with
    | .obj ms => Json.member? ms "statements"
    | .arr [statements] => some statements
    | _ => none
  return ⟨← statements.listOf? (Stmt.ofJsonWith? (Expr.ofJsonWithin? j.height))⟩

end MonkeyLang
