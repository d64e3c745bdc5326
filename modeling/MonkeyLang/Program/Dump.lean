import MonkeyLang.Program.Basic
import MonkeyLang.Text.Dump
import MonkeyLang.Text.Quoted

/-!
# Constructor text of programs

Every node is a record of its constructor text and its span.
-/

namespace MonkeyLang

open Text.Dump (constructed record pair list)

def Span.dump (s : Span) : String :=
  record "Span" [("start", toString s.start), ("end", toString s.stop)]

/-- A node beside its span. -/
def spannedDump (node : String) (s : Span) : String :=
  record "Spanned" [("node", node), ("span", s.dump)]

mutual

/-- The debugging text of an expression, with the spans of all its parts. -/
def Expr.dump : Expr → String
  | .int n s => spannedDump (constructed "IntLit" [toString n.toInt]) s
  | .str t s => spannedDump (constructed "StringLit" [Text.quote t]) s
  | .bool b s => spannedDump (constructed "BoolLit" [toString b]) s
  | .null s => spannedDump "Null" s
  | .ident x s => spannedDump (constructed "Ident" [Text.quote x]) s
  | .unary op e s => spannedDump (record "Prefix" [("op", op.name), ("expr", e.dump)]) s
  | .binary l op r s =>
    spannedDump (record "Infix" [("left", l.dump), ("op", op.name), ("right", r.dump)]) s
  | .cond c yes no s =>
    spannedDump (record "If" [("cond", c.dump), ("consequence", list (Stmt.dumps [] yes)),
      ("alternative", Stmt.dumpElse no)]) s
  | .array es s => spannedDump (constructed "Array" [list (Expr.dumps [] es)]) s
  | .hash ps s => spannedDump (constructed "Hash" [list (Expr.dumpPairs [] ps)]) s
  | .index t i s => spannedDump (record "Index" [("target", t.dump), ("index", i.dump)]) s
  | .call f es s =>
    spannedDump (record "Call" [("callee", f.dump), ("args", list (Expr.dumps [] es))]) s

/-- The texts of the expressions, after those in `done`, which are in reverse order. -/
def Expr.dumps (done : List String) : List Expr → List String
  | [] => done.reverse
  | e :: es => Expr.dumps (e.dump :: done) es

def Expr.dumpPairs (done : List String) : List (Expr × Expr) → List String
  | [] => done.reverse
  | (k, v) :: ps => Expr.dumpPairs (pair k.dump v.dump :: done) ps

def Stmt.dump : Stmt → String
  | .define x xs e s =>
    spannedDump (record "Let" [("name", spannedDump (Text.quote x) xs), ("value", e.dump)]) s
  | .expr e s => spannedDump (constructed "Expr" [e.dump]) s

def Stmt.dumps (done : List String) : List Stmt → List String
  | [] => done.reverse
  | s :: ss => Stmt.dumps (s.dump :: done) ss

def Stmt.dumpElse : Option (List Stmt) → String
  | none => "None"
  | some ss => constructed "Some" [list (Stmt.dumps [] ss)]

end

/-- The debugging text of a whole program. -/
def Program.dump (p : Program) : String :=
  record "Program" [("statements", list (Stmt.dumps [] p.statements))]

end MonkeyLang
