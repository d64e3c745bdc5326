import MonkeyLang.Program.Basic
import MonkeyLang.Token.Basic

/-!
# Programs as source text

`source` writes a tree as a text that reads as that tree again, up to its spans.  Every operand,
item, key and value stands in parentheses, so no ranks matter, and every statement ends with a
semicolon.  An integer below zero has no literal, and is written as one all the same.
-/

namespace MonkeyLang

/-- A character of a string literal: quote and backslash stand behind a backslash. -/
def literalChar (c : Char) : List Char := if c = '"' ∨ c = '\\' then ['\\', c] else [c]

/-- A text as a string literal. -/
def stringLiteral (s : String) : String :=
  String.ofList ('"' :: s.toList.flatMap literalChar ++ ['"'])

def parens (text : String) : String := "(" ++ text ++ ")"

mutual

/-- The text of an expression.  Parentheses stand around every part, so no operator takes what is
not its own. -/
def Expr.source : Expr → String
  | .int n _ => toString n.toInt
  | .str t _ => stringLiteral t
  | .bool b _ => (if b then Token.trueWord else Token.falseWord).display
  | .null _ => Token.nullWord.display
  | .ident x _ => x
  | .unary op e _ => op.display ++ parens e.source
  | .binary l op r _ => parens l.source ++ " " ++ op.display ++ " " ++ parens r.source
  | .cond c yes no _ =>
    "if " ++ parens c.source ++ " \x7b " ++ Stmt.sources yes ++ "\x7d" ++ Stmt.sourceElse no
  | .array es _ => "[" ++ ", ".intercalate (Expr.sources es) ++ "]"
  | .hash ps _ => "\x7b" ++ ", ".intercalate (Expr.sourcePairs ps) ++ "\x7d"
  | .index t i _ => parens t.source ++ "[" ++ parens i.source ++ "]"
  | .call f es _ => parens f.source ++ parens (", ".intercalate (Expr.sources es))

def Expr.sources : List Expr → List String
  | [] => []
  | e :: es => parens e.source :: Expr.sources es

def Expr.sourcePairs : List (Expr × Expr) → List String
  | [] => []
  | (k, v) :: ps => (parens k.source ++ ": " ++ parens v.source) :: Expr.sourcePairs ps

/-- The text of a statement; it ends with a semicolon. -/
def Stmt.source : Stmt → String
  | .define x _ e _ => "let " ++ x ++ " = " ++ e.source ++ "; "
  | .expr e _ => e.source ++ "; "

def Stmt.sources : List Stmt → String
  | [] => ""
  | s :: ss => s.source ++ Stmt.sources ss

def Stmt.sourceElse : Option (List Stmt) → String
  | none => ""
  | some ss => " else \x7b " ++ Stmt.sources ss ++ "\x7d"

end

/-- A text that reads as the program again. -/
def Program.source (p : Program) : String := Stmt.sources p.statements

end MonkeyLang
