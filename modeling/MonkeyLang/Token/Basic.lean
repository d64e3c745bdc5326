import MonkeyLang.Span
import MonkeyLang.Text.Dump
import MonkeyLang.Text.Quoted

/-!
# Tokens

The words of the language, each with its kind, the text that stands for it (`display`) and its
constructor text (`dump`).  A lexeme is a token with the span it was read from.
-/

namespace MonkeyLang

/-- Tokens.  An integer literal has no sign, so those of a source are not negative. -/
inductive Token where
  | letWord
  | ifWord
  | elseWord
  | trueWord
  | falseWord
  | nullWord
  | int (value : Int64)
  /-- The text with its escapes already resolved. -/
  | str (text : String)
  | ident (name : String)
  | assign
  | plus
  | minus
  | star
  | slash
  | bang
  | lt
  | gt
  | eqEq
  | notEq
  | comma
  | semi
  | colon
  | lparen
  | rparen
  | lbrace
  | rbrace
  | lbracket
  | rbracket
deriving DecidableEq, Inhabited

/-- A token with the bytes that it was read from. -/
structure Lexeme where
  token : Token
  span : Span
deriving DecidableEq, Inhabited

namespace Token

def kind : Token → String
  | letWord => "Let"
  | ifWord => "If"
  | elseWord => "Else"
  | trueWord => "True"
  | falseWord => "False"
  | nullWord => "Null"
  | int _ => "IntLit"
  | str _ => "StringLit"
  | ident _ => "Ident"
  | assign => "Assign"
  | plus => "Plus"
  | minus => "Minus"
  | star => "Star"
  | slash => "Slash"
  | bang => "Bang"
  | lt => "Lt"
  | gt => "Gt"
  | eqEq => "EqEq"
  | notEq => "NotEq"
  | comma => "Comma"
  | semi => "Semi"
  | colon => "Colon"
  | lparen => "LParen"
  | rparen => "RParen"
  | lbrace => "LBrace"
  | rbrace => "RBrace"
  | lbracket => "LBracket"
  | rbracket => "RBracket"

/-- The token as source text; a string stands between quotes with no escapes put back. -/
def display : Token → String
  | letWord => "let"
  | ifWord => "if"
  | elseWord => "else"
  | trueWord => "true"
  | falseWord => "false"
  | nullWord => "null"
  | int n => toString n.toInt
  | str s => "\"" ++ s ++ "\""
  | ident x => x
  | assign => "="
  | plus => "+"
  | minus => "-"
  | star => "*"
  | slash => "/"
  | bang => "!"
  | lt => "<"
  | gt => ">"
  | eqEq => "=="
  | notEq => "!="
  | comma => ","
  | semi => ";"
  | colon => ":"
  | lparen => "("
  | rparen => ")"
  | lbrace => "\x7b"
  | rbrace => "\x7d"
  | lbracket => "["
  | rbracket => "]"

/-- The debugging text of a token. -/
def dump (t : Token) : String :=
  match t with
  | int n => Text.Dump.constructed t.kind [toString n.toInt]
  | str s => Text.Dump.constructed t.kind [Text.quote s]
  | ident x => Text.Dump.constructed t.kind [Text.quote x]
  | _ => t.kind

/-- The word that a name spells, if it is reserved. -/
def reserved? (name : String) : Option Token :=
  match name with
  | "let" => some letWord
  | "if" => some ifWord
  | "else" => some elseWord
  | "true" => some trueWord
  | "false" => some falseWord
  | "null" => some nullWord
  | _ => none

end Token

end MonkeyLang
