import MonkeyLang.Program.Basic
import MonkeyLang.Token.Basic

/-!
# Parsing

`parse` reads lexemes as a program.  Operators bind by rank, from equality up to indexing, all of
them to the left; `-` and `!` before an operand bind tighter than any between operands.

An expression takes one level of nesting, and every operator, call or index on its left spine one
more, so that the trees stay shallow.  The parsers of expressions recurse on the levels that are
left and use none of the input for it; where no level is left they say so, and otherwise the first
token that fits nowhere is the error.  The loops over lists and blocks recurse on the lexemes that
were unread when the loop began, of which every round takes at least one.
-/

namespace MonkeyLang

/-! ## Errors -/

/-- What is wrong at the place where parsing fails. -/
inductive ParseCause where
  | expected (wanted : Token) (found : Option Token)
  | expectedName (found : Option Token)
  | expectedExpr
  | unexpected (found : Token)
  | unclosedBlock
  | tooDeep
deriving DecidableEq

/-- A cause and the lexemes unread at it, of which the first is the one at fault.  None is left
if the input ends too early. -/
structure ParseError where
  cause : ParseCause
  unread : List Lexeme
deriving DecidableEq

/-- The levels that an expression of a program may take. -/
def nestingLimit : Nat := 1024

/-- A token as messages name it. -/
def foundText : Option Token → String
  | some t => "found `" ++ t.display ++ "`"
  | none => "found end of input"

def ParseCause.message : ParseCause → String
  | expected wanted found => "expected `" ++ wanted.display ++ "`, " ++ foundText found
  | expectedName found => "expected identifier after `let`, " ++ foundText found
  | expectedExpr => "expected expression, found end of input"
  | unexpected found => "unexpected token `" ++ found.display ++ "`"
  | unclosedBlock => "unterminated block, expected `\x7d`"
  | tooDeep => "expression nested too deeply (limit " ++ toString nestingLimit ++ ")"

def ParseError.message (e : ParseError) : String := e.cause.message

/-- The span of the lexeme at fault, or the end of a source of that many bytes. -/
def ParseError.span (e : ParseError) (sourceSize : Nat) : Span :=
  match e.unread with
  | l :: _ => l.span
  | [] => ⟨sourceSize, sourceSize⟩

/-! ## Reading lexemes -/

/-- A place between two lexemes: where the last one read ends, and those yet to read. -/
structure Cursor where
  prevEnd : Nat
  rest : List Lexeme

/-- Parsers take lexemes off a cursor, or fail. -/
abbrev Parser := StateT Cursor (Except ParseError)

namespace Parser

variable {α : Type}

/-- Fails at the next lexeme. -/
def fail (cause : ParseCause) : Parser α := fun c => .error ⟨cause, c.rest⟩

def peek? : Parser (Option Token) := fun c => .ok (c.rest.head?.map (·.token), c)

def unread : Parser (List Lexeme) := fun c => .ok (c.rest, c)

def prevEnd : Parser Nat := fun c => .ok (c.prevEnd, c)

/-- Where the next lexeme starts; 0 if there is none. -/
def nextStart : Parser Nat := fun c => .ok ((c.rest.head?.map (·.span.start)).getD 0, c)

/-- Takes a lexeme for which `accept` has an answer; `refuse` is the cause if it has none. -/
def take (accept : Lexeme → Option α) (refuse : Option Token → ParseCause) : Parser α := fun c =>
  match c.rest with
  | [] => .error ⟨refuse none, []⟩
  | l :: rest =>
    match accept l with
    | some a => .ok (a, ⟨l.span.stop, rest⟩)
    | none => .error ⟨refuse (some l.token), c.rest⟩

/-- Takes that token and no other. -/
def expect (t : Token) : Parser Unit :=
  take (fun l => if l.token = t then some () else none) (.expected t)

/-- Takes the next lexeme if it is that token, and says whether it was. -/
def eat (t : Token) : Parser Bool := fun c =>
  match c.rest with
  | l :: rest => if l.token = t then .ok (true, ⟨l.span.stop, rest⟩) else .ok (false, c)
  | [] => .ok (false, c)

/-! ## Lists and blocks -/

/-- One or more items with commas between them, up to `close`. -/
def itemsUpTo (item : Parser α) (close : Token) : List Lexeme → List α → Parser (List α)
  | bound, done => do
    let a ← item
    if ← eat .comma then
      match bound with
      | _ :: bound => itemsUpTo item close bound (a :: done)
      | [] => fail .expectedExpr
    else
      expect close
      return (a :: done).reverse

/-- Items with commas between them, none behind the last, up to `close`. -/
def list (item : Parser α) (close : Token) : Parser (List α) := do
  if ← eat close then return [] else itemsUpTo item close (← unread) []

/-- Statements up to the brace that ends a block. -/
def statementsUpToBrace (statement : Parser α) : List Lexeme → List α → Parser (List α)
  | bound, done => do
    if ← eat .rbrace then return done.reverse
    if (← peek?).isNone then fail .unclosedBlock
    let s ← statement
    match bound with
    | _ :: bound => statementsUpToBrace statement bound (s :: done)
    | [] => fail .unclosedBlock

/-- Statements up to the end of the input. -/
def statementsUpToEnd (statement : Parser α) : List Lexeme → List α → Parser (List α)
  | bound, done => do
    if (← peek?).isNone then return done.reverse
    let s ← statement
    match bound with
    | _ :: bound => statementsUpToEnd statement bound (s :: done)
    | [] => return (s :: done).reverse

/-! ## Statements -/

/-- A name, and its span. -/
def name : Parser (String × Span) :=
  take (fun l => match l.token with
    | .ident x => some (x, l.span)
    | _ => none) .expectedName

/-- A definition or an expression, and a semicolon if there is one. -/
def statement (expr : Parser Expr) : Parser Stmt := do
  let start ← nextStart
  if ← eat .letWord then
    let (x, xSpan) ← name
    expect .assign
    let value ← expr
    let _ ← eat .semi
    return .define x xSpan value ⟨start, ← prevEnd⟩
  else
    let e ← expr
    let _ ← eat .semi
    return .expr e ⟨start, ← prevEnd⟩

/-- Statements between braces. -/
def block (expr : Parser Expr) : Parser (List Stmt) := do
  expect .lbrace
  statementsUpToBrace (statement expr) (← unread) []

/-! ## Expressions -/

/-- How tight an operator binds, the loosest first. -/
inductive Rank where
  | lowest
  | equality
  | comparison
  | sum
  | product
  | sign
  | call
  | index
deriving DecidableEq

/-- The ranks as numbers, which are in the same order. -/
def Rank.toNat : Rank → Nat
  | lowest => 0
  | equality => 1
  | comparison => 2
  | sum => 3
  | product => 4
  | sign => 5
  | call => 6
  | index => 7

/-- The rank of the operator that a token is behind an operand. -/
def rankOf : Token → Rank
  | .eqEq => .equality
  | .notEq => .equality
  | .lt => .comparison
  | .gt => .comparison
  | .plus => .sum
  | .minus => .sum
  | .star => .product
  | .slash => .product
  | .lparen => .call
  | .lbracket => .index
  | _ => .lowest

/-- The operator that a token is between two operands. -/
def binaryOp? : Token → Option BinaryOp
  | .plus => some .add
  | .minus => some .sub
  | .star => some .mul
  | .slash => some .div
  | .lt => some .lt
  | .gt => some .gt
  | .eqEq => some .eq
  | .notEq => some .notEq
  | _ => none

/-- What the first token of an operand says about the rest of it. -/
inductive OperandStart where
  | leaf (node : Span → Expr)
  | sign (op : UnaryOp)
  | paren
  | bracket
  | brace
  | ifWord

/-- What an operand may begin with. -/
def operandStart? : Token → Option OperandStart
  | .int n => some (.leaf (.int n))
  | .str s => some (.leaf (.str s))
  | .trueWord => some (.leaf (.bool true))
  | .falseWord => some (.leaf (.bool false))
  | .nullWord => some (.leaf .null)
  | .ident x => some (.leaf (.ident x))
  | .bang => some (.sign .not)
  | .minus => some (.sign .neg)
  | .lparen => some .paren
  | .lbracket => some .bracket
  | .lbrace => some .brace
  | .ifWord => some .ifWord
  | _ => none

/-- A key and a value with a colon between them. -/
def hashPair (expr : Rank → Parser Expr) : Parser (Expr × Expr) := do
  let key ← expr .lowest
  expect .colon
  return (key, ← expr .lowest)

/-- A literal, a name, an operand behind a sign, or a bracketed form; `expr` reads the expressions
inside it. -/
def operand (expr : Rank → Parser Expr) : Parser Expr := do
  let (first, span) ← take (fun l => (operandStart? l.token).map (·, l.span)) fun
    | some t => .unexpected t
    | none => .expectedExpr
  match first with
  | .leaf node => return node span
  | .sign op =>
    let e ← expr .sign
    return .unary op e ⟨span.start, ← prevEnd⟩
  | .paren =>
    let e ← expr .lowest
    expect .rparen
    return e.withSpan ⟨span.start, ← prevEnd⟩
  | .bracket =>
    let items ← list (expr .lowest) .rbracket
    return .array items ⟨span.start, ← prevEnd⟩
  | .brace =>
    let pairs ← list (hashPair expr) .rbrace
    return .hash pairs ⟨span.start, ← prevEnd⟩
  | .ifWord =>
    expect .lparen
    let test ← expr .lowest
    expect .rparen
    let yes ← block (expr .lowest)
    if ← eat .elseWord then
      let no ← block (expr .lowest)
      return .cond test yes (some no) ⟨span.start, ← prevEnd⟩
    else
      return .cond test yes none ⟨span.start, ← prevEnd⟩

/-- The operator `t` behind `left`, with its right operand, arguments or index. -/
def extend (expr : Rank → Parser Expr) (left : Expr) (t : Token) : Parser Expr := do
  expect t
  match binaryOp? t with
  | some op =>
    let right ← expr (rankOf t)
    return .binary left op right (left.span.merge right.span)
  | none =>
    if t = .lparen then
      let args ← list (expr .lowest) .rparen
      return .call left args ⟨left.span.start, ← prevEnd⟩
    else
      let subscript ← expr .lowest
      expect .rbracket
      return .index left subscript ⟨left.span.start, ← prevEnd⟩

mutual

/-- An expression whose operators all bind tighter than `rank`. -/
def expr : (levels : Nat) → (rank : Rank) → Parser Expr
  | 0, _ => fail .tooDeep
  | levels + 1, rank => do
    let left ← operand (expr levels)
    operators levels rank left

/-- The operators behind `left` that bind tighter than `rank`. -/
def operators : (levels : Nat) → (rank : Rank) → (left : Expr) → Parser Expr
  | 0, rank, left => do
    match ← peek? with
    | none => return left
    | some t => if (rankOf t).toNat ≤ rank.toNat then return left else fail .tooDeep
  | levels + 1, rank, left => do
    match ← peek? with
    | none => return left
    | some t =>
      if (rankOf t).toNat ≤ rank.toNat then return left
      else
        let whole ← extend (expr levels) left t
        operators levels rank whole

end

end Parser

/-! ## Programs -/

namespace Program

/-- Reads lexemes whose expressions may take `levels` levels each. -/
def parseWithin (levels : Nat) (lexemes : List Lexeme) : Except ParseError Program :=
  let statements := Parser.statementsUpToEnd (Parser.statement (Parser.expr levels .lowest))
  (statements lexemes []).run ⟨0, lexemes⟩ |>.map fun r => ⟨r.1⟩

/-- The program that lexemes stand for. -/
def parse (lexemes : List Lexeme) : Except ParseError Program := parseWithin nestingLimit lexemes

end Program

end MonkeyLang
