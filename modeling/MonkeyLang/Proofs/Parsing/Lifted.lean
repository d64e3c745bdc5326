import MonkeyLang.Proofs.Parsing.Run

/-!
# The parser over any state

The parsers of lists, blocks, statements and operands, in any monad that the parsers of single
lexemes can be lifted to.  Only how an expression is read is left open, so a state can be kept
there that these parsers know nothing of.  With nothing to lift they are those of the program parser
(`operand_eq`, `extend_eq`, `statementsUpToEnd_eq`).

A relation between two such monads that the single lexemes keep, and doing one thing after another,
is kept by all of them (`Kept`):

    (∀ rank, P (expr rank) (expr' rank)) → P (operand expr) (operand expr')      (Kept.operand)
-/

namespace MonkeyLang.Parser

variable {m m' : Type → Type} [Monad m] [MonadLiftT Parser m] [Monad m'] [MonadLiftT Parser m']
  {α β : Type}

namespace Lifted

/-! ## Algorithm -/

/-- As `Parser.itemsUpTo`, in any monad that parsers can be lifted to. -/
def itemsUpTo (item : m α) (close : Token) : List Lexeme → List α → m (List α)
  | bound, done => do
    let a ← item
    if ← eat .comma then
      match bound with
      | _ :: bound => itemsUpTo item close bound (a :: done)
      | [] => fail .expectedExpr
    else
      expect close
      return (a :: done).reverse

def list (item : m α) (close : Token) : m (List α) := do
  if ← eat close then return [] else itemsUpTo item close (← unread) []

def statementsUpToBrace (statement : m α) : List Lexeme → List α → m (List α)
  | bound, done => do
    if ← eat .rbrace then return done.reverse
    if (← peek?).isNone then fail .unclosedBlock
    let s ← statement
    match bound with
    | _ :: bound => statementsUpToBrace statement bound (s :: done)
    | [] => fail .unclosedBlock

def statementsUpToEnd (statement : m α) : List Lexeme → List α → m (List α)
  | bound, done => do
    if (← peek?).isNone then return done.reverse
    let s ← statement
    match bound with
    | _ :: bound => statementsUpToEnd statement bound (s :: done)
    | [] => return (s :: done).reverse

/-- As `Parser.statement`, with the expression read in another monad. -/
def statement (expr : m Expr) : m Stmt := do
  let start ← nextStart
  if ← eat .letWord then
    let (x, xSpan) ← name
    expect .assign
    let value ← expr
    let _ ← eat .semi
    return .define x xSpan value ⟨start, ← prevEnd⟩
  else
    let e ← expr
    let _ ← eat .semi
    return .expr e ⟨start, ← prevEnd⟩

def block (expr : m Expr) : m (List Stmt) := do
  expect .lbrace
  statementsUpToBrace (statement expr) (← unread) []

def hashPair (expr : Rank → m Expr) : m (Expr × Expr) := do
  let key ← expr .lowest
  expect .colon
  return (key, ← expr .lowest)

/-- The first lexeme of an operand, as what it says about the rest. -/
def operandFirst : Parser (OperandStart × Span) :=
  take (fun l => (operandStart? l.token).map (·, l.span)) fun
    | some t => .unexpected t
    | none => .expectedExpr

/-- An operand behind its first lexeme. -/
def operandFrom (expr : Rank → m Expr) (first : OperandStart) (span : Span) : m Expr := do
  match first with
  | .leaf node => return node span
  | .sign op =>
    let e ← expr .sign
    return .unary op e ⟨span.start, ← prevEnd⟩
  | .paren =>
    let e ← expr .lowest
    expect .rparen
    return e.withSpan ⟨span.start, ← prevEnd⟩
  | .bracket =>
    let items ← list (expr .lowest) .rbracket
    return .array items ⟨span.start, ← prevEnd⟩
  | .brace =>
    let pairs ← list (hashPair expr) .rbrace
    return .hash pairs ⟨span.start, ← prevEnd⟩
  | .ifWord =>
    expect .lparen
    let test ← expr .lowest
    expect .rparen
    let yes ← block (expr .lowest)
    if ← eat .elseWord then
      let no ← block (expr .lowest)
      return .cond test yes (some no) ⟨span.start, ← prevEnd⟩
    else
      return .cond test yes none ⟨span.start, ← prevEnd⟩

def operand (expr : Rank → m Expr) : m Expr := do
  let (first, span) ← operandFirst
  operandFrom expr first span

/-- The rest of what the operator `t` makes of `left`, behind the operator. -/
def extendFrom (expr : Rank → m Expr) (left : Expr) (t : Token) : m Expr := do
  match binaryOp? t with
  | some op =>
    let right ← expr (rankOf t)
    return .binary left op right (left.span.merge right.span)
  | none =>
    if t = .lparen then
      let args ← list (expr .lowest) .rparen
      return .call left args ⟨left.span.start, ← prevEnd⟩
    else
      let subscript ← expr .lowest
      expect .rbracket
      return .index left subscript ⟨left.span.start, ← prevEnd⟩

def extend (expr : Rank → m Expr) (left : Expr) (t : Token) : m Expr := do
  expect t
  extendFrom expr left t

/-! ## Nothing to lift -/

/-- In the monad of parsers, these are the parsers themselves. -/
theorem itemsUpTo_eq (item : Parser α) (close : Token) (bound : List Lexeme) (done : List α) :
    itemsUpTo item close bound done = Parser.itemsUpTo item close bound done := by
  induction bound generalizing done with
  | nil => rfl
  | cons l bound ih =>
    rw [itemsUpTo, Parser.itemsUpTo]
    simp only [ih]
    rfl

theorem list_eq (item : Parser α) (close : Token) : list item close = Parser.list item close := by
  unfold list Parser.list
  simp only [itemsUpTo_eq]
  rfl

theorem statementsUpToBrace_eq (item : Parser α) (bound : List Lexeme) (done : List α) :
    statementsUpToBrace item bound done = Parser.statementsUpToBrace item bound done := by
  induction bound generalizing done with
  | nil => rfl
  | cons l bound ih =>
    rw [statementsUpToBrace, Parser.statementsUpToBrace]
    simp only [ih]
    rfl

theorem statementsUpToEnd_eq (item : Parser α) (bound : List Lexeme) (done : List α) :
    statementsUpToEnd item bound done = Parser.statementsUpToEnd item bound done := by
  induction bound generalizing done with
  | nil => rfl
  | cons l bound ih =>
    rw [statementsUpToEnd, Parser.statementsUpToEnd]
    simp only [ih]
    rfl

theorem statement_eq (expr : Parser Expr) : statement expr = Parser.statement expr := rfl

theorem block_eq (expr : Parser Expr) : block expr = Parser.block expr := by
  unfold block Parser.block
  simp only [statementsUpToBrace_eq, statement_eq]
  rfl

theorem operand_eq (expr : Rank → Parser Expr) : operand expr = Parser.operand expr := by
  unfold operand Parser.operand operandFrom
  simp only [list_eq, block_eq]
  rfl

theorem extend_eq (expr : Rank → Parser Expr) (left : Expr) (t : Token) :
    extend expr left t = Parser.extend expr left t := by
  unfold extend Parser.extend extendFrom
  simp only [list_eq]
  rfl

end Lifted

/-! ## Single lexemes -/

/-- The parser only goes forward, and does not fail for want of levels. -/
structure Single (x : Parser α) : Prop where
  forward {c : Cursor} {a : α} {c' : Cursor} (h : x c = .ok (a, c')) : c'.rest <:+ c.rest
  refused {c : Cursor} {e : ParseError} (h : x c = .error e) : e.cause ≠ .tooDeep

theorem single_take {accept : Lexeme → Option α} {refuse : Option Token → ParseCause}
    (h : ∀ t, refuse t ≠ .tooDeep) : Single (take accept refuse) where
  forward hc := by
    obtain ⟨l, hl, -⟩ := take_eq_ok.1 hc
    exact ⟨[l], hl.rest_eq.symm⟩
  refused {c e} hc := by
    unfold take at hc
    split at hc
    · cases hc
      exact h none
    · next l rest hrest =>
      split at hc
      · cases hc
      · cases hc
        exact h (some l.token)

theorem single_expect (t : Token) : Single (expect t) := single_take nofun

theorem single_name : Single name := single_take nofun

theorem single_operandFirst : Single Lifted.operandFirst :=
  single_take fun t => by cases t <;> nofun

theorem single_fail {cause : ParseCause} (h : cause ≠ .tooDeep) :
    Single (fail cause : Parser α) where
  forward := nofun
  refused hc := by
    cases hc
    exact h

theorem single_eat (t : Token) : Single (eat t) where
  forward hc := by
    rcases eat_eq_ok.1 hc with ⟨-, l, hl, -⟩ | ⟨-, rfl, -⟩
    · exact ⟨[l], hl.rest_eq.symm⟩
    · exact List.suffix_rfl
  refused hc := by
    unfold eat at hc
    split at hc
    · split at hc <;> cases hc
    · cases hc

/-- A parser that only looks. -/
theorem single_look {x : Parser α} (h : ∀ c, ∃ a, x c = .ok (a, c)) : Single x where
  forward {c a c'} hc := by
    obtain ⟨b, hb⟩ := h c
    cases hb.symm.trans hc
    exact List.suffix_rfl
  refused {c e} hc := by
    obtain ⟨b, hb⟩ := h c
    cases hb.symm.trans hc

theorem single_peek? : Single peek? := single_look fun _ => ⟨_, rfl⟩

theorem single_unread : Single unread := single_look fun _ => ⟨_, rfl⟩

theorem single_prevEnd : Single prevEnd := single_look fun _ => ⟨_, rfl⟩

theorem single_nextStart : Single nextStart := single_look fun _ => ⟨_, rfl⟩

/-! ## Relations that are kept -/

/-- A relation that is kept by single lexemes and by doing one thing after another. -/
structure Kept (P : (α : Type) → m α → m' α → Prop) : Prop where
  protected pure {α : Type} (a : α) : P α (pure a) (pure a)
  single {α : Type} {x : Parser α} (hx : Single x) : P α (monadLift x) (monadLift x)
  protected bind {α β : Type} {x : m α} {x' : m' α} {f : α → m β} {f' : α → m' β} (hx : P α x x')
    (hf : ∀ a, P β (f a) (f' a)) : P β (x >>= f) (x' >>= f')

namespace Kept

open Lifted

/-- A property that is kept, as a relation of each parser to itself. -/
theorem of_property {P : (α : Type) → m α → Prop} (hpure : ∀ {α : Type} (a : α), P α (pure a))
    (hsingle : ∀ {α : Type} {x : Parser α}, Single x → P α (monadLift x))
    (hbind : ∀ {α β : Type} {x : m α} {f : α → m β}, P α x → (∀ a, P β (f a)) → P β (x >>= f)) :
    Kept fun α (x y : m α) => y = x ∧ P α x where
  pure a := ⟨rfl, hpure a⟩
  single hx := ⟨rfl, hsingle hx⟩
  bind hx hf := by
    obtain ⟨rfl, hx⟩ := hx
    exact ⟨congrArg _ (funext fun a => (hf a).1), hbind hx fun a => (hf a).2⟩

variable {P : (α : Type) → m α → m' α → Prop} (hP : Kept P)
include hP

/-- A node that ends where the last lexeme did. -/
theorem ending {α : Type} (g : Nat → α) : P α (monadLift prevEnd >>= fun i => pure (g i))
    (monadLift prevEnd >>= fun i => pure (g i)) :=
  hP.bind (hP.single single_prevEnd) fun _ => hP.pure _

section

variable {α : Type} {item : m α} {item' : m' α} (hitem : P α item item')
include hitem

theorem itemsUpTo (close : Token) (bound : List Lexeme) (done : List α) :
    P (List α) (Lifted.itemsUpTo item close bound done)
      (Lifted.itemsUpTo item' close bound done) := by
  rw [Lifted.itemsUpTo.eq_def, Lifted.itemsUpTo.eq_def item']
  refine hP.bind hitem fun a => hP.bind (hP.single (single_eat .comma)) fun b => ?_
  cases b with
  | true =>
    cases bound with
    | nil => exact hP.single (single_fail nofun)
    | cons _ bound => exact itemsUpTo close bound (a :: done)
  | false => exact hP.bind (hP.single (single_expect close)) fun _ => hP.pure _

theorem list (close : Token) : P (List α) (Lifted.list item close) (Lifted.list item' close) := by
  refine hP.bind (hP.single (single_eat close)) fun b => ?_
  cases b with
  | true => exact hP.pure _
  | false => exact hP.bind (hP.single single_unread) fun bound => hP.itemsUpTo hitem close bound []

theorem statementsUpToBrace (bound : List Lexeme) (done : List α) :
    P (List α) (Lifted.statementsUpToBrace item bound done)
      (Lifted.statementsUpToBrace item' bound done) := by
  rw [Lifted.statementsUpToBrace.eq_def, Lifted.statementsUpToBrace.eq_def item']
  refine hP.bind (hP.single (single_eat .rbrace)) fun b => ?_
  cases b with
  | true => exact hP.pure _
  | false =>
    refine hP.bind (hP.single single_peek?) fun t => ?_
    cases t
    -- with no lexeme left it fails in front of the round
    case' none => refine hP.bind (hP.single (single_fail nofun)) fun _ => ?_
    all_goals
      refine hP.bind hitem fun a => ?_
      cases bound with
      | nil => exact hP.single (single_fail nofun)
      | cons _ bound => exact statementsUpToBrace bound (a :: done)

theorem statementsUpToEnd (bound : List Lexeme) (done : List α) :
    P (List α) (Lifted.statementsUpToEnd item bound done)
      (Lifted.statementsUpToEnd item' bound done) := by
  rw [Lifted.statementsUpToEnd.eq_def, Lifted.statementsUpToEnd.eq_def item']
  refine hP.bind (hP.single single_peek?) fun t => ?_
  cases t with
  | none => exact hP.pure _
  | some t =>
    refine hP.bind hitem fun a => ?_
    cases bound with
    | nil => exact hP.pure _
    | cons _ bound => exact statementsUpToEnd bound (a :: done)

end

section

variable {expr : m Expr} {expr' : m' Expr} (hexpr : P Expr expr expr')
include hexpr

theorem statement : P Stmt (Lifted.statement expr) (Lifted.statement expr') := by
  refine hP.bind (hP.single single_nextStart) fun start => ?_
  refine hP.bind (hP.single (single_eat .letWord)) fun b => ?_
  cases b with
  | true =>
    refine hP.bind (hP.single single_name) fun x => ?_
    refine hP.bind (hP.single (single_expect .assign)) fun _ => hP.bind hexpr fun e => ?_
    exact hP.bind (hP.single (single_eat .semi)) fun _ => hP.ending _
  | false =>
    refine hP.bind hexpr fun e => ?_
    exact hP.bind (hP.single (single_eat .semi)) fun _ => hP.ending _

theorem block : P (List Stmt) (Lifted.block expr) (Lifted.block expr') := by
  refine hP.bind (hP.single (single_expect .lbrace)) fun _ => ?_
  exact hP.bind (hP.single single_unread) fun bound =>
    hP.statementsUpToBrace (hP.statement hexpr) bound []

end

variable {expr : Rank → m Expr} {expr' : Rank → m' Expr}
  (hexpr : ∀ rank, P Expr (expr rank) (expr' rank))
include hexpr

theorem hashPair : P (Expr × Expr) (Lifted.hashPair expr) (Lifted.hashPair expr') := by
  refine hP.bind (hexpr .lowest) fun key => ?_
  refine hP.bind (hP.single (single_expect .colon)) fun _ => ?_
  exact hP.bind (hexpr .lowest) fun value => hP.pure _

/-- An operand behind its first lexeme: one case for each of its forms. -/
theorem operandFrom (first : OperandStart) (span : Span) :
    P Expr (Lifted.operandFrom expr first span) (Lifted.operandFrom expr' first span) := by
  cases first with
  | leaf node => exact hP.pure _
  | sign op => exact hP.bind (hexpr .sign) fun e => hP.ending _
  | paren =>
    refine hP.bind (hexpr .lowest) fun e => ?_
    exact hP.bind (hP.single (single_expect .rparen)) fun _ => hP.ending _
  | bracket => exact hP.bind (hP.list (hexpr .lowest) .rbracket) fun items => hP.ending _
  | brace => exact hP.bind (hP.list (hP.hashPair hexpr) .rbrace) fun pairs => hP.ending _
  | ifWord =>
    have hblock := hP.block (hexpr .lowest)
    refine hP.bind (hP.single (single_expect .lparen)) fun _ => ?_
    refine hP.bind (hexpr .lowest) fun test => ?_
    refine hP.bind (hP.single (single_expect .rparen)) fun _ => hP.bind hblock fun yes => ?_
    refine hP.bind (hP.single (single_eat .elseWord)) fun b => ?_
    cases b with
    | true => exact hP.bind hblock fun no => hP.ending _
    | false => exact hP.ending _

theorem operand : P Expr (Lifted.operand expr) (Lifted.operand expr') :=
  hP.bind (hP.single single_operandFirst) fun first => hP.operandFrom hexpr first.1 first.2

/-- The rest of an operator: its right operand, arguments or index. -/
theorem extendFrom (left : Expr) (t : Token) :
    P Expr (Lifted.extendFrom expr left t) (Lifted.extendFrom expr' left t) := by
  unfold Lifted.extendFrom
  cases binaryOp? t with
  | some op => exact hP.bind (hexpr (rankOf t)) fun right => hP.pure _
  | none =>
    by_cases ht : t = .lparen
    · simp only [if_pos ht]
      exact hP.bind (hP.list (hexpr .lowest) .rparen) fun args => hP.ending _
    · simp only [if_neg ht]
      refine hP.bind (hexpr .lowest) fun i => ?_
      exact hP.bind (hP.single (single_expect .rbracket)) fun _ => hP.ending _

theorem extend (left : Expr) (t : Token) :
    P Expr (Lifted.extend expr left t) (Lifted.extend expr' left t) :=
  hP.bind (hP.single (single_expect t)) fun _ => hP.extendFrom hexpr left t

end Kept

end MonkeyLang.Parser
