import MonkeyLang.Program.Parse

/-!
# The grammar

What the lexemes of a program look like, said without the parser.  Operators stand in layers, from
equality down to signs, calls and indices, and an operator of a layer has its left operand in the
same layer and its right one in the next tighter one.

Every expression has a level.  One that is entered at depth `d` starts at level `d + 1`, each
operator on its left spine is one level up, and what stands in brackets or behind an operator is
entered at the level of what it belongs to.  `Phrase limit` has the expressions that stay within
`limit`:

    Phrase limit layer d ls k e     the lexemes `ls`, entered at depth `d`, are the expression `e`
                                    of that layer, with `k` operators on its left spine

A statement without a semicolon must not be followed by a token that could go on with it.
-/

namespace MonkeyLang.Grammar

/-! ## Words -/

/-- The kinds of expressions, the loosest first. -/
inductive Layer where
  | equality
  | comparison
  | sum
  | product
  | sign
  | suffix
  | atom
deriving DecidableEq

namespace Layer

/-- The layer of what an operator of this one stands before. -/
def tighter : Layer → Layer
  | equality => comparison
  | comparison => sum
  | sum => product
  | product => sign
  | sign => suffix
  | suffix => atom
  | atom => atom

/-- The operators between operands that belong to a layer. -/
def binaryOp? : Layer → Token → Option BinaryOp
  | equality, .eqEq => some .eq
  | equality, .notEq => some .notEq
  | comparison, .lt => some .lt
  | comparison, .gt => some .gt
  | sum, .plus => some .add
  | sum, .minus => some .sub
  | product, .star => some .mul
  | product, .slash => some .div
  | _, _ => none

end Layer

def unaryOp? : Token → Option UnaryOp
  | .bang => some .not
  | .minus => some .neg
  | _ => none

/-- The expressions that are one lexeme. -/
def leaf? (l : Lexeme) : Option Expr :=
  match l.token with
  | .int n => some (.int n l.span)
  | .str s => some (.str s l.span)
  | .trueWord => some (.bool true l.span)
  | .falseWord => some (.bool false l.span)
  | .nullWord => some (.null l.span)
  | .ident x => some (.ident x l.span)
  | _ => none

/-- The layer to which a token belongs where it stands behind an operand. -/
def layer? : Token → Option Layer
  | .eqEq => some .equality
  | .notEq => some .equality
  | .lt => some .comparison
  | .gt => some .comparison
  | .plus => some .sum
  | .minus => some .sum
  | .star => some .product
  | .slash => some .product
  | .lparen => some .suffix
  | .lbracket => some .suffix
  | _ => none

/-- The first of the lexemes goes on with an expression before it. -/
def Continues (ls : List Lexeme) : Prop := ∃ l ∈ ls.head?, (layer? l.token).isSome

/-- The end of the last lexeme, or `start` if there is none. -/
def endFrom (start : Nat) (ls : List Lexeme) : Nat := ls.foldl (fun _ l => l.span.stop) start

/-- From the start of the first lexeme to the end of the last. -/
def hull : List Lexeme → Span
  | [] => ⟨0, 0⟩
  | l :: ls => ⟨l.span.start, endFrom l.span.stop ls⟩

/-- At most one semicolon, and whether there is one. -/
inductive Semicolon : Bool → List Lexeme → Prop
  | absent : Semicolon false []
  | present {l : Lexeme} (hl : l.token = .semi) : Semicolon true [l]

/-! ## Rules -/

mutual

/-- The lexemes are an expression of a layer at depth `d`, with `k` operators, calls and indices on
its spine.  Everything stays within `limit` levels. -/
inductive Phrase (limit : Nat) : Layer → Nat → List Lexeme → Nat → Expr → Prop
  | leaf {d : Nat} {l : Lexeme} {e : Expr} (hd : d + 1 ≤ limit) (hl : leaf? l = some e) :
      Phrase limit .atom d [l] 0 e
  | paren {d k : Nat} {o c : Lexeme} {ls : List Lexeme} {e : Expr} (hd : d + 1 ≤ limit)
      (ho : o.token = .lparen) (he : Phrase limit .equality (d + 1) ls k e)
      (hc : c.token = .rparen) :
      Phrase limit .atom d (o :: ls ++ [c]) 0 (e.withSpan (hull (o :: ls ++ [c])))
  | array {d : Nat} {o c : Lexeme} {ls : List Lexeme} {es : List Expr} (hd : d + 1 ≤ limit)
      (ho : o.token = .lbracket) (hes : Items limit (d + 1) ls es) (hc : c.token = .rbracket) :
      Phrase limit .atom d (o :: ls ++ [c]) 0 (.array es (hull (o :: ls ++ [c])))
  | hash {d : Nat} {o c : Lexeme} {ls : List Lexeme} {ps : List (Expr × Expr)} (hd : d + 1 ≤ limit)
      (ho : o.token = .lbrace) (hps : Pairs limit (d + 1) ls ps) (hc : c.token = .rbrace) :
      Phrase limit .atom d (o :: ls ++ [c]) 0 (.hash ps (hull (o :: ls ++ [c])))
  | cond {d k : Nat} {i o c : Lexeme} {ls ys ns : List Lexeme} {test : Expr} {yes : List Stmt}
      {no : Option (List Stmt)} (hd : d + 1 ≤ limit) (hi : i.token = .ifWord)
      (ho : o.token = .lparen) (he : Phrase limit .equality (d + 1) ls k test)
      (hc : c.token = .rparen) (hy : Block limit (d + 1) ys yes)
      (hn : Otherwise limit (d + 1) ns no) :
      Phrase limit .atom d (i :: o :: ls ++ c :: ys ++ ns) 0
        (.cond test yes no (hull (i :: o :: ls ++ c :: ys ++ ns)))
  | unary {d k : Nat} {o : Lexeme} {ls : List Lexeme} {op : UnaryOp} {e : Expr}
      (hd : d + 1 ≤ limit) (ho : unaryOp? o.token = some op)
      (he : Phrase limit .sign (d + 1) ls k e) :
      Phrase limit .sign d (o :: ls) 0 (.unary op e (hull (o :: ls)))
  | binary {layer : Layer} {d k j : Nat} {o : Lexeme} {ls rs : List Lexeme} {op : BinaryOp}
      {l r : Expr} (hl : Phrase limit layer d ls k l) (ho : layer.binaryOp? o.token = some op)
      (hd : d + 1 + (k + 1) ≤ limit) (hr : Phrase limit layer.tighter (d + 1 + (k + 1)) rs j r) :
      Phrase limit layer d (ls ++ o :: rs) (k + 1) (.binary l op r (l.span.merge r.span))
  | call {d k : Nat} {o c : Lexeme} {ls rs : List Lexeme} {f : Expr} {args : List Expr}
      (hf : Phrase limit .suffix d ls k f) (ho : o.token = .lparen)
      (hd : d + 1 + (k + 1) ≤ limit) (hargs : Items limit (d + 1 + (k + 1)) rs args)
      (hc : c.token = .rparen) :
      Phrase limit .suffix d (ls ++ o :: rs ++ [c]) (k + 1)
        (.call f args (hull (ls ++ o :: rs ++ [c])))
  | index {d k j : Nat} {o c : Lexeme} {ls rs : List Lexeme} {t i : Expr}
      (ht : Phrase limit .suffix d ls k t) (ho : o.token = .lbracket)
      (hd : d + 1 + (k + 1) ≤ limit) (hi : Phrase limit .equality (d + 1 + (k + 1)) rs j i)
      (hc : c.token = .rbracket) :
      Phrase limit .suffix d (ls ++ o :: rs ++ [c]) (k + 1)
        (.index t i (hull (ls ++ o :: rs ++ [c])))
  | tighter {layer : Layer} {d k : Nat} {ls : List Lexeme} {e : Expr}
      (h : Phrase limit layer.tighter d ls k e) : Phrase limit layer d ls k e

/-- Expressions with commas between them, none behind the last. -/
inductive Items (limit : Nat) : Nat → List Lexeme → List Expr → Prop
  | nil {d : Nat} : Items limit d [] []
  | one {d k : Nat} {ls : List Lexeme} {e : Expr} (he : Phrase limit .equality d ls k e) :
      Items limit d ls [e]
  | cons {d k : Nat} {c : Lexeme} {ls rs : List Lexeme} {e f : Expr} {es : List Expr}
      (he : Phrase limit .equality d ls k e) (hc : c.token = .comma)
      (hes : Items limit d rs (f :: es)) : Items limit d (ls ++ c :: rs) (e :: f :: es)

/-- Keys and values, each with a colon between them. -/
inductive Pairs (limit : Nat) : Nat → List Lexeme → List (Expr × Expr) → Prop
  | nil {d : Nat} : Pairs limit d [] []
  | one {d j k : Nat} {m : Lexeme} {ls rs : List Lexeme} {key value : Expr}
      (hk : Phrase limit .equality d ls j key) (hm : m.token = .colon)
      (hv : Phrase limit .equality d rs k value) : Pairs limit d (ls ++ m :: rs) [(key, value)]
  | cons {d j k : Nat} {m c : Lexeme} {ls rs ts : List Lexeme} {key value : Expr}
      {p : Expr × Expr} {ps : List (Expr × Expr)}
      (hk : Phrase limit .equality d ls j key) (hm : m.token = .colon)
      (hv : Phrase limit .equality d rs k value) (hc : c.token = .comma)
      (hps : Pairs limit d ts (p :: ps)) :
      Pairs limit d (ls ++ m :: rs ++ c :: ts) ((key, value) :: p :: ps)

/-- A statement; `ended` if it has a semicolon. -/
inductive Statement (limit : Nat) : Nat → Bool → List Lexeme → Stmt → Prop
  | define {d k : Nat} {ended : Bool} {l x a : Lexeme} {name : String} {ls semi : List Lexeme}
      {e : Expr} (hl : l.token = .letWord) (hx : x.token = .ident name) (ha : a.token = .assign)
      (he : Phrase limit .equality d ls k e) (hs : Semicolon ended semi) :
      Statement limit d ended (l :: x :: a :: ls ++ semi)
        (.define name x.span e (hull (l :: x :: a :: ls ++ semi)))
  | expr {d k : Nat} {ended : Bool} {ls semi : List Lexeme} {e : Expr}
      (he : Phrase limit .equality d ls k e) (hs : Semicolon ended semi) :
      Statement limit d ended (ls ++ semi) (.expr e (hull (ls ++ semi)))

/-- Statements one behind the other.  One without a semicolon ends where nothing goes on with it. -/
inductive Statements (limit : Nat) : Nat → List Lexeme → List Stmt → Prop
  | nil {d : Nat} : Statements limit d [] []
  | cons {d : Nat} {ended : Bool} {ls rs : List Lexeme} {s : Stmt} {ss : List Stmt}
      (hs : Statement limit d ended ls s) (hnext : ended = true ∨ ¬ Continues rs)
      (hss : Statements limit d rs ss) : Statements limit d (ls ++ rs) (s :: ss)

inductive Block (limit : Nat) : Nat → List Lexeme → List Stmt → Prop
  | braces {d : Nat} {o c : Lexeme} {ls : List Lexeme} {ss : List Stmt} (ho : o.token = .lbrace)
      (hss : Statements limit d ls ss) (hc : c.token = .rbrace) :
      Block limit d (o :: ls ++ [c]) ss

/-- What stands behind the first block of an `if`. -/
inductive Otherwise (limit : Nat) : Nat → List Lexeme → Option (List Stmt) → Prop
  | none {d : Nat} : Otherwise limit d [] none
  | block {d : Nat} {w : Lexeme} {ls : List Lexeme} {ss : List Stmt} (hw : w.token = .elseWord)
      (hb : Block limit d ls ss) : Otherwise limit d (w :: ls) (some ss)

end

/-- The lexemes are the program `p`, with every level within `limit`. -/
def Derives (limit : Nat) (ls : List Lexeme) (p : Program) : Prop :=
  Statements limit 0 ls p.statements

end MonkeyLang.Grammar
