import MonkeyLang.Program.Basic

/-!
# Spans of programs

`mapSpans` puts every span of a tree through a function.  Two trees that differ in their layout
alone have the same bare tree (`bare`), and a tree further on in a source is a shifted one.
-/

namespace MonkeyLang

/-! ## Algorithm -/

mutual

/-- The tree with each of its spans put through a function. -/
def Expr.mapSpans (f : Span → Span) : Expr → Expr
  | .int n s => .int n (f s)
  | .str t s => .str t (f s)
  | .bool b s => .bool b (f s)
  | .null s => .null (f s)
  | .ident x s => .ident x (f s)
  | .unary op e s => .unary op (e.mapSpans f) (f s)
  | .binary l op r s => .binary (l.mapSpans f) op (r.mapSpans f) (f s)
  | .cond c yes no s =>
    .cond (c.mapSpans f) (Stmt.mapSpansAll f yes) (Stmt.mapSpansElse f no) (f s)
  | .array es s => .array (Expr.mapSpansAll f es) (f s)
  | .hash ps s => .hash (Expr.mapSpansPairs f ps) (f s)
  | .index t i s => .index (t.mapSpans f) (i.mapSpans f) (f s)
  | .call g es s => .call (g.mapSpans f) (Expr.mapSpansAll f es) (f s)

def Expr.mapSpansAll (f : Span → Span) : List Expr → List Expr
  | [] => []
  | e :: es => e.mapSpans f :: Expr.mapSpansAll f es

def Expr.mapSpansPairs (f : Span → Span) : List (Expr × Expr) → List (Expr × Expr)
  | [] => []
  | (k, v) :: ps => (k.mapSpans f, v.mapSpans f) :: Expr.mapSpansPairs f ps

def Stmt.mapSpans (f : Span → Span) : Stmt → Stmt
  | .define x xs e s => .define x (f xs) (e.mapSpans f) (f s)
  | .expr e s => .expr (e.mapSpans f) (f s)

def Stmt.mapSpansAll (f : Span → Span) : List Stmt → List Stmt
  | [] => []
  | s :: ss => s.mapSpans f :: Stmt.mapSpansAll f ss

def Stmt.mapSpansElse (f : Span → Span) : Option (List Stmt) → Option (List Stmt)
  | none => none
  | some ss => some (Stmt.mapSpansAll f ss)

end

namespace Program

def mapSpans (f : Span → Span) (p : Program) : Program := ⟨Stmt.mapSpansAll f p.statements⟩

/-- The tree with nothing left of its layout. -/
def bare (p : Program) : Program := p.mapSpans fun _ => ⟨0, 0⟩

end Program

/-! ## Lemmas -/

@[simp] theorem Expr.span_mapSpans (f : Span → Span) (e : Expr) :
    (e.mapSpans f).span = f e.span := by
  cases e <;> rfl

@[simp] theorem Stmt.span_mapSpans (f : Span → Span) (s : Stmt) :
    (s.mapSpans f).span = f s.span := by
  cases s <;> rfl

/-- Where all spans become one, it makes no difference which one a node had. -/
theorem Expr.mapSpans_const_withSpan (e : Expr) (a b : Span) :
    (e.withSpan a).mapSpans (fun _ => b) = e.mapSpans fun _ => b := by
  cases e <;> rfl

end MonkeyLang
