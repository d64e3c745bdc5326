import MonkeyLang.Proofs.Parsing.Subtexts
import MonkeyLang.Proofs.Scanning.Words

/-!
# Printing and reading back

A program that is written out reads as that program again (`exists_parse_source`), if its integers
and names can be written at all and its chains are not too long.

Each rule of the grammar is said of languages of lexemes (`phrases`, `operands` and so on have the
lexemes that are a tree up to its spans), so the text of a node needs the languages of its parts
alone.  The induction is on the length of the chains: a part has chains shorter by one
(`Printable.below`), and the parser enters it no more than three levels deeper, as the operand in
parentheses behind an operator is.
-/

namespace MonkeyLang

open Token

/-! ## What can be printed -/

/-- Chains of fewer than `n` steps, integers that have literals, and names that are names. -/
structure Expr.Printable (n : Nat) (e : Expr) : Prop where
  chains : ∀ w f, Path e w f → w.length < n
  ints : ∀ w m a, Path e w (.int m a) → 0 ≤ m.toInt
  idents : ∀ w x a, Path e w (.ident x a) → IsName x
  defines : ∀ w f x a v b, Path e w f → f.HasInBlock (.define x a v b) → IsName x

/-- What the printer asks for: chains of no more than 300 expressions, integers that have literals,
and names that are names. -/
structure Program.Printable (p : Program) : Prop where
  chains : ∀ w, p.HasChain w → w.length + 1 ≤ 300
  ints : ∀ n a, p.HasExpr (.int n a) → 0 ≤ n.toInt
  idents : ∀ x a, p.HasExpr (.ident x a) → IsName x
  defines : ∀ x a e b, p.HasStmt (.define x a e b) → IsName x

/-- What stands below a node has chains that are shorter by one. -/
theorem Expr.Printable.below {n : Nat} {s : Descent} {e f : Expr} (h : e.Printable (n + 1))
    (hb : Below s e f) : f.Printable n where
  chains w g hw := Nat.lt_of_succ_lt_succ (h.chains (s :: w) g (.cons hb hw))
  ints w m a hw := h.ints (s :: w) m a (.cons hb hw)
  idents w x a hw := h.idents (s :: w) x a (.cons hb hw)
  defines w g x a v b hw hs := h.defines (s :: w) g x a v b (.cons hb hw) hs

/-- Each statement of a program has an expression that can be printed. -/
theorem Program.Printable.value {p : Program} {s : Stmt} (h : p.Printable)
    (hs : s ∈ p.statements) : s.value.Printable 300 where
  chains w f hw := h.chains w ⟨s, hs, [], _, f, .nil, hw⟩
  ints w n a hw := h.ints n a ⟨s, hs, w, hw⟩
  idents w x a hw := h.idents x a ⟨s, hs, w, hw⟩
  defines w f x a e b hw hf := h.defines x a e b (.inr ⟨f, ⟨s, hs, w, hw⟩, hf⟩)

namespace Grammar

open MonkeyLang.Expr

/-! ## Languages of trees -/

def noSpan (_ : Span) : Span := ⟨0, 0⟩

/-- The lexemes that are derived as `a`, or as what is no different once it is bare. -/
def upTo {α : Type} (bare : α → α) (derived : List Lexeme → α → Prop) (a : α) : Language Lexeme :=
  {ls | ∃ a', derived ls a' ∧ bare a' = bare a}

section

variable (limit d : Nat)

def phrases : Expr → Language Lexeme :=
  upTo (Expr.mapSpans noSpan) fun ls e => ∃ k, Phrase limit .equality d ls k e

def operands : Expr → Language Lexeme :=
  upTo (Expr.mapSpans noSpan) fun ls e => Phrase limit .atom d ls 0 e

def items : List Expr → Language Lexeme := upTo (Expr.mapSpansAll noSpan) (Items limit d)

def pairs : List (Expr × Expr) → Language Lexeme :=
  upTo (Expr.mapSpansPairs noSpan) (Pairs limit d)

/-- Statements with a semicolon. -/
def sentences : Stmt → Language Lexeme := upTo (Stmt.mapSpans noSpan) (Statement limit d true)

def statements : List Stmt → Language Lexeme :=
  upTo (Stmt.mapSpansAll noSpan) (Statements limit d)

def otherwise : Option (List Stmt) → Language Lexeme :=
  upTo (Stmt.mapSpansElse noSpan) (Otherwise limit d)

end

variable {limit d : Nat}

/-! ## Rules -/

/-- The span of a node does not matter where there are none. -/
theorem mapSpans_withSpan_noSpan (e : Expr) (a : Span) :
    (e.withSpan a).mapSpans noSpan = e.mapSpans noSpan :=
  e.mapSpans_const_withSpan a ⟨0, 0⟩

theorem phrases_of_atom {ls : List Lexeme} {e e' : Expr} (h : Phrase limit .atom d ls 0 e')
    (he : e'.mapSpans noSpan = e.mapSpans noSpan) : ls ∈ phrases limit d e :=
  ⟨e', ⟨0, h.loosen (by decide)⟩, he⟩

theorem leaf?_withSpan {t : Token} {a : Span} {e : Expr} (h : leaf? ⟨t, a⟩ = some e) (b : Span) :
    leaf? ⟨t, b⟩ = some (e.withSpan b) := by
  cases t <;> cases h <;> rfl

theorem operands_le_phrases (e : Expr) : operands limit d e ≤ phrases limit d e := by
  rintro ls ⟨e', h, he⟩
  exact phrases_of_atom h he

theorem leaf_le_operands {t : Token} {a : Span} {e : Expr} (h : leaf? ⟨t, a⟩ = some e)
    (hd : d + 1 ≤ limit) : word t ≤ operands limit d e := by
  rintro _ ⟨b, rfl⟩
  exact ⟨_, .leaf hd (leaf?_withSpan h b), mapSpans_withSpan_noSpan e b⟩

theorem leaf_le {t : Token} {a : Span} {e : Expr} (h : leaf? ⟨t, a⟩ = some e) (hd : d + 1 ≤ limit) :
    word t ≤ phrases limit d e :=
  fun _ hls => operands_le_phrases e (leaf_le_operands h hd hls)

/-- The token of a sign before an operand. -/
theorem exists_unaryOp? (op : UnaryOp) :
    ∃ t ∈ fixedWords, unaryOp? t = some op ∧ t.display = op.display := by
  cases op
  · exact ⟨.bang, by decide, rfl, rfl⟩
  · exact ⟨.minus, by decide, rfl, rfl⟩

/-- The token of an operator, and the layer of the operation. -/
theorem exists_binaryOp? (op : BinaryOp) :
    ∃ t ∈ fixedWords, ∃ layer : Layer, layer.binaryOp? t = some op ∧ t.display = op.display := by
  cases op
  · exact ⟨.plus, by decide, .sum, rfl, rfl⟩
  · exact ⟨.minus, by decide, .sum, rfl, rfl⟩
  · exact ⟨.star, by decide, .product, rfl, rfl⟩
  · exact ⟨.slash, by decide, .product, rfl, rfl⟩
  · exact ⟨.lt, by decide, .comparison, rfl, rfl⟩
  · exact ⟨.gt, by decide, .comparison, rfl, rfl⟩
  · exact ⟨.eqEq, by decide, .equality, rfl, rfl⟩
  · exact ⟨.notEq, by decide, .equality, rfl, rfl⟩

/-- Parentheses make an operand of any expression. -/
theorem paren_le (e : Expr) (hd : d + 1 ≤ limit) :
    word .lparen * phrases limit (d + 1) e * word .rparen ≤ operands limit d e := by
  rintro _ ⟨_, ⟨_, ⟨a, rfl⟩, ls, ⟨e', ⟨k, h⟩, he⟩, rfl⟩, _, ⟨b, rfl⟩, rfl⟩
  exact ⟨_, .paren hd rfl h rfl, (mapSpans_withSpan_noSpan e' _).trans he⟩

theorem unary_le {t : Token} {op : UnaryOp} (ht : unaryOp? t = some op) (e : Expr) (a : Span)
    (hd : d + 1 ≤ limit) :
    word t * operands limit (d + 1) e ≤ phrases limit d (.unary op e a) := by
  rintro _ ⟨_, ⟨b, rfl⟩, ls, ⟨e', h, he⟩, rfl⟩
  have hsign := Phrase.unary (o := ⟨t, b⟩) hd ht (h.loosen (by decide))
  exact ⟨_, ⟨0, hsign.loosen (by decide)⟩, by simp only [Expr.mapSpans, he, noSpan]⟩

/-- Between operands no operator takes what belongs to another. -/
theorem binary_le {layer : Layer} {t : Token} {op : BinaryOp} (ht : layer.binaryOp? t = some op)
    (l r : Expr) (a : Span) (hd : d + 2 ≤ limit) :
    operands limit d l * (word t * operands limit (d + 2) r) ≤
      phrases limit d (.binary l op r a) := by
  rintro _ ⟨ls, ⟨l', hl, hel⟩, _, ⟨_, ⟨b, rfl⟩, rs, ⟨r', hr, her⟩, rfl⟩, rfl⟩
  have hleft : Phrase limit layer d ls 0 l' := hl.loosen (by cases layer <;> decide)
  have hright : Phrase limit layer.tighter (d + 2) rs 0 r' := hr.loosen (by cases layer <;> decide)
  have hop := Phrase.binary (o := ⟨t, b⟩) hleft ht hd hright
  refine ⟨_, ⟨1, hop.loosen (by cases layer <;> decide)⟩, ?_⟩
  simp only [Expr.mapSpans, hel, her, noSpan]

theorem index_le (t i : Expr) (a : Span) (hd : d + 2 ≤ limit) :
    operands limit d t * (word .lbracket * operands limit (d + 2) i) * word .rbracket ≤
      phrases limit d (.index t i a) := by
  rintro _ ⟨_, ⟨ls, ⟨t', ht, het⟩, _, ⟨_, ⟨b, rfl⟩, rs, ⟨i', hi, hei⟩, rfl⟩, rfl⟩, _, ⟨c, rfl⟩, rfl⟩
  have hindex := Phrase.index (o := ⟨.lbracket, b⟩) (c := ⟨.rbracket, c⟩) (.tighter ht) rfl hd
    (hi.loosen (by decide)) rfl
  exact ⟨_, ⟨1, hindex.loosen (by decide)⟩, by simp only [Expr.mapSpans, het, hei, noSpan]⟩

theorem call_le (f : Expr) (es : List Expr) (a : Span) (hd : d + 2 ≤ limit) :
    operands limit d f * (word .lparen * items limit (d + 2) es) * word .rparen ≤
      phrases limit d (.call f es a) := by
  rintro _ ⟨_, ⟨ls, ⟨f', hf, hef⟩, _, ⟨_, ⟨b, rfl⟩, rs, ⟨es', hes, hees⟩, rfl⟩, rfl⟩,
    _, ⟨c, rfl⟩, rfl⟩
  have hcall := Phrase.call (o := ⟨.lparen, b⟩) (c := ⟨.rparen, c⟩) (.tighter hf) rfl hd hes rfl
  exact ⟨_, ⟨1, hcall.loosen (by decide)⟩, by simp only [Expr.mapSpans, hef, hees, noSpan]⟩

theorem array_le (es : List Expr) (a : Span) (hd : d + 1 ≤ limit) :
    word .lbracket * items limit (d + 1) es * word .rbracket ≤ phrases limit d (.array es a) := by
  rintro _ ⟨_, ⟨_, ⟨b, rfl⟩, ls, ⟨es', hes, hees⟩, rfl⟩, _, ⟨c, rfl⟩, rfl⟩
  exact phrases_of_atom (.array hd rfl hes rfl) (by simp only [Expr.mapSpans, hees, noSpan])

theorem hash_le (ps : List (Expr × Expr)) (a : Span) (hd : d + 1 ≤ limit) :
    word .lbrace * pairs limit (d + 1) ps * word .rbrace ≤ phrases limit d (.hash ps a) := by
  rintro _ ⟨_, ⟨_, ⟨b, rfl⟩, ls, ⟨ps', hps, heps⟩, rfl⟩, _, ⟨c, rfl⟩, rfl⟩
  exact phrases_of_atom (.hash hd rfl hps rfl) (by simp only [Expr.mapSpans, heps, noSpan])

theorem cond_le (test : Expr) (yes : List Stmt) (no : Option (List Stmt)) (a : Span)
    (hd : d + 1 ≤ limit) :
    word .ifWord * (word .lparen * phrases limit (d + 1) test) *
        (word .rparen * (word .lbrace * statements limit (d + 1) yes * word .rbrace)) *
        otherwise limit (d + 1) no ≤
      phrases limit d (.cond test yes no a) := by
  rintro _ ⟨_, ⟨_, ⟨_, ⟨i, rfl⟩, _, ⟨_, ⟨o, rfl⟩, ls, ⟨test', ⟨k, htest⟩, he⟩, rfl⟩, rfl⟩,
    _, ⟨_, ⟨c, rfl⟩, _, ⟨_, ⟨_, ⟨b, rfl⟩, ys, ⟨yes', hyes, hey⟩, rfl⟩, _, ⟨e, rfl⟩, rfl⟩, rfl⟩,
    rfl⟩, ns, ⟨no', hno, hen⟩, rfl⟩
  exact phrases_of_atom (.cond hd rfl rfl htest rfl (.braces rfl hyes rfl) hno)
    (by simp only [Expr.mapSpans, he, hey, hen, noSpan])

/-! ## Lists -/

theorem phrases_le (e : Expr) : phrases limit d e ≤ items limit d [e] := by
  rintro ls ⟨e', ⟨k, h⟩, he⟩
  exact ⟨[e'], .one h, by simp only [Expr.mapSpansAll, he]⟩

theorem items_cons_le (e f : Expr) (es : List Expr) :
    phrases limit d e * (word .comma * items limit d (f :: es)) ≤
      items limit d (e :: f :: es) := by
  rintro _ ⟨ls, ⟨e', ⟨k, h⟩, he⟩, _, ⟨_, ⟨b, rfl⟩, rs, ⟨es', hes, hees⟩, rfl⟩, rfl⟩
  cases es' with
  | nil => cases hees
  | cons f' es' =>
    refine ⟨_, .cons h rfl hes, ?_⟩
    rw [Expr.mapSpansAll, he, hees, ← Expr.mapSpansAll]

/-- The lexemes of a key, a colon and a value. -/
def pair (limit d : Nat) (p : Expr × Expr) : Language Lexeme :=
  phrases limit d p.1 * (word .colon * phrases limit d p.2)

theorem pair_le (p : Expr × Expr) : pair limit d p ≤ pairs limit d [p] := by
  rintro _ ⟨ks, ⟨k', ⟨i, hk⟩, hek⟩, _, ⟨_, ⟨b, rfl⟩, vs, ⟨v', ⟨j, hv⟩, hev⟩, rfl⟩, rfl⟩
  refine ⟨[(k', v')], .one hk rfl hv, ?_⟩
  simp only [Expr.mapSpansPairs, hek, hev]

theorem pairs_cons_le (p q : Expr × Expr) (ps : List (Expr × Expr)) :
    pair limit d p * (word .comma * pairs limit d (q :: ps)) ≤ pairs limit d (p :: q :: ps) := by
  rintro _ ⟨_, ⟨ks, ⟨k', ⟨i, hk⟩, hek⟩, _, ⟨_, ⟨b, rfl⟩, vs, ⟨v', ⟨j, hv⟩, hev⟩, rfl⟩, rfl⟩,
    _, ⟨_, ⟨c, rfl⟩, rs, ⟨ps', hps, heps⟩, rfl⟩, rfl⟩
  cases ps' with
  | nil => cases heps
  | cons q' ps' =>
    refine ⟨_, .cons hk rfl hv rfl hps, ?_⟩
    rw [Expr.mapSpansPairs, hek, hev, heps, ← Expr.mapSpansPairs]

/-! ## Statements -/

theorem define_le (x : String) (a b : Span) (e : Expr) :
    word .letWord * word (.ident x) * word .assign * phrases limit d e * word .semi ≤
      sentences limit d (.define x a e b) := by
  rintro _ ⟨_, ⟨_, ⟨_, ⟨_, ⟨l, rfl⟩, _, ⟨i, rfl⟩, rfl⟩, _, ⟨s, rfl⟩, rfl⟩, ls, ⟨e', ⟨k, h⟩, he⟩,
    rfl⟩, _, ⟨c, rfl⟩, rfl⟩
  exact ⟨_, .define rfl rfl rfl h (.present rfl), by simp only [Stmt.mapSpans, he, noSpan]⟩

theorem expr_le (e : Expr) (a : Span) :
    phrases limit d e * word .semi ≤ sentences limit d (.expr e a) := by
  rintro _ ⟨ls, ⟨e', ⟨k, h⟩, he⟩, _, ⟨c, rfl⟩, rfl⟩
  exact ⟨_, .expr h (.present rfl), by simp only [Stmt.mapSpans, he, noSpan]⟩

theorem statements_cons_le (s : Stmt) (ss : List Stmt) :
    sentences limit d s * statements limit d ss ≤ statements limit d (s :: ss) := by
  rintro _ ⟨ls, ⟨s', hs, hes⟩, rs, ⟨ss', hss, hess⟩, rfl⟩
  exact ⟨s' :: ss', .cons hs (.inl rfl) hss, by simp only [Stmt.mapSpansAll, hes, hess]⟩

theorem else_le (ss : List Stmt) :
    word .elseWord * (word .lbrace * statements limit d ss * word .rbrace) ≤
      otherwise limit d (some ss) := by
  rintro _ ⟨_, ⟨w, rfl⟩, _, ⟨_, ⟨_, ⟨o, rfl⟩, ls, ⟨ss', hss, hess⟩, rfl⟩, _, ⟨c, rfl⟩, rfl⟩, rfl⟩
  exact ⟨some ss', .block rfl (.braces rfl hss rfl), by simp only [Stmt.mapSpansElse, hess]⟩

/-! ## Texts -/

section

variable {next : List Char → Prop}

/-- A part between parentheses is an operand, wherever it stands. -/
theorem lexes_operand {e : Expr} (h : Lexes Apart e.source (phrases limit (d + 1) e))
    (hd : d + 1 ≤ limit) : Lexes next (parens e.source) (operands limit d e) :=
  (lexes_parens h).mono (paren_le e hd)

theorem lexes_unary {op : UnaryOp} {e : Expr} {a : Span}
    (h : Lexes Apart e.source (phrases limit (d + 2) e)) (hd : d + 2 ≤ limit) :
    Lexes Apart (Expr.unary op e a).source (phrases limit d (.unary op e a)) := by
  obtain ⟨t, ht, hop, hdisplay⟩ := exists_unaryOp? op
  have hsign := lexes_display ht
  rw [hdisplay] at hsign
  refine (hsign.append (lexes_operand h hd) fun rest _ => ?_).mono (unary_le hop e a (by omega))
  exact apart_parens e.source rest

/-- Both sides are between parentheses; the right one is two levels further down. -/
theorem lexes_binary {op : BinaryOp} {l r : Expr} {a : Span}
    (hl : Lexes Apart l.source (phrases limit (d + 1) l))
    (hr : Lexes Apart r.source (phrases limit (d + 3) r)) (hd : d + 3 ≤ limit) :
    Lexes Apart (Expr.binary l op r a).source (phrases limit d (.binary l op r a)) := by
  obtain ⟨t, ht, layer, hop, hdisplay⟩ := exists_binaryOp? op
  have hsign := lexes_display ht
  rw [hdisplay] at hsign
  have hleft : Lexes Anything (parens l.source ++ " ") (operands limit d l * 1) :=
    (lexes_operand hl (by omega)).append_anything lexes_space
  have hmid : Lexes Anything (parens l.source ++ " " ++ op.display ++ " ") (_ * word t * 1) :=
    (hleft.append_anything hsign).append_apart lexes_space (by decide) rfl
  refine (hmid.append_anything (lexes_operand hr hd)).mono ?_
  simpa only [mul_one, mul_assoc] using binary_le hop l r a (by omega)

theorem lexes_index {t i : Expr} {a : Span} (ht : Lexes Apart t.source (phrases limit (d + 1) t))
    (hi : Lexes Apart i.source (phrases limit (d + 3) i)) (hd : d + 3 ≤ limit) :
    Lexes Apart (Expr.index t i a).source (phrases limit d (.index t i a)) := by
  have hopen : Lexes Anything "[" (word .lbracket) := lexes_sign rfl (by decide) rfl
  have hclose : Lexes Apart "]" (word .rbracket) := lexes_sign rfl (by decide) rfl
  have htarget := (lexes_operand ht (by omega)).append_anything hopen
  have htext := (htarget.append_anything (lexes_operand hi hd)).append_anything hclose
  refine htext.mono ?_
  simpa only [mul_assoc] using index_le t i a (by omega)

/-! ### Lists -/

theorem lexes_items {α : Type} {source : α → String} {tree : α → Expr}
    (hnext : ∀ rest, next (", ".toList ++ rest)) {as : List α}
    (h : ∀ a ∈ as, Lexes next (source a) (phrases limit d (tree a))) :
    Lexes next (", ".intercalate (as.map source)) (items limit d (as.map tree)) := by
  let list (as : List α) := items limit d (as.map tree)
  have hnil : [] ∈ list [] := ⟨[], .nil, rfl⟩
  have hcons (a b : α) (as : List α) :
      phrases limit d (tree a) * (word .comma * list (b :: as)) ≤ list (a :: b :: as) :=
    items_cons_le (tree a) (tree b) (as.map tree)
  exact lexes_intercalate hnil (fun a => phrases_le (tree a)) hcons hnext h

theorem lexes_pairs {α : Type} {source : α → String} {tree : α → Expr × Expr}
    (hnext : ∀ rest, next (", ".toList ++ rest)) {as : List α}
    (h : ∀ a ∈ as, Lexes next (source a) (pair limit d (tree a))) :
    Lexes next (", ".intercalate (as.map source)) (pairs limit d (as.map tree)) := by
  let list (as : List α) := pairs limit d (as.map tree)
  have hnil : [] ∈ list [] := ⟨[], .nil, rfl⟩
  have hcons (a b : α) (as : List α) :
      pair limit d (tree a) * (word .comma * list (b :: as)) ≤ list (a :: b :: as) :=
    pairs_cons_le (tree a) (tree b) (as.map tree)
  exact lexes_intercalate hnil (fun a => pair_le (tree a)) hcons hnext h

theorem lexes_sources {es : List Expr}
    (h : ∀ e ∈ es, Lexes Apart e.source (phrases limit (d + 1) e)) (hd : d + 1 ≤ limit) :
    Lexes Anything (", ".intercalate (Expr.sources es)) (items limit d es) := by
  have hmap : Expr.sources es = es.map (parens ·.source) := by
    clear h
    induction es with
    | nil => rfl
    | cons e es ih => rw [Expr.sources, ih, List.map_cons]
  have hlexes : Lexes Anything (", ".intercalate (es.map (parens ·.source)))
      (items limit d (es.map id)) :=
    lexes_items (fun _ => trivial) fun e he =>
      (lexes_operand (h e he) hd).mono (operands_le_phrases e)
  rwa [← hmap, List.map_id] at hlexes

theorem lexes_sourcePairs {ps : List (Expr × Expr)}
    (hk : ∀ p ∈ ps, Lexes Apart p.1.source (phrases limit (d + 1) p.1))
    (hv : ∀ p ∈ ps, Lexes Apart p.2.source (phrases limit (d + 1) p.2)) (hd : d + 1 ≤ limit) :
    Lexes Anything (", ".intercalate (Expr.sourcePairs ps)) (pairs limit d ps) := by
  have hmap : Expr.sourcePairs ps =
      ps.map fun p => parens p.1.source ++ ": " ++ parens p.2.source := by
    clear hk hv
    induction ps with
    | nil => rfl
    | cons p ps ih => rw [Expr.sourcePairs, ih, List.map_cons]
  have hcolon : Lexes Anything ": " (word .colon) := lexes_spaced (by decide) rfl
  have hlexes : Lexes Anything (", ".intercalate (Expr.sourcePairs ps))
      (pairs limit d (ps.map id)) := by
    rw [hmap]
    refine lexes_pairs (fun _ => trivial) fun p hp => ?_
    have hkey : Lexes Anything _ (phrases limit d p.1) :=
      (lexes_operand (hk p hp) hd).mono (operands_le_phrases p.1)
    have hvalue : Lexes Anything _ (phrases limit d p.2) :=
      (lexes_operand (hv p hp) hd).mono (operands_le_phrases p.2)
    rw [String.append_assoc]
    exact hkey.append_anything (hcolon.append_anything hvalue)
  rwa [List.map_id] at hlexes

theorem lexes_brackets {text : String} {es : List Expr} {a : Span}
    (h : Lexes Apart text (items limit (d + 1) es)) (hd : d + 1 ≤ limit) :
    Lexes next ("[" ++ text ++ "]") (phrases limit d (.array es a)) := by
  have hopen : Lexes Anything "[" (word .lbracket) := lexes_sign rfl (by decide) rfl
  have hclose : Lexes next "]" (word .rbracket) := lexes_sign rfl (by decide) rfl
  have htext := (hopen.append_anything h).append_apart hclose (by decide) rfl
  exact htext.mono (array_le es a hd)

theorem lexes_braces {text : String} {ps : List (Expr × Expr)} {a : Span}
    (h : Lexes Apart text (pairs limit (d + 1) ps)) (hd : d + 1 ≤ limit) :
    Lexes next ("\x7b" ++ text ++ "\x7d") (phrases limit d (.hash ps a)) := by
  have hopen : Lexes Anything "\x7b" (word .lbrace) := lexes_sign rfl (by decide) rfl
  have hclose : Lexes next "\x7d" (word .rbrace) := lexes_sign rfl (by decide) rfl
  have htext := (hopen.append_anything h).append_apart hclose (by decide) rfl
  exact htext.mono (hash_le ps a hd)

theorem lexes_array {es : List Expr} {a : Span}
    (h : ∀ e ∈ es, Lexes Apart e.source (phrases limit (d + 2) e)) (hd : d + 2 ≤ limit) :
    Lexes Apart (Expr.array es a).source (phrases limit d (.array es a)) :=
  lexes_brackets (lexes_sources h hd).before (by omega)

theorem lexes_hash {ps : List (Expr × Expr)} {a : Span}
    (hk : ∀ p ∈ ps, Lexes Apart p.1.source (phrases limit (d + 2) p.1))
    (hv : ∀ p ∈ ps, Lexes Apart p.2.source (phrases limit (d + 2) p.2)) (hd : d + 2 ≤ limit) :
    Lexes Apart (Expr.hash ps a).source (phrases limit d (.hash ps a)) :=
  lexes_braces (lexes_sourcePairs hk hv hd).before (by omega)

theorem lexes_call {f : Expr} {es : List Expr} {a : Span}
    (hf : Lexes Apart f.source (phrases limit (d + 1) f))
    (h : ∀ e ∈ es, Lexes Apart e.source (phrases limit (d + 3) e)) (hd : d + 3 ≤ limit) :
    Lexes Apart (Expr.call f es a).source (phrases limit d (.call f es a)) := by
  have hargs : Lexes Apart (parens _) (_ * items limit (d + 2) es * _) :=
    lexes_parens (lexes_sources h hd).before
  have htext := (lexes_operand hf (by omega)).append_anything hargs
  refine htext.mono ?_
  simpa only [mul_assoc] using call_le f es a (by omega)

/-! ### Statements and blocks -/

theorem lexes_stmt {s : Stmt} (hname : ∀ x a e b, s = .define x a e b → IsName x)
    (h : Lexes Apart s.value.source (phrases limit d s.value)) :
    Lexes next s.source (sentences limit d s) := by
  have hsemi : Lexes next "; " (word .semi) := lexes_spaced (by decide) rfl
  cases s with
  | define x a e b =>
    have hlet : Lexes Anything "let " (word .letWord) := lexes_spaced (by decide) rfl
    have hassign : Lexes Anything (" " ++ "= ") (1 * word .assign) :=
      lexes_space.append_anything (lexes_spaced (by decide) rfl)
    rw [one_mul] at hassign
    have hx := lexes_name (hname x a e b rfl)
    have hstart := (hlet.append_anything hx).append_apart hassign (by decide) rfl
    exact ((hstart.append_anything h).append_apart hsemi (by decide) rfl).mono (define_le x a b e)
  | expr e a => exact (h.append_apart hsemi (by decide) rfl).mono (expr_le e a)

theorem lexes_stmts {ss : List Stmt}
    (h : ∀ s ∈ ss, Lexes Anything s.source (sentences limit d s)) :
    Lexes Anything (Stmt.sources ss) (statements limit d ss) := by
  induction ss with
  | nil => exact lexes_empty.mono (by rintro _ rfl; exact ⟨[], .nil, rfl⟩)
  | cons s ss ih =>
    obtain ⟨hs, hss⟩ := List.forall_mem_cons.1 h
    exact (hs.append_anything (ih hss)).mono (statements_cons_le s ss)

theorem lexes_open : Lexes next " \x7b " (word .lbrace) := by
  have h : Lexes next (" " ++ "\x7b ") (1 * word .lbrace) :=
    lexes_space.append_anything (lexes_spaced (by decide) rfl)
  rwa [one_mul] at h

theorem lexes_close : Lexes next "\x7d" (word .rbrace) := lexes_sign rfl (by decide) rfl

theorem lexes_else {no : Option (List Stmt)}
    (h : ∀ ss ∈ no, Lexes Anything (Stmt.sources ss) (statements limit d ss)) :
    Lexes next (Stmt.sourceElse no) (otherwise limit d no) := by
  cases no with
  | none => exact lexes_empty.mono (by rintro _ rfl; exact ⟨none, .none, rfl⟩)
  | some ss =>
    have helse : Lexes Anything (" " ++ "else" ++ " \x7b ") (1 * word .elseWord * word .lbrace) :=
      (lexes_space.append_anything (lexes_display (by decide))).append_apart lexes_open
        (by decide) rfl
    rw [one_mul] at helse
    refine ((helse.append_anything (h ss rfl)).append_anything lexes_close).mono ?_
    simpa only [mul_assoc] using else_le ss

theorem lexes_cond {test : Expr} {yes : List Stmt} {no : Option (List Stmt)} {a : Span}
    (ht : Lexes Apart test.source (phrases limit (d + 1) test))
    (hy : Lexes Anything (Stmt.sources yes) (statements limit (d + 1) yes))
    (hn : ∀ ss ∈ no, Lexes Anything (Stmt.sources ss) (statements limit (d + 1) ss))
    (hd : d + 1 ≤ limit) :
    Lexes Apart (Expr.cond test yes no a).source (phrases limit d (.cond test yes no a)) := by
  have hif : Lexes Anything "if " (word .ifWord) := lexes_spaced (by decide) rfl
  have hopen : Lexes Anything " \x7b " (word .lbrace) := lexes_open
  have hclose : Lexes Anything "\x7d" (word .rbrace) := lexes_close
  have hhead := (hif.append_anything (lexes_parens ht)).append_anything hopen
  have hblock := (hhead.append_anything hy).append_anything hclose
  refine (hblock.append_anything (lexes_else hn)).mono ?_
  simpa only [mul_assoc] using cond_le test yes no a hd

end

/-! ## Trees -/

/-- The text of an expression with chains of up to `n` expressions, where three levels are left for
each of these. -/
theorem lexes_source {n : Nat} {e : Expr} (h : e.Printable n) (hd : d + 3 * n ≤ limit) :
    Lexes Apart e.source (phrases limit d e) := by
  induction n generalizing d e with
  | zero => exact absurd (h.chains [] e .nil) (Nat.not_lt_zero _)
  | succ n ih =>
    have hpart : ∀ {s f} (m : Nat), Below s e f → m ≤ 3 →
        Lexes Apart f.source (phrases limit (d + m) f) :=
      fun m hb hm => ih (h.below hb) (by omega)
    have hblock : ∀ {ss}, (∀ s ∈ ss, e.HasInBlock s ∧ Below .inner e s.value) →
        Lexes Anything (Stmt.sources ss) (statements limit (d + 1) ss) := by
      intro ss hss
      refine lexes_stmts fun s hs => lexes_stmt ?_ (hpart 1 (hss s hs).2 (by decide))
      rintro x a v b rfl
      exact h.defines [] e x a v b .nil (hss _ hs).1
    have hlimit : d + 1 ≤ limit := by omega
    cases e with
    | int n a => exact (lexes_int (h.ints [] n a .nil)).mono (leaf_le rfl hlimit)
    | str t a => exact (lexes_stringLiteral t).mono (leaf_le rfl hlimit)
    | bool b a =>
      cases b
      · exact (lexes_display (by decide)).mono (leaf_le rfl hlimit)
      · exact (lexes_display (by decide)).mono (leaf_le rfl hlimit)
    | null a => exact (lexes_display (by decide)).mono (leaf_le rfl hlimit)
    | ident x a => exact (lexes_name (h.idents [] x a .nil)).mono (leaf_le rfl hlimit)
    | unary op f a => exact lexes_unary (hpart 2 .operand (by decide)) (by omega)
    | binary l op r a =>
      exact lexes_binary (hpart 1 .binary_left (by decide)) (hpart 3 .binary_right (by decide))
        (by omega)
    | cond test yes no a =>
      refine lexes_cond (hpart 1 .test (by decide)) (hblock fun s hs => ⟨.yes hs, .yes hs⟩) ?_
        (by omega)
      rintro ss rfl
      exact hblock fun s hs => ⟨.no hs, .no hs⟩
    | array es a => exact lexes_array (fun f hf => hpart 2 (.item hf) (by decide)) (by omega)
    | hash ps a =>
      exact lexes_hash (fun p hp => hpart 2 (.key hp) (by decide))
        (fun p hp => hpart 2 (.value hp) (by decide)) (by omega)
    | index t i a =>
      exact lexes_index (hpart 1 .target (by decide)) (hpart 3 .subscript (by decide)) (by omega)
    | call f es a =>
      exact lexes_call (hpart 1 .callee (by decide)) (fun f hf => hpart 3 (.arg hf) (by decide))
        (by omega)

/-! ## Top theorem -/

/-- A program that is written out scans and reads as itself, up to its spans. -/
theorem exists_parse_source {p : Program} (h : p.Printable) :
    ∃ ls q, tokenize p.source = .ok ls ∧ Program.parse ls = .ok q ∧ q.bare = p.bare := by
  have hlexes : Lexes Anything p.source (statements nestingLimit 0 p.statements) := by
    refine lexes_stmts fun s hs => lexes_stmt ?_ (lexes_source (h.value hs) (by decide))
    rintro x a e b rfl
    exact h.defines x a e b (.inl hs)
  obtain ⟨ls, ⟨ss, hss, hbare⟩, hscans⟩ := hlexes [] 0 trivial
  refine ⟨ls, ⟨ss⟩, tokenize_eq_ok_iff.2 (scan_eq_ok_iff.2 hscans), parseWithin_eq_ok_iff.2 hss, ?_⟩
  exact congrArg Program.mk hbare

/-- The program is `let x = !("\"\\");` and `(x)[(7)];`. -/
theorem exists_parse_source_of_index :
    let a : Span := ⟨0, 0⟩
    let s : Stmt := .define "x" a (.unary .not (.str "\"\\" a) a) a
    let t : Stmt := .expr (.index (.ident "x" a) (.int 7 a) a) a
    Program.Printable ⟨[s, t]⟩ ∧ ∃ ls q, tokenize (Program.source ⟨[s, t]⟩) = .ok ls ∧
      Program.parse ls = .ok q ∧ q.bare = Program.bare ⟨[s, t]⟩ := by
  intro a s t
  have hs : ∀ {w f}, Path s.value w f → w.length ≤ 1 ∧ (f = s.value ∨ f = .str "\"\\" a) := by
    intro w f hw
    cases hw with
    | nil => exact ⟨Nat.zero_le 1, .inl rfl⟩
    | cons hb hw =>
      cases hb
      cases hw with
      | nil => exact ⟨Nat.le_refl 1, .inr rfl⟩
      | cons hb => cases hb
  have ht : ∀ {w f}, Path t.value w f →
      w.length ≤ 1 ∧ (f = t.value ∨ f = .ident "x" a ∨ f = .int 7 a) := by
    intro w f hw
    cases hw with
    | nil => exact ⟨Nat.zero_le 1, .inl rfl⟩
    | cons hb hw =>
      cases hb with
      | target =>
        cases hw with
        | nil => exact ⟨Nat.le_refl 1, .inr (.inl rfl)⟩
        | cons hb => cases hb
      | subscript =>
        cases hw with
        | nil => exact ⟨Nat.le_refl 1, .inr (.inr rfl)⟩
        | cons hb => cases hb
  have hx : IsName "x" := ⟨mem_single_mul_kstar.2 ⟨'x', [], rfl, .inl rfl, nofun⟩, rfl⟩
  have hexpr : ∀ f, Program.HasExpr ⟨[s, t]⟩ f → f = s.value ∨ f = .str "\"\\" a ∨
      f = t.value ∨ f = .ident "x" a ∨ f = .int 7 a := by
    rintro f ⟨u, hu, w, hw⟩
    rcases List.mem_pair.1 hu with rfl | rfl
    · exact (hs hw).2.imp_right .inl
    · exact .inr (.inr (ht hw).2)
  have hp : Program.Printable ⟨[s, t]⟩ := by
    refine ⟨?_, ?_, ?_, ?_⟩
    · rintro w ⟨u, hu, v, e, f, hv, hw⟩
      have hlength : (v ++ w).length ≤ 1 := by
        rcases List.mem_pair.1 hu with rfl | rfl
        · exact (hs (hv.append hw)).1
        · exact (ht (hv.append hw)).1
      rw [List.length_append] at hlength
      omega
    · intro n b hn
      rcases hexpr _ hn with h | h | h | h | h <;> cases h
      decide
    · intro x b hn
      rcases hexpr _ hn with h | h | h | h | h <;> cases h
      exact hx
    · rintro x b e c (hmem | ⟨f, hf, hblock⟩)
      · rcases List.mem_pair.1 hmem with h | h
        · rw [(Stmt.define.inj h).1]
          exact hx
        · exact Stmt.noConfusion h
      · rcases hexpr f hf with rfl | rfl | rfl | rfl | rfl <;> cases hblock
  exact ⟨hp, exists_parse_source hp⟩

end Grammar

end MonkeyLang
