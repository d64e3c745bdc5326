import MonkeyLang.Proofs.Parsing.Chains
import MonkeyLang.Proofs.Parsing.Places
import MonkeyLang.Proofs.Scanning.MaximalMunch

/-!
# What a span is the span of

The span of an expression or a statement cuts a text out of the source, and that text alone reads
as the same tree, further on by where the span starts (`compile_cut_of_span`).

The lexemes of a phrase are next to each other in the source, so the text from the first to the
last scans as these lexemes (`Scans.cut`).  A phrase stays one when it is moved to the start of a
text (`Phrase.moved`) and to depth zero (`Phrase.mono`), and the grammar has only one tree for it.
-/

namespace MonkeyLang

/-- The statement is one of a block of the expression. -/
inductive Expr.HasInBlock : Expr → Stmt → Prop
  | yes {test : Expr} {yes : List Stmt} {no : Option (List Stmt)} {a : Span} {s : Stmt}
      (hs : s ∈ yes) : HasInBlock (.cond test yes no a) s
  | no {test : Expr} {yes no : List Stmt} {a : Span} {s : Stmt} (hs : s ∈ no) :
      HasInBlock (.cond test yes (some no) a) s

theorem Expr.HasInBlock.of_withSpan {e : Expr} {a : Span} {s : Stmt}
    (h : (e.withSpan a).HasInBlock s) : e.HasInBlock s := by
  cases e <;> cases h <;> first | exact .no ‹_› | exact .yes ‹_›

namespace Program

/-- The expression stands somewhere in the program. -/
def HasExpr (p : Program) (e : Expr) : Prop := ∃ s ∈ p.statements, ∃ w, Expr.Path s.value w e

/-- The statement is one of the program or of a block in it. -/
def HasStmt (p : Program) (s : Stmt) : Prop :=
  s ∈ p.statements ∨ ∃ e, p.HasExpr e ∧ e.HasInBlock s

end Program

namespace Grammar

open MonkeyLang.Expr MonkeyLang.Token

/-! ## Parts of phrases -/

section

variable {limit : Nat}

/-- By induction on the chain: each step goes to a phrase within the phrase. -/
theorem Phrase.exists_of_path {layer : Layer} {d k : Nat} {ls : List Lexeme} {e f : Expr}
    {w : List Descent} (h : Phrase limit layer d ls k e) (hp : Path e w f) :
    ∃ layer' d' ls' k', ls' <:+: ls ∧ Phrase limit layer' d' ls' k' f := by
  induction hp generalizing layer d k ls with
  | nil => exact ⟨layer, d, ls, k, List.infix_rfl, h⟩
  | cons hb _ ih =>
    obtain ⟨_, _, rs, _, hrs, hf, -⟩ := h.holds hb
    obtain ⟨layer', d', ls', k', hls, hg⟩ := ih hf
    exact ⟨layer', d', ls', k', hls.trans hrs, hg⟩

theorem not_hasInBlock_of_leaf? {l : Lexeme} {e : Expr} {s : Stmt} (hl : leaf? l = some e) :
    ¬ e.HasInBlock s := by
  intro hs
  unfold leaf? at hl
  cases ht : l.token <;> rw [ht] at hl <;> cases hl <;> cases hs

/-- A statement in a block of a phrase was read from some of its lexemes. -/
theorem Phrase.exists_of_hasInBlock {layer : Layer} {d k : Nat} {ls : List Lexeme} {e : Expr}
    {s : Stmt} (h : Phrase limit layer d ls k e) (hs : e.HasInBlock s) :
    ∃ d' ended ls', ls' <:+: ls ∧ Statement limit d' ended ls' s :=
  match h, hs with
  | .leaf _ hl, hs => absurd hs (not_hasInBlock_of_leaf? hl)
  | .paren _ _ he _, hs => by
    obtain ⟨d', ended, ls', hls, hstmt⟩ := he.exists_of_hasInBlock hs.of_withSpan
    exact ⟨d', ended, ls', hls.trans (infix_between _ _ _), hstmt⟩
  | .cond _ _ _ _ _ hy _, .yes hmem => by
    obtain ⟨ls', ended, hls, hstmt⟩ := hy.exists_of_mem hmem
    refine ⟨_, ended, ls', hls.trans ?_, hstmt⟩
    exact (infix_append_cons _ _ _).trans (infix_append _ _)
  | .cond _ _ _ _ _ _ (.block _ hb), .no hmem => by
    obtain ⟨ls', ended, hls, hstmt⟩ := hb.exists_of_mem hmem
    exact ⟨_, ended, ls', hls.trans (infix_append_cons _ _ _), hstmt⟩
  | .array _ _ _ _, hs => nomatch hs
  | .hash _ _ _ _, hs => nomatch hs
  | .unary _ _ _, hs => nomatch hs
  | .binary _ _ _ _, hs => nomatch hs
  | .call _ _ _ _ _, hs => nomatch hs
  | .index _ _ _ _ _, hs => nomatch hs
  | .tighter h, hs => h.exists_of_hasInBlock hs

/-- Every expression of a program was read as a phrase of some layer. -/
theorem Derives.exists_of_hasExpr {ls : List Lexeme} {p : Program} {e : Expr}
    (h : Derives limit ls p) (he : p.HasExpr e) :
    ∃ layer d ls' k, ls' <:+: ls ∧ Phrase limit layer d ls' k e := by
  obtain ⟨s, hs, w, hw⟩ := he
  obtain ⟨ts, ended, hts, hstmt⟩ := Statements.exists_of_mem h hs
  obtain ⟨rs, j, hrs, hvalue⟩ := hstmt.exists_value
  obtain ⟨layer, d, ls', k, hls, he⟩ := hvalue.exists_of_path hw
  exact ⟨layer, d, ls', k, hls.trans (hrs.trans hts), he⟩

/-- Every statement of a program was read as one, also in a block. -/
theorem Derives.exists_of_hasStmt {ls : List Lexeme} {p : Program} {s : Stmt}
    (h : Derives limit ls p) (hs : p.HasStmt s) :
    ∃ d ended ls', ls' <:+: ls ∧ Statement limit d ended ls' s := by
  rcases hs with hs | ⟨e, he, hs⟩
  · obtain ⟨ls', ended, hls, hstmt⟩ := Statements.exists_of_mem h hs
    exact ⟨0, ended, ls', hls, hstmt⟩
  · obtain ⟨layer, d, rs, k, hrs, hphrase⟩ := h.exists_of_hasExpr he
    obtain ⟨d', ended, ls', hls, hstmt⟩ := hphrase.exists_of_hasInBlock hs
    exact ⟨d', ended, ls', hls.trans hrs, hstmt⟩

end

/-! ## Texts of statements -/

section

variable {d : Nat} {ended : Bool} {ls : List Lexeme} {s : Stmt}

/-- The hull, by where its lexemes begin and end. -/
theorem hull_eq_of_ends {a b : Nat} (hne : ls ≠ []) (hstart : ∀ l ∈ ls.head?, l.span.start = a)
    (hstop : ∀ l ∈ ls.getLast?, l.span.stop = b) : hull ls = ⟨a, b⟩ := by
  obtain ⟨l, rs, rfl⟩ := List.exists_cons_of_ne_nil hne
  have hend : endFrom l.span.stop rs = b := by
    rcases List.eq_nil_or_concat rs with rfl | ⟨ms, m, rfl⟩
    · exact hstop l rfl
    · rw [List.concat_eq_append] at hstop ⊢
      rw [endFrom_append_cons]
      exact hstop m (List.getLast?_concat (l := l :: ms))
  rw [hull, hstart l rfl, hend]

/-- The text of a statement is a program of its own. -/
theorem exists_compile_of_statement {source : String} {all : List Lexeme}
    (hsource : Scans [] 0 source.toList all) (hls : ls <:+: all)
    (h : Statement nestingLimit d ended ls s) :
    ∃ text after s', s.span.Cuts source text after ∧ compile text = .ok ⟨[s']⟩ ∧
      s'.mapSpans (.shift s.span.start) = s := by
  obtain ⟨as, bs, rfl⟩ := hls
  have hne : ls ≠ [] := by
    obtain ⟨l, rs, rfl, -⟩ := h.begins
    exact List.cons_ne_nil l rs
  obtain ⟨before, text, after, htext, hscans, hstart, hstop⟩ := hsource.cut hne
  simp only [Nat.zero_add] at hscans hstart hstop
  have hspan : s.span = ⟨width before, width before + width text⟩ := by
    rw [h.span_eq_hull, hull_eq_of_ends hne hstart hstop]
  have halone : Scans [] (width before) text ls := hscans.of_head nofun
  obtain ⟨ls', rfl, hzero⟩ := halone.unshift (Nat.add_zero (width before)).symm
  -- down to the start of the text, and up again to where it stood
  have hdown := h.moved (φ := (· - width before)) fun a b hab => Nat.sub_le_sub_right hab _
  rw [moved_sub_shift] at hdown
  have hup := hdown.moved (φ := (width before + ·)) fun a b hab => Nat.add_le_add_left hab _
  refine ⟨.ofList text, .ofList after, s.mapSpans (.map (· - width before)),
    hspan ▸ cuts_of_toList_eq htext, ?_, ?_⟩
  · exact compile_eq_ok_iff.2 ⟨ls', hzero.scan_eq, parseWithin_eq_ok_iff.2 hdown.derives⟩
  · have hunique := hup.derives.unique h.derives
    rw [hspan]
    exact (List.cons.inj (congrArg Program.statements hunique)).1

end

/-! ## Top theorem -/

/-- Each expression and each statement of a program is what the text of its span reads as. -/
theorem compile_cut_of_span {source : String} {p : Program} (h : compile source = .ok p) :
    (∀ e, p.HasExpr e → ∃ text after e', e.span.Cuts source text after ∧
      compile text = .ok ⟨[.expr e' e'.span]⟩ ∧ e'.mapSpans (.shift e.span.start) = e) ∧
    ∀ s, p.HasStmt s → ∃ text after s', s.span.Cuts source text after ∧
      compile text = .ok ⟨[s']⟩ ∧ s'.mapSpans (.shift s.span.start) = s := by
  obtain ⟨ls, hscan, hparse⟩ := compile_eq_ok_iff.1 h
  have hsource := scan_eq_ok_iff.1 hscan
  have hderives := parseWithin_eq_ok_iff.1 hparse
  constructor
  · intro e he
    obtain ⟨layer, d, ls', k, hls, hphrase⟩ := hderives.exists_of_hasExpr he
    have hordered : Ordered ls :=
      ⟨fun l hl => Nat.le_of_lt (hsource.spans.1 l hl).2.1, hsource.spans.2⟩
    have hspan := hphrase.span_eq_hull (hordered.mono hls)
    have hloose : Phrase nestingLimit .equality d ls' k e :=
      hphrase.loosen (by cases layer <;> decide)
    have hstmt := Statement.expr hloose .absent
    rw [List.append_nil, ← hspan] at hstmt
    obtain ⟨text, after, s', hcuts, hcompile, hshift⟩ :=
      exists_compile_of_statement hsource hls hstmt
    cases s' with
    | define => cases hshift
    | expr e' a =>
      obtain ⟨he', ha⟩ := Stmt.expr.inj hshift
      have hspan' : e'.span.shift e.span.start = e.span :=
        (Expr.span_mapSpans _ e').symm.trans (congrArg Expr.span he')
      obtain rfl : a = e'.span := Span.shift_inj (ha.trans hspan'.symm)
      exact ⟨text, after, e', hcuts, hcompile, he'⟩
  · intro s hs
    obtain ⟨d, ended, ls', hls, hstmt⟩ := hderives.exists_of_hasStmt hs
    exact exists_compile_of_statement hsource hls hstmt

/-- In `if(a){(b)-1-2;}`, the operation inside and the statement that it is in. -/
theorem compile_cut_of_span_in_block :
    let source := "if(a)\x7b(b)-1-2;\x7d"
    let e : Expr := .binary (.ident "b" ⟨6, 9⟩) .sub (.int 1 ⟨10, 11⟩) ⟨6, 11⟩
    let s : Stmt := .expr (.binary e .sub (.int 2 ⟨12, 13⟩) ⟨6, 13⟩) ⟨6, 14⟩
    let p : Program := ⟨[.expr (.cond (.ident "a" ⟨3, 4⟩) [s] none ⟨0, 15⟩) ⟨0, 15⟩]⟩
    compile source = .ok p ∧ p.HasExpr e ∧ p.HasStmt s ∧
      (∃ text after e', Span.Cuts ⟨6, 11⟩ source text after ∧
        compile text = .ok ⟨[.expr e' e'.span]⟩ ∧ e'.mapSpans (.shift 6) = e) ∧
      ∃ text after s', Span.Cuts ⟨6, 14⟩ source text after ∧
        compile text = .ok ⟨[s']⟩ ∧ s'.mapSpans (.shift 6) = s := by
  intro source e s p
  let ls : List Lexeme := [⟨.ifWord, ⟨0, 2⟩⟩, ⟨.lparen, ⟨2, 3⟩⟩, ⟨.ident "a", ⟨3, 4⟩⟩,
    ⟨.rparen, ⟨4, 5⟩⟩, ⟨.lbrace, ⟨5, 6⟩⟩, ⟨.lparen, ⟨6, 7⟩⟩, ⟨.ident "b", ⟨7, 8⟩⟩,
    ⟨.rparen, ⟨8, 9⟩⟩, ⟨.minus, ⟨9, 10⟩⟩, ⟨.int 1, ⟨10, 11⟩⟩, ⟨.minus, ⟨11, 12⟩⟩,
    ⟨.int 2, ⟨12, 13⟩⟩, ⟨.semi, ⟨13, 14⟩⟩, ⟨.rbrace, ⟨14, 15⟩⟩]
  have hscan : scan source = .ok ls := by decide +kernel
  have hcompile : compile source = .ok p := compile_eq_ok_iff.2 ⟨ls, hscan, by rfl⟩
  have hcond : p.HasExpr (.cond (.ident "a" ⟨3, 4⟩) [s] none ⟨0, 15⟩) :=
    ⟨_, List.mem_singleton_self _, [], .nil⟩
  have he : p.HasExpr e :=
    ⟨_, List.mem_singleton_self _, [.inner, .left],
      .cons (.yes (List.mem_singleton_self s)) (.cons .binary_left .nil)⟩
  have hs : p.HasStmt s := .inr ⟨_, hcond, .yes (List.mem_singleton_self s)⟩
  have hcuts := compile_cut_of_span hcompile
  exact ⟨hcompile, he, hs, hcuts.1 e he, hcuts.2 s hs⟩

end Grammar

end MonkeyLang
