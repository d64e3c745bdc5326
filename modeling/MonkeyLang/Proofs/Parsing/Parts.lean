import Mathlib.Logic.Relation
import MonkeyLang.Proofs.Parsing.Subtexts

/-!
# How spans lie

Whatever bears a span in a program was read from some lexemes that are next to each other, and what
stands right inside it was read from parts of these, one behind the other (`Reads.among`).  On
lexemes in order the span of a part is the hull of its lexemes, and so the spans of a program are
those of a drawn tree: each over the ones inside, and these apart from each other
(`Program.spans_nest`).

Parentheses widen the span of what is inside and have no part of their own; they change nothing,
since the lexemes of the inner parts are then further in.
-/

namespace MonkeyLang

/-! ## Parts -/

/-- What bears a span in a program. -/
inductive Part where
  /-- The name that a statement defines. -/
  | name (span : Span)
  | expr (e : Expr)
  | stmt (s : Stmt)

/-- What stands right inside an expression, in the order of the text. -/
def Expr.parts : Expr → List Part
  | int _ _ => []
  | str _ _ => []
  | bool _ _ => []
  | null _ => []
  | ident _ _ => []
  | unary _ e _ => [.expr e]
  | binary l _ r _ => [.expr l, .expr r]
  | cond test yes no _ => .expr test :: (yes.map .stmt ++ (no.getD []).map .stmt)
  | array es _ => es.map .expr
  | hash ps _ => ps.flatMap fun p => [.expr p.1, .expr p.2]
  | index t i _ => [.expr t, .expr i]
  | call f args _ => .expr f :: args.map .expr

/-- The parts of a node do not depend on its span. -/
theorem Expr.parts_withSpan (a : Span) (e : Expr) : (e.withSpan a).parts = e.parts := by
  cases e <;> rfl

def Stmt.parts : Stmt → List Part
  | define _ nameSpan e _ => [.name nameSpan, .expr e]
  | expr e _ => [.expr e]

namespace Part

def span : Part → Span
  | name a => a
  | expr e => e.span
  | stmt s => s.span

def parts : Part → List Part
  | name _ => []
  | expr e => e.parts
  | stmt s => s.parts

/-- The second part is the first, or somewhere inside it. -/
def Holds : Part → Part → Prop := Relation.ReflTransGen fun x y => y ∈ x.parts

end Part

/-- The part stands somewhere in the program. -/
def Program.HasPart (p : Program) (x : Part) : Prop :=
  ∃ s ∈ p.statements, (Part.stmt s).Holds x

namespace Grammar

/-! ## The lexemes of parts -/

/-- The part is what was read from the lexemes. -/
def Reads (limit : Nat) (ls : List Lexeme) : Part → Prop
  | .name a => ∃ l, ls = [l] ∧ a = l.span
  | .expr e => ∃ layer d k, Phrase limit layer d ls k e
  | .stmt s => ∃ d ended, Statement limit d ended ls s

/-- The parts were read from some of the lexemes, one behind the other. -/
inductive Among (limit : Nat) : List Lexeme → List Part → Prop
  | nil {ls : List Lexeme} : Among limit ls []
  | cons (gap : List Lexeme) {ls rs : List Lexeme} {x : Part} {xs : List Part}
      (hx : Reads limit ls x) (hxs : Among limit rs xs) : Among limit (gap ++ (ls ++ rs)) (x :: xs)

variable {limit : Nat} {ls ms rs : List Lexeme} {x : Part} {xs ys : List Part}

namespace Among

theorem behind (ms : List Lexeme) (h : Among limit ls xs) : Among limit (ms ++ ls) xs := by
  cases h with
  | nil => exact .nil
  | cons gap hx hxs =>
    rw [← List.append_assoc]
    exact .cons (ms ++ gap) hx hxs

theorem append (h : Among limit ls xs) (h' : Among limit rs ys) :
    Among limit (ls ++ rs) (xs ++ ys) := by
  induction h with
  | nil => exact h'.behind _
  | cons gap hx _ ih =>
    rw [List.append_assoc, List.append_assoc]
    exact .cons gap hx ih

theorem before (ms : List Lexeme) (h : Among limit ls xs) : Among limit (ls ++ ms) xs := by
  have h' : Among limit (ls ++ ms) (xs ++ []) := h.append .nil
  rwa [List.append_nil] at h'

theorem first (hx : Reads limit ls x) (h : Among limit rs xs) : Among limit (ls ++ rs) (x :: xs) :=
  .cons [] hx h

theorem one (hx : Reads limit ls x) : Among limit ls [x] := by
  have h : Among limit (ls ++ []) [x] := .first hx .nil
  rwa [List.append_nil] at h

end Among

/-- Between an opening lexeme and a closing one. -/
theorem Among.between (o c : Lexeme) (h : Among limit ls xs) : Among limit (o :: ls ++ [c]) xs :=
  (h.behind [o]).before [c]

theorem Phrase.reads {layer : Layer} {d k : Nat} {e : Expr} (h : Phrase limit layer d ls k e) :
    Reads limit ls (.expr e) :=
  ⟨layer, d, k, h⟩

theorem Statement.reads {d : Nat} {ended : Bool} {s : Stmt} (h : Statement limit d ended ls s) :
    Reads limit ls (.stmt s) :=
  ⟨d, ended, h⟩

theorem parts_of_leaf? {l : Lexeme} {e : Expr} (h : leaf? l = some e) : e.parts = [] := by
  unfold leaf? at h
  cases ht : l.token <;> rw [ht] at h <;> cases h <;> rfl

mutual

/-- What stands right inside a phrase was read from its lexemes. -/
theorem Phrase.among {layer : Layer} {d k : Nat} {ls : List Lexeme} {e : Expr} :
    Phrase limit layer d ls k e → Among limit ls e.parts
  | .leaf _ hl => by
    rw [parts_of_leaf? hl]
    exact .nil
  | .paren _ _ he _ => by
    rw [Expr.parts_withSpan]
    exact he.among.between _ _
  | .array _ _ hes _ => hes.among.between _ _
  | .hash _ _ hps _ => hps.among.between _ _
  | .cond _ _ _ he _ hy hn => by
    rw [List.append_assoc]
    exact .cons [_, _] he.reads ((hy.among.append hn.among).behind [_])
  | .unary _ _ he => (Among.one he.reads).behind [_]
  | .binary hl _ _ hr => .first hl.reads ((Among.one hr.reads).behind [_])
  | .call hf _ _ hargs _ => by
    rw [List.append_assoc]
    exact .first hf.reads (hargs.among.between _ _)
  | .index ht _ _ hi _ => by
    rw [List.append_assoc]
    exact .first ht.reads ((Among.one hi.reads).between _ _)
  | .tighter h => h.among

theorem Items.among {d : Nat} {ls : List Lexeme} {es : List Expr} :
    Items limit d ls es → Among limit ls (es.map .expr)
  | .nil => .nil
  | .one he => .one he.reads
  | .cons he _ hes => .first he.reads (hes.among.behind [_])

theorem Pairs.among {d : Nat} {ls : List Lexeme} {ps : List (Expr × Expr)} :
    Pairs limit d ls ps → Among limit ls (ps.flatMap fun p => [.expr p.1, .expr p.2])
  | .nil => .nil
  | .one hk _ hv => .first hk.reads ((Among.one hv.reads).behind [_])
  | .cons hk _ hv _ hps => by
    rw [List.append_assoc]
    exact .first hk.reads (.cons [_] hv.reads (hps.among.behind [_]))

theorem Statements.among {d : Nat} {ls : List Lexeme} {ss : List Stmt} :
    Statements limit d ls ss → Among limit ls (ss.map .stmt)
  | .nil => .nil
  | .cons hs _ hss => .first hs.reads hss.among

theorem Block.among {d : Nat} {ls : List Lexeme} {ss : List Stmt} :
    Block limit d ls ss → Among limit ls (ss.map .stmt)
  | .braces _ hss _ => hss.among.between _ _

theorem Otherwise.among {d : Nat} {ls : List Lexeme} {no : Option (List Stmt)} :
    Otherwise limit d ls no → Among limit ls ((no.getD []).map .stmt)
  | .none => .nil
  | .block _ hb => hb.among.behind [_]

end

/-- What stands right inside a statement was read from its lexemes. -/
theorem Statement.among {d : Nat} {ended : Bool} {s : Stmt} (h : Statement limit d ended ls s) :
    Among limit ls s.parts := by
  cases h with
  | @define _ _ _ l x a _ _ _ _ _ _ _ he _ =>
    have hx : Reads limit [x] (.name x.span) := ⟨x, rfl, rfl⟩
    exact .cons [l] hx (((Among.one he.reads).behind [a]).before _)
  | expr he _ => exact (Among.one he.reads).before _

/-- What stands right inside a part was read from some of its lexemes, in order. -/
theorem Reads.among (h : Reads limit ls x) : Among limit ls x.parts := by
  cases x with
  | name a => exact .nil
  | expr e =>
    obtain ⟨layer, d, k, h⟩ := h
    exact h.among
  | stmt s =>
    obtain ⟨d, ended, h⟩ := h
    exact h.among

/-- Each of the parts was read from lexemes of its own. -/
theorem Among.exists_of_mem (h : Among limit ls xs) (hx : x ∈ xs) :
    ∃ ls', ls' <:+: ls ∧ Reads limit ls' x := by
  induction h with
  | nil => cases hx
  | @cons gap ls rs y ys hy _ ih =>
    rcases List.mem_cons.1 hx with rfl | hx
    · exact ⟨ls, ⟨gap, rs, List.append_assoc ..⟩, hy⟩
    · obtain ⟨ls', hls, hread⟩ := ih hx
      refine ⟨ls', hls.trans ?_, hread⟩
      rw [← List.append_assoc]
      exact (List.suffix_append _ rs).isInfix

/-- What stands anywhere inside was read from some of the lexemes. -/
theorem Reads.exists_of_holds {y : Part} (h : Reads limit ls x) (hy : x.Holds y) :
    ∃ ls', ls' <:+: ls ∧ Reads limit ls' y := by
  induction hy with
  | refl => exact ⟨ls, List.infix_rfl, h⟩
  | tail _ hz ih =>
    obtain ⟨rs, hrs, hread⟩ := ih
    obtain ⟨ls', hls, hread⟩ := hread.among.exists_of_mem hz
    exact ⟨ls', hls.trans hrs, hread⟩

/-- Whatever stands in a program was read from some of its lexemes. -/
theorem Derives.exists_of_hasPart {p : Program} (h : Derives limit ls p) (hx : p.HasPart x) :
    ∃ ls', ls' <:+: ls ∧ Reads limit ls' x := by
  obtain ⟨s, hs, hx⟩ := hx
  obtain ⟨ts, ended, hts, hstmt⟩ := Statements.exists_of_mem h hs
  obtain ⟨ls', hls, hread⟩ := hstmt.reads.exists_of_holds hx
  exact ⟨ls', hls.trans hts, hread⟩

/-! ## Hulls -/

/-- The hull of lexemes, by the first and the last of them. -/
theorem hull_eq (hne : ls ≠ []) :
    hull ls = ⟨(ls.head hne).span.start, (ls.getLast hne).span.stop⟩ := by
  refine hull_eq_of_ends hne (fun l hl => ?_) (fun l hl => ?_)
  · rw [List.head?_eq_some_head hne] at hl
    cases hl
    rfl
  · rw [List.getLast?_eq_some_getLast hne] at hl
    cases hl
    rfl

/-- A lexeme lies within the hull. -/
theorem Ordered.within_hull (h : Ordered ls) {l : Lexeme} (hl : l ∈ ls) :
    l.span.Within (hull ls) := by
  obtain ⟨before, after, rfl⟩ := List.append_of_mem hl
  have hforward := h.forward
  rw [hull_eq (by simp)]
  constructor
  · -- the first lexeme is this one or ends before it
    cases before with
    | nil => exact Nat.le_refl _
    | cons m before =>
      have hml := List.rel_of_pairwise_cons h.apart (List.mem_append_right _ List.mem_cons_self)
      exact Nat.le_trans (hforward m (by simp)) hml
  · -- so is the last, or it starts behind this one
    cases after with
    | nil => simp
    | cons m after =>
      rw [List.getLast_append_of_ne_nil _ (List.cons_ne_nil _ _),
        List.getLast_cons (List.cons_ne_nil _ _)]
      have hlast := List.getLast_mem (List.cons_ne_nil m after)
      have hle := List.rel_of_pairwise_cons (List.pairwise_append.1 h.apart).2.1 hlast
      exact Nat.le_trans hle (hforward _ (by simp))

theorem Ordered.hull_within (h : Ordered ls) (hms : ms <:+: ls) (hne : ms ≠ []) :
    (hull ms).Within (hull ls) := by
  rw [hull_eq hne]
  have hfirst := h.within_hull (hms.subset (List.head_mem hne))
  have hlast := h.within_hull (hms.subset (List.getLast_mem hne))
  exact ⟨hfirst.1, hlast.2⟩

/-- The hulls of lexemes one behind the other do not overlap. -/
theorem Ordered.hulls_apart (h : Ordered (ls ++ rs)) (hls : ls ≠ []) (hrs : rs ≠ []) :
    (hull ls).stop ≤ (hull rs).start := by
  rw [hull_eq hls, hull_eq hrs]
  exact (List.pairwise_append.1 h.apart).2.2 _ (List.getLast_mem hls) _ (List.head_mem hrs)

theorem Reads.ne_nil (h : Reads limit ls x) : ls ≠ [] := by
  cases x with
  | name a =>
    obtain ⟨l, rfl, -⟩ := h
    exact List.cons_ne_nil l []
  | expr e =>
    obtain ⟨layer, d, k, h⟩ := h
    exact h.ne_nil
  | stmt s =>
    obtain ⟨d, ended, h⟩ := h
    obtain ⟨l, rs, rfl, -⟩ := h.begins
    exact List.cons_ne_nil l rs

/-- The span of a part is the hull of its lexemes, parentheses and semicolon included. -/
theorem Reads.span_eq_hull (h : Reads limit ls x) (hls : Ordered ls) : x.span = hull ls := by
  cases x with
  | name a =>
    obtain ⟨l, rfl, rfl⟩ := h
    rfl
  | expr e =>
    obtain ⟨layer, d, k, h⟩ := h
    exact h.span_eq_hull hls
  | stmt s =>
    obtain ⟨d, ended, h⟩ := h
    exact h.span_eq_hull

/-- Parts that were read one behind the other have their spans so. -/
theorem Among.pairwise_spans (h : Among limit ls xs) (hls : Ordered ls) :
    xs.Pairwise fun x y => x.span.stop ≤ y.span.start := by
  induction h with
  | nil => exact .nil
  | @cons gap ls rs x xs hx hxs ih =>
    have hboth : Ordered (ls ++ rs) := hls.mono (List.suffix_append gap _).isInfix
    have hrs := hboth.mono (List.suffix_append ls rs).isInfix
    refine List.pairwise_cons.2 ⟨fun y hy => ?_, ih hrs⟩
    obtain ⟨ms, hms, hread⟩ := hxs.exists_of_mem hy
    rw [hx.span_eq_hull (hboth.mono (List.prefix_append ls rs).isInfix),
      hread.span_eq_hull (hrs.mono hms)]
    have hne : rs ≠ [] := by
      rintro rfl
      exact hread.ne_nil (List.eq_nil_of_infix_nil hms)
    exact Nat.le_trans (hboth.hulls_apart hx.ne_nil hne) (hrs.hull_within hms hread.ne_nil).1

/-- Every lexeme of some statements belongs to one of them. -/
theorem Statements.exists_of_mem_lexemes {d : Nat} {ls : List Lexeme} {ss : List Stmt} {l : Lexeme}
    (h : Statements limit d ls ss) (hl : l ∈ ls) :
    ∃ s ∈ ss, ∃ ended ls', ls' <:+: ls ∧ l ∈ ls' ∧ Statement limit d ended ls' s :=
  match h, hl with
  | .cons hs _ hss, hl => by
    rcases List.mem_append.1 hl with hl | hl
    · exact ⟨_, List.mem_cons_self, _, _, infix_append _ _, hl, hs⟩
    · obtain ⟨s, hmem, ended, ls', hls, hl, hstmt⟩ := hss.exists_of_mem_lexemes hl
      exact ⟨s, List.mem_cons_of_mem _ hmem, ended, ls',
        hls.trans (List.suffix_append _ _).isInfix, hl, hstmt⟩

/-! ## Top theorem -/

section

variable {p : Program}

/-- The span of a part, and the spans right inside it. -/
theorem Reads.spans_inside (h : Reads limit ls x) (hls : Ordered ls) :
    (∀ y ∈ x.parts, y.span.Within x.span) ∧
      x.parts.Pairwise fun y z => y.span.stop ≤ z.span.start := by
  refine ⟨fun y hy => ?_, h.among.pairwise_spans hls⟩
  obtain ⟨ms, hms, hread⟩ := h.among.exists_of_mem hy
  rw [h.span_eq_hull hls, hread.span_eq_hull (hls.mono hms)]
  exact hls.hull_within hms hread.ne_nil

/-- A part goes from the start of a lexeme to the end of one. -/
theorem Reads.span_ends (h : Reads limit ls x) (hls : Ordered ls) :
    ∃ l ∈ ls, ∃ m ∈ ls, x.span = ⟨l.span.start, m.span.stop⟩ ∧ l.span.Within x.span := by
  have hne := h.ne_nil
  have hspan := h.span_eq_hull hls
  refine ⟨_, List.head_mem hne, _, List.getLast_mem hne, hspan.trans (hull_eq hne), ?_⟩
  rw [hspan]
  exact hls.within_hull (List.head_mem hne)

/-- A lexeme lies within one of the statements that were read from the list. -/
theorem Derives.exists_statement_over (h : Derives limit ls p) (hls : Ordered ls) {l : Lexeme}
    (hl : l ∈ ls) :
    ∃ (i : Nat) (s : Stmt), p.statements[i]? = some s ∧ l.span.Within s.span := by
  obtain ⟨s, hs, ended, ls', hms, hl', hstmt⟩ := Statements.exists_of_mem_lexemes h hl
  obtain ⟨i, hi⟩ := List.getElem?_of_mem hs
  refine ⟨i, s, hi, ?_⟩
  rw [hstmt.span_eq_hull]
  exact (hls.mono hms).within_hull hl'

/-- What is not empty lies within one statement at most. -/
theorem index_eq_of_within {ss : List Stmt} {s t : Stmt} {i j : Nat} {a : Span}
    (h : ss.Pairwise fun s t => s.span.stop ≤ t.span.start) (hi : ss[i]? = some s)
    (hj : ss[j]? = some t) (ha : a.start < a.stop) (hs : a.Within s.span) (ht : a.Within t.span) :
    i = j := by
  obtain ⟨hilt, rfl⟩ := List.getElem?_eq_some_iff.1 hi
  obtain ⟨hjlt, rfl⟩ := List.getElem?_eq_some_iff.1 hj
  have happart := List.pairwise_iff_getElem.1 h
  obtain ⟨hsstart, hsstop⟩ := hs
  obtain ⟨htstart, htstop⟩ := ht
  rcases Nat.lt_trichotomy i j with hlt | rfl | hlt
  · have := happart i j hilt hjlt hlt
    omega
  · rfl
  · have := happart j i hjlt hilt hlt
    omega

end

end Grammar

open Grammar in
/-- The spans of a program that was read from a source.  Each takes up some of the text, from the
start of a lexeme to the end of one, and lies over those right inside it, which are apart and in
order.  The statements are apart and in order too, and every lexeme of the source lies within
exactly one of them. -/
theorem Program.spans_nest {source : String} {ls : List Lexeme} {p : Program}
    (hscan : Token.scan source = .ok ls) (hparse : parse ls = .ok p) :
    (∀ x, p.HasPart x →
      (x.span.start < x.span.stop ∧ x.span.stop ≤ source.utf8ByteSize) ∧
      (∃ l ∈ ls, l.span.start = x.span.start) ∧ (∃ l ∈ ls, l.span.stop = x.span.stop) ∧
      (∀ y ∈ x.parts, y.span.Within x.span) ∧
      x.parts.Pairwise fun y z => y.span.stop ≤ z.span.start) ∧
    (p.statements.Pairwise fun s t => s.span.stop ≤ t.span.start) ∧
    ∀ l ∈ ls, ∃! i : Nat, ∃ s : Stmt, p.statements[i]? = some s ∧ l.span.Within s.span := by
  obtain ⟨hspans, happart⟩ := (Token.scan_eq_ok_iff.1 hscan).spans
  have hordered : Ordered ls := ⟨fun l hl => Nat.le_of_lt (hspans l hl).2.1, happart⟩
  have hderives := parseWithin_eq_ok_iff.1 hparse
  have hstatements : p.statements.Pairwise fun s t => s.span.stop ≤ t.span.start :=
    List.pairwise_map.1 ((Statements.among hderives).pairwise_spans hordered)
  refine ⟨fun x hx => ?_, hstatements, fun l hl => ?_⟩
  · obtain ⟨ls', hls, hread⟩ := hderives.exists_of_hasPart hx
    obtain ⟨l, hl, m, hm, hspan, hwithin⟩ := hread.span_ends (hordered.mono hls)
    have hstart := hspans l (hls.subset hl)
    have hstop := hspans m (hls.subset hm)
    obtain ⟨hinside, hsiblings⟩ := hread.spans_inside (hordered.mono hls)
    rw [hspan] at hinside hwithin ⊢
    refine ⟨⟨Nat.lt_of_lt_of_le hstart.2.1 hwithin.2, ?_⟩, ⟨l, hls.subset hl, rfl⟩,
      ⟨m, hls.subset hm, rfl⟩, hinside, hsiblings⟩
    have hsize := hstop.2.2
    rwa [Nat.zero_add, Token.width_eq_utf8ByteSize, String.ofList_toList] at hsize
  · obtain ⟨i, s, hi, hs⟩ := hderives.exists_statement_over hordered hl
    refine ⟨i, ⟨s, hi, hs⟩, ?_⟩
    rintro j ⟨t, hj, ht⟩
    exact index_eq_of_within hstatements hj hi (hspans l hl).2.1 ht hs

/-- In `(1+2)*3 f`, the sum with the parentheses around it, and the closing one. -/
theorem Program.spans_nest_of_parens :
    let source := "(1+2)*3 f"
    let ls : List Lexeme := [⟨.lparen, ⟨0, 1⟩⟩, ⟨.int 1, ⟨1, 2⟩⟩, ⟨.plus, ⟨2, 3⟩⟩, ⟨.int 2, ⟨3, 4⟩⟩,
      ⟨.rparen, ⟨4, 5⟩⟩, ⟨.star, ⟨5, 6⟩⟩, ⟨.int 3, ⟨6, 7⟩⟩, ⟨.ident "f", ⟨8, 9⟩⟩]
    let sum : Expr := .binary (.int 1 ⟨1, 2⟩) .add (.int 2 ⟨3, 4⟩) ⟨0, 5⟩
    let product : Stmt := .expr (.binary sum .mul (.int 3 ⟨6, 7⟩) ⟨0, 7⟩) ⟨0, 7⟩
    let p : Program := ⟨[product, .expr (.ident "f" ⟨8, 9⟩) ⟨8, 9⟩]⟩
    Token.scan source = .ok ls ∧ parse ls = .ok p ∧ p.HasPart (.expr sum) ∧
      (∀ y ∈ sum.parts, y.span.Within sum.span) ∧
      (sum.parts.Pairwise fun y z => y.span.stop ≤ z.span.start) ∧
      (product.span.stop ≤ 8 ∧ ∃! i : Nat, ∃ s : Stmt, p.statements[i]? = some s ∧
        Span.Within ⟨4, 5⟩ s.span) := by
  intro source ls sum product p
  have hscan : Token.scan source = .ok ls := by decide +kernel
  have hparse : parse ls = .ok p := by rfl
  have hpart : p.HasPart (.expr sum) :=
    ⟨product, List.mem_cons_self, .tail (.single List.mem_cons_self) List.mem_cons_self⟩
  obtain ⟨hparts, hstatements, hlexemes⟩ := spans_nest hscan hparse
  obtain ⟨-, -, -, hinside, hsiblings⟩ := hparts _ hpart
  have hparen : (⟨.rparen, ⟨4, 5⟩⟩ : Lexeme) ∈ ls := by simp [ls]
  exact ⟨hscan, hparse, hpart, hinside, hsiblings,
    List.rel_of_pairwise_cons hstatements List.mem_cons_self, hlexemes _ hparen⟩

end MonkeyLang
