import Mathlib.Data.List.Forall2
import MonkeyLang.Program.Spans
import MonkeyLang.Proofs.Parsing.Run

/-!
# Parsing does not look at spans

From two lists of lexemes with the same tokens, whatever their spans, the parser makes the same
decisions: it takes the same number of lexemes, and comes to the same tree up to spans or to the
same cause at the same lexeme (`Parser.Alike`).  That is kept by doing one thing after another and
holds of each parser of a single lexeme, and so of all parsers:

    ls.map (·.token) = ls'.map (·.token) → ParsesAlike ls ls' (parse ls) (parse ls')
                                                              (Program.parsesAlike_parse)
-/

namespace MonkeyLang

/-! ## Trees up to spans -/

/-- The expressions differ in their spans alone. -/
def Expr.Same (e e' : Expr) : Prop :=
  e.mapSpans (fun _ => ⟨0, 0⟩) = e'.mapSpans fun _ => ⟨0, 0⟩

/-- The statements differ in their spans alone. -/
def Stmt.Same (s s' : Stmt) : Prop :=
  s.mapSpans (fun _ => ⟨0, 0⟩) = s'.mapSpans fun _ => ⟨0, 0⟩

namespace Expr

variable {e e' f f' : Expr} {a a' : Span}

theorem same_withSpan (h : e.Same e') : (e.withSpan a).Same (e'.withSpan a') := by
  unfold Same
  rw [mapSpans_const_withSpan, mapSpans_const_withSpan]
  exact h

theorem mapSpansAll_eq_of_same {es es' : List Expr} (h : List.Forall₂ Same es es') :
    mapSpansAll (fun _ => ⟨0, 0⟩) es = mapSpansAll (fun _ => ⟨0, 0⟩) es' := by
  induction h with
  | nil => rfl
  | cons he _ ih =>
    rw [mapSpansAll, mapSpansAll, ih]
    exact congrArg (· :: _) he

theorem mapSpansPairs_eq_of_same {ps ps' : List (Expr × Expr)}
    (h : List.Forall₂ (fun p p' => p.1.Same p'.1 ∧ p.2.Same p'.2) ps ps') :
    mapSpansPairs (fun _ => ⟨0, 0⟩) ps = mapSpansPairs (fun _ => ⟨0, 0⟩) ps' := by
  induction h with
  | nil => rfl
  | @cons p p' _ _ hp _ ih =>
    obtain ⟨k, v⟩ := p
    obtain ⟨k', v'⟩ := p'
    rw [mapSpansPairs, mapSpansPairs, ih]
    exact congrArg (· :: _) (Prod.ext hp.1 hp.2)

end Expr

theorem Stmt.mapSpansAll_eq_of_same {ss ss' : List Stmt} (h : List.Forall₂ Same ss ss') :
    mapSpansAll (fun _ => ⟨0, 0⟩) ss = mapSpansAll (fun _ => ⟨0, 0⟩) ss' := by
  induction h with
  | nil => rfl
  | cons hs _ ih =>
    rw [mapSpansAll, mapSpansAll, ih]
    exact congrArg (· :: _) hs

/-! ## Parsers that do alike -/

namespace Parser

variable {α β : Type} {R : α → α → Prop} {S : β → β → Prop} {ls ls' : List Lexeme}

/-- Both parsers take as many lexemes, of `ls` and of `ls'`, and end in values that are related; or
both have the same cause behind as many lexemes. -/
inductive EndsSame (R : α → α → Prop) (ls ls' : List Lexeme) :
    Except ParseError (α × Cursor) → Except ParseError (α × Cursor) → Prop
  | ok {a a' : α} {p p' n : Nat} (h : R a a') :
      EndsSame R ls ls' (.ok (a, ⟨p, ls.drop n⟩)) (.ok (a', ⟨p', ls'.drop n⟩))
  | error {cause : ParseCause} {n : Nat} :
      EndsSame R ls ls' (.error ⟨cause, ls.drop n⟩) (.error ⟨cause, ls'.drop n⟩)

theorem EndsSame.of_drop {n : Nat} {r r' : Except ParseError (α × Cursor)}
    (h : EndsSame R (ls.drop n) (ls'.drop n) r r') : EndsSame R ls ls' r r' := by
  cases h with
  | ok h =>
    rw [List.drop_drop, List.drop_drop]
    exact .ok h
  | error =>
    rw [List.drop_drop, List.drop_drop]
    exact .error

/-- Where the same tokens are yet to be read, the parsers do the same. -/
def Alike (R : α → α → Prop) (x x' : Parser α) : Prop :=
  ∀ c c' : Cursor, c.rest.map (·.token) = c'.rest.map (·.token) →
    EndsSame R c.rest c'.rest (x c) (x' c')

theorem Alike.mono {x x' : Parser α} {R' : α → α → Prop} (h : Alike R x x')
    (hR : ∀ a a', R a a' → R' a a') : Alike R' x x' := by
  intro c c' hc
  have h := h c c' hc
  generalize x c = r at h
  generalize x' c' = r' at h
  cases h with
  | ok h => exact .ok (hR _ _ h)
  | error => exact .error

theorem alike_pure {a a' : α} (h : R a a') : Alike R (pure a) (pure a') :=
  fun _ _ _ => .ok (n := 0) h

theorem alike_fail (cause : ParseCause) : Alike R (fail cause) (fail cause) :=
  fun _ _ _ => .error (n := 0)

/-- Where the first parsers do the same, the second ones begin where the same tokens are left. -/
theorem Alike.bind {x x' : Parser α} {f f' : α → Parser β} (hx : Alike R x x')
    (hf : ∀ a a', R a a' → Alike S (f a) (f' a')) : Alike S (x >>= f) (x' >>= f') := by
  intro c c' hc
  have h := hx c c' hc
  show EndsSame S c.rest c'.rest ((x c).bind fun r => f r.1 r.2) ((x' c').bind fun r => f' r.1 r.2)
  generalize x c = r at h
  generalize x' c' = r' at h
  cases h with
  | @ok a a' p p' n h =>
    -- as many lexemes are taken of both, so what is left has the same tokens again
    have hdrop : (c.rest.drop n).map (·.token) = (c'.rest.drop n).map (·.token) := by
      rw [List.map_drop, List.map_drop, hc]
    have h := hf a a' h ⟨p, c.rest.drop n⟩ ⟨p', c'.rest.drop n⟩ hdrop
    exact h.of_drop
  | error => exact .error

/-! ## Single lexemes -/

/-- The parsers are told only what comes next. -/
theorem alike_of_next {x x' : Parser α} (hnil : ∀ p p', EndsSame R [] [] (x ⟨p, []⟩) (x' ⟨p', []⟩))
    (hcons : ∀ p p' l l' ls ls', l.token = l'.token →
      EndsSame R (l :: ls) (l' :: ls') (x ⟨p, l :: ls⟩) (x' ⟨p', l' :: ls'⟩)) : Alike R x x' := by
  rintro ⟨p, ls⟩ ⟨p', ls'⟩ hc
  cases ls with
  | nil =>
    obtain rfl := List.map_eq_nil_iff.1 hc.symm
    exact hnil p p'
  | cons l ls =>
    obtain ⟨l', ls', rfl, hl, -⟩ := List.map_eq_cons_iff.1 hc.symm
    exact hcons p p' l l' ls ls' hl.symm

/-- A lexeme is taken or refused for its token. -/
theorem alike_take {accept : Lexeme → Option α} {refuse : Option Token → ParseCause}
    (h : ∀ l l' : Lexeme, l.token = l'.token → Option.Rel R (accept l) (accept l')) :
    Alike R (take accept refuse) (take accept refuse) := by
  refine alike_of_next (fun p p' => .error (n := 0)) fun p p' l l' ls ls' hl => ?_
  have hrel := h l l' hl
  unfold take
  simp only
  cases ha : accept l <;> cases ha' : accept l' <;> rw [ha, ha'] at hrel
  · simp only [hl]
    exact .error (n := 0)
  · cases hrel
  · cases hrel
  · cases hrel with
    | some hrel => exact .ok (n := 1) hrel

theorem alike_expect (t : Token) : Alike Eq (expect t) (expect t) := by
  refine alike_take fun l l' hl => ?_
  simp only [hl]
  split
  · exact .some rfl
  · exact .none

theorem alike_name : Alike (fun x x' => x.1 = x'.1) name name := by
  refine alike_take fun l l' hl => ?_
  simp only [hl]
  split
  · exact .some rfl
  · exact .none

theorem alike_eat (t : Token) : Alike Eq (eat t) (eat t) := by
  refine alike_of_next (fun p p' => .ok (n := 0) rfl) fun p p' l l' ls ls' hl => ?_
  unfold eat
  simp only [hl]
  split
  · exact .ok (n := 1) rfl
  · exact .ok (n := 0) rfl

theorem alike_peek? : Alike Eq peek? peek? := by
  refine alike_of_next (fun p p' => .ok (n := 0) rfl) fun p p' l l' ls ls' hl => ?_
  exact .ok (n := 0) (congrArg some hl)

theorem alike_unread : Alike (fun ls ls' => ls.length = ls'.length) unread unread := by
  intro c c' hc
  have hlength := congrArg List.length hc
  rw [List.length_map, List.length_map] at hlength
  exact .ok (n := 0) hlength

theorem alike_prevEnd : Alike (fun _ _ => True) prevEnd prevEnd :=
  fun _ _ _ => .ok (n := 0) trivial

theorem alike_nextStart : Alike (fun _ _ => True) nextStart nextStart :=
  fun _ _ _ => .ok (n := 0) trivial

/-! ## Lists and blocks -/

/-- Two bounds of one length run out together. -/
theorem bound_cases {bound bound' : List Lexeme} (h : bound.length = bound'.length) :
    bound = [] ∧ bound' = [] ∨ ∃ l ls l' ls', bound = l :: ls ∧ bound' = l' :: ls' ∧
      ls.length = ls'.length := by
  cases bound with
  | nil => exact .inl ⟨rfl, List.length_eq_zero_iff.1 h.symm⟩
  | cons l ls =>
    obtain ⟨l', ls', hls⟩ := List.exists_cons_of_length_eq_add_one h.symm
    rw [hls] at h
    exact .inr ⟨l, ls, l', ls', rfl, hls, Nat.succ.inj h⟩

section

variable {item item' : Parser α} (hitem : Alike R item item')

include hitem

/-- Items are read alike, if each of them is. -/
theorem alike_itemsUpTo (close : Token) {bound bound' : List Lexeme}
    (hbound : bound.length = bound'.length) {done done' : List α}
    (hdone : List.Forall₂ R done done') :
    Alike (List.Forall₂ R) (itemsUpTo item close bound done)
      (itemsUpTo item' close bound' done') := by
  rw [itemsUpTo.eq_def, itemsUpTo.eq_def]
  refine hitem.bind fun a a' ha => (alike_eat .comma).bind ?_
  rintro b _ rfl
  cases b with
  | true =>
    obtain ⟨rfl, rfl⟩ | ⟨_, bound, _, bound', rfl, rfl, hrest⟩ := bound_cases hbound
    · exact alike_fail _
    · exact alike_itemsUpTo close hrest (.cons ha hdone)
  | false =>
    refine (alike_expect close).bind fun _ _ _ => alike_pure ?_
    exact List.rel_reverse (.cons ha hdone)

theorem alike_list (close : Token) :
    Alike (List.Forall₂ R) (list item close) (list item' close) := by
  refine (alike_eat close).bind ?_
  rintro b _ rfl
  cases b with
  | true => exact alike_pure .nil
  | false => exact alike_unread.bind fun ls ls' h => alike_itemsUpTo hitem close h .nil

theorem alike_statementsUpToBrace {bound bound' : List Lexeme}
    (hbound : bound.length = bound'.length) {done done' : List α}
    (hdone : List.Forall₂ R done done') : Alike (List.Forall₂ R)
      (statementsUpToBrace item bound done) (statementsUpToBrace item' bound' done') := by
  rw [statementsUpToBrace.eq_def, statementsUpToBrace.eq_def]
  refine (alike_eat .rbrace).bind ?_
  rintro b _ rfl
  cases b with
  | true => exact alike_pure (List.rel_reverse hdone)
  | false =>
    refine alike_peek?.bind ?_
    rintro t _ rfl
    cases t with
    | none => exact (alike_fail (R := fun _ _ => False) _).bind fun _ _ h => h.elim
    | some t =>
      refine hitem.bind fun a a' ha => ?_
      obtain ⟨rfl, rfl⟩ | ⟨_, bound, _, bound', rfl, rfl, hrest⟩ := bound_cases hbound
      · exact alike_fail _
      · exact alike_statementsUpToBrace hrest (.cons ha hdone)

theorem alike_statementsUpToEnd {bound bound' : List Lexeme}
    (hbound : bound.length = bound'.length) {done done' : List α}
    (hdone : List.Forall₂ R done done') : Alike (List.Forall₂ R)
      (statementsUpToEnd item bound done) (statementsUpToEnd item' bound' done') := by
  rw [statementsUpToEnd.eq_def, statementsUpToEnd.eq_def]
  refine alike_peek?.bind ?_
  rintro t _ rfl
  cases t with
  | none => exact alike_pure (List.rel_reverse hdone)
  | some t =>
    refine hitem.bind fun a a' ha => ?_
    obtain ⟨rfl, rfl⟩ | ⟨_, bound, _, bound', rfl, rfl, hrest⟩ := bound_cases hbound
    · exact alike_pure (List.rel_reverse (.cons ha hdone))
    · exact alike_statementsUpToEnd hrest (.cons ha hdone)

end

/-! ## Statements and expressions -/

section

variable {expr expr' : Parser Expr}

/-- A statement is read alike, if its expression is. -/
theorem alike_statement (hexpr : Alike Expr.Same expr expr') :
    Alike Stmt.Same (statement expr) (statement expr') := by
  refine alike_nextStart.bind fun start start' _ => (alike_eat .letWord).bind ?_
  rintro b _ rfl
  cases b with
  | true =>
    refine alike_name.bind ?_
    rintro ⟨x, xs⟩ ⟨_, xs'⟩ rfl
    refine (alike_expect .assign).bind fun _ _ _ => hexpr.bind fun e e' he => ?_
    refine (alike_eat .semi).bind fun _ _ _ => alike_prevEnd.bind fun _ _ _ => alike_pure ?_
    simp only [Stmt.Same, Stmt.mapSpans]
    rw [he]
  | false =>
    refine hexpr.bind fun e e' he => (alike_eat .semi).bind fun _ _ _ => ?_
    refine alike_prevEnd.bind fun _ _ _ => alike_pure ?_
    simp only [Stmt.Same, Stmt.mapSpans]
    rw [he]

theorem alike_block (hexpr : Alike Expr.Same expr expr') :
    Alike (List.Forall₂ Stmt.Same) (block expr) (block expr') := by
  refine (alike_expect .lbrace).bind fun _ _ _ => alike_unread.bind fun ls ls' h => ?_
  exact alike_statementsUpToBrace (alike_statement hexpr) h .nil

end

section

variable {expr expr' : Rank → Parser Expr} (hexpr : ∀ r, Alike Expr.Same (expr r) (expr' r))

include hexpr

theorem alike_hashPair : Alike (fun p p' => p.1.Same p'.1 ∧ p.2.Same p'.2)
    (hashPair expr) (hashPair expr') := by
  refine (hexpr .lowest).bind fun k k' hk => (alike_expect .colon).bind fun _ _ _ => ?_
  exact (hexpr .lowest).bind fun v v' hv => alike_pure ⟨hk, hv⟩

omit hexpr in
theorem same_of_leaf {t : Token} {node : Span → Expr} (h : operandStart? t = some (.leaf node))
    (a a' : Span) : (node a).Same (node a') := by
  cases t <;> cases h <;> rfl

/-- The first lexeme of an operand is told by its token. -/
theorem alike_operand : Alike Expr.Same (operand expr) (operand expr') := by
  unfold operand
  refine Alike.bind (R := fun x x' => x.1 = x'.1 ∧ ∃ t, operandStart? t = some x.1) ?_ ?_
  · refine alike_take fun l l' hl => ?_
    rw [hl]
    cases h : operandStart? l'.token with
    | none => exact .none
    | some first => exact .some ⟨rfl, l'.token, h⟩
  rintro ⟨first, a⟩ ⟨_, a'⟩ ⟨rfl, t, ht⟩
  cases first with
  | leaf node => exact alike_pure (same_of_leaf ht a a')
  | sign op =>
    refine (hexpr .sign).bind fun e e' he => alike_prevEnd.bind fun _ _ _ => alike_pure ?_
    simp only [Expr.Same, Expr.mapSpans]
    rw [he]
  | paren =>
    refine (hexpr .lowest).bind fun e e' he => (alike_expect .rparen).bind fun _ _ _ => ?_
    exact alike_prevEnd.bind fun _ _ _ => alike_pure (Expr.same_withSpan he)
  | bracket =>
    refine (alike_list (hexpr .lowest) .rbracket).bind fun es es' hes => ?_
    refine alike_prevEnd.bind fun _ _ _ => alike_pure ?_
    simp only [Expr.Same, Expr.mapSpans]
    rw [Expr.mapSpansAll_eq_of_same hes]
  | brace =>
    refine (alike_list (alike_hashPair hexpr) .rbrace).bind fun ps ps' hps => ?_
    refine alike_prevEnd.bind fun _ _ _ => alike_pure ?_
    simp only [Expr.Same, Expr.mapSpans]
    rw [Expr.mapSpansPairs_eq_of_same hps]
  | ifWord =>
    refine (alike_expect .lparen).bind fun _ _ _ => (hexpr .lowest).bind fun c c' hc => ?_
    refine (alike_expect .rparen).bind fun _ _ _ => ?_
    refine (alike_block (hexpr .lowest)).bind fun yes yes' hyes => (alike_eat .elseWord).bind ?_
    rintro b _ rfl
    cases b with
    | true =>
      refine (alike_block (hexpr .lowest)).bind fun no no' hno => ?_
      refine alike_prevEnd.bind fun _ _ _ => alike_pure ?_
      simp only [Expr.Same, Expr.mapSpans, Stmt.mapSpansElse]
      rw [hc, Stmt.mapSpansAll_eq_of_same hyes, Stmt.mapSpansAll_eq_of_same hno]
    | false =>
      refine alike_prevEnd.bind fun _ _ _ => alike_pure ?_
      simp only [Expr.Same, Expr.mapSpans, Stmt.mapSpansElse]
      rw [hc, Stmt.mapSpansAll_eq_of_same hyes]

/-- The operator is told by its token, and so is all that follows. -/
theorem alike_extend {left left' : Expr} (hleft : left.Same left') (t : Token) :
    Alike Expr.Same (extend expr left t) (extend expr' left' t) := by
  refine (alike_expect t).bind fun _ _ _ => ?_
  cases binaryOp? t with
  | some op =>
    refine (hexpr (rankOf t)).bind fun r r' hr => alike_pure ?_
    simp only [Expr.Same, Expr.mapSpans]
    rw [hleft, hr]
  | none =>
    by_cases ht : t = .lparen
    · simp only [if_pos ht]
      refine (alike_list (hexpr .lowest) .rparen).bind fun args args' hargs => ?_
      refine alike_prevEnd.bind fun _ _ _ => alike_pure ?_
      simp only [Expr.Same, Expr.mapSpans]
      rw [hleft, Expr.mapSpansAll_eq_of_same hargs]
    · simp only [if_neg ht]
      refine (hexpr .lowest).bind fun i i' hi => (alike_expect .rbracket).bind fun _ _ _ => ?_
      refine alike_prevEnd.bind fun _ _ _ => alike_pure ?_
      simp only [Expr.Same, Expr.mapSpans]
      rw [hleft, hi]

end

mutual

/-- By induction on the levels, together with the loop over operators. -/
theorem alike_expr (levels : Nat) (rank : Rank) :
    Alike Expr.Same (expr levels rank) (expr levels rank) := by
  cases levels with
  | zero => exact alike_fail _
  | succ levels =>
    rw [expr]
    exact (alike_operand (alike_expr levels)).bind fun left left' h =>
      alike_operators levels rank h

theorem alike_operators (levels : Nat) (rank : Rank) {left left' : Expr} (h : left.Same left') :
    Alike Expr.Same (operators levels rank left) (operators levels rank left') := by
  cases levels with
  | zero =>
    rw [operators, operators]
    refine alike_peek?.bind ?_
    rintro t _ rfl
    cases t with
    | none => exact alike_pure h
    | some t =>
      simp only
      split
      · exact alike_pure h
      · exact alike_fail _
  | succ levels =>
    rw [operators, operators]
    refine alike_peek?.bind ?_
    rintro t _ rfl
    cases t with
    | none => exact alike_pure h
    | some t =>
      simp only
      split
      · exact alike_pure h
      · exact (alike_extend (alike_expr levels) h t).bind fun whole whole' hwhole =>
          alike_operators levels rank hwhole

end

end Parser

/-! ## Programs -/

/-- Two lists of lexemes parse as trees that differ in their spans alone, or with one cause behind
as many lexemes of each. -/
inductive ParsesAlike (ls ls' : List Lexeme) :
    Except ParseError Program → Except ParseError Program → Prop
  | ok {p p' : Program} (h : p.bare = p'.bare) : ParsesAlike ls ls' (.ok p) (.ok p')
  | error {cause : ParseCause} {n : Nat} :
      ParsesAlike ls ls' (.error ⟨cause, ls.drop n⟩) (.error ⟨cause, ls'.drop n⟩)

/-- With the same tokens, lexemes parse alike. -/
theorem Program.parsesAlike_parse {ls ls' : List Lexeme}
    (h : ls.map (·.token) = ls'.map (·.token)) :
    ParsesAlike ls ls' (Program.parse ls) (Program.parse ls') := by
  have hlength := congrArg List.length h
  rw [List.length_map, List.length_map] at hlength
  have hstatement := Parser.alike_statement (Parser.alike_expr nestingLimit .lowest)
  have hends := Parser.alike_statementsUpToEnd hstatement hlength .nil ⟨0, ls⟩ ⟨0, ls'⟩ h
  show ParsesAlike ls ls' ((Parser.statementsUpToEnd _ ls [] ⟨0, ls⟩).map fun r => ⟨r.1⟩)
    ((Parser.statementsUpToEnd _ ls' [] ⟨0, ls'⟩).map fun r => ⟨r.1⟩)
  generalize Parser.statementsUpToEnd _ ls [] ⟨0, ls⟩ = r at hends
  generalize Parser.statementsUpToEnd _ ls' [] ⟨0, ls'⟩ = r' at hends
  cases hends with
  | ok hss => exact .ok (congrArg Program.mk (Stmt.mapSpansAll_eq_of_same hss))
  | error => exact .error

end MonkeyLang
