import MonkeyLang.Proofs.Parsing.Grammar

/-!
# Running parsers

What the parsers of single lexemes and the loops of the program parser do, as equations at a place
between two lexemes.  `c.Took ls c'` says that `c'` is the place behind the lexemes `ls` at `c`;
places between compose (`Took.append`) and come apart again (`Took.split`).
-/

namespace MonkeyLang

open Grammar (endFrom hull)

/-! ## Places between lexemes -/

namespace Cursor

def next? (c : Cursor) : Option Token := c.rest.head?.map (·.token)

theorem next?_eq_none_iff {c : Cursor} : c.next? = none ↔ c.rest = [] := by
  rw [next?, Option.map_eq_none_iff, List.head?_eq_none_iff]

/-- From `c` past the lexemes `ls` to `c'`. -/
structure Took (c : Cursor) (ls : List Lexeme) (c' : Cursor) : Prop where
  rest_eq : c.rest = ls ++ c'.rest
  prevEnd_eq : c'.prevEnd = endFrom c.prevEnd ls

namespace Took

variable {c c' c₁ c₂ : Cursor} {l : Lexeme} {ls rs : List Lexeme}

theorem nil (c : Cursor) : c.Took [] c := ⟨rfl, rfl⟩

theorem eq_of_nil (h : c.Took [] c') : c' = c := by
  obtain ⟨p, rest⟩ := c'
  obtain ⟨h₁, h₂⟩ := h
  simp only [List.nil_append] at h₁
  subst h₁
  have h₂ : p = c.prevEnd := h₂
  subst h₂
  rfl

theorem append (h₁ : c.Took ls c₁) (h₂ : c₁.Took rs c₂) : c.Took (ls ++ rs) c₂ := by
  refine ⟨?_, ?_⟩
  · rw [h₁.rest_eq, h₂.rest_eq, List.append_assoc]
  · rw [h₂.prevEnd_eq, h₁.prevEnd_eq]
    simp [endFrom]

theorem split (h : c.Took (ls ++ rs) c₂) : ∃ c₁, c.Took ls c₁ ∧ c₁.Took rs c₂ := by
  refine ⟨⟨endFrom c.prevEnd ls, rs ++ c₂.rest⟩, ⟨?_, rfl⟩, ⟨rfl, ?_⟩⟩
  · rw [h.rest_eq, List.append_assoc]
  · rw [h.prevEnd_eq]
    simp [endFrom]

theorem cons (h₁ : c.Took [l] c₁) (h₂ : c₁.Took ls c₂) : c.Took (l :: ls) c₂ := h₁.append h₂

theorem uncons (h : c.Took (l :: ls) c₂) : ∃ c₁, c.Took [l] c₁ ∧ c₁.Took ls c₂ := by
  rw [← List.singleton_append] at h
  exact h.split

theorem next?_eq (h : c.Took (l :: ls) c') : c.next? = some l.token := by
  simp [next?, h.rest_eq]

theorem length_rest (h : c.Took ls c') : c.rest.length = ls.length + c'.rest.length := by
  rw [h.rest_eq, List.length_append]

theorem length_le (h : c.Took ls c') : ls.length ≤ c.rest.length := by
  rw [h.length_rest]
  omega

/-- One lexeme is the first of what was left. -/
theorem singleton_iff : c.Took [l] c' ↔ c.rest = l :: c'.rest ∧ c' = ⟨l.span.stop, c'.rest⟩ := by
  constructor
  · rintro ⟨h₁, h₂⟩
    refine ⟨h₁, ?_⟩
    obtain ⟨p, rest⟩ := c'
    have h₂ : p = l.span.stop := h₂
    rw [h₂]
  · rintro ⟨h₁, h₂⟩
    exact ⟨h₁, by rw [h₂]; rfl⟩

theorem hull_cons (h : c.Took (l :: ls) c') : hull (l :: ls) = ⟨l.span.start, c'.prevEnd⟩ := by
  rw [h.prevEnd_eq]
  rfl

/-- The hull of what was taken, by the places that the parser keeps. -/
theorem hull_eq (h : c.Took ls c') (hne : ls ≠ []) :
    hull ls = ⟨(c.rest.head?.map (·.span.start)).getD 0, c'.prevEnd⟩ := by
  cases ls with
  | nil => exact absurd rfl hne
  | cons l ls => rw [h.hull_cons, h.rest_eq]; rfl

end Took

end Cursor

namespace Parser

open Cursor (Took)

variable {α β : Type} {c c' c₁ c₂ : Cursor} {l : Lexeme} {t : Token}

/-! ## Parsers of single lexemes -/

theorem bind_of_ok {x : Parser α} {f : α → Parser β} {a : α} (h : x c = .ok (a, c')) :
    (x >>= f) c = f a c' := by
  show (x c).bind (fun r => f r.1 r.2) = f a c'
  rw [h]
  rfl

/-- Two parsers have an answer if the first has one, and the second has one behind it. -/
theorem bind_eq_ok {x : Parser α} {f : α → Parser β} {b : β} :
    (x >>= f) c = .ok (b, c') ↔ ∃ a c₁, x c = .ok (a, c₁) ∧ f a c₁ = .ok (b, c') := by
  constructor
  · intro h
    cases hx : x c with
    | error e =>
      have h : (x c).bind (fun r => f r.1 r.2) = .ok (b, c') := h
      rw [hx] at h
      cases h
    | ok r => exact ⟨r.1, r.2, rfl, by rwa [bind_of_ok hx] at h⟩
  · rintro ⟨a, c₁, hx, hf⟩
    rwa [bind_of_ok hx]

theorem pure_eq_ok {a b : α} : (pure a : Parser α) c = .ok (b, c') ↔ a = b ∧ c = c' := by
  show Except.ok (a, c) = Except.ok (b, c') ↔ _
  simp

theorem fail_ne_ok {cause : ParseCause} {a : α} : (fail cause : Parser α) c ≠ .ok (a, c') := nofun

/-- A lexeme is taken if it is accepted. -/
theorem take_eq_ok {accept : Lexeme → Option α} {refuse : Option Token → ParseCause} {a : α} :
    take accept refuse c = .ok (a, c') ↔ ∃ l, c.Took [l] c' ∧ accept l = some a := by
  simp only [Took.singleton_iff]
  unfold take
  constructor
  · intro h
    split at h
    · cases h
    · next l rest hrest =>
      split at h
      · next a' ha =>
        obtain ⟨rfl, rfl⟩ : a' = a ∧ ⟨l.span.stop, rest⟩ = c' := by simpa using h
        exact ⟨l, ⟨hrest, rfl⟩, ha⟩
      · cases h
  · rintro ⟨l, ⟨hrest, hc⟩, ha⟩
    rw [hrest]
    simp only [ha]
    rw [← hc]

theorem expect_eq_ok {u : Unit} :
    expect t c = .ok (u, c') ↔ ∃ l, c.Took [l] c' ∧ l.token = t := by
  unfold expect
  rw [take_eq_ok]
  simp

theorem eat_of_took (h : c.Took [l] c') (hl : l.token = t) : eat t c = .ok (true, c') := by
  obtain ⟨hrest, hc⟩ := Took.singleton_iff.1 h
  unfold eat
  rw [hrest]
  simp only [hl, if_true]
  rw [← hc]

theorem eat_of_ne (h : c.next? ≠ some t) : eat t c = .ok (false, c) := by
  unfold eat
  split
  · next l rest hrest =>
    rw [if_neg]
    simpa [Cursor.next?, hrest] using h
  · rfl

/-- Whether a token was taken, and where that leaves the cursor. -/
theorem eat_eq_ok {b : Bool} : eat t c = .ok (b, c') ↔
    (b = true ∧ ∃ l, c.Took [l] c' ∧ l.token = t) ∨ (b = false ∧ c' = c ∧ c.next? ≠ some t) := by
  constructor
  · intro h
    by_cases hn : c.next? = some t
    · obtain ⟨l, hl, rfl⟩ : ∃ l ∈ c.rest.head?, l.token = t := by
        simpa [Cursor.next?] using hn
      obtain ⟨rest, hrest⟩ : ∃ rest, c.rest = l :: rest := by
        simpa [List.head?_eq_some_iff] using hl
      have ht : c.Took [l] ⟨l.span.stop, rest⟩ := ⟨hrest, rfl⟩
      rw [eat_of_took ht rfl] at h
      obtain ⟨rfl, rfl⟩ : true = b ∧ ⟨l.span.stop, rest⟩ = c' := by simpa using h
      exact .inl ⟨rfl, l, ht, rfl⟩
    · rw [eat_of_ne hn] at h
      obtain ⟨rfl, rfl⟩ : false = b ∧ c = c' := by simpa using h
      exact .inr ⟨rfl, rfl, hn⟩
  · rintro (⟨rfl, l, h, hl⟩ | ⟨rfl, rfl, h⟩)
    · exact eat_of_took h hl
    · exact eat_of_ne h

theorem peek?_eq : peek? c = .ok (c.next?, c) := rfl

theorem prevEnd_eq : prevEnd c = .ok (c.prevEnd, c) := rfl

theorem nextStart_eq : nextStart c = .ok ((c.rest.head?.map (·.span.start)).getD 0, c) := rfl

theorem name_eq_ok {x : String × Span} :
    name c = .ok (x, c') ↔ ∃ l, c.Took [l] c' ∧ l.token = .ident x.1 ∧ x.2 = l.span := by
  unfold name
  rw [take_eq_ok]
  refine exists_congr fun l => and_congr_right fun _ => ?_
  split
  · next y hy => simp [hy, Prod.ext_iff, eq_comm]
  · next hne => exact ⟨nofun, fun h => (hne _ h.1).elim⟩

/-! ## Lists and blocks -/

section

variable {item : Parser α} {close : Token} {bound : List Lexeme} {done as : List α}

/-- An empty list, or one or more items. -/
theorem list_eq_ok : list item close c = .ok (as, c') ↔
    (as = [] ∧ ∃ l, c.Took [l] c' ∧ l.token = close) ∨
    (c.next? ≠ some close ∧ itemsUpTo item close c.rest [] c = .ok (as, c')) := by
  unfold list
  rw [bind_eq_ok]
  constructor
  · rintro ⟨b, c₁, he, h⟩
    rcases eat_eq_ok.1 he with ⟨rfl, hl⟩ | ⟨rfl, rfl, hn⟩
    · obtain ⟨rfl, rfl⟩ := pure_eq_ok.1 h
      exact .inl ⟨rfl, hl⟩
    · exact .inr ⟨hn, h⟩
  · rintro (⟨rfl, l, hl, ht⟩ | ⟨hn, h⟩)
    · exact ⟨true, c', eat_of_took hl ht, rfl⟩
    · exact ⟨false, c, eat_of_ne hn, h⟩

/-- An item, and then a comma and more of them, or the closing token. -/
theorem itemsUpTo_eq_ok : itemsUpTo item close bound done c = .ok (as, c') ↔
    ∃ a c₁, item c = .ok (a, c₁) ∧
      ((∃ m c₂ b bound', bound = b :: bound' ∧ c₁.Took [m] c₂ ∧ m.token = .comma ∧
          itemsUpTo item close bound' (a :: done) c₂ = .ok (as, c')) ∨
        (c₁.next? ≠ some .comma ∧ as = (a :: done).reverse ∧
          ∃ l, c₁.Took [l] c' ∧ l.token = close)) := by
  rw [itemsUpTo.eq_def, bind_eq_ok]
  refine exists_congr fun a => exists_congr fun c₁ => and_congr_right fun _ => ?_
  rw [bind_eq_ok]
  constructor
  · rintro ⟨b, c₂, he, h⟩
    rcases eat_eq_ok.1 he with ⟨rfl, m, hm, ht⟩ | ⟨rfl, rfl, hn⟩
    · cases bound with
      | nil => exact absurd h fail_ne_ok
      | cons b bound => exact .inl ⟨m, c₂, b, bound, rfl, hm, ht, h⟩
    · obtain ⟨_, c₃, hx, hp⟩ := bind_eq_ok.1 h
      obtain ⟨rfl, rfl⟩ := pure_eq_ok.1 hp
      exact .inr ⟨hn, rfl, expect_eq_ok.1 hx⟩
  · rintro (⟨m, c₂, b, bound', rfl, hm, ht, h⟩ | ⟨hn, rfl, hl⟩)
    · exact ⟨true, c₂, eat_of_took hm ht, h⟩
    · exact ⟨false, c₁, eat_of_ne hn, bind_eq_ok.2 ⟨(), c', expect_eq_ok.2 hl, rfl⟩⟩

/-- The closing brace, or a statement and what follows it. -/
theorem statementsUpToBrace_eq_ok : statementsUpToBrace item bound done c = .ok (as, c') ↔
    (as = done.reverse ∧ ∃ l, c.Took [l] c' ∧ l.token = .rbrace) ∨
    (c.next? ≠ some .rbrace ∧ c.next? ≠ none ∧ ∃ a c₁ b bound', item c = .ok (a, c₁) ∧
      bound = b :: bound' ∧ statementsUpToBrace item bound' (a :: done) c₁ = .ok (as, c')) := by
  rw [statementsUpToBrace.eq_def, bind_eq_ok]
  constructor
  · rintro ⟨b, c₁, he, h⟩
    rcases eat_eq_ok.1 he with ⟨rfl, hl⟩ | ⟨rfl, rfl, hn⟩
    · obtain ⟨rfl, rfl⟩ := pure_eq_ok.1 h
      exact .inl ⟨rfl, hl⟩
    · rw [if_neg Bool.false_ne_true, bind_of_ok peek?_eq] at h
      cases hnext : c₁.next? with
      | none =>
        rw [hnext, if_pos Option.isNone_none] at h
        obtain ⟨_, _, hf, _⟩ := bind_eq_ok.1 h
        exact absurd hf fail_ne_ok
      | some t =>
        rw [hnext, if_neg (by simp)] at h
        obtain ⟨a, c₂, ha, h⟩ := bind_eq_ok.1 h
        cases bound with
        | nil => exact absurd h fail_ne_ok
        | cons b bound => exact .inr ⟨by rwa [← hnext], nofun, a, c₂, b, bound, ha, rfl, h⟩
  · rintro (⟨rfl, l, hl, ht⟩ | ⟨hn, hne, a, c₁, b, bound', ha, rfl, h⟩)
    · exact ⟨true, c', eat_of_took hl ht, rfl⟩
    · obtain ⟨t, ht⟩ := Option.ne_none_iff_exists'.1 hne
      refine ⟨false, c, eat_of_ne hn, ?_⟩
      rw [if_neg Bool.false_ne_true, bind_of_ok peek?_eq, ht]
      exact bind_eq_ok.2 ⟨a, c₁, ha, h⟩

/-- The end of the input, or a statement and what follows it. -/
theorem statementsUpToEnd_eq_ok : statementsUpToEnd item bound done c = .ok (as, c') ↔
    (c.next? = none ∧ as = done.reverse ∧ c' = c) ∨
    (c.next? ≠ none ∧ ∃ a c₁, item c = .ok (a, c₁) ∧
      ((∃ b bound', bound = b :: bound' ∧
          statementsUpToEnd item bound' (a :: done) c₁ = .ok (as, c')) ∨
        (bound = [] ∧ as = (a :: done).reverse ∧ c' = c₁))) := by
  rw [statementsUpToEnd.eq_def]
  show (peek? >>= _) c = .ok (as, c') ↔ _
  rw [bind_of_ok peek?_eq]
  constructor
  · intro h
    split at h
    · next hnext =>
      obtain ⟨rfl, rfl⟩ := pure_eq_ok.1 h
      exact .inl ⟨Option.isNone_iff_eq_none.1 hnext, rfl, rfl⟩
    · next hnext =>
      obtain ⟨a, c₁, ha, h⟩ := bind_eq_ok.1 h
      refine .inr ⟨fun hn => hnext (by rw [hn]; rfl), a, c₁, ha, ?_⟩
      cases bound with
      | nil =>
        obtain ⟨rfl, rfl⟩ := pure_eq_ok.1 h
        exact .inr ⟨rfl, rfl, rfl⟩
      | cons b bound => exact .inl ⟨b, bound, rfl, h⟩
  · rintro (⟨hnext, rfl, rfl⟩ | ⟨hnext, a, c₁, ha, h⟩)
    · rw [hnext, if_pos Option.isNone_none]
      rfl
    · obtain ⟨t, ht⟩ := Option.ne_none_iff_exists'.1 hnext
      rw [ht, if_neg (by simp), bind_of_ok ha]
      rcases h with ⟨b, bound, rfl, h⟩ | ⟨rfl, rfl, rfl⟩
      · exact h
      · rfl

end

/-! ## Statements and operands -/

/-- A definition by its parts, or an expression. -/
theorem statement_eq_ok {expr : Parser Expr} {s : Stmt} : statement expr c = .ok (s, c') ↔
    (∃ l x a c₁ c₂ c₃ c₄ y e b, c.Took [l] c₁ ∧ l.token = .letWord ∧ c₁.Took [x] c₂ ∧
      x.token = .ident y ∧ c₂.Took [a] c₃ ∧ a.token = .assign ∧ expr c₃ = .ok (e, c₄) ∧
      eat .semi c₄ = .ok (b, c') ∧
      s = .define y x.span e ⟨(c.rest.head?.map (·.span.start)).getD 0, c'.prevEnd⟩) ∨
    (c.next? ≠ some .letWord ∧ ∃ e c₁ b, expr c = .ok (e, c₁) ∧ eat .semi c₁ = .ok (b, c') ∧
      s = .expr e ⟨(c.rest.head?.map (·.span.start)).getD 0, c'.prevEnd⟩) := by
  unfold statement
  rw [bind_of_ok nextStart_eq, bind_eq_ok]
  constructor
  · rintro ⟨b, c₁, he, h⟩
    rcases eat_eq_ok.1 he with ⟨rfl, l, hl, ht⟩ | ⟨rfl, rfl, hn⟩
    · obtain ⟨⟨y, ys⟩, c₂, hname, h⟩ := bind_eq_ok.1 h
      obtain ⟨x, hx, hxt, rfl⟩ := name_eq_ok.1 hname
      obtain ⟨_, c₃, ha, h⟩ := bind_eq_ok.1 h
      obtain ⟨a, ha, hat⟩ := expect_eq_ok.1 ha
      obtain ⟨e, c₄, he, h⟩ := bind_eq_ok.1 h
      obtain ⟨b, c₅, hs, h⟩ := bind_eq_ok.1 h
      rw [bind_of_ok prevEnd_eq] at h
      obtain ⟨rfl, rfl⟩ := pure_eq_ok.1 h
      exact .inl ⟨l, x, a, c₁, c₂, c₃, c₄, y, e, b, hl, ht, hx, hxt, ha, hat, he, hs, rfl⟩
    · obtain ⟨e, c₂, he, h⟩ := bind_eq_ok.1 h
      obtain ⟨b, c₃, hs, h⟩ := bind_eq_ok.1 h
      rw [bind_of_ok prevEnd_eq] at h
      obtain ⟨rfl, rfl⟩ := pure_eq_ok.1 h
      exact .inr ⟨hn, e, c₂, b, he, hs, rfl⟩
  · rintro (⟨l, x, a, c₁, c₂, c₃, c₄, y, e, b, hl, ht, hx, hxt, ha, hat, he, hs, rfl⟩ |
      ⟨hn, e, c₁, b, he, hs, rfl⟩)
    · refine ⟨true, c₁, eat_of_took hl ht, ?_⟩
      rw [if_pos rfl, bind_of_ok (name_eq_ok (x := (y, x.span)).2 ⟨x, hx, hxt, rfl⟩)]
      show (expect .assign >>= _) c₂ = _
      rw [bind_of_ok (expect_eq_ok (u := ()).2 ⟨a, ha, hat⟩), bind_of_ok he, bind_of_ok hs]
      rfl
    · refine ⟨false, c, eat_of_ne hn, ?_⟩
      rw [if_neg Bool.false_ne_true, bind_of_ok he, bind_of_ok hs, bind_of_ok prevEnd_eq]
      rfl

theorem block_eq_ok {expr : Parser Expr} {ss : List Stmt} : block expr c = .ok (ss, c') ↔
    ∃ o c₁, c.Took [o] c₁ ∧ o.token = .lbrace ∧
      statementsUpToBrace (statement expr) c₁.rest [] c₁ = .ok (ss, c') := by
  unfold block
  rw [bind_eq_ok]
  constructor
  · rintro ⟨_, c₁, ho, h⟩
    obtain ⟨o, ho, ht⟩ := expect_eq_ok.1 ho
    exact ⟨o, c₁, ho, ht, h⟩
  · rintro ⟨o, c₁, ho, ht, h⟩
    exact ⟨(), c₁, expect_eq_ok.2 ⟨o, ho, ht⟩, h⟩

theorem hashPair_eq_ok {expr : Rank → Parser Expr} {p : Expr × Expr} :
    hashPair expr c = .ok (p, c') ↔ ∃ c₁ m c₂, expr .lowest c = .ok (p.1, c₁) ∧ c₁.Took [m] c₂ ∧
      m.token = .colon ∧ expr .lowest c₂ = .ok (p.2, c') := by
  unfold hashPair
  rw [bind_eq_ok]
  constructor
  · rintro ⟨k, c₁, hk, h⟩
    obtain ⟨_, c₂, hm, h⟩ := bind_eq_ok.1 h
    obtain ⟨m, hm, ht⟩ := expect_eq_ok.1 hm
    obtain ⟨v, c₃, hv, h⟩ := bind_eq_ok.1 h
    obtain ⟨rfl, rfl⟩ := pure_eq_ok.1 h
    exact ⟨c₁, m, c₂, hk, hm, ht, hv⟩
  · rintro ⟨c₁, m, c₂, hk, hm, ht, hv⟩
    refine ⟨p.1, c₁, hk, ?_⟩
    rw [bind_of_ok (expect_eq_ok (u := ()).2 ⟨m, hm, ht⟩), bind_of_ok hv]
    rfl

/-- What an operand is by its first lexeme `o`, behind which the place is `c`. -/
def Operand (expr : Rank → Parser Expr) (o : Lexeme) (c : Cursor) (e : Expr) (c' : Cursor) :
    OperandStart → Prop
  | .leaf node => e = node o.span ∧ c' = c
  | .sign op => ∃ a, expr .sign c = .ok (a, c') ∧ e = .unary op a ⟨o.span.start, c'.prevEnd⟩
  | .paren => ∃ a c₁ l, expr .lowest c = .ok (a, c₁) ∧ c₁.Took [l] c' ∧ l.token = .rparen ∧
      e = a.withSpan ⟨o.span.start, c'.prevEnd⟩
  | .bracket => ∃ as, list (expr .lowest) .rbracket c = .ok (as, c') ∧
      e = .array as ⟨o.span.start, c'.prevEnd⟩
  | .brace => ∃ ps, list (hashPair expr) .rbrace c = .ok (ps, c') ∧
      e = .hash ps ⟨o.span.start, c'.prevEnd⟩
  | .ifWord => ∃ l c₁ test c₂ m c₃ yes c₄ no, c.Took [l] c₁ ∧ l.token = .lparen ∧
      expr .lowest c₁ = .ok (test, c₂) ∧ c₂.Took [m] c₃ ∧ m.token = .rparen ∧
      block (expr .lowest) c₃ = .ok (yes, c₄) ∧
      ((∃ w c₅ ss, c₄.Took [w] c₅ ∧ w.token = .elseWord ∧
          block (expr .lowest) c₅ = .ok (ss, c') ∧ no = some ss) ∨
        (c₄.next? ≠ some .elseWord ∧ no = none ∧ c' = c₄)) ∧
      e = .cond test yes no ⟨o.span.start, c'.prevEnd⟩

/-- An operand by its first lexeme, which says what follows. -/
theorem operand_eq_ok {expr : Rank → Parser Expr} {e : Expr} : operand expr c = .ok (e, c') ↔
    ∃ o c₁ first, c.Took [o] c₁ ∧ operandStart? o.token = some first ∧
      Operand expr o c₁ e c' first := by
  unfold operand
  rw [bind_eq_ok]
  constructor
  · rintro ⟨⟨first, s⟩, c₁, htake, h⟩
    obtain ⟨o, ho, hstart⟩ := take_eq_ok.1 htake
    obtain ⟨_, hfirst, rfl, rfl⟩ := Option.map_eq_some_iff.1 hstart
    refine ⟨o, c₁, first, ho, hfirst, ?_⟩
    cases first with
    | leaf node =>
      obtain ⟨rfl, rfl⟩ := pure_eq_ok.1 h
      exact ⟨rfl, rfl⟩
    | sign op =>
      obtain ⟨a, c₂, ha, h⟩ := bind_eq_ok.1 h
      rw [bind_of_ok prevEnd_eq] at h
      obtain ⟨rfl, rfl⟩ := pure_eq_ok.1 h
      exact ⟨a, ha, rfl⟩
    | paren =>
      obtain ⟨a, c₂, ha, h⟩ := bind_eq_ok.1 h
      obtain ⟨_, c₃, hl, h⟩ := bind_eq_ok.1 h
      obtain ⟨l, hl, ht⟩ := expect_eq_ok.1 hl
      rw [bind_of_ok prevEnd_eq] at h
      obtain ⟨rfl, rfl⟩ := pure_eq_ok.1 h
      exact ⟨a, c₂, l, ha, hl, ht, rfl⟩
    | bracket =>
      obtain ⟨as, c₂, has, h⟩ := bind_eq_ok.1 h
      rw [bind_of_ok prevEnd_eq] at h
      obtain ⟨rfl, rfl⟩ := pure_eq_ok.1 h
      exact ⟨as, has, rfl⟩
    | brace =>
      obtain ⟨ps, c₂, hps, h⟩ := bind_eq_ok.1 h
      rw [bind_of_ok prevEnd_eq] at h
      obtain ⟨rfl, rfl⟩ := pure_eq_ok.1 h
      exact ⟨ps, hps, rfl⟩
    | ifWord =>
      obtain ⟨_, c₂, hl, h⟩ := bind_eq_ok.1 h
      obtain ⟨l, hl, hlt⟩ := expect_eq_ok.1 hl
      obtain ⟨test, c₃, htest, h⟩ := bind_eq_ok.1 h
      obtain ⟨_, c₄, hm, h⟩ := bind_eq_ok.1 h
      obtain ⟨m, hm, hmt⟩ := expect_eq_ok.1 hm
      obtain ⟨yes, c₅, hyes, h⟩ := bind_eq_ok.1 h
      obtain ⟨b, c₆, hb, hif⟩ := bind_eq_ok.1 h
      rcases eat_eq_ok.1 hb with ⟨rfl, w, hw, hwt⟩ | ⟨rfl, rfl, hn⟩
      · obtain ⟨ss, c₇, hss, h⟩ := bind_eq_ok.1 hif
        rw [bind_of_ok prevEnd_eq] at h
        obtain ⟨rfl, rfl⟩ := pure_eq_ok.1 h
        exact ⟨l, c₂, test, c₃, m, c₄, yes, c₅, _, hl, hlt, htest, hm, hmt, hyes,
          .inl ⟨w, c₆, ss, hw, hwt, hss, rfl⟩, rfl⟩
      · rw [if_neg Bool.false_ne_true, bind_of_ok prevEnd_eq] at hif
        obtain ⟨rfl, rfl⟩ := pure_eq_ok.1 hif
        exact ⟨l, c₂, test, c₃, m, c₄, yes, _, _, hl, hlt, htest, hm, hmt, hyes,
          .inr ⟨hn, rfl, rfl⟩, rfl⟩
  · rintro ⟨o, c₁, first, ho, hfirst, h⟩
    refine ⟨(first, o.span), c₁, take_eq_ok.2 ⟨o, ho, by rw [hfirst]; rfl⟩, ?_⟩
    cases first with
    | leaf node =>
      obtain ⟨rfl, rfl⟩ := h
      rfl
    | sign op =>
      obtain ⟨a, ha, rfl⟩ := h
      show (expr .sign >>= _) c₁ = _
      rw [bind_of_ok ha]
      rfl
    | paren =>
      obtain ⟨a, c₂, l, ha, hl, ht, rfl⟩ := h
      show (expr .lowest >>= _) c₁ = _
      rw [bind_of_ok ha, bind_of_ok (expect_eq_ok (u := ()).2 ⟨l, hl, ht⟩)]
      rfl
    | bracket =>
      obtain ⟨as, has, rfl⟩ := h
      show (list (expr .lowest) .rbracket >>= _) c₁ = _
      rw [bind_of_ok has]
      rfl
    | brace =>
      obtain ⟨ps, hps, rfl⟩ := h
      show (list (hashPair expr) .rbrace >>= _) c₁ = _
      rw [bind_of_ok hps]
      rfl
    | ifWord =>
      obtain ⟨l, c₂, test, c₃, m, c₄, yes, c₅, no, hl, hlt, htest, hm, hmt, hyes, hno, rfl⟩ := h
      show (expect .lparen >>= _) c₁ = _
      rw [bind_of_ok (expect_eq_ok (u := ()).2 ⟨l, hl, hlt⟩), bind_of_ok htest,
        bind_of_ok (expect_eq_ok (u := ()).2 ⟨m, hm, hmt⟩), bind_of_ok hyes]
      rcases hno with ⟨w, c₆, ss, hw, hwt, hss, rfl⟩ | ⟨hn, rfl, rfl⟩
      · rw [bind_of_ok (eat_of_took hw hwt), if_pos rfl, bind_of_ok hss]
        rfl
      · rw [bind_of_ok (eat_of_ne hn), if_neg Bool.false_ne_true]
        rfl

/-! ## Operators -/

/-- An operator with its right operand, a call with its arguments, or an index. -/
theorem extend_eq_ok {expr : Rank → Parser Expr} {left e : Expr} :
    extend expr left t c = .ok (e, c') ↔ ∃ o c₁, c.Took [o] c₁ ∧ o.token = t ∧
      ((∃ op right, binaryOp? t = some op ∧ expr (rankOf t) c₁ = .ok (right, c') ∧
          e = .binary left op right (left.span.merge right.span)) ∨
        (binaryOp? t = none ∧ t = .lparen ∧ ∃ args,
          list (expr .lowest) .rparen c₁ = .ok (args, c') ∧
            e = .call left args ⟨left.span.start, c'.prevEnd⟩) ∨
        (binaryOp? t = none ∧ t ≠ .lparen ∧ ∃ i c₂ l, expr .lowest c₁ = .ok (i, c₂) ∧
          c₂.Took [l] c' ∧ l.token = .rbracket ∧
          e = .index left i ⟨left.span.start, c'.prevEnd⟩)) := by
  unfold extend
  rw [bind_eq_ok]
  constructor
  · rintro ⟨_, c₁, ho, h⟩
    obtain ⟨o, ho, hot⟩ := expect_eq_ok.1 ho
    refine ⟨o, c₁, ho, hot, ?_⟩
    cases hop : binaryOp? t with
    | some op =>
      rw [hop] at h
      obtain ⟨right, c₂, hr, h⟩ := bind_eq_ok.1 h
      obtain ⟨rfl, rfl⟩ := pure_eq_ok.1 h
      exact .inl ⟨op, right, rfl, hr, rfl⟩
    | none =>
      rw [hop] at h
      by_cases ht : t = .lparen
      · simp only [if_pos ht] at h
        obtain ⟨args, c₂, hargs, h⟩ := bind_eq_ok.1 h
        rw [bind_of_ok prevEnd_eq] at h
        obtain ⟨rfl, rfl⟩ := pure_eq_ok.1 h
        exact .inr (.inl ⟨rfl, ht, args, hargs, rfl⟩)
      · simp only [if_neg ht] at h
        obtain ⟨i, c₂, hi, h⟩ := bind_eq_ok.1 h
        obtain ⟨_, c₃, hl, h⟩ := bind_eq_ok.1 h
        obtain ⟨l, hl, hlt⟩ := expect_eq_ok.1 hl
        rw [bind_of_ok prevEnd_eq] at h
        obtain ⟨rfl, rfl⟩ := pure_eq_ok.1 h
        exact .inr (.inr ⟨rfl, ht, i, c₂, l, hi, hl, hlt, rfl⟩)
  · rintro ⟨o, c₁, ho, hot, h⟩
    refine ⟨(), c₁, expect_eq_ok.2 ⟨o, ho, hot⟩, ?_⟩
    rcases h with ⟨op, right, hop, hr, rfl⟩ | ⟨hop, ht, args, hargs, rfl⟩ |
      ⟨hop, ht, i, c₂, l, hi, hl, hlt, rfl⟩
    · rw [hop]
      show (expr (rankOf t) >>= _) c₁ = _
      rw [bind_of_ok hr]
      rfl
    · rw [hop]
      show (if t = .lparen then _ else _ : Parser Expr) c₁ = _
      rw [if_pos ht, bind_of_ok hargs]
      rfl
    · rw [hop]
      show (if t = .lparen then _ else _ : Parser Expr) c₁ = _
      rw [if_neg ht, bind_of_ok hi, bind_of_ok (expect_eq_ok (u := ()).2 ⟨l, hl, hlt⟩)]
      rfl

theorem operators_of_le {levels : Nat} {rank : Rank} {left : Expr}
    (h : ∀ t ∈ c.next?, (rankOf t).toNat ≤ rank.toNat) :
    operators levels rank left c = .ok (left, c) := by
  cases levels <;> rw [operators, bind_of_ok peek?_eq] <;> cases hnext : c.next? with
  | none => rfl
  | some t =>
    show (if (rankOf t).toNat ≤ rank.toNat then _ else _ : Parser Expr) c = _
    rw [if_pos (h t hnext)]
    rfl

/-- An operator that binds tightly enough is taken, and the loop goes on with one level less. -/
theorem operators_succ_of_lt {levels : Nat} {rank : Rank} {left : Expr} (hnext : c.next? = some t)
    (h : rank.toNat < (rankOf t).toNat) : operators (levels + 1) rank left c =
      (extend (expr levels) left t >>= operators levels rank) c := by
  rw [operators, bind_of_ok peek?_eq, hnext]
  show (if (rankOf t).toNat ≤ rank.toNat then _ else _ : Parser Expr) c = _
  rw [if_neg (by omega)]

theorem operators_zero_of_lt {rank : Rank} {left e : Expr} (hnext : c.next? = some t)
    (h : rank.toNat < (rankOf t).toNat) : operators 0 rank left c ≠ .ok (e, c') := by
  rw [operators, bind_of_ok peek?_eq, hnext]
  show (if (rankOf t).toNat ≤ rank.toNat then _ else _ : Parser Expr) c ≠ _
  rw [if_neg (by omega)]
  exact fail_ne_ok

/-- An expression is an operand and the operators behind it. -/
theorem expr_succ {levels : Nat} {rank : Rank} :
    expr (levels + 1) rank c = (operand (expr levels) >>= operators levels rank) c := by
  rw [expr]

end Parser

end MonkeyLang
