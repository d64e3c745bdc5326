import MonkeyLang.Proofs.Parsing.Derives

/-!
# Parsing looks at one lexeme

The parser decides at a lexeme by that lexeme and those before it.  On two lists that begin with the
same `k` lexemes it does the same until it stands behind them, whatever comes then (`Ends`), and it
does so with more levels too, unless the first run is out of levels:

    Foresees x x'      `x` and `x'` end so, wherever the same `k` lexemes are next

The loops over lists and blocks are bounded by the lexemes that are unread when they begin, which
is more than the next one.  But every round takes some of them (`Advances`), so any bound that is
long enough does, and the two runs can have one in common (`foresees_unread_bind`).

What a list is refused for at a lexeme, other than for want of levels, is therefore found in every
list that begins with the same lexemes up to there (`Program.parseWithin_eq_error_of_take`).
-/

namespace MonkeyLang

namespace Parser

variable {α β : Type}

/-! ## Runs that end alike -/

/-- What a run leaves unread. -/
def left : Except ParseError (α × Cursor) → List Lexeme
  | .ok r => r.2.rest
  | .error e => e.unread

/-- How runs end at `ls` and at `ls'`, of which the first `k` lexemes are the same: with the same
answer behind as many lexemes, unless the first run is out of levels or behind these `k`. -/
inductive Ends (k : Nat) (ls ls' : List Lexeme) :
    Except ParseError (α × Cursor) → Except ParseError (α × Cursor) → Prop
  | ok {a : α} {p n : Nat} :
      Ends k ls ls' (.ok (a, ⟨p, ls.drop n⟩)) (.ok (a, ⟨p, ls'.drop n⟩))
  | error {cause : ParseCause} {n : Nat} :
      Ends k ls ls' (.error ⟨cause, ls.drop n⟩) (.error ⟨cause, ls'.drop n⟩)
  | deep {unread : List Lexeme} {r' : Except ParseError (α × Cursor)} :
      Ends k ls ls' (.error ⟨.tooDeep, unread⟩) r'
  | beyond {r r' : Except ParseError (α × Cursor)} {n : Nat} (hn : k ≤ n)
      (hr : left r = ls.drop n) : Ends k ls ls' r r'

namespace Ends

variable {k n : Nat} {ls ls' : List Lexeme} {r r' : Except ParseError (α × Cursor)}

theorem of_drop (h : Ends (k - n) (ls.drop n) (ls'.drop n) r r') : Ends k ls ls' r r' := by
  cases h with
  | ok =>
    rw [List.drop_drop, List.drop_drop]
    exact .ok
  | error =>
    rw [List.drop_drop, List.drop_drop]
    exact .error
  | deep => exact .deep
  | @beyond _ _ m hm hr => exact .beyond (by omega) (hr.trans List.drop_drop)

/-- A run that begins behind the first `k` lexemes ends there, and no other run matters. -/
theorem of_le (hn : k ≤ n) (h : Ends 0 (ls.drop n) (ls.drop n) r r')
    {r'' : Except ParseError (α × Cursor)} : Ends k ls ls' r r'' := by
  cases h with
  | ok => exact .beyond (Nat.le_add_right_of_le hn) List.drop_drop
  | error => exact .beyond (Nat.le_add_right_of_le hn) List.drop_drop
  | deep => exact .deep
  | beyond _ hr => exact .beyond (Nat.le_add_right_of_le hn) (hr.trans List.drop_drop)

end Ends

/-- Where the same lexemes are next, as many as there may be, the parsers end alike. -/
def Foresees (x x' : Parser α) : Prop :=
  ∀ k (c c' : Cursor), c.prevEnd = c'.prevEnd → c.rest.take k = c'.rest.take k →
    Ends k c.rest c'.rest (x c) (x' c')

theorem foresees_pure (a : α) : Foresees (pure a) (pure a) := by
  rintro k ⟨p, ls⟩ ⟨_, ls'⟩ rfl _
  exact .ok (n := 0)

theorem foresees_fail (cause : ParseCause) : Foresees (fail cause : Parser α) (fail cause) :=
  fun _ _ _ _ _ => .error (n := 0)

theorem foresees_prevEnd : Foresees prevEnd prevEnd := by
  rintro k ⟨p, ls⟩ ⟨_, ls'⟩ rfl _
  exact .ok (n := 0)

/-- Where the first parsers end alike, the second ones begin with the same lexemes ahead. -/
theorem Foresees.bind {x x' : Parser α} {f f' : α → Parser β} (hx : Foresees x x')
    (hf : ∀ a, Foresees (f a) (f' a)) : Foresees (x >>= f) (x' >>= f') := by
  intro k c c' hend hrest
  have h := hx k c c' hend hrest
  show Ends k c.rest c'.rest ((x c).bind fun r => f r.1 r.2) ((x' c').bind fun r => f' r.1 r.2)
  generalize x c = r at h
  generalize x' c' = r' at h
  cases h with
  | @ok a p n =>
    have htake : (c.rest.drop n).take (k - n) = (c'.rest.drop n).take (k - n) := by
      rw [← List.drop_take, ← List.drop_take, hrest]
    exact (hf a (k - n) ⟨p, c.rest.drop n⟩ ⟨p, c'.rest.drop n⟩ rfl htake).of_drop
  | error => exact .error
  | deep => exact .deep
  | @beyond _ _ n hn hr =>
    match r, hr with
    | .error e, hr => exact .beyond hn hr
    -- the second run may be anywhere, so the rest of the first is compared with itself
    | .ok (a, ⟨p, rest⟩), hr =>
      obtain rfl : rest = c.rest.drop n := hr
      exact (hf a 0 ⟨p, c.rest.drop n⟩ ⟨p, c.rest.drop n⟩ rfl rfl).of_le hn

/-! ## Single lexemes -/

/-- The parser is told only what comes next. -/
theorem foresees_of_next {x : Parser α}
    (hnil : ∀ k p, Ends k [] [] (x ⟨p, []⟩) (x ⟨p, []⟩))
    (hcons : ∀ k p l ls ls', Ends k (l :: ls) (l :: ls') (x ⟨p, l :: ls⟩) (x ⟨p, l :: ls'⟩)) :
    Foresees x x := by
  rintro k ⟨p, ls⟩ ⟨_, ls'⟩ rfl hrest
  cases k with
  | zero =>
    have hsame : Ends 0 ls ls (x ⟨p, ls⟩) (x ⟨p, ls⟩) := by
      cases ls with
      | nil => exact hnil 0 p
      | cons l ls => exact hcons 0 p l ls ls
    exact Ends.of_le (n := 0) (Nat.le_refl 0) hsame
  | succ k =>
    cases ls with
    | nil =>
      obtain rfl : ls' = [] := by simpa using hrest.symm
      exact hnil (k + 1) p
    | cons l ls =>
      cases ls' with
      | nil => cases hrest
      | cons l' ls' =>
        obtain ⟨rfl, -⟩ := List.cons.inj hrest
        exact hcons (k + 1) p l ls ls'

/-- A lexeme is taken or refused by itself. -/
theorem foresees_take (accept : Lexeme → Option α) (refuse : Option Token → ParseCause) :
    Foresees (take accept refuse) (take accept refuse) := by
  refine foresees_of_next (fun k p => .error (n := 0)) fun k p l ls ls' => ?_
  unfold take
  simp only
  cases accept l with
  | none => exact .error (n := 0)
  | some a => exact .ok (n := 1)

theorem foresees_expect (t : Token) : Foresees (expect t) (expect t) := foresees_take _ _

theorem foresees_name : Foresees name name := foresees_take _ _

theorem foresees_eat (t : Token) : Foresees (eat t) (eat t) := by
  refine foresees_of_next (fun k p => .ok (n := 0)) fun k p l ls ls' => ?_
  unfold eat
  simp only
  split
  · exact .ok (n := 1)
  · exact .ok (n := 0)

theorem foresees_peek? : Foresees peek? peek? :=
  foresees_of_next (fun _ _ => .ok (n := 0)) fun _ _ _ _ _ => .ok (n := 0)

theorem foresees_nextStart : Foresees nextStart nextStart :=
  foresees_of_next (fun _ _ => .ok (n := 0)) fun _ _ _ _ _ => .ok (n := 0)

/-! ## Bounds of loops -/

/-- Where the parser gives an answer, it took a lexeme. -/
def Advances (x : Parser α) : Prop :=
  ∀ {c a c'}, x c = .ok (a, c') → c'.rest.length < c.rest.length

theorem length_le_of_eat {t : Token} {c c' : Cursor} {b : Bool} (h : eat t c = .ok (b, c')) :
    c'.rest.length ≤ c.rest.length := by
  rcases eat_eq_ok.1 h with ⟨-, l, hl, -⟩ | ⟨-, rfl, -⟩
  · have := hl.length_rest
    omega
  · exact Nat.le_refl _

/-- Two continuations that agree on what they can be given agree. -/
theorem bind_congr_at {x : Parser α} {f g : α → Parser β} {c : Cursor}
    (h : ∀ a c', x c = .ok (a, c') → f a c' = g a c') : (x >>= f) c = (x >>= g) c := by
  show (x c).bind (fun r => f r.1 r.2) = (x c).bind fun r => g r.1 r.2
  cases hx : x c with
  | error e => rfl
  | ok r => exact h r.1 r.2 hx

/-- Two bounds that are longer than what is left go on with bounds that are no shorter. -/
theorem tails_of_lt {n : Nat} {bound bound' : List Lexeme} (h : n < bound.length)
    (h' : n < bound'.length) : ∃ l ls l' ls', bound = l :: ls ∧ bound' = l' :: ls' ∧
      n ≤ ls.length ∧ n ≤ ls'.length := by
  obtain ⟨l, ls, rfl⟩ := List.exists_cons_of_length_pos (Nat.zero_lt_of_lt h)
  obtain ⟨l', ls', rfl⟩ := List.exists_cons_of_length_pos (Nat.zero_lt_of_lt h')
  exact ⟨l, ls, l', ls', rfl, rfl, Nat.le_of_lt_succ h, Nat.le_of_lt_succ h'⟩

section

variable {item : Parser α} (hitem : Advances item)
include hitem

/-- Items: any bound that is no shorter than the input will do. -/
theorem itemsUpTo_bound (close : Token) {bound bound' : List Lexeme} {done : List α} {c : Cursor}
    (h : c.rest.length ≤ bound.length) (h' : c.rest.length ≤ bound'.length) :
    itemsUpTo item close bound done c = itemsUpTo item close bound' done c := by
  rw [itemsUpTo.eq_def, itemsUpTo.eq_def item close bound']
  refine bind_congr_at fun a c₁ ha => bind_congr_at fun b c₂ hb => ?_
  have hlt := hitem ha
  have hle := length_le_of_eat hb
  cases b with
  | false => rfl
  | true =>
    have htails : c₂.rest.length < bound.length ∧ c₂.rest.length < bound'.length := by omega
    obtain ⟨_, bound, _, bound', rfl, rfl, h, h'⟩ := tails_of_lt htails.1 htails.2
    exact itemsUpTo_bound close h h'

theorem statementsUpToBrace_bound {bound bound' : List Lexeme} {done : List α} {c : Cursor}
    (h : c.rest.length ≤ bound.length) (h' : c.rest.length ≤ bound'.length) :
    statementsUpToBrace item bound done c = statementsUpToBrace item bound' done c := by
  rw [statementsUpToBrace.eq_def, statementsUpToBrace.eq_def item bound']
  refine bind_congr_at fun b c₁ hb => ?_
  have hle := length_le_of_eat hb
  cases b with
  | true => rfl
  | false =>
    show (peek? >>= _) c₁ = (peek? >>= _) c₁
    rw [bind_of_ok peek?_eq, bind_of_ok peek?_eq]
    cases c₁.next? with
    | none => rfl
    | some t =>
      refine bind_congr_at fun a c₂ ha => ?_
      have hlt := hitem ha
      have htails : c₂.rest.length < bound.length ∧ c₂.rest.length < bound'.length := by omega
      obtain ⟨_, bound, _, bound', rfl, rfl, h, h'⟩ := tails_of_lt htails.1 htails.2
      exact statementsUpToBrace_bound h h'

theorem statementsUpToEnd_bound {bound bound' : List Lexeme} {done : List α} {c : Cursor}
    (h : c.rest.length ≤ bound.length) (h' : c.rest.length ≤ bound'.length) :
    statementsUpToEnd item bound done c = statementsUpToEnd item bound' done c := by
  rw [statementsUpToEnd.eq_def, statementsUpToEnd.eq_def item bound']
  show (peek? >>= _) c = (peek? >>= _) c
  rw [bind_of_ok peek?_eq, bind_of_ok peek?_eq]
  cases c.next? with
  | none => rfl
  | some t =>
    refine bind_congr_at fun a c₁ ha => ?_
    have hlt := hitem ha
    have htails : c₁.rest.length < bound.length ∧ c₁.rest.length < bound'.length := by omega
    obtain ⟨_, bound, _, bound', rfl, rfl, h, h'⟩ := tails_of_lt htails.1 htails.2
    exact statementsUpToEnd_bound h h'

end

/-- A loop that any bound will do for which is no shorter than the input. -/
def Unbounded (loop : List Lexeme → Parser α) : Prop :=
  ∀ {c : Cursor} {bound bound' : List Lexeme}, c.rest.length ≤ bound.length →
    c.rest.length ≤ bound'.length → loop bound c = loop bound' c

/-- Two runs of a loop end alike if they do so with a bound in common. -/
theorem foresees_unread_bind {loop loop' : List Lexeme → Parser α} (hloop : Unbounded loop)
    (hloop' : Unbounded loop') (h : ∀ bound, Foresees (loop bound) (loop' bound)) :
    Foresees (unread >>= loop) (unread >>= loop') := by
  intro k c c' hend hrest
  -- both inputs together are long enough for either
  have hall := h (c.rest ++ c'.rest) k c c' hend hrest
  show Ends k c.rest c'.rest (loop c.rest c) (loop' c'.rest c')
  rw [hloop (Nat.le_refl _) (List.length_append ▸ Nat.le_add_right _ _),
    hloop' (Nat.le_refl _) (List.length_append ▸ Nat.le_add_left _ _)]
  exact hall

/-! ## Lists and blocks -/

section

variable {item item' : Parser α} (hitem : Foresees item item')
include hitem

/-- Items with one bound in common. -/
theorem foresees_itemsUpTo (close : Token) (bound : List Lexeme) (done : List α) :
    Foresees (itemsUpTo item close bound done) (itemsUpTo item' close bound done) := by
  rw [itemsUpTo.eq_def, itemsUpTo.eq_def item']
  refine hitem.bind fun a => (foresees_eat .comma).bind fun b => ?_
  cases b with
  | true =>
    cases bound with
    | nil => exact foresees_fail _
    | cons _ bound => exact foresees_itemsUpTo close bound (a :: done)
  | false => exact (foresees_expect close).bind fun _ => foresees_pure _

theorem foresees_list (h : Advances item) (h' : Advances item') (close : Token) :
    Foresees (list item close) (list item' close) := by
  refine (foresees_eat close).bind fun b => ?_
  cases b with
  | true => exact foresees_pure _
  | false =>
    exact foresees_unread_bind (itemsUpTo_bound h close) (itemsUpTo_bound h' close) fun bound =>
      foresees_itemsUpTo hitem close bound []

theorem foresees_statementsUpToBrace (bound : List Lexeme) (done : List α) :
    Foresees (statementsUpToBrace item bound done) (statementsUpToBrace item' bound done) := by
  rw [statementsUpToBrace.eq_def, statementsUpToBrace.eq_def item']
  refine (foresees_eat .rbrace).bind fun b => ?_
  cases b with
  | true => exact foresees_pure _
  | false =>
    refine foresees_peek?.bind fun t => ?_
    cases t with
    | none => exact foresees_fail (α := List α) .unclosedBlock
    | some t =>
      refine hitem.bind fun a => ?_
      cases bound with
      | nil => exact foresees_fail _
      | cons _ bound => exact foresees_statementsUpToBrace bound (a :: done)

theorem foresees_statementsUpToEnd (bound : List Lexeme) (done : List α) :
    Foresees (statementsUpToEnd item bound done) (statementsUpToEnd item' bound done) := by
  rw [statementsUpToEnd.eq_def, statementsUpToEnd.eq_def item']
  refine foresees_peek?.bind fun t => ?_
  cases t with
  | none => exact foresees_pure _
  | some t =>
    refine hitem.bind fun a => ?_
    cases bound with
    | nil => exact foresees_pure _
    | cons _ bound => exact foresees_statementsUpToEnd bound (a :: done)

end

/-! ## Statements and expressions -/

/-- A statement takes a lexeme, if its expression does. -/
theorem advances_statement {expr : Parser Expr} (h : Advances expr) :
    Advances (statement expr) := by
  intro c s c' hs
  rcases statement_eq_ok.1 hs with
    ⟨l, x, a, c₁, c₂, c₃, c₄, y, e, b, hl, -, hx, -, ha, -, he, hb, -⟩ | ⟨-, e, c₁, b, he, hb, -⟩
  · have hlet := (hl.cons (hx.cons ha)).length_rest
    have hlt := h he
    have hle := length_le_of_eat hb
    omega
  · exact Nat.lt_of_le_of_lt (length_le_of_eat hb) (h he)

theorem advances_hashPair {expr : Rank → Parser Expr} (h : Advances (expr .lowest)) :
    Advances (hashPair expr) := by
  intro c p c' hp
  obtain ⟨c₁, m, c₂, hk, hm, -, hv⟩ := hashPair_eq_ok.1 hp
  have hcolon := hm.length_rest
  have hkey := h hk
  have hvalue := h hv
  omega

/-- Every expression takes a lexeme. -/
theorem advances_expr (levels : Nat) : Advances (expr levels .lowest) := by
  intro c e c' h
  obtain ⟨ls, k, hls, hphrase, -⟩ := Grammar.readsPhrases levels (by decide) h
  have hpos := List.length_pos_iff.2 hphrase.ne_nil
  have hlength := hls.length_rest
  omega

section

variable {expr expr' : Parser Expr} (hexpr : Foresees expr expr')
include hexpr

/-- A statement is read with the same lexemes ahead, as far as it goes. -/
theorem foresees_statement : Foresees (statement expr) (statement expr') := by
  refine foresees_nextStart.bind fun start => (foresees_eat .letWord).bind fun b => ?_
  cases b with
  | true =>
    refine foresees_name.bind fun x => (foresees_expect .assign).bind fun _ => ?_
    refine hexpr.bind fun e => (foresees_eat .semi).bind fun _ => ?_
    exact foresees_prevEnd.bind fun _ => foresees_pure _
  | false =>
    refine hexpr.bind fun e => (foresees_eat .semi).bind fun _ => ?_
    exact foresees_prevEnd.bind fun _ => foresees_pure _

theorem foresees_block (h : Advances expr) (h' : Advances expr') :
    Foresees (block expr) (block expr') := by
  refine (foresees_expect .lbrace).bind fun _ => ?_
  exact foresees_unread_bind (statementsUpToBrace_bound (advances_statement h))
    (statementsUpToBrace_bound (advances_statement h')) fun bound =>
      foresees_statementsUpToBrace (foresees_statement hexpr) bound []

end

section

variable {expr expr' : Rank → Parser Expr} (hexpr : ∀ r, Foresees (expr r) (expr' r))
  (h : Advances (expr .lowest)) (h' : Advances (expr' .lowest))

theorem foresees_hashPair (hexpr : ∀ r, Foresees (expr r) (expr' r)) :
    Foresees (hashPair expr) (hashPair expr') := by
  refine (hexpr .lowest).bind fun key => (foresees_expect .colon).bind fun _ => ?_
  exact (hexpr .lowest).bind fun value => foresees_pure _

include hexpr h h'

/-- What an operand is can be seen from its first lexeme. -/
theorem foresees_operand : Foresees (operand expr) (operand expr') := by
  refine (foresees_take _ _).bind fun (first, span) => ?_
  cases first with
  | leaf node => exact foresees_pure _
  | sign op =>
    exact (hexpr .sign).bind fun e => foresees_prevEnd.bind fun _ => foresees_pure _
  | paren =>
    refine (hexpr .lowest).bind fun e => (foresees_expect .rparen).bind fun _ => ?_
    exact foresees_prevEnd.bind fun _ => foresees_pure _
  | bracket =>
    refine (foresees_list (hexpr .lowest) h h' .rbracket).bind fun items => ?_
    exact foresees_prevEnd.bind fun _ => foresees_pure _
  | brace =>
    have hpair := foresees_hashPair hexpr
    refine (foresees_list hpair (advances_hashPair h) (advances_hashPair h') .rbrace).bind
      fun pairs => ?_
    exact foresees_prevEnd.bind fun _ => foresees_pure _
  | ifWord =>
    have hblock := foresees_block (hexpr .lowest) h h'
    refine (foresees_expect .lparen).bind fun _ => (hexpr .lowest).bind fun test => ?_
    refine (foresees_expect .rparen).bind fun _ => hblock.bind fun yes => ?_
    refine (foresees_eat .elseWord).bind fun b => ?_
    cases b with
    | true => exact hblock.bind fun no => foresees_prevEnd.bind fun _ => foresees_pure _
    | false => exact foresees_prevEnd.bind fun _ => foresees_pure _

/-- What an operator asks for can be seen from its token. -/
theorem foresees_extend (left : Expr) (t : Token) :
    Foresees (extend expr left t) (extend expr' left t) := by
  refine (foresees_expect t).bind fun _ => ?_
  cases binaryOp? t with
  | some op => exact (hexpr (rankOf t)).bind fun right => foresees_pure _
  | none =>
    by_cases ht : t = .lparen
    · simp only [if_pos ht]
      refine (foresees_list (hexpr .lowest) h h' .rparen).bind fun args => ?_
      exact foresees_prevEnd.bind fun _ => foresees_pure _
    · simp only [if_neg ht]
      refine (hexpr .lowest).bind fun i => (foresees_expect .rbracket).bind fun _ => ?_
      exact foresees_prevEnd.bind fun _ => foresees_pure _

end

/-- The step of the loop over operators: it stops, or goes on with what is next. -/
theorem foresees_next_operator {rank : Rank} {left : Expr} {x x' : Token → Parser Expr}
    (hx : ∀ t, Foresees (x t) (x' t)) :
    Foresees
      (peek? >>= fun
        | none => pure left
        | some t => if (rankOf t).toNat ≤ rank.toNat then pure left else x t)
      (peek? >>= fun
        | none => pure left
        | some t => if (rankOf t).toNat ≤ rank.toNat then pure left else x' t) := by
  refine foresees_peek?.bind fun t => ?_
  cases t with
  | none => exact foresees_pure _
  | some t =>
    simp only
    split
    · exact foresees_pure _
    · exact hx t

/-- Without levels the parser foresees any other. -/
theorem foresees_tooDeep (x : Parser α) : Foresees (fail .tooDeep) x := fun _ _ _ _ _ => .deep

mutual

/-- With more levels an expression is read alike, until there are too few. -/
theorem foresees_expr {m n : Nat} (hmn : m ≤ n) (rank : Rank) :
    Foresees (expr m rank) (expr n rank) := by
  cases m with
  | zero => exact foresees_tooDeep _
  | succ m =>
    obtain ⟨n, rfl⟩ : ∃ n', n = n' + 1 := ⟨n - 1, by omega⟩
    have hmn : m ≤ n := Nat.le_of_succ_le_succ hmn
    rw [expr, expr]
    exact (foresees_operand (foresees_expr hmn) (advances_expr m) (advances_expr n)).bind
      fun left => foresees_operators hmn rank left

/-- The loop over operators, with more levels and with fewer. -/
theorem foresees_operators {m n : Nat} (hmn : m ≤ n) (rank : Rank) (left : Expr) :
    Foresees (operators m rank left) (operators n rank left) := by
  cases m with
  | zero =>
    cases n with
    | zero =>
      rw [operators]
      exact foresees_next_operator fun t => foresees_tooDeep _
    | succ n =>
      rw [operators, operators]
      exact foresees_next_operator fun t => foresees_tooDeep _
  | succ m =>
    obtain ⟨n, rfl⟩ : ∃ n', n = n' + 1 := ⟨n - 1, by omega⟩
    have hmn : m ≤ n := Nat.le_of_succ_le_succ hmn
    rw [operators, operators]
    refine foresees_next_operator fun t => ?_
    exact (foresees_extend (foresees_expr hmn) (advances_expr m) (advances_expr n) left t).bind
      fun whole => foresees_operators hmn rank whole

end

end Parser

/-! ## Programs -/

/-- A program is refused where its statements are. -/
theorem Program.parseWithin_eq_error_iff {levels : Nat} {ls : List Lexeme} {e : ParseError} :
    parseWithin levels ls = .error e ↔
      Parser.statementsUpToEnd (Parser.statement (Parser.expr levels .lowest)) ls [] ⟨0, ls⟩ =
        .error e := by
  show Except.map _ (Parser.statementsUpToEnd _ ls [] ⟨0, ls⟩) = _ ↔ _
  cases Parser.statementsUpToEnd (Parser.statement (Parser.expr levels .lowest)) ls [] ⟨0, ls⟩ <;>
    simp [Except.map]

/-- What a list is refused for at a lexeme, other than for want of levels, every list is refused for
that begins with the same lexemes up to there, however many levels there are. -/
theorem Program.parseWithin_eq_error_of_take {m n i : Nat} {ls ls' : List Lexeme} {e : ParseError}
    (hmn : m ≤ n) (h : parseWithin m ls = .error e) (hcause : e.cause ≠ .tooDeep)
    (hi : i < ls.length) (hunread : e.unread = ls.drop i)
    (htake : ls.take (i + 1) = ls'.take (i + 1)) :
    parseWithin n ls' = .error ⟨e.cause, ls'.drop i⟩ := by
  rw [parseWithin_eq_error_iff] at h ⊢
  have hlength {j : Nat} (hj : ls.drop i = ls.drop j) : j = i := by
    have := congrArg List.length hj
    rw [List.length_drop, List.length_drop] at this
    omega
  have hbound (levels : Nat) : Parser.Unbounded fun bound =>
      Parser.statementsUpToEnd (Parser.statement (Parser.expr levels .lowest)) bound [] :=
    Parser.statementsUpToEnd_bound (Parser.advances_statement (Parser.advances_expr levels))
  have hends := Parser.foresees_unread_bind (hbound m) (hbound n)
    (Parser.foresees_statementsUpToEnd
      (Parser.foresees_statement (Parser.foresees_expr hmn .lowest)) · [])
    (i + 1) ⟨0, ls⟩ ⟨0, ls'⟩ rfl htake
  change Parser.Ends (i + 1) ls ls' (Parser.statementsUpToEnd _ ls [] ⟨0, ls⟩)
    (Parser.statementsUpToEnd _ ls' [] ⟨0, ls'⟩) at hends
  rw [h] at hends
  generalize Parser.statementsUpToEnd _ ls' [] ⟨0, ls'⟩ = r' at hends
  cases hends with
  | @error cause j =>
    obtain rfl := hlength hunread.symm
    rfl
  | deep => exact absurd rfl hcause
  | @beyond _ _ j hj hr =>
    have hj' := hlength (hunread.symm.trans hr)
    omega

end MonkeyLang
