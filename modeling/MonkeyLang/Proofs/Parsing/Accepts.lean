import MonkeyLang.Proofs.Parsing.Run

/-!
# Derived lists are accepted

The parser reads what the grammar derives, and builds its tree.  A phrase with `k` operators on its
left spine takes `k + 1` levels of the parser, which then stands behind it with the phrase as the
left operand (`Phrase.run`):

    expr (m + 1 + k) rank c = operators m rank e c'

It does so if the layer of the phrase binds tighter than `rank` and the lexeme behind it does not
bind tighter than the layer.
-/

namespace MonkeyLang.Grammar

open MonkeyLang.Parser Cursor

/-! ## Ranks and layers -/

/-- The parser reads the phrases of a layer at the ranks below this number. -/
def Layer.toNat : Layer → Nat
  | equality => 1
  | comparison => 2
  | sum => 3
  | product => 4
  | sign => 6
  | suffix => 7
  | atom => 8

/-- How tight a token binds behind an operand; 0 if it does not go on with one. -/
def strength (t : Token) : Nat := (layer? t).elim 0 Layer.toNat

/-- Up to the rank of signs, a token is stopped at by its rank where it is by its strength. -/
theorem rankOf_le_iff {r : Rank} (hr : r.toNat ≤ Rank.sign.toNat) (t : Token) :
    (rankOf t).toNat ≤ r.toNat ↔ strength t ≤ r.toNat := by
  have hr : r.toNat ≤ 5 := hr
  generalize r.toNat = n at hr
  cases t <;> simp only [rankOf, strength, layer?, Rank.toNat, Layer.toNat, Option.elim]
  all_goals omega

theorem strength_le_sign {t : Token} (h : strength t ≤ Layer.sign.toNat) :
    strength t ≤ Rank.sign.toNat := by
  cases t <;> simp_all [strength, layer?, Rank.toNat, Layer.toNat]

theorem strength_le_suffix (t : Token) : strength t ≤ Layer.suffix.toNat := by
  cases t <;> simp [strength, layer?, Layer.toNat]

/-- The operators of the grammar are those of the parser. -/
theorem Layer.binaryOp?_eq_some {layer : Layer} {t : Token} {op : BinaryOp}
    (h : layer.binaryOp? t = some op) :
    Parser.binaryOp? t = some op ∧ (rankOf t).toNat = layer.toNat ∧ strength t = layer.toNat ∧
      layer.toNat ≤ Layer.product.toNat := by
  cases layer <;> cases t <;> simp_all [Layer.binaryOp?, Parser.binaryOp?, rankOf, Rank.toNat,
    strength, layer?, Layer.toNat]

/-- Below the signs, what stands behind an operator is tighter than what stands before it. -/
theorem Layer.toNat_lt_tighter {layer : Layer} (h : layer.toNat ≤ Layer.product.toNat) :
    layer.toNat < layer.tighter.toNat := by
  cases layer <;> simp_all [Layer.toNat, Layer.tighter]

theorem Layer.toNat_le_tighter (layer : Layer) : layer.toNat ≤ layer.tighter.toNat := by
  cases layer <;> simp [Layer.toNat, Layer.tighter]

theorem operandStart?_of_unaryOp? {t : Token} {op : UnaryOp} (h : unaryOp? t = some op) :
    operandStart? t = some (.sign op) := by
  cases t <;> cases h <;> rfl

/-- What one lexeme is, it is by its token and its span. -/
theorem operandStart?_of_leaf? {l : Lexeme} {e : Expr} (h : leaf? l = some e) :
    ∃ node, operandStart? l.token = some (.leaf node) ∧ e = node l.span := by
  unfold leaf? at h
  cases ht : l.token <;> rw [ht] at h <;> cases h <;> exact ⟨_, rfl, rfl⟩

/-! ## The lexeme behind a phrase -/

/-- What is next at `c` does not go on with a phrase of that number. -/
def Stops (n : Nat) (c : Cursor) : Prop := ∀ t ∈ c.next?, t ≠ .elseWord ∧ strength t ≤ n

namespace Stops

variable {m n : Nat} {c c' : Cursor} {l : Lexeme}

theorem mono (h : Stops m c) (hmn : m ≤ n) : Stops n c := fun t ht =>
  ⟨(h t ht).1, Nat.le_trans (h t ht).2 hmn⟩

theorem of_took (hl : c.Took [l] c') (hne : l.token ≠ .elseWord) (hn : strength l.token ≤ n) :
    Stops n c := by
  intro t ht
  rw [hl.next?_eq] at ht
  cases ht
  exact ⟨hne, hn⟩

/-- Where nothing goes on with the phrase, the loop over operators is done. -/
theorem operators_eq {levels : Nat} {rank : Rank} {left : Expr}
    (hrank : rank.toNat ≤ Rank.sign.toNat) (h : Stops rank.toNat c) :
    operators levels rank left c = .ok (left, c) :=
  operators_of_le fun t ht => (rankOf_le_iff hrank t).2 (h t ht).2

end Stops

/-! ## First lexemes and levels -/

/-- A statement can start with the token. -/
def Begins (t : Token) : Prop := t = .letWord ∨ (operandStart? t).isSome

theorem Begins.ne {t u : Token} (h : Begins t) (hu : u ≠ .letWord) (hs : operandStart? u = none) :
    t ≠ u := by
  rintro rfl
  rcases h with h | h
  · exact hu h
  · rw [hs] at h
    exact absurd h (by decide)

variable {limit : Nat}

/-- Every phrase begins as an operand does. -/
theorem Phrase.head {layer : Layer} {d k : Nat} {ls : List Lexeme} {e : Expr} :
    Phrase limit layer d ls k e → ∃ l rs, ls = l :: rs ∧ (operandStart? l.token).isSome
  | .leaf _ hl => by
    obtain ⟨node, hnode, -⟩ := operandStart?_of_leaf? hl
    exact ⟨_, _, rfl, by rw [hnode]; rfl⟩
  | .paren _ ho _ _ => ⟨_, _, rfl, by rw [ho]; rfl⟩
  | .array _ ho _ _ => ⟨_, _, rfl, by rw [ho]; rfl⟩
  | .hash _ ho _ _ => ⟨_, _, rfl, by rw [ho]; rfl⟩
  | .cond _ hi _ _ _ _ _ => ⟨_, _, rfl, by rw [hi]; rfl⟩
  | .unary _ ho _ => ⟨_, _, rfl, by rw [operandStart?_of_unaryOp? ho]; rfl⟩
  | .binary hl _ _ _ => by
    obtain ⟨l, rs, rfl, h⟩ := hl.head
    exact ⟨l, _, rfl, h⟩
  | .call hf _ _ _ _ => by
    obtain ⟨l, rs, rfl, h⟩ := hf.head
    exact ⟨l, _, rfl, h⟩
  | .index ht _ _ _ _ => by
    obtain ⟨l, rs, rfl, h⟩ := ht.head
    exact ⟨l, _, rfl, h⟩
  | .tighter h => h.head

/-- A phrase stays within the limit with all levels that it takes. -/
theorem Phrase.level_le {layer : Layer} {d k : Nat} {ls : List Lexeme} {e : Expr} :
    Phrase limit layer d ls k e → d + 1 + k ≤ limit
  | .leaf hd _ => hd
  | .paren hd _ _ _ => hd
  | .array hd _ _ _ => hd
  | .hash hd _ _ _ => hd
  | .cond hd _ _ _ _ _ _ => hd
  | .unary hd _ _ => hd
  | .binary _ _ hd _ => hd
  | .call _ _ hd _ _ => hd
  | .index _ _ hd _ _ => hd
  | .tighter h => h.level_le

theorem Phrase.ne_nil {layer : Layer} {d k : Nat} {ls : List Lexeme} {e : Expr}
    (h : Phrase limit layer d ls k e) : ls ≠ [] := by
  obtain ⟨l, rs, rfl, _⟩ := h.head
  exact List.cons_ne_nil _ _

/-- All but the operators between operands lie over the whole of their lexemes. -/
theorem Phrase.start_span {layer : Layer} {d k : Nat} {ls : List Lexeme} {e : Expr} :
    Phrase limit layer d ls k e → Layer.sign.toNat ≤ layer.toNat →
      e.span.start = (hull ls).start
  | .leaf (l := l) _ hl, _ => by
    unfold leaf? at hl
    cases ht : l.token <;> rw [ht] at hl <;> cases hl <;> rfl
  | .paren _ _ _ _, _ => by rw [Expr.span_withSpan]
  | .array _ _ _ _, _ => rfl
  | .hash _ _ _ _, _ => rfl
  | .cond _ _ _ _ _ _ _, _ => rfl
  | .unary _ _ _, _ => rfl
  | .binary _ ho _ _, hlayer => by
    have := (Layer.binaryOp?_eq_some ho).2.2.2
    simp only [Layer.toNat] at this hlayer
    omega
  | .call _ _ _ _ _, _ => rfl
  | .index _ _ _ _ _, _ => rfl
  | .tighter h, hlayer => h.start_span (Nat.le_trans hlayer (Layer.toNat_le_tighter _))

/-- The span of a call or an index goes from where its callee or target starts to where the cursor
is. -/
theorem Phrase.hull_append {d k : Nat} {ls rs : List Lexeme} {e : Expr} {c c' : Cursor}
    (h : Phrase limit .suffix d ls k e) (hc : c.Took (ls ++ rs) c') :
    hull (ls ++ rs) = ⟨e.span.start, c'.prevEnd⟩ := by
  rw [h.start_span (by decide)]
  obtain ⟨l, ts, rfl, -⟩ := h.head
  exact hc.hull_cons

/-- A statement begins with `let` or as an expression does. -/
theorem Statement.begins {d : Nat} {ended : Bool} {ls : List Lexeme} {s : Stmt} :
    Statement limit d ended ls s → ∃ l rs, ls = l :: rs ∧ Begins l.token
  | .define hl _ _ _ _ => ⟨_, _, rfl, .inl hl⟩
  | .expr he _ => by
    obtain ⟨l, rs, rfl, hl⟩ := he.head
    exact ⟨l, _, rfl, .inr hl⟩

theorem Statements.begins {d : Nat} {ls : List Lexeme} {ss : List Stmt}
    (h : Statements limit d ls ss) : ls = [] ∨ ∃ l rs, ls = l :: rs ∧ Begins l.token := by
  cases h with
  | nil => exact .inl rfl
  | cons hs _ _ =>
    obtain ⟨l, rs, rfl, hl⟩ := hs.begins
    exact .inr ⟨l, _, rfl, hl⟩

/-! ## Running the parser on phrases -/

/-- Behind a phrase that nothing goes on with, the parser is done with it. -/
theorem expr_of_run {d k n : Nat} {e : Expr} {c c' : Cursor} (rank : Rank)
    (hlevel : d + 1 + k ≤ limit) (hrank : rank.toNat ≤ Rank.sign.toNat) (hn : n + d = limit)
    (hstop : Stops rank.toNat c')
    (hrun : ∀ m, m + (d + 1 + k) = limit → Parser.expr (m + 1 + k) rank c = operators m rank e c') :
    Parser.expr n rank c = .ok (e, c') := by
  obtain ⟨m, rfl⟩ : ∃ m, n = m + 1 + k := ⟨n - 1 - k, by omega⟩
  rw [hrun m (by omega)]
  exact hstop.operators_eq hrank

/-- A word at which a phrase of any layer stops. -/
theorem stops_zero {c c' : Cursor} {l : Lexeme} {t : Token} (hl : c.Took [l] c') (ht : l.token = t)
    (hne : t ≠ .elseWord) (hlayer : layer? t = none) (n : Nat) : Stops n c := by
  subst ht
  exact .of_took hl hne (by simp [strength, hlayer])

/-- A semicolon is taken if there is one; else nothing is. -/
theorem Semicolon.eat_eq {ended : Bool} {ls : List Lexeme} {c c' : Cursor} :
    Semicolon ended ls → c.Took ls c' → (ended = false → c'.next? ≠ some .semi) →
      eat .semi c = .ok (ended, c')
  | .absent, hc, hnext => by
    obtain rfl := hc.eq_of_nil
    exact eat_of_ne (hnext rfl)
  | .present hl, hc, _ => eat_of_took hc hl

/-- What is behind an expression that may have a semicolon. -/
theorem Semicolon.stops {ended : Bool} {ls : List Lexeme} {c c' : Cursor} :
    Semicolon ended ls → c.Took ls c' → (ended = false → Stops 0 c') → Stops 0 c
  | .absent, hc, hstop => by
    obtain rfl := hc.eq_of_nil
    exact hstop rfl
  | .present hl, hc, _ => stops_zero hc hl nofun rfl 0

/-- The brackets behind a list. -/
def Closes (t : Token) : Prop := t = .rparen ∨ t = .rbracket ∨ t = .rbrace

/-- A closing bracket goes on with nothing. -/
theorem Closes.stops {c c' : Cursor} {l : Lexeme} (h : Closes l.token) (hl : c.Took [l] c')
    (n : Nat) : Stops n c := by
  rcases h with h | h | h <;> exact stops_zero hl h nofun rfl n

theorem Closes.ne_comma {t : Token} (h : Closes t) : t ≠ .comma := by
  rcases h with rfl | rfl | rfl <;> nofun

/-- No phrase begins with a closing bracket. -/
theorem Phrase.next?_ne {layer : Layer} {d k : Nat} {ls : List Lexeme} {e : Expr} {c c' : Cursor}
    {t : Token} (h : Phrase limit layer d ls k e) (hc : c.Took ls c') (ht : Closes t) :
    c.next? ≠ some t := by
  obtain ⟨l, rs, rfl, hl⟩ := h.head
  rw [hc.next?_eq]
  intro heq
  have hne : l.token ≠ t := by
    rcases ht with rfl | rfl | rfl <;> exact Begins.ne (.inr hl) nofun rfl
  exact hne (Option.some.inj heq)

/-- An empty list is told by its closing bracket. -/
theorem Items.list_eq {d : Nat} {ls : List Lexeme} {es : List Expr} {cl : Lexeme} {c c₁ c' : Cursor}
    {item : Parser Expr} (h : Items limit d ls es) (hc : c.Took ls c₁) (hcl : c₁.Took [cl] c')
    (hl : Closes cl.token)
    (hrun : es ≠ [] → itemsUpTo item cl.token c.rest [] c = .ok ([].reverse ++ es, c')) :
    list item cl.token c = .ok (es, c') := by
  cases h with
  | nil =>
    obtain rfl := hc.eq_of_nil
    exact list_eq_ok.2 (.inl ⟨rfl, cl, hcl, rfl⟩)
  | one he => exact list_eq_ok.2 (.inr ⟨he.next?_ne hc hl, hrun (List.cons_ne_nil _ _)⟩)
  | cons he _ _ =>
    obtain ⟨c₂, hls, -⟩ := hc.split
    exact list_eq_ok.2 (.inr ⟨he.next?_ne hls hl, hrun (List.cons_ne_nil _ _)⟩)

theorem Pairs.list_eq {d : Nat} {ls : List Lexeme} {ps : List (Expr × Expr)} {cl : Lexeme}
    {c c₁ c' : Cursor} {item : Parser (Expr × Expr)} (h : Pairs limit d ls ps) (hc : c.Took ls c₁)
    (hcl : c₁.Took [cl] c') (hl : cl.token = .rbrace)
    (hrun : ps ≠ [] → itemsUpTo item .rbrace c.rest [] c = .ok ([].reverse ++ ps, c')) :
    list item .rbrace c = .ok (ps, c') := by
  have hclose : Closes .rbrace := .inr (.inr rfl)
  cases h with
  | nil =>
    obtain rfl := hc.eq_of_nil
    exact list_eq_ok.2 (.inl ⟨rfl, cl, hcl, hl⟩)
  | one hk _ _ =>
    obtain ⟨c₂, hls, -⟩ := hc.split
    exact list_eq_ok.2 (.inr ⟨hk.next?_ne hls hclose, hrun (List.cons_ne_nil _ _)⟩)
  | cons hk _ _ _ _ =>
    obtain ⟨c₃, hc₃, -⟩ := hc.split
    obtain ⟨c₂, hls, -⟩ := hc₃.split
    exact list_eq_ok.2 (.inr ⟨hk.next?_ne hls hclose, hrun (List.cons_ne_nil _ _)⟩)

/-- A lexeme that does not go on with an expression has no strength there. -/
theorem strength_eq_zero_of_not_continues {l : Lexeme} {ls : List Lexeme}
    (h : ¬ Continues (l :: ls)) : strength l.token = 0 := by
  have : layer? l.token = none := by
    cases hl : layer? l.token with
    | none => rfl
    | some layer => exact absurd ⟨l, rfl, by rw [hl]; rfl⟩ h
  simp [strength, this]

/-- What is behind a statement without a semicolon, if it is a list of statements up to `c'`. -/
theorem Statements.stops {d : Nat} {ls : List Lexeme} {ss : List Stmt} {c c' : Cursor}
    (h : Statements limit d ls ss) (hc : c.Took ls c') (hnext : ¬ Continues ls)
    (hstop : Stops 0 c' ∧ c'.next? ≠ some .semi) : Stops 0 c ∧ c.next? ≠ some .semi := by
  rcases h.begins with rfl | ⟨l, rs, rfl, hl⟩
  · obtain rfl := hc.eq_of_nil
    exact hstop
  · refine ⟨fun t ht => ?_, fun ht => ?_⟩
    · rw [hc.next?_eq] at ht
      cases ht
      exact ⟨hl.ne nofun rfl, Nat.le_of_eq (strength_eq_zero_of_not_continues hnext)⟩
    · rw [hc.next?_eq] at ht
      exact hl.ne (u := .semi) nofun rfl (Option.some.inj ht)

mutual

/-- One case for each rule of the grammar.  The parser takes the phrase, and is left with the loop
over operators at the levels that the phrase has not taken. -/
theorem Phrase.run {layer : Layer} {d k : Nat} {ls : List Lexeme} {e : Expr} {m : Nat} {rank : Rank}
    {c c' : Cursor} : Phrase limit layer d ls k e → m + (d + 1 + k) = limit →
      rank.toNat ≤ Rank.sign.toNat → rank.toNat < layer.toNat → c.Took ls c' →
      Stops layer.toNat c' → Parser.expr (m + 1 + k) rank c = operators m rank e c'
  | .leaf _ hl, _, _, _, hc, _ => by
    obtain ⟨node, hnode, rfl⟩ := operandStart?_of_leaf? hl
    rw [expr_succ]
    exact bind_of_ok (operand_eq_ok.2 ⟨_, c', _, hc, hnode, rfl, rfl⟩)
  | .paren _ ho he hl, hm, _, _, hc, _ => by
    obtain ⟨c₂, hc₂, hcl⟩ := hc.split
    obtain ⟨c₁, hc₁, hls⟩ := hc₂.uncons
    have hstop := fun n => stops_zero hcl hl nofun rfl n
    have hinner := expr_of_run (n := m) .lowest he.level_le (by decide) (by omega)
      (hstop _) fun m hm => he.run hm (by decide) (by decide) hls (hstop _)
    rw [expr_succ]
    refine bind_of_ok (operand_eq_ok.2 ⟨_, c₁, .paren, hc₁, by rw [ho]; rfl, ?_⟩)
    exact ⟨_, c₂, _, hinner, hcl, hl, congrArg (Expr.withSpan · _) hc.hull_cons⟩
  | .array _ ho hes hl, hm, _, _, hc, _ => by
    obtain ⟨c₂, hc₂, hcl⟩ := hc.split
    obtain ⟨c₁, hc₁, hls⟩ := hc₂.uncons
    have hl' : Closes _ := .inr (.inl hl)
    have hlist := hes.list_eq hls hcl hl' fun hne => hes.run hne (n := m) (by omega)
      hls hcl hl' hls.length_le
    rw [expr_succ]
    refine bind_of_ok (operand_eq_ok.2 ⟨_, c₁, .bracket, hc₁, by rw [ho]; rfl, ?_⟩)
    exact ⟨_, hl ▸ hlist, congrArg _ hc.hull_cons⟩
  | .hash _ ho hps hl, hm, _, _, hc, _ => by
    obtain ⟨c₂, hc₂, hcl⟩ := hc.split
    obtain ⟨c₁, hc₁, hls⟩ := hc₂.uncons
    have hlist := hps.list_eq hls hcl hl fun hne => hps.run hne (n := m) (by omega)
      hls hcl hl hls.length_le
    rw [expr_succ]
    refine bind_of_ok (operand_eq_ok.2 ⟨_, c₁, .brace, hc₁, by rw [ho]; rfl, ?_⟩)
    exact ⟨_, hlist, congrArg _ hc.hull_cons⟩
  | .cond _ hi ho he hl hy hn, hm, _, _, hc, hstop => by
    obtain ⟨c₅, hc₅, hns⟩ := hc.split
    obtain ⟨c₃, hc₃, hys⟩ := hc₅.split
    obtain ⟨c₁, hc₁, hls⟩ := hc₃.uncons
    obtain ⟨c₂, hc₂, hls⟩ := hls.uncons
    obtain ⟨c₄, hc₄, hys⟩ := hys.uncons
    have hstop₃ := fun n => stops_zero hc₄ hl nofun rfl n
    have hinner := expr_of_run (n := m) .lowest he.level_le (by decide) (by omega)
      (hstop₃ _) fun m hm => he.run hm (by decide) (by decide) hls (hstop₃ _)
    have hyes := hy.run (n := m) (by omega) hys
    have hno := hn.run (n := m) (by omega) hns fun h => (hstop _ h).1 rfl
    rw [expr_succ]
    refine bind_of_ok (operand_eq_ok.2 ⟨_, c₁, .ifWord, hc₁, by rw [hi]; rfl, ?_⟩)
    exact ⟨_, c₂, _, c₃, _, c₄, _, c₅, _, hc₂, ho, hinner, hc₄, hl, hyes, hno,
      congrArg _ hc.hull_cons⟩
  | .unary _ ho he, hm, hrank, _, hc, hstop => by
    obtain ⟨c₁, hc₁, hls⟩ := hc.uncons
    have hstop' : Stops Rank.sign.toNat c' := fun t ht =>
      ⟨(hstop t ht).1, strength_le_sign (hstop t ht).2⟩
    have hinner := expr_of_run (n := m) .sign he.level_le (by decide) (by omega) hstop'
      fun m hm => he.run hm (by decide) (by decide) hls hstop
    rw [expr_succ]
    refine bind_of_ok (operand_eq_ok.2
      ⟨_, c₁, _, hc₁, operandStart?_of_unaryOp? ho, _, hinner, congrArg _ hc.hull_cons⟩)
  | .binary (k := k) hl ho hd hr, hm, hrank, hlt, hc, hstop => by
    obtain ⟨c₁, hls, hc₁⟩ := hc.split
    obtain ⟨c₂, ho', hrs⟩ := hc₁.uncons
    obtain ⟨hop, hrankOf, hstrength, hproduct⟩ := Layer.binaryOp?_eq_some ho
    have hle : (rankOf _).toNat ≤ Rank.sign.toNat := hrankOf ▸ Nat.le_trans hproduct (by decide)
    have hright := expr_of_run (n := m) _ hr.level_le hle (by omega)
      (hrankOf ▸ hstop) fun m hm => hr.run hm hle (hrankOf ▸ Layer.toNat_lt_tighter hproduct) hrs
        (hstop.mono (Layer.toNat_le_tighter _))
    have hleft := hl.run (m := m + 1) (by omega) hrank hlt hls
      (.of_took ho' (by rintro h; rw [h] at hop; cases hop) (Nat.le_of_eq hstrength))
    rw [show m + 1 + (k + 1) = m + 1 + 1 + k by omega, hleft,
      operators_succ_of_lt ho'.next?_eq (hrankOf ▸ hlt)]
    exact bind_of_ok (extend_eq_ok.2 ⟨_, c₂, ho', rfl, .inl ⟨_, _, hop, hright, rfl⟩⟩)
  | .call (k := k) hf ho hd hargs hl, hm, hrank, hlt, hc, _ => by
    obtain ⟨c₃, hc₃, hcl⟩ := hc.split
    obtain ⟨c₁, hls, hc₁⟩ := hc₃.split
    obtain ⟨c₂, ho', hrs⟩ := hc₁.uncons
    have hlist := hargs.list_eq hrs hcl (.inl hl) fun hne => hargs.run hne (n := m) (by omega)
      hrs hcl (.inl hl) hrs.length_le
    have hleft := hf.run (m := m + 1) (by omega) hrank hlt hls
      (.of_took ho' (by rw [ho]; nofun) (strength_le_suffix _))
    have hhull := hf.hull_append (List.append_assoc .. ▸ hc)
    rw [show m + 1 + (k + 1) = m + 1 + 1 + k by omega, hleft,
      operators_succ_of_lt (ho'.next?_eq.trans (congrArg _ ho)) (Nat.lt_succ_of_le hrank),
      List.append_assoc, hhull]
    exact bind_of_ok (extend_eq_ok.2 ⟨_, c₂, ho', ho, .inr (.inl ⟨rfl, rfl, _, hl ▸ hlist, rfl⟩)⟩)
  | .index (k := k) ht ho hd hi hl, hm, hrank, hlt, hc, _ => by
    obtain ⟨c₃, hc₃, hcl⟩ := hc.split
    obtain ⟨c₁, hls, hc₁⟩ := hc₃.split
    obtain ⟨c₂, ho', hrs⟩ := hc₁.uncons
    have hstop := fun n => stops_zero hcl hl nofun rfl n
    have hinner := expr_of_run (n := m) .lowest hi.level_le (by decide) (by omega)
      (hstop _) fun m hm => hi.run hm (by decide) (by decide) hrs (hstop _)
    have hleft := ht.run (m := m + 1) (by omega) hrank hlt hls
      (.of_took ho' (by rw [ho]; nofun) (strength_le_suffix _))
    have hhull := ht.hull_append (List.append_assoc .. ▸ hc)
    rw [show m + 1 + (k + 1) = m + 1 + 1 + k by omega, hleft,
      operators_succ_of_lt (ho'.next?_eq.trans (congrArg _ ho))
        (Nat.lt_succ_of_le (Nat.le_succ_of_le hrank)),
      List.append_assoc, hhull]
    exact bind_of_ok (extend_eq_ok.2
      ⟨_, c₂, ho', ho, .inr (.inr ⟨rfl, nofun, _, c₃, _, hinner, hcl, hl, rfl⟩)⟩)
  | .tighter h, hm, hrank, hlt, hc, hstop =>
    h.run hm hrank (Nat.lt_of_lt_of_le hlt (Layer.toNat_le_tighter _)) hc
      (hstop.mono (Layer.toNat_le_tighter _))

theorem Items.run {d n : Nat} {ls bound : List Lexeme} {es done : List Expr} {cl : Lexeme}
    {c c₁ c' : Cursor} : Items limit d ls es → es ≠ [] → n + d = limit → c.Took ls c₁ →
      c₁.Took [cl] c' → Closes cl.token → ls.length ≤ bound.length →
      itemsUpTo (Parser.expr n .lowest) cl.token bound done c = .ok (done.reverse ++ es, c')
  | .nil, hne, _, _, _, _, _ => absurd rfl hne
  | .one he, _, hn, hc, hcl, hl, _ => by
    have hstop := fun n => hl.stops hcl n
    have hitem := expr_of_run .lowest he.level_le (by decide) hn (hstop _)
      fun m hm => he.run hm (by decide) (by decide) hc (hstop _)
    refine itemsUpTo_eq_ok.2 ⟨_, c₁, hitem, .inr ⟨?_, by simp, cl, hcl, rfl⟩⟩
    rw [hcl.next?_eq]
    exact fun h => hl.ne_comma (Option.some.inj h)
  | .cons he hm hes, _, hn, hc, hcl, hl, hbound => by
    obtain ⟨c₂, hls, hrs⟩ := hc.split
    obtain ⟨c₃, hm', hrs⟩ := hrs.uncons
    have hstop := fun n => stops_zero hm' hm nofun rfl n
    have hitem := expr_of_run .lowest he.level_le (by decide) hn (hstop _)
      fun m hm => he.run hm (by decide) (by decide) hls (hstop _)
    rw [List.length_append, List.length_cons] at hbound
    obtain ⟨b, bound, rfl⟩ := List.exists_cons_of_length_pos (l := bound) (by omega)
    rw [List.length_cons] at hbound
    refine itemsUpTo_eq_ok.2 ⟨_, c₂, hitem, .inl ⟨_, c₃, b, bound, rfl, hm', hm, ?_⟩⟩
    rw [List.append_cons, ← List.reverse_cons]
    exact hes.run (List.cons_ne_nil _ _) hn hrs hcl hl (by omega)

theorem Pairs.run {d n : Nat} {ls bound : List Lexeme} {ps done : List (Expr × Expr)} {cl : Lexeme}
    {c c₁ c' : Cursor} : Pairs limit d ls ps → ps ≠ [] → n + d = limit → c.Took ls c₁ →
      c₁.Took [cl] c' → cl.token = .rbrace → ls.length ≤ bound.length →
      itemsUpTo (hashPair (Parser.expr n)) .rbrace bound done c = .ok (done.reverse ++ ps, c')
  | .nil, hne, _, _, _, _, _ => absurd rfl hne
  | .one hk hm hv, _, hn, hc, hcl, hl, _ => by
    obtain ⟨c₂, hls, hrs⟩ := hc.split
    obtain ⟨c₃, hm', hrs⟩ := hrs.uncons
    have hstop₂ := fun n => stops_zero hm' hm nofun rfl n
    have hstop := fun n => stops_zero hcl hl nofun rfl n
    have hkey := expr_of_run .lowest hk.level_le (by decide) hn (hstop₂ _)
      fun m hm => hk.run hm (by decide) (by decide) hls (hstop₂ _)
    have hvalue := expr_of_run .lowest hv.level_le (by decide) hn (hstop _)
      fun m hm => hv.run hm (by decide) (by decide) hrs (hstop _)
    have hitem : hashPair (Parser.expr n) c = .ok ((_, _), c₁) :=
      hashPair_eq_ok.2 ⟨c₂, _, c₃, hkey, hm', hm, hvalue⟩
    refine itemsUpTo_eq_ok.2 ⟨_, c₁, hitem, .inr ⟨?_, by simp, cl, hcl, hl⟩⟩
    rw [hcl.next?_eq, hl]
    nofun
  | .cons hk hm hv hcomma hps, _, hn, hc, hcl, hl, hbound => by
    obtain ⟨c₄, hc₄, hts⟩ := hc.split
    obtain ⟨c₂, hls, hrs⟩ := hc₄.split
    obtain ⟨c₃, hm', hrs⟩ := hrs.uncons
    obtain ⟨c₅, hcomma', hts⟩ := hts.uncons
    have hstop₂ := fun n => stops_zero hm' hm nofun rfl n
    have hstop₄ := fun n => stops_zero hcomma' hcomma nofun rfl n
    have hkey := expr_of_run .lowest hk.level_le (by decide) hn (hstop₂ _)
      fun m hm => hk.run hm (by decide) (by decide) hls (hstop₂ _)
    have hvalue := expr_of_run .lowest hv.level_le (by decide) hn (hstop₄ _)
      fun m hm => hv.run hm (by decide) (by decide) hrs (hstop₄ _)
    have hitem : hashPair (Parser.expr n) c = .ok ((_, _), c₄) :=
      hashPair_eq_ok.2 ⟨c₂, _, c₃, hkey, hm', hm, hvalue⟩
    rw [List.length_append, List.length_cons] at hbound
    obtain ⟨b, bound, rfl⟩ := List.exists_cons_of_length_pos (l := bound) (by omega)
    rw [List.length_cons] at hbound
    refine itemsUpTo_eq_ok.2 ⟨_, c₄, hitem, .inl ⟨_, c₅, b, bound, rfl, hcomma', hcomma, ?_⟩⟩
    rw [List.append_cons, ← List.reverse_cons]
    exact hps.run (List.cons_ne_nil _ _) hn hts hcl hl (by omega)

/-- A statement up to its semicolon, or up to what goes on with no expression. -/
theorem Statement.run {d n : Nat} {ended : Bool} {ls : List Lexeme} {s : Stmt} {c c' : Cursor} :
    Statement limit d ended ls s → n + d = limit → c.Took ls c' →
      (ended = false → Stops 0 c' ∧ c'.next? ≠ some .semi) →
      statement (Parser.expr n .lowest) c = .ok (s, c')
  | .define hl hx ha he hs, hn, hc, hnext => by
    obtain ⟨c₄, hc₄, hsemi⟩ := hc.split
    obtain ⟨c₁, hl', hc₁⟩ := hc₄.uncons
    obtain ⟨c₂, hx', hc₂⟩ := hc₁.uncons
    obtain ⟨c₃, ha', hls⟩ := hc₂.uncons
    have hstop := hs.stops hsemi fun h => (hnext h).1
    have hvalue := expr_of_run .lowest he.level_le (by decide) hn hstop
      fun m hm => he.run hm (by decide) (by decide) hls (hstop.mono (by decide))
    have heat := hs.eat_eq hsemi fun h => (hnext h).2
    exact statement_eq_ok.2 (.inl ⟨_, _, _, c₁, c₂, c₃, c₄, _, _, _, hl', hl, hx', hx, ha', ha,
      hvalue, heat, congrArg _ (hc.hull_eq (List.cons_ne_nil _ _))⟩)
  | .expr he hs, hn, hc, hnext => by
    obtain ⟨c₁, hls, hsemi⟩ := hc.split
    have hstop := hs.stops hsemi fun h => (hnext h).1
    have hvalue := expr_of_run .lowest he.level_le (by decide) hn hstop
      fun m hm => he.run hm (by decide) (by decide) hls (hstop.mono (by decide))
    have heat := hs.eat_eq hsemi fun h => (hnext h).2
    obtain ⟨l, rs, rfl, hl⟩ := he.head
    refine statement_eq_ok.2 (.inr ⟨?_, _, c₁, _, hvalue, heat,
      congrArg _ (hc.hull_eq (List.cons_ne_nil _ _))⟩)
    rw [hc.next?_eq]
    intro h
    rw [Option.some.inj h] at hl
    exact absurd hl (by decide)

theorem Statements.run {d n : Nat} {ls bound : List Lexeme} {ss done : List Stmt} {cl : Lexeme}
    {c c₁ c' : Cursor} : Statements limit d ls ss → n + d = limit → c.Took ls c₁ →
      c₁.Took [cl] c' → cl.token = .rbrace → ls.length ≤ bound.length →
      statementsUpToBrace (statement (Parser.expr n .lowest)) bound done c =
        .ok (done.reverse ++ ss, c')
  | .nil, _, hc, hcl, hl, _ => by
    obtain rfl := hc.eq_of_nil
    exact statementsUpToBrace_eq_ok.2 (.inl ⟨by simp, cl, hcl, hl⟩)
  | .cons hs hnext hss, hn, hc, hcl, hl, hbound => by
    obtain ⟨c₂, hls, hrs⟩ := hc.split
    have hend : Stops 0 c₁ ∧ c₁.next? ≠ some .semi :=
      ⟨stops_zero hcl hl nofun rfl 0, by rw [hcl.next?_eq, hl]; nofun⟩
    have hstmt := hs.run hn hls fun hended =>
      hss.stops hrs (hnext.resolve_left (by simp [hended])) hend
    obtain ⟨l, ts, rfl, hb⟩ := hs.begins
    rw [List.length_append, List.length_cons] at hbound
    obtain ⟨b, bound, rfl⟩ := List.exists_cons_of_length_pos (l := bound) (by omega)
    rw [List.length_cons] at hbound
    have hnext? : c.next? = some l.token := hls.next?_eq
    refine statementsUpToBrace_eq_ok.2
      (.inr ⟨?_, by rw [hnext?]; nofun, _, c₂, b, bound, hstmt, rfl, ?_⟩)
    · rw [hnext?]
      exact fun h => hb.ne (u := .rbrace) nofun rfl (Option.some.inj h)
    · rw [List.append_cons, ← List.reverse_cons]
      exact hss.run hn hrs hcl hl (by omega)

theorem Block.run {d n : Nat} {ls : List Lexeme} {ss : List Stmt} {c c' : Cursor} :
    Block limit d ls ss → n + d = limit → c.Took ls c' →
      block (Parser.expr n .lowest) c = .ok (ss, c')
  | .braces ho hss hl, hn, hc => by
    obtain ⟨c₂, hc₂, hcl⟩ := hc.split
    obtain ⟨c₁, hc₁, hls⟩ := hc₂.uncons
    refine block_eq_ok.2 ⟨_, c₁, hc₁, ho, ?_⟩
    show _ = Except.ok ([].reverse ++ _, c')
    exact hss.run hn hls hcl hl hls.length_le

theorem Otherwise.run {d n : Nat} {ls : List Lexeme} {no : Option (List Stmt)} {c c' : Cursor} :
    Otherwise limit d ls no → n + d = limit → c.Took ls c' → c'.next? ≠ some .elseWord →
      (∃ w c₅ ss, c.Took [w] c₅ ∧ w.token = .elseWord ∧
          block (Parser.expr n .lowest) c₅ = .ok (ss, c') ∧ no = some ss) ∨
        (c.next? ≠ some .elseWord ∧ no = none ∧ c' = c)
  | .none, _, hc, hnext => by
    obtain rfl := hc.eq_of_nil
    exact .inr ⟨hnext, rfl, rfl⟩
  | .block hw hb, hn, hc, _ => by
    obtain ⟨c₁, hw', hls⟩ := hc.uncons
    exact .inl ⟨_, c₁, _, hw', hw, hb.run hn hls, rfl⟩

end

/-! ## Programs -/

/-- The statements of a program up to the end of the input. -/
theorem Statements.run_to_end {n : Nat} {ls bound : List Lexeme} {ss done : List Stmt}
    {c c' : Cursor} : Statements limit 0 ls ss → n = limit → c.Took ls c' → c'.next? = none →
      ls.length ≤ bound.length →
      statementsUpToEnd (statement (Parser.expr n .lowest)) bound done c =
        .ok (done.reverse ++ ss, c')
  | .nil, _, hc, hnext, _ => by
    obtain rfl := hc.eq_of_nil
    exact statementsUpToEnd_eq_ok.2 (.inl ⟨hnext, by simp, rfl⟩)
  | .cons hs hnext hss, hn, hc, hnone, hbound => by
    obtain ⟨c₂, hls, hrs⟩ := hc.split
    have hend : Stops 0 c' ∧ c'.next? ≠ some .semi := by
      rw [Stops, hnone]
      exact ⟨nofun, nofun⟩
    have hstmt := hs.run hn hls fun hended =>
      hss.stops hrs (hnext.resolve_left (by simp [hended])) hend
    obtain ⟨l, ts, rfl, hb⟩ := hs.begins
    rw [List.length_append, List.length_cons] at hbound
    obtain ⟨b, bound, rfl⟩ := List.exists_cons_of_length_pos (l := bound) (by omega)
    rw [List.length_cons] at hbound
    have hnext? : c.next? = some l.token := hls.next?_eq
    refine statementsUpToEnd_eq_ok.2
      (.inr ⟨by rw [hnext?]; nofun, _, c₂, hstmt, .inl ⟨b, bound, rfl, ?_⟩⟩)
    rw [List.append_cons, ← List.reverse_cons]
    exact hss.run_to_end hn hrs hnone (by omega)

/-- What the grammar derives within some levels, the parser reads with as many. -/
theorem Derives.parseWithin_eq {ls : List Lexeme} {p : Program} (h : Derives limit ls p) :
    Program.parseWithin limit ls = .ok p := by
  have hc : Took ⟨0, ls⟩ ls ⟨endFrom 0 ls, []⟩ := ⟨by simp, rfl⟩
  have hrun : statementsUpToEnd (statement (Parser.expr limit .lowest)) ls [] ⟨0, ls⟩ =
      .ok ([].reverse ++ p.statements, _) := Statements.run_to_end h rfl hc rfl (Nat.le_refl _)
  show Except.map _ (statementsUpToEnd (statement (Parser.expr limit .lowest)) ls [] ⟨0, ls⟩) = _
  rw [hrun]
  rfl

end MonkeyLang.Grammar
