import MonkeyLang.Proofs.Parsing.Accepts

/-!
# Accepted lists are derived

The other direction: what the parser reads, the grammar derives, and at the levels that the parser
counts.  With `n` levels left at depth `d`, where `n + d = limit`, an expression is a phrase of the
layer of its rank, and what is next does not bind tighter than the rank (`ReadsPhrases`).

The invariant of the loop over operators is that the expression so far is a phrase of a layer that
the next lexeme does not bind tighter than (`ReadsOperators`).

    Program.parse ls = .ok p ↔ Derives nestingLimit ls p       (parse_eq_ok_iff_derives)
-/

namespace MonkeyLang.Grammar

open MonkeyLang.Parser Cursor

/-! ## Layers of ranks, and first tokens -/

/-- What is read at a rank. -/
def Layer.ofRank : Rank → Layer
  | .lowest => equality
  | .equality => comparison
  | .comparison => sum
  | .sum => product
  | .product => sign
  | .sign => sign
  | .call => suffix
  | .index => suffix

/-- The layer of a rank is the loosest of those that bind tighter. -/
theorem Layer.toNat_ofRank_le {r : Rank} (hr : r.toNat ≤ Rank.sign.toNat) {layer : Layer}
    (h : r.toNat < layer.toNat) : (ofRank r).toNat ≤ layer.toNat := by
  cases r <;> cases layer <;> simp_all [ofRank, Layer.toNat, Rank.toNat]

theorem Layer.exists_binaryOp? {t : Token} {op : BinaryOp} (h : Parser.binaryOp? t = some op) :
    ∃ layer : Layer, layer.binaryOp? t = some op ∧ ofRank (rankOf t) = layer.tighter := by
  cases t <;> simp only [Parser.binaryOp?, reduceCtorEq, Option.some.injEq] at h <;> subst h
  · exact ⟨.sum, rfl, rfl⟩
  · exact ⟨.sum, rfl, rfl⟩
  · exact ⟨.product, rfl, rfl⟩
  · exact ⟨.product, rfl, rfl⟩
  · exact ⟨.comparison, rfl, rfl⟩
  · exact ⟨.comparison, rfl, rfl⟩
  · exact ⟨.equality, rfl, rfl⟩
  · exact ⟨.equality, rfl, rfl⟩

theorem eq_lbracket_of_rankOf {t : Token} (h : 0 < (rankOf t).toNat)
    (hop : Parser.binaryOp? t = none) (hne : t ≠ .lparen) : t = .lbracket := by
  cases t <;> simp_all [rankOf, Parser.binaryOp?, Rank.toNat]

/-- The token that an operand starts with, by what the parser takes it for. -/
theorem operandStart?_inv {t : Token} {first : OperandStart} (h : operandStart? t = some first) :
    match first with
    | .leaf node => ∀ s, leaf? ⟨t, s⟩ = some (node s)
    | .sign op => unaryOp? t = some op
    | .paren => t = .lparen
    | .bracket => t = .lbracket
    | .brace => t = .lbrace
    | .ifWord => t = .ifWord := by
  cases t <;> cases h <;> first | rfl | exact fun _ => rfl

variable {limit : Nat}

/-- A tighter phrase is a looser one. -/
theorem Phrase.loosen {layer layer' : Layer} {d k : Nat} {ls : List Lexeme} {e : Expr}
    (h : Phrase limit layer d ls k e) (hle : layer'.toNat ≤ layer.toNat) :
    Phrase limit layer' d ls k e := by
  by_cases heq : layer'.toNat = layer.toNat
  · obtain rfl : layer' = layer := by
      cases layer <;> cases layer' <;> simp_all [Layer.toNat]
    exact h
  · have hlt : layer'.toNat < layer'.tighter.toNat ∧ layer'.tighter.toNat ≤ layer.toNat := by
      cases layer <;> cases layer' <;> simp_all [Layer.toNat, Layer.tighter]
    exact .tighter (h.loosen hlt.2)
termination_by layer.toNat - layer'.toNat

/-! ## Lists -/

section

variable {α : Type} {item : Parser α} {close : Token} {L : List Lexeme → α → Prop}
  {S : List Lexeme → List α → Prop}

/-- What the parser takes as items is items of the grammar. -/
theorem itemsUpTo_derived
    (hitem : ∀ {c a c'}, item c = .ok (a, c') → ∃ ls, c.Took ls c' ∧ L ls a)
    (one : ∀ {ls a}, L ls a → S ls [a])
    (cons : ∀ {ls rs m a b as}, L ls a → m.token = .comma → S rs (b :: as) →
      S (ls ++ m :: rs) (a :: b :: as))
    {bound : List Lexeme} {done as : List α} {c c' : Cursor}
    (h : itemsUpTo item close bound done c = .ok (as, c')) :
    ∃ ls c₁ cl b bs, c.Took ls c₁ ∧ c₁.Took [cl] c' ∧ cl.token = close ∧ S ls (b :: bs) ∧
      as = done.reverse ++ b :: bs := by
  induction bound generalizing done c with
  | nil =>
    obtain ⟨a, c₁, ha, ⟨_, _, _, _, hb, _⟩ | ⟨_, rfl, cl, hcl, hl⟩⟩ := itemsUpTo_eq_ok.1 h
    · cases hb
    · obtain ⟨ls, hls, hL⟩ := hitem ha
      exact ⟨ls, c₁, cl, a, [], hls, hcl, hl, one hL, by simp⟩
  | cons b bound ih =>
    obtain ⟨a, c₁, ha, ⟨m, c₂, b', bound', hb, hm, hmt, h⟩ | ⟨_, rfl, cl, hcl, hl⟩⟩ :=
      itemsUpTo_eq_ok.1 h
    · cases hb
      obtain ⟨ls, hls, hL⟩ := hitem ha
      obtain ⟨rs, c₃, cl, b, bs, hrs, hcl, hl, hS, rfl⟩ := ih h
      exact ⟨ls ++ m :: rs, c₃, cl, a, b :: bs, hls.append (hm.cons hrs), hcl, hl,
        cons hL hmt hS, by simp⟩
    · obtain ⟨ls, hls, hL⟩ := hitem ha
      exact ⟨ls, c₁, cl, a, [], hls, hcl, hl, one hL, by simp⟩

/-- A list between its brackets, from what each item is. -/
theorem list_derived
    (hitem : ∀ {c a c'}, item c = .ok (a, c') → ∃ ls, c.Took ls c' ∧ L ls a) (nil : S [] [])
    (one : ∀ {ls a}, L ls a → S ls [a])
    (cons : ∀ {ls rs m a b as}, L ls a → m.token = .comma → S rs (b :: as) →
      S (ls ++ m :: rs) (a :: b :: as))
    {as : List α} {c c' : Cursor} (h : list item close c = .ok (as, c')) :
    ∃ ls c₁ cl, c.Took ls c₁ ∧ c₁.Took [cl] c' ∧ cl.token = close ∧ S ls as := by
  rcases list_eq_ok.1 h with ⟨rfl, cl, hcl, hl⟩ | ⟨_, h⟩
  · exact ⟨[], c, cl, .nil c, hcl, hl, nil⟩
  · obtain ⟨ls, c₁, cl, b, bs, hls, hcl, hl, hS, rfl⟩ := itemsUpTo_derived hitem one cons h
    exact ⟨ls, c₁, cl, hls, hcl, hl, hS⟩

end

/-! ## Statements and blocks -/

/-- Whether lexemes go on with an expression is seen from the first of them. -/
theorem continues_append {ls : List Lexeme} (hne : ls ≠ []) (rs : List Lexeme) :
    Continues (ls ++ rs) ↔ Continues ls := by
  obtain ⟨l, ls, rfl⟩ := List.exists_cons_of_ne_nil hne
  exact Iff.rfl

theorem not_continues_of_took {ls : List Lexeme} {c c' : Cursor} (hc : c.Took ls c')
    (h : ∀ t ∈ c.next?, strength t ≤ 0) : ¬ Continues ls := by
  rintro ⟨l, hl, hlayer⟩
  obtain ⟨rs, rfl⟩ := List.head?_eq_some_iff.1 hl
  have hzero := h l.token hc.next?_eq
  obtain ⟨layer, hlayer⟩ := Option.isSome_iff_exists.1 hlayer
  rw [strength, hlayer] at hzero
  cases layer <;> exact absurd hzero (by decide)

/-- With that many levels left at depth `d`, what is read is a phrase of the layer of its rank. -/
def ReadsPhrases (limit n d : Nat) : Prop :=
  ∀ {rank : Rank} {c c' : Cursor} {e : Expr}, rank.toNat ≤ Rank.sign.toNat →
    Parser.expr n rank c = .ok (e, c') → ∃ ls k, c.Took ls c' ∧
      Phrase limit (.ofRank rank) d ls k e ∧ ∀ t ∈ c'.next?, strength t ≤ rank.toNat

section

variable {n d : Nat} (hread : ReadsPhrases limit n d) {c c' : Cursor}
include hread

/-- A statement that is read is one of the grammar, and without a semicolon nothing goes on with it.
-/
theorem statement_derived {s : Stmt}
    (h : statement (Parser.expr n .lowest) c = .ok (s, c')) :
    ∃ ls ended, c.Took ls c' ∧ Statement limit d ended ls s ∧
      (ended = true ∨ ∀ t ∈ c'.next?, strength t ≤ 0) := by
  have hsemi : ∀ {c c' : Cursor} {b : Bool}, eat .semi c = .ok (b, c') →
      ∃ ls, c.Took ls c' ∧ Semicolon b ls ∧ (b = true ∨ c' = c) := by
    intro c c' b h
    rcases eat_eq_ok.1 h with ⟨rfl, l, hl, ht⟩ | ⟨rfl, rfl, _⟩
    · exact ⟨[l], hl, .present ht, .inl rfl⟩
    · exact ⟨[], .nil _, .absent, .inr rfl⟩
  rcases statement_eq_ok.1 h with
    ⟨l, x, a, c₁, c₂, c₃, c₄, y, e, b, hl, hlt, hx, hxt, ha, hat, he, hb, rfl⟩ |
    ⟨_, e, c₁, b, he, hb, rfl⟩
  · obtain ⟨ls, k, hls, hphrase, hnext⟩ := hread (by decide) he
    obtain ⟨semi, hs, hsc, hend⟩ := hsemi hb
    have hc : c.Took (l :: x :: a :: ls ++ semi) c' :=
      (hl.cons (hx.cons (ha.cons hls))).append hs
    refine ⟨_, b, hc, ?_, hend.imp id (by rintro rfl; exact hnext)⟩
    rw [← hc.hull_eq (List.cons_ne_nil _ _)]
    exact .define hlt hxt hat hphrase hsc
  · obtain ⟨ls, k, hls, hphrase, hnext⟩ := hread (by decide) he
    obtain ⟨semi, hs, hsc, hend⟩ := hsemi hb
    have hc : c.Took (ls ++ semi) c' := hls.append hs
    refine ⟨_, b, hc, ?_, hend.imp id (by rintro rfl; exact hnext)⟩
    rw [← hc.hull_eq (List.append_ne_nil_of_left_ne_nil hphrase.ne_nil _)]
    exact .expr hphrase hsc

/-- The statements of a block are statements of the grammar. -/
theorem statementsUpToBrace_derived {bound : List Lexeme} {done ss : List Stmt}
    (h : statementsUpToBrace (statement (Parser.expr n .lowest)) bound done c = .ok (ss, c')) :
    ∃ ls c₁ cl ss', c.Took ls c₁ ∧ c₁.Took [cl] c' ∧ cl.token = .rbrace ∧
      Statements limit d ls ss' ∧ ss = done.reverse ++ ss' := by
  induction bound generalizing done c with
  | nil =>
    obtain ⟨rfl, cl, hcl, hl⟩ | ⟨_, _, _, _, _, _, _, hb, _⟩ := statementsUpToBrace_eq_ok.1 h
    · exact ⟨[], c, cl, [], .nil c, hcl, hl, .nil, by simp⟩
    · cases hb
  | cons b bound ih =>
    obtain ⟨rfl, cl, hcl, hl⟩ | ⟨_, _, s, c₁, _, _, hs, hb, h⟩ := statementsUpToBrace_eq_ok.1 h
    · exact ⟨[], c, cl, [], .nil c, hcl, hl, .nil, by simp⟩
    · cases hb
      obtain ⟨ls, ended, hls, hstmt, hend⟩ := statement_derived hread hs
      obtain ⟨rs, c₂, cl, ss', hrs, hcl, hl, hss, rfl⟩ := ih h
      exact ⟨ls ++ rs, c₂, cl, s :: ss', hls.append hrs, hcl, hl,
        .cons hstmt (hend.imp id (not_continues_of_took hrs)) hss, by simp⟩

/-- The statements of a program are statements of the grammar. -/
theorem statementsUpToEnd_derived {bound : List Lexeme} {done ss : List Stmt}
    (h : statementsUpToEnd (statement (Parser.expr n .lowest)) bound done c = .ok (ss, c'))
    (hbound : c.rest.length ≤ bound.length) :
    ∃ ls ss', c.Took ls c' ∧ c'.next? = none ∧ Statements limit d ls ss' ∧
      ss = done.reverse ++ ss' := by
  induction bound generalizing done c with
  | nil =>
    obtain ⟨hnone, rfl, rfl⟩ | ⟨hnext, _⟩ := statementsUpToEnd_eq_ok.1 h
    · exact ⟨[], [], .nil _, hnone, .nil, by simp⟩
    · have hrest : c.rest = [] := List.length_eq_zero_iff.1 (Nat.le_zero.1 hbound)
      exact absurd (next?_eq_none_iff.2 hrest) hnext
  | cons b bound ih =>
    obtain ⟨hnone, rfl, rfl⟩ | ⟨_, s, c₁, hs, ⟨_, _, hb, h⟩ | ⟨hb, _⟩⟩ :=
      statementsUpToEnd_eq_ok.1 h
    · exact ⟨[], [], .nil _, hnone, .nil, by simp⟩
    · cases hb
      obtain ⟨ls, ended, hls, hstmt, hend⟩ := statement_derived hread hs
      obtain ⟨l, ts, rfl, _⟩ := hstmt.begins
      have hlength := hls.length_rest
      simp only [List.length_cons] at hlength hbound
      obtain ⟨rs, ss', hrs, hnone, hss, rfl⟩ := ih h (by omega)
      exact ⟨l :: ts ++ rs, s :: ss', hls.append hrs, hnone,
        .cons hstmt (hend.imp id (not_continues_of_took hrs)) hss, by simp⟩
    · cases hb

theorem block_derived {ss : List Stmt} (h : block (Parser.expr n .lowest) c = .ok (ss, c')) :
    ∃ ls, c.Took ls c' ∧ Block limit d ls ss := by
  obtain ⟨o, c₁, ho, hot, h⟩ := block_eq_ok.1 h
  obtain ⟨ls, c₂, cl, ss', hls, hcl, hl, hss, rfl⟩ := statementsUpToBrace_derived hread h
  exact ⟨o :: ls ++ [cl], (ho.cons hls).append hcl, .braces hot hss hl⟩

theorem list_expr_derived {close : Token} {es : List Expr}
    (h : list (Parser.expr n .lowest) close c = .ok (es, c')) :
    ∃ ls c₁ cl, c.Took ls c₁ ∧ c₁.Took [cl] c' ∧ cl.token = close ∧ Items limit d ls es :=
  list_derived (L := fun ls e => ∃ k, Phrase limit .equality d ls k e)
    (fun h => by
      obtain ⟨ls, k, hls, he, _⟩ := hread (by decide) h
      exact ⟨ls, hls, k, he⟩)
    .nil (fun ⟨_, he⟩ => .one he) (fun ⟨_, he⟩ hm hes => .cons he hm hes) h

theorem list_hashPair_derived {close : Token} {ps : List (Expr × Expr)}
    (h : list (hashPair (Parser.expr n)) close c = .ok (ps, c')) :
    ∃ ls c₁ cl, c.Took ls c₁ ∧ c₁.Took [cl] c' ∧ cl.token = close ∧ Pairs limit d ls ps :=
  list_derived (L := fun ls p => ∃ ks m vs j k, ls = ks ++ m :: vs ∧ m.token = .colon ∧
      Phrase limit .equality d ks j p.1 ∧ Phrase limit .equality d vs k p.2)
    (fun h => by
      obtain ⟨c₁, m, c₂, hk, hm, hmt, hv⟩ := hashPair_eq_ok.1 h
      obtain ⟨ks, j, hks, hkey, _⟩ := hread (by decide) hk
      obtain ⟨vs, k, hvs, hvalue, _⟩ := hread (by decide) hv
      exact ⟨ks ++ m :: vs, hks.append (hm.cons hvs), ks, m, vs, j, k, rfl, hmt, hkey, hvalue⟩)
    .nil
    (fun ⟨_, _, _, _, _, hls, hm, hk, hv⟩ => hls ▸ .one hk hm hv)
    (fun ⟨_, _, _, _, _, hls, hm, hk, hv⟩ hc hps => hls ▸ .cons hk hm hv hc hps) h

/-- An operand is an atom, or an expression behind a sign, with which no call or index goes on. -/
theorem operand_derived {d₀ : Nat} (hd : d = d₀ + 1) (hlimit : d ≤ limit) {e : Expr}
    (h : operand (Parser.expr n) c = .ok (e, c')) :
    ∃ ls, c.Took ls c' ∧ (Phrase limit .atom d₀ ls 0 e ∨
      Phrase limit .sign d₀ ls 0 e ∧ ∀ t ∈ c'.next?, strength t ≤ Layer.sign.toNat) := by
  subst hd
  obtain ⟨o, c₁, first, ho, hfirst, h⟩ := operand_eq_ok.1 h
  cases first with
  | leaf node =>
    obtain ⟨rfl, rfl⟩ := h
    exact ⟨[o], ho, .inl (.leaf hlimit (operandStart?_inv hfirst o.span))⟩
  | sign op =>
    obtain ⟨a, ha, rfl⟩ := h
    obtain ⟨ls, k, hls, he, hnext⟩ := hread (Nat.le_refl _) ha
    have hop : unaryOp? o.token = some op := operandStart?_inv hfirst
    refine ⟨o :: ls, ho.cons hls, .inr ⟨?_, fun t ht => Nat.le_succ_of_le (hnext t ht)⟩⟩
    rw [← (ho.cons hls).hull_cons]
    exact .unary hlimit hop he
  | paren =>
    obtain ⟨a, c₂, l, ha, hl, hlt, rfl⟩ := h
    obtain ⟨ls, k, hls, he, -⟩ := hread (by decide) ha
    have hc : c.Took (o :: ls ++ [l]) c' := (ho.cons hls).append hl
    have hot : o.token = .lparen := operandStart?_inv hfirst
    refine ⟨_, hc, .inl ?_⟩
    rw [← hc.hull_cons]
    exact .paren hlimit hot he hlt
  | bracket =>
    obtain ⟨es, hes, rfl⟩ := h
    obtain ⟨ls, c₂, l, hls, hl, hlt, hitems⟩ := list_expr_derived hread hes
    have hc : c.Took (o :: ls ++ [l]) c' := (ho.cons hls).append hl
    have hot : o.token = .lbracket := operandStart?_inv hfirst
    refine ⟨_, hc, .inl ?_⟩
    rw [← hc.hull_cons]
    exact .array hlimit hot hitems hlt
  | brace =>
    obtain ⟨ps, hps, rfl⟩ := h
    obtain ⟨ls, c₂, l, hls, hl, hlt, hpairs⟩ := list_hashPair_derived hread hps
    have hc : c.Took (o :: ls ++ [l]) c' := (ho.cons hls).append hl
    have hot : o.token = .lbrace := operandStart?_inv hfirst
    refine ⟨_, hc, .inl ?_⟩
    rw [← hc.hull_cons]
    exact .hash hlimit hot hpairs hlt
  | ifWord =>
    obtain ⟨l, c₂, test, c₃, m, c₄, yes, c₅, no, hl, hlt, htest, hm, hmt, hyes, hno, rfl⟩ := h
    obtain ⟨ls, k, hls, he, -⟩ := hread (by decide) htest
    obtain ⟨ys, hys, hblock⟩ := block_derived hread hyes
    have hot : o.token = .ifWord := operandStart?_inv hfirst
    obtain ⟨ns, hns, hother⟩ : ∃ ns, c₅.Took ns c' ∧ Otherwise limit (d₀ + 1) ns no := by
      rcases hno with ⟨w, c₆, ss, hw, hwt, hss, rfl⟩ | ⟨_, rfl, rfl⟩
      · obtain ⟨ns, hns, hblock⟩ := block_derived hread hss
        exact ⟨w :: ns, hw.cons hns, .block hwt hblock⟩
      · exact ⟨[], .nil _, .none⟩
    have hc : c.Took (o :: l :: ls ++ m :: ys ++ ns) c' :=
      ((ho.cons (hl.cons hls)).append (hm.cons hys)).append hns
    refine ⟨_, hc, .inl ?_⟩
    rw [← hc.hull_cons]
    exact .cond hlimit hot hlt he hmt hblock hother

/-- One operator, call or index behind a phrase of a layer that it does not bind tighter than. -/
theorem extend_derived {layer : Layer} {d₀ k : Nat} (hd : d = d₀ + 1 + (k + 1)) (hlimit : d ≤ limit)
    {c₀ : Cursor} {ls : List Lexeme} {left e : Expr} (hleft : Phrase limit layer d₀ ls k left)
    (hls : c₀.Took ls c) {t : Token} (hpos : 0 < (rankOf t).toNat)
    (hlayer : strength t ≤ layer.toNat) (h : extend (Parser.expr n) left t c = .ok (e, c')) :
    ∃ layer' ls', c₀.Took ls' c' ∧ Phrase limit layer' d₀ ls' (k + 1) e ∧
      (rankOf t).toNat ≤ layer'.toNat ∧ ∀ u ∈ c'.next?, strength u ≤ layer'.toNat := by
  subst hd
  obtain ⟨o, c₁, ho, rfl, ⟨op, right, hop, hr, rfl⟩ | ⟨_, hot, args, hargs, rfl⟩ |
    ⟨hop, hne, i, c₂, l, hi, hl, hlt, rfl⟩⟩ := extend_eq_ok.1 h
  · obtain ⟨layer', hop', htighter⟩ := Layer.exists_binaryOp? hop
    obtain ⟨_, hrank, hstrength, hproduct⟩ := Layer.binaryOp?_eq_some hop'
    have hsign : (rankOf o.token).toNat ≤ Rank.sign.toNat :=
      hrank ▸ Nat.le_trans hproduct (by decide)
    obtain ⟨rs, j, hrs, hright, hnext⟩ := hread hsign hr
    have hloose : Phrase limit layer' d₀ ls k left := hleft.loosen (hstrength ▸ hlayer)
    exact ⟨layer', ls ++ o :: rs, hls.append (ho.cons hrs),
      .binary hloose hop' hlimit (htighter ▸ hright), Nat.le_of_eq hrank, hrank ▸ hnext⟩
  · rw [hot] at hlayer
    have hloose : Phrase limit .suffix d₀ ls k left := hleft.loosen hlayer
    obtain ⟨rs, c₂, l, hrs, hl, hlt, hitems⟩ := list_expr_derived hread hargs
    have hc : c₀.Took (ls ++ o :: rs ++ [l]) c' := (hls.append (ho.cons hrs)).append hl
    refine ⟨.suffix, _, hc, ?_, by rw [hot]; decide, fun u _ => strength_le_suffix u⟩
    rw [← hloose.hull_append (List.append_assoc .. ▸ hc), ← List.append_assoc]
    exact .call hloose hot hlimit hitems hlt
  · have hot : o.token = .lbracket := eq_lbracket_of_rankOf hpos hop hne
    rw [hot] at hlayer
    have hloose : Phrase limit .suffix d₀ ls k left := hleft.loosen hlayer
    obtain ⟨rs, j, hrs, hindex, -⟩ := hread (by decide) hi
    have hc : c₀.Took (ls ++ o :: rs ++ [l]) c' := (hls.append (ho.cons hrs)).append hl
    refine ⟨.suffix, _, hc, ?_, by rw [hot]; decide, fun u _ => strength_le_suffix u⟩
    rw [← hloose.hull_append (List.append_assoc .. ▸ hc), ← List.append_assoc]
    exact .index hloose hot hlimit hindex hlt

end

/-! ## Expressions -/

/-- The loop over operators at depth `d`, with that many levels left behind a phrase of `k`. -/
def ReadsOperators (limit n d k : Nat) : Prop :=
  ∀ {rank : Rank} {layer : Layer} {c₀ c c' : Cursor} {ls : List Lexeme} {left e : Expr},
    rank.toNat ≤ Rank.sign.toNat → Phrase limit layer d ls k left → rank.toNat < layer.toNat →
    (∀ t ∈ c.next?, strength t ≤ layer.toNat) → c₀.Took ls c →
    operators n rank left c = .ok (e, c') → ∃ ls' k', c₀.Took ls' c' ∧
      Phrase limit (.ofRank rank) d ls' k' e ∧ ∀ t ∈ c'.next?, strength t ≤ rank.toNat

/-- Where the loop stops, the phrase so far is all of it. -/
theorem readsOperators_of_le {d k n : Nat} {rank : Rank} {layer : Layer} {c₀ c c' : Cursor}
    {ls : List Lexeme} {left e : Expr} (hrank : rank.toNat ≤ Rank.sign.toNat)
    (hleft : Phrase limit layer d ls k left) (hlt : rank.toNat < layer.toNat) (hls : c₀.Took ls c)
    (hle : ∀ t ∈ c.next?, (rankOf t).toNat ≤ rank.toNat)
    (h : operators n rank left c = .ok (e, c')) : ∃ ls' k', c₀.Took ls' c' ∧
      Phrase limit (.ofRank rank) d ls' k' e ∧ ∀ t ∈ c'.next?, strength t ≤ rank.toNat := by
  rw [operators_of_le hle] at h
  cases h
  exact ⟨ls, k, hls, hleft.loosen (Layer.toNat_ofRank_le hrank hlt),
    fun t ht => (rankOf_le_iff hrank t).1 (hle t ht)⟩

/-- The loop goes on where the next token binds tighter than the rank. -/
theorem exists_of_not_le {c : Cursor} {rank : Rank}
    (h : ¬ ∀ t ∈ c.next?, (rankOf t).toNat ≤ rank.toNat) :
    ∃ t, c.next? = some t ∧ rank.toNat < (rankOf t).toNat := by
  cases hnext : c.next? with
  | none => exact absurd (by rw [hnext]; nofun) h
  | some t =>
    refine ⟨t, rfl, Nat.lt_of_not_le fun hle => h ?_⟩
    rw [hnext]
    rintro _ ⟨⟩
    exact hle

theorem readsOperators_zero (d k : Nat) : ReadsOperators limit 0 d k := by
  intro rank layer c₀ c c' ls left e hrank hleft hlt hnext hls h
  by_cases hle : ∀ t ∈ c.next?, (rankOf t).toNat ≤ rank.toNat
  · exact readsOperators_of_le hrank hleft hlt hls hle h
  · obtain ⟨t, ht, hgt⟩ := exists_of_not_le hle
    exact absurd h (operators_zero_of_lt ht hgt)

/-- One operator takes one of the levels of the spine. -/
theorem readsOperators_succ {n d k : Nat} (hn : n + (d + 1 + (k + 1)) = limit)
    (hread : ReadsPhrases limit n (d + 1 + (k + 1))) (hops : ReadsOperators limit n d (k + 1)) :
    ReadsOperators limit (n + 1) d k := by
  intro rank layer c₀ c c' ls left e hrank hleft hlt hnext hls h
  by_cases hle : ∀ t ∈ c.next?, (rankOf t).toNat ≤ rank.toNat
  · exact readsOperators_of_le hrank hleft hlt hls hle h
  · obtain ⟨t, ht, hgt⟩ := exists_of_not_le hle
    rw [operators_succ_of_lt ht hgt] at h
    obtain ⟨whole, c₁, hwhole, h⟩ := bind_eq_ok.1 h
    obtain ⟨layer', ls', hls', hphrase, hge, hnext'⟩ :=
      extend_derived hread rfl (by omega) hleft hls (by omega) (hnext t ht) hwhole
    exact hops hrank hphrase (by omega) hnext' hls' h

theorem readsPhrases_zero (d : Nat) : ReadsPhrases limit 0 d := by
  intro rank c c' e _ h
  exact absurd h fail_ne_ok

/-- One expression takes one level of depth, and its operand is read with those that are left. -/
theorem readsPhrases_succ {n d : Nat} (hn : n + (d + 1) = limit)
    (hread : ReadsPhrases limit n (d + 1)) (hops : ReadsOperators limit n d 0) :
    ReadsPhrases limit (n + 1) d := by
  intro rank c c' e hrank h
  rw [expr_succ] at h
  obtain ⟨left, c₁, hleft, h⟩ := bind_eq_ok.1 h
  obtain ⟨ls, hls, hatom | ⟨hsign, hnext⟩⟩ := operand_derived hread rfl (by omega) hleft
  · refine hops hrank hatom ?_ (fun t _ => Nat.le_succ_of_le (strength_le_suffix t)) hls h
    exact Nat.lt_of_le_of_lt hrank (by decide)
  · exact hops hrank hsign (Nat.lt_succ_of_le hrank) hnext hls h

/-- The parsers of expressions take levels from each other, so both go by the levels left. -/
theorem readsPhrases_and_readsOperators (n : Nat) :
    (∀ d, n + d = limit → ReadsPhrases limit n d) ∧
      ∀ d k, n + (d + 1 + k) = limit → ReadsOperators limit n d k := by
  induction n with
  | zero => exact ⟨fun d _ => readsPhrases_zero d, fun d k _ => readsOperators_zero d k⟩
  | succ n ih =>
    obtain ⟨hread, hops⟩ := ih
    refine ⟨fun d hd => ?_, fun d k hd => ?_⟩
    · exact readsPhrases_succ (by omega) (hread _ (by omega)) (hops _ _ (by omega))
    · exact readsOperators_succ (by omega) (hread _ (by omega)) (hops _ _ (by omega))

theorem readsPhrases (n : Nat) : ReadsPhrases n n 0 :=
  (readsPhrases_and_readsOperators n).1 0 rfl

/-! ## Programs -/

/-- What is read within a limit is derived within it. -/
theorem derives_of_parseWithin {ls : List Lexeme} {p : Program}
    (h : Program.parseWithin limit ls = .ok p) : Derives limit ls p := by
  have h : Except.map (fun r => (⟨r.1⟩ : Program))
      (statementsUpToEnd (statement (Parser.expr limit .lowest)) ls [] ⟨0, ls⟩) = .ok p := h
  cases hrun : statementsUpToEnd (statement (Parser.expr limit .lowest)) ls [] ⟨0, ls⟩ with
  | error e =>
    rw [hrun] at h
    cases h
  | ok r =>
    rw [hrun] at h
    cases h
    obtain ⟨ss, c'⟩ := r
    obtain ⟨ls', ss', hls, hnone, hss, rfl⟩ := statementsUpToEnd_derived (readsPhrases limit) hrun
      (Nat.le_refl _)
    have hrest : c'.rest = [] := next?_eq_none_iff.1 hnone
    obtain rfl : ls = ls' := by
      have := hls.rest_eq
      rwa [hrest, List.append_nil] at this
    exact hss

/-- The grammar within a limit is what the parser reads with as many levels. -/
theorem parseWithin_eq_ok_iff {ls : List Lexeme} {p : Program} :
    Program.parseWithin limit ls = .ok p ↔ Derives limit ls p :=
  ⟨derives_of_parseWithin, Derives.parseWithin_eq⟩

/-! ## Limits -/

mutual

/-- What stays within a limit stays within a higher one, and it does so from a lower depth; the
levels between the depth and the limit must not get fewer. -/
theorem Phrase.mono {m n d d' : Nat} (hmn : m + d' ≤ n + d) {layer : Layer} {k : Nat}
    {ls : List Lexeme} {e : Expr} : Phrase m layer d ls k e → Phrase n layer d' ls k e
  | .leaf hd hl => .leaf (by omega) hl
  | .paren hd ho he hc => .paren (by omega) ho (he.mono (by omega)) hc
  | .array hd ho hes hc => .array (by omega) ho (hes.mono (by omega)) hc
  | .hash hd ho hps hc => .hash (by omega) ho (hps.mono (by omega)) hc
  | .cond hd hi ho he hc hy hn =>
    .cond (by omega) hi ho (he.mono (by omega)) hc (hy.mono (by omega)) (hn.mono (by omega))
  | .unary hd ho he => .unary (by omega) ho (he.mono (by omega))
  | .binary hl ho hd hr => .binary (hl.mono hmn) ho (by omega) (hr.mono (by omega))
  | .call hf ho hd hargs hc => .call (hf.mono hmn) ho (by omega) (hargs.mono (by omega)) hc
  | .index ht ho hd hi hc => .index (ht.mono hmn) ho (by omega) (hi.mono (by omega)) hc
  | .tighter h => .tighter (h.mono hmn)

theorem Items.mono {m n d d' : Nat} (hmn : m + d' ≤ n + d) {ls : List Lexeme} {es : List Expr} :
    Items m d ls es → Items n d' ls es
  | .nil => .nil
  | .one he => .one (he.mono hmn)
  | .cons he hc hes => .cons (he.mono hmn) hc (hes.mono hmn)

theorem Pairs.mono {m n d d' : Nat} (hmn : m + d' ≤ n + d) {ls : List Lexeme}
    {ps : List (Expr × Expr)} : Pairs m d ls ps → Pairs n d' ls ps
  | .nil => .nil
  | .one hk hm hv => .one (hk.mono hmn) hm (hv.mono hmn)
  | .cons hk hm hv hc hps => .cons (hk.mono hmn) hm (hv.mono hmn) hc (hps.mono hmn)

theorem Statement.mono {m n d d' : Nat} (hmn : m + d' ≤ n + d) {ended : Bool} {ls : List Lexeme}
    {s : Stmt} : Statement m d ended ls s → Statement n d' ended ls s
  | .define hl hx ha he hs => .define hl hx ha (he.mono hmn) hs
  | .expr he hs => .expr (he.mono hmn) hs

theorem Statements.mono {m n d d' : Nat} (hmn : m + d' ≤ n + d) {ls : List Lexeme}
    {ss : List Stmt} : Statements m d ls ss → Statements n d' ls ss
  | .nil => .nil
  | .cons hs hnext hss => .cons (hs.mono hmn) hnext (hss.mono hmn)

theorem Block.mono {m n d d' : Nat} (hmn : m + d' ≤ n + d) {ls : List Lexeme}
    {ss : List Stmt} : Block m d ls ss → Block n d' ls ss
  | .braces ho hss hc => .braces ho (hss.mono hmn) hc

theorem Otherwise.mono {m n d d' : Nat} (hmn : m + d' ≤ n + d) {ls : List Lexeme}
    {no : Option (List Stmt)} : Otherwise m d ls no → Otherwise n d' ls no
  | .none => .none
  | .block hw hb => .block hw (hb.mono hmn)

end

/-- A statement is a program of its own, also where it stood deeper. -/
theorem Statement.derives {limit d : Nat} {ended : Bool} {ls : List Lexeme} {s : Stmt}
    (h : Statement limit d ended ls s) : Derives limit ls ⟨[s]⟩ := by
  have hnext : ¬ Continues [] := nofun
  have htop : Statement limit 0 ended ls s := h.mono (by omega)
  have hall := Statements.cons htop (.inr hnext) .nil
  rwa [List.append_nil] at hall

/-- The grammar is unambiguous, whatever limits its trees stay within. -/
theorem Derives.unique {m n : Nat} {ls : List Lexeme} {p q : Program} (hp : Derives m ls p)
    (hq : Derives n ls q) : p = q := by
  have hp' : Derives (max m n) ls p := Statements.mono (by omega) hp
  have hq' : Derives (max m n) ls q := Statements.mono (by omega) hq
  have h := hp'.parseWithin_eq.symm.trans hq'.parseWithin_eq
  exact Except.ok.inj h

/-- What the parser gives back is what the grammar derives within the limit, and the grammar is
unambiguous beyond it. -/
theorem parse_eq_ok_iff_derives (ls : List Lexeme) :
    (∀ p, Program.parse ls = .ok p ↔ Derives nestingLimit ls p) ∧
      ∀ m n p q, Derives m ls p ∧ Derives n ls q → p = q :=
  ⟨fun _ => parseWithin_eq_ok_iff, fun _ _ _ _ ⟨hp, hq⟩ => hp.unique hq⟩

end MonkeyLang.Grammar
