import MonkeyLang.Proofs.Parsing.Derives
import MonkeyLang.Proofs.Scanning.Words

/-!
# The grammar without levels

The rules of the grammar, said of the languages of what can be derived within any number of levels.
There are always enough for parts that have enough each, so the rules compose with no more to ask
for, and no language is empty.
-/

namespace MonkeyLang.Grammar

open Token (word)

/-! ## Languages without levels -/

def anyPhrase (layer : Layer) : Language Lexeme := {ls | ∃ limit k e, Phrase limit layer 0 ls k e}

/-- One item or more. -/
def anyItems : Language Lexeme := {ls | ∃ limit e es, Items limit 0 ls (e :: es)}

/-- One pair or more. -/
def anyPairs : Language Lexeme := {ls | ∃ limit p ps, Pairs limit 0 ls (p :: ps)}

def anyName : Language Lexeme := {ls | ∃ l x, ls = [l] ∧ l.token = .ident x}

/-- One statement, with a semicolon. -/
def anySentence : Language Lexeme := {ls | ∃ limit s, Statement limit 0 true ls s}

def anyStatements : Language Lexeme := {ls | ∃ limit ss, Statements limit 0 ls ss}

def anyBlock : Language Lexeme := {ls | ∃ limit ss, Block limit 0 ls ss}

def anyOtherwise : Language Lexeme := {ls | ∃ limit no, Otherwise limit 0 ls no}

/-- One key and its value. -/
def anyPair : Language Lexeme := anyPhrase .equality * (word .colon * anyPhrase .equality)

section

variable {layer : Layer} {l o : Lexeme} {ls rs : List Lexeme}

theorem singleton_mem_word {t : Token} (hl : l.token = t) : [l] ∈ word t := ⟨l.span, hl ▸ rfl⟩

theorem Phrase.mem_anyPhrase {limit d k : Nat} {e : Expr} (h : Phrase limit layer d ls k e) :
    ls ∈ anyPhrase layer :=
  ⟨limit, k, e, h.mono (by omega)⟩

theorem anyPhrase_loosen {layer' : Layer} (hle : layer'.toNat ≤ layer.toNat)
    (h : ls ∈ anyPhrase layer) : ls ∈ anyPhrase layer' := by
  obtain ⟨n, k, e, h⟩ := h
  exact ⟨n, k, e, h.loosen hle⟩

theorem anyPhrase_unary {op : UnaryOp} (ho : unaryOp? o.token = some op)
    (h : ls ∈ anyPhrase .sign) : o :: ls ∈ anyPhrase .sign := by
  obtain ⟨n, k, e, h⟩ := h
  exact ⟨n + 1, _, _, .unary (by omega) ho (h.mono (by omega))⟩

theorem anyPhrase_paren (ho : o.token = .lparen) (h : ls ∈ anyPhrase .equality * word .rparen) :
    o :: ls ∈ anyPhrase .atom := by
  obtain ⟨es, ⟨n, k, e, he⟩, _, ⟨_, rfl⟩, rfl⟩ := h
  exact ⟨n + 1, _, _, .paren (by omega) ho (he.mono (by omega)) rfl⟩

theorem anyPhrase_array (ho : o.token = .lbracket) (h : ls ∈ anyItems * word .rbracket) :
    o :: ls ∈ anyPhrase .atom := by
  obtain ⟨es, ⟨n, _, _, hes⟩, _, ⟨_, rfl⟩, rfl⟩ := h
  exact ⟨n + 1, _, _, .array (by omega) ho (hes.mono (by omega)) rfl⟩

theorem anyPhrase_hash (ho : o.token = .lbrace) (h : ls ∈ anyPairs * word .rbrace) :
    o :: ls ∈ anyPhrase .atom := by
  obtain ⟨ps, ⟨n, _, _, hps⟩, _, ⟨_, rfl⟩, rfl⟩ := h
  exact ⟨n + 1, _, _, .hash (by omega) ho (hps.mono (by omega)) rfl⟩

theorem anyPhrase_cond (ho : o.token = .ifWord) (h : ls ∈
    word .lparen * (anyPhrase .equality * (word .rparen * (anyBlock * anyOtherwise)))) :
    o :: ls ∈ anyPhrase .atom := by
  obtain ⟨_, ⟨a, rfl⟩, _, ⟨es, ⟨n₁, k, e, he⟩, _, ⟨_, ⟨b, rfl⟩, _, ⟨ys, ⟨n₂, yes, hy⟩, ns,
    ⟨n₃, no, hn⟩, rfl⟩, rfl⟩, rfl⟩, rfl⟩ := h
  have hcond : Phrase (n₁ + n₂ + n₃ + 1) .atom 0
      (o :: ⟨.lparen, a⟩ :: es ++ ⟨.rparen, b⟩ :: ys ++ ns) 0 _ :=
    .cond (by omega) ho rfl (he.mono (by omega)) rfl (hy.mono (by omega)) (hn.mono (by omega))
  rw [List.append_assoc] at hcond
  exact hcond.mem_anyPhrase

/-- Both sides have a limit; a limit above the sum of the two will do for the whole. -/
theorem anyPhrase_binary {op : BinaryOp} (hl : ls ∈ anyPhrase layer)
    (ho : layer.binaryOp? o.token = some op) (hr : rs ∈ anyPhrase layer.tighter) :
    ls ++ o :: rs ∈ anyPhrase layer := by
  obtain ⟨m, k, _, hl⟩ := hl
  obtain ⟨n, _, _, hr⟩ := hr
  exact ⟨m + n + k + 2, _, _, .binary (hl.mono (by omega)) ho (by omega) (hr.mono (by omega))⟩

/-- A callee and what stands between the parentheses behind it. -/
theorem anyPhrase_call (hf : ls ∈ anyPhrase .suffix)
    (h : rs ∈ word .lparen * (anyItems * word .rparen)) : ls ++ rs ∈ anyPhrase .suffix := by
  obtain ⟨m, k, _, hf⟩ := hf
  obtain ⟨_, ⟨a, rfl⟩, _, ⟨es, ⟨n, _, _, hes⟩, _, ⟨b, rfl⟩, rfl⟩, rfl⟩ := h
  have hcall : Phrase (m + n + k + 2) .suffix 0 (ls ++ ⟨.lparen, a⟩ :: es ++ [⟨.rparen, b⟩]) _ _ :=
    .call (hf.mono (by omega)) rfl (by omega) (hes.mono (by omega)) rfl
  rw [List.append_assoc] at hcall
  exact hcall.mem_anyPhrase

/-- A target and what stands between the brackets behind it. -/
theorem anyPhrase_index (ht : ls ∈ anyPhrase .suffix)
    (h : rs ∈ word .lbracket * (anyPhrase .equality * word .rbracket)) :
    ls ++ rs ∈ anyPhrase .suffix := by
  obtain ⟨m, k, _, ht⟩ := ht
  obtain ⟨_, ⟨a, rfl⟩, _, ⟨es, ⟨n, _, _, he⟩, _, ⟨b, rfl⟩, rfl⟩, rfl⟩ := h
  have hindex : Phrase (m + n + k + 2) .suffix 0
      (ls ++ ⟨.lbracket, a⟩ :: es ++ [⟨.rbracket, b⟩]) _ _ :=
    .index (ht.mono (by omega)) rfl (by omega) (he.mono (by omega)) rfl
  rw [List.append_assoc] at hindex
  exact hindex.mem_anyPhrase

theorem anyItems_one (h : ls ∈ anyPhrase .equality) : ls ∈ anyItems := by
  obtain ⟨n, k, e, h⟩ := h
  exact ⟨n, e, [], .one h⟩

theorem anyItems_cons (h : ls ∈ anyPhrase .equality) (ho : o.token = .comma)
    (hs : rs ∈ anyItems) : ls ++ o :: rs ∈ anyItems := by
  obtain ⟨m, k, e, h⟩ := h
  obtain ⟨n, f, es, hs⟩ := hs
  exact ⟨m + n, e, f :: es, .cons (h.mono (by omega)) ho (hs.mono (by omega))⟩

theorem anyPairs_one (h : ls ∈ anyPair) : ls ∈ anyPairs := by
  obtain ⟨ks, ⟨m, _, _, hk⟩, _, ⟨_, ⟨_, rfl⟩, vs, ⟨n, _, _, hv⟩, rfl⟩, rfl⟩ := h
  exact ⟨m + n, _, [], .one (hk.mono (by omega)) rfl (hv.mono (by omega))⟩

theorem anyPairs_cons (h : ls ∈ anyPair) (ho : o.token = .comma) (hs : rs ∈ anyPairs) :
    ls ++ o :: rs ∈ anyPairs := by
  obtain ⟨ks, ⟨m, _, _, hk⟩, _, ⟨_, ⟨_, rfl⟩, vs, ⟨n, _, _, hv⟩, rfl⟩, rfl⟩ := h
  obtain ⟨i, p, ps, hs⟩ := hs
  exact ⟨m + n + i, _, _, .cons (hk.mono (by omega)) rfl (hv.mono (by omega)) ho
    (hs.mono (by omega))⟩

theorem anySentence_define (ho : o.token = .letWord)
    (h : ls ∈ anyName * (word .assign * (anyPhrase .equality * word .semi))) :
    o :: ls ∈ anySentence := by
  obtain ⟨_, ⟨l, x, rfl, hl⟩, _, ⟨_, ⟨a, rfl⟩, _, ⟨es, ⟨n, k, e, he⟩, _, ⟨b, rfl⟩, rfl⟩, rfl⟩,
    rfl⟩ := h
  have hdefine : Statement n 0 true (o :: l :: ⟨.assign, a⟩ :: es ++ [⟨.semi, b⟩]) _ :=
    .define ho hl rfl he (.present rfl)
  exact ⟨n, _, hdefine⟩

theorem anySentence_expr (h : ls ∈ anyPhrase .equality * word .semi) : ls ∈ anySentence := by
  obtain ⟨es, ⟨n, k, e, he⟩, _, ⟨_, rfl⟩, rfl⟩ := h
  exact ⟨n, _, .expr he (.present rfl)⟩

theorem anyStatements_nil : [] ∈ anyStatements := ⟨0, [], .nil⟩

theorem anyStatements_cons {limit d : Nat} {ended : Bool} {s : Stmt}
    (h : Statement limit d ended ls s) (hnext : ended = true ∨ ¬ Continues rs)
    (hs : rs ∈ anyStatements) : ls ++ rs ∈ anyStatements := by
  obtain ⟨n, ss, hs⟩ := hs
  exact ⟨limit + n, s :: ss, .cons (h.mono (by omega)) hnext (hs.mono (by omega))⟩

theorem anyStatements_of_anySentence (h : ls ∈ anySentence) : ls ∈ anyStatements := by
  obtain ⟨n, s, h⟩ := h
  have hall := anyStatements_cons h (.inl rfl) anyStatements_nil
  rwa [List.append_nil] at hall

theorem anyBlock_braces (h : ls ∈ word .lbrace * (anyStatements * word .rbrace)) :
    ls ∈ anyBlock := by
  obtain ⟨_, ⟨_, rfl⟩, _, ⟨ss, ⟨n, _, hss⟩, _, ⟨_, rfl⟩, rfl⟩, rfl⟩ := h
  exact ⟨n, _, .braces rfl hss rfl⟩

theorem anyOtherwise_nil : [] ∈ anyOtherwise := ⟨0, none, .none⟩

theorem anyOtherwise_block (ho : o.token = .elseWord) (h : ls ∈ anyBlock) :
    o :: ls ∈ anyOtherwise := by
  obtain ⟨n, ss, h⟩ := h
  exact ⟨n, some ss, .block ho h⟩

end

/-! ## No language is empty -/

section

variable {L M : Language Lexeme}

instance (t : Token) : Nonempty {ls // ls ∈ word t} := ⟨_, ⟨0, 0⟩, rfl⟩

instance [hL : Nonempty {ls // ls ∈ L}] [hM : Nonempty {ls // ls ∈ M}] :
    Nonempty {ls // ls ∈ L * M} :=
  have ⟨_, hls⟩ := hL
  have ⟨_, hms⟩ := hM
  ⟨_, Language.append_mem_mul hls hms⟩

/-- `null` is a phrase of every layer, so no language of phrases is empty. -/
theorem null_mem_anyPhrase (layer : Layer) : [⟨.nullWord, ⟨0, 0⟩⟩] ∈ anyPhrase layer := by
  have hnull : Phrase 1 .atom 0 [⟨.nullWord, ⟨0, 0⟩⟩] 0 (.null ⟨0, 0⟩) := .leaf (by decide) rfl
  exact anyPhrase_loosen (by cases layer <;> decide) hnull.mem_anyPhrase

instance (layer : Layer) : Nonempty {ls // ls ∈ anyPhrase layer} := ⟨_, null_mem_anyPhrase layer⟩

instance : Nonempty {ls // ls ∈ anyItems} := ⟨_, anyItems_one (null_mem_anyPhrase .equality)⟩

instance : Nonempty {ls // ls ∈ anyPair} :=
  inferInstanceAs (Nonempty {ls // ls ∈ anyPhrase _ * (word .colon * anyPhrase _)})

instance : Nonempty {ls // ls ∈ anyPairs} :=
  have ⟨_, h⟩ : Nonempty {ls // ls ∈ anyPair} := inferInstance
  ⟨_, anyPairs_one h⟩

instance : Nonempty {ls // ls ∈ anyName} := ⟨_, ⟨.ident "", ⟨0, 0⟩⟩, "", rfl, rfl⟩

instance : Nonempty {ls // ls ∈ anyBlock} :=
  have hempty : Block 0 0 [⟨.lbrace, ⟨0, 0⟩⟩, ⟨.rbrace, ⟨0, 0⟩⟩] [] := .braces rfl .nil rfl
  ⟨_, 0, [], hempty⟩

instance : Nonempty {ls // ls ∈ anyStatements} := ⟨_, anyStatements_nil⟩

instance : Nonempty {ls // ls ∈ anyOtherwise} := ⟨_, anyOtherwise_nil⟩

end

end MonkeyLang.Grammar
