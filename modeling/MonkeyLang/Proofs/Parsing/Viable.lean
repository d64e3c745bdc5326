import MonkeyLang.Proofs.Parsing.Lookahead
import MonkeyLang.Proofs.Parsing.Unlimited

/-!
# The earliest token that fits nowhere

Some lexemes are viable if others can follow them such that the whole is a program, with whatever
levels that takes.  Where the parser gives up, and not for want of levels, what it took is viable,
and with the next lexeme it is not.

The first half is that every parser which fails leaves the beginning of a word behind it, of the
language that it reads:

    Unfinished L x      where `x` fails, other lexemes complete what it took to a word of `L`

Of parsers one after the other, the first to fail has its own completion, and any words of the
others stand behind that (`Unfinished.seq`).  A statement may be completed by a semicolon, so that
nothing goes on with it.  The second half is that the parser looks at no more than the next lexeme
(`Program.parseWithin_eq_error_of_take`):

    parse ls = .error e → e.cause ≠ .tooDeep → (e.unread = [] ↔ Viable ls) ∧ …
                                                                (Program.parse_error_earliest)
-/

namespace MonkeyLang

namespace Parser

open Token (word)
open Grammar

variable {α β : Type} {L M N : Language Lexeme} {x : Parser α} {f : α → Parser β}

/-! ## Parsers that break off -/

/-- Where the parser gives an answer, it took a word of the language that the answer asks for. -/
def Takes (L : α → Language Lexeme) (x : Parser α) : Prop :=
  ∀ ⦃c a c'⦄, x c = .ok (a, c') → ∃ ls ∈ L a, c.rest = ls ++ c'.rest

/-- Where the parser fails, and not for want of levels, it took the beginning of a word. -/
def Unfinished (L : Language Lexeme) (x : Parser α) : Prop :=
  ∀ ⦃c e⦄, x c = .error e → e.cause ≠ .tooDeep →
    ∃ ls ts, c.rest = ls ++ e.unread ∧ ls ++ ts ∈ L

/-- The parser has an answer everywhere. -/
def Answers (x : Parser α) : Prop := ∀ ⦃c e⦄, x c ≠ .error e

/-- What follows fails where the first of two parsers does, or the second behind it. -/
theorem bind_eq_error {c : Cursor} {e : ParseError} : (x >>= f) c = .error e ↔
    x c = .error e ∨ ∃ a c₁, x c = .ok (a, c₁) ∧ f a c₁ = .error e := by
  show (x c).bind (fun r => f r.1 r.2) = .error e ↔ _
  cases hx : x c with
  | error e' => simp [Except.bind]
  | ok r => simp [Except.bind, Prod.ext_iff]

theorem answers_pure (a : α) : Answers (pure a : Parser α) := fun _ _ h => by cases h

theorem answers_prevEnd : Answers prevEnd := fun _ _ h => by cases h

theorem answers_eat (t : Token) : Answers (eat t) := by
  intro c e
  unfold eat
  split
  · split <;> nofun
  · nofun

theorem Answers.bind (hx : Answers x) (hf : ∀ a, Answers (f a)) : Answers (x >>= f) := by
  intro c e he
  rcases bind_eq_error.1 he with he | ⟨a, c₁, -, he⟩
  · exact hx he
  · exact hf a he

/-- A node that ends where the last lexeme did. -/
theorem answers_end (g : Nat → α) : Answers (prevEnd >>= fun i => pure (g i)) :=
  answers_prevEnd.bind fun _ => answers_pure _

namespace Unfinished

theorem of_answers (h : Answers x) : Unfinished L x := fun _ _ he => absurd he (@h _ _)

/-- What fails before it takes anything. -/
theorem of_unread [hL : Nonempty {ls // ls ∈ L}]
    (h : ∀ ⦃c e⦄, x c = .error e → e.unread = c.rest) : Unfinished L x := by
  obtain ⟨ts, hts⟩ := hL
  intro c e he _
  exact ⟨[], ts, (h he).symm, hts⟩

theorem mono (h : Unfinished L x) (hLM : ∀ ls ∈ L, ls ∈ M) : Unfinished M x := by
  intro c e he hcause
  obtain ⟨ls, ts, hls, hmem⟩ := h he hcause
  exact ⟨ls, ts, hls, hLM _ hmem⟩

/-- Any word may stand behind what completes the first. -/
theorem append [hM : Nonempty {ls // ls ∈ M}] (h : Unfinished L x) : Unfinished (L * M) x := by
  obtain ⟨ms, hms⟩ := hM
  intro c e he hcause
  obtain ⟨ls, ts, hls, hmem⟩ := h he hcause
  refine ⟨ls, ts ++ ms, hls, ?_⟩
  rw [← List.append_assoc]
  exact Language.append_mem_mul hmem hms

/-- The first parser takes a word of its own, or the beginning of one; what the second takes stands
behind it. -/
theorem bind {L M : α → Language Lexeme} (hx : Takes L x) (hx' : Unfinished N x)
    (hf : ∀ a, Unfinished (M a) (f a)) (h : ∀ a, ∀ ls ∈ L a, ∀ rs ∈ M a, ls ++ rs ∈ N) :
    Unfinished N (x >>= f) := by
  intro c e he hcause
  rcases bind_eq_error.1 he with he | ⟨a, c₁, ha, he⟩
  · exact hx' he hcause
  · obtain ⟨ls, hls, hrest⟩ := hx ha
    obtain ⟨rs, ts, hrest₁, hmem⟩ := hf a he hcause
    refine ⟨ls ++ rs, ts, ?_, ?_⟩
    · rw [hrest, hrest₁, List.append_assoc]
    · rw [List.append_assoc]
      exact h a ls hls _ hmem

/-- One after the other. -/
theorem seq [Nonempty {ls // ls ∈ M}] (hx : Takes (fun _ => L) x) (hx' : Unfinished L x)
    (hf : ∀ a, Unfinished M (f a)) : Unfinished (L * M) (x >>= f) :=
  bind (M := fun _ => M) hx hx'.append hf fun _ _ hls _ hrs => Language.append_mem_mul hls hrs

/-- Nothing fails behind it. -/
theorem last (hx : Unfinished L x) (hf : ∀ a, Answers (f a)) : Unfinished L (x >>= f) := by
  intro c e he hcause
  rcases bind_eq_error.1 he with he | ⟨a, c₁, -, he⟩
  · exact hx he hcause
  · exact absurd he (@hf a _ _)

/-- Behind a look at what is next. -/
theorem look (hx : ∀ c, ∃ a, x c = .ok (a, c)) (hf : ∀ a, Unfinished L (f a)) :
    Unfinished L (x >>= f) := by
  intro c e he hcause
  obtain ⟨a, ha⟩ := hx c
  rw [bind_of_ok ha] at he
  exact hf a he hcause

/-- With a token that may be missing. -/
theorem eat {t : Token} {f : Bool → Parser β}
    (h : Unfinished {rs | ∀ o : Lexeme, o.token = t → o :: rs ∈ L} (f true))
    (h' : Unfinished L (f false)) : Unfinished L (eat t >>= f) := by
  intro c e he hcause
  rcases bind_eq_error.1 he with hb | ⟨b, c₁, hb, hf⟩
  · exact absurd hb (@answers_eat t _ _)
  · rcases eat_eq_ok.1 hb with ⟨rfl, o, ho, hot⟩ | ⟨rfl, rfl, -⟩
    · obtain ⟨rs, ts, hrest, hmem⟩ := h hf hcause
      exact ⟨o :: rs, ts, by rw [ho.rest_eq, hrest]; rfl, hmem o hot⟩
    · exact h' hf hcause

end Unfinished

/-! ## Single lexemes -/

/-- A lexeme that is refused is left unread. -/
theorem unread_eq_of_take {accept : Lexeme → Option α} {refuse : Option Token → ParseCause}
    {c : Cursor} {e : ParseError} (h : take accept refuse c = .error e) : e.unread = c.rest := by
  unfold take at h
  split at h
  · next hnil =>
    cases h
    exact hnil.symm
  · split at h
    · cases h
    · cases h
      rfl

theorem unfinished_expect (t : Token) : Unfinished (word t) (expect t) :=
  .of_unread fun _ _ => unread_eq_of_take

theorem takes_expect (t : Token) : Takes (fun _ => word t) (expect t) := by
  intro c u c' h
  obtain ⟨l, hl, ht⟩ := expect_eq_ok.1 h
  exact ⟨[l], singleton_mem_word ht, hl.rest_eq⟩

/-- The word, and then what is behind it. -/
theorem unfinished_expect_bind [Nonempty {ls // ls ∈ M}] {t : Token} {f : Unit → Parser β}
    (hf : ∀ u, Unfinished M (f u)) : Unfinished (word t * M) (expect t >>= f) :=
  .seq (takes_expect t) (unfinished_expect t) hf

theorem unfinished_fail [Nonempty {ls // ls ∈ L}] (cause : ParseCause) :
    Unfinished L (fail cause : Parser α) := .of_unread fun c e he => by cases he; rfl

theorem unfinished_name : Unfinished anyName name := .of_unread fun _ _ => unread_eq_of_take

theorem takes_name : Takes (fun _ => anyName) name := by
  intro c x c' h
  obtain ⟨l, hl, ht, -⟩ := name_eq_ok.1 h
  exact ⟨[l], ⟨l, x.1, rfl, ht⟩, hl.rest_eq⟩

/-- The first lexeme of an operand says what it begins. -/
theorem takes_operandStart {refuse : Option Token → ParseCause} :
    Takes (fun r => {ls | ∃ o : Lexeme, ls = [o] ∧ operandStart? o.token = some r.1})
      (take (fun l => (operandStart? l.token).map (·, l.span)) refuse) := by
  intro c r c' h
  obtain ⟨o, ho, hr⟩ := take_eq_ok.1 h
  obtain ⟨first, hfirst, rfl⟩ := Option.map_eq_some_iff.1 hr
  exact ⟨[o], ⟨o, rfl, hfirst⟩, ho.rest_eq⟩

/-! ## Lists -/

section

variable {item : Parser α} {I S : Language Lexeme} (hitem : Takes (fun _ => I) item)
  (hitem' : Unfinished I item) [Nonempty {ls // ls ∈ S}] (one : ∀ {ls}, ls ∈ I → ls ∈ S)
  (cons : ∀ {ls o rs}, ls ∈ I → o.token = .comma → rs ∈ S → ls ++ o :: rs ∈ S)
include hitem hitem' one cons

/-- Items up to the closing word, each of which begins as an item does. -/
theorem unfinished_itemsUpTo (close : Token) (bound : List Lexeme) (done : List α) :
    Unfinished (S * word close) (itemsUpTo item close bound done) := by
  rw [itemsUpTo.eq_def]
  have hfirst : Unfinished (S * word close) item := by
    refine (hitem'.append (M := word close)).mono ?_
    rintro _ ⟨ls, hls, cs, hcs, rfl⟩
    exact Language.append_mem_mul (one hls) hcs
  -- what may stand behind the item
  refine .bind (M := fun _ => {rs | ∀ ls ∈ I, ls ++ rs ∈ S * word close}) hitem hfirst
    (fun a => .eat ?_ ?_) fun _ ls hls _ hrs => hrs ls hls
  · refine Unfinished.mono (L := S * word close) ?_ ?_
    · cases bound with
      | nil => exact unfinished_fail _
      | cons _ bound => exact unfinished_itemsUpTo close bound (a :: done)
    · rintro _ ⟨rs, hrs, cs, hcs, rfl⟩ o ho ls hls
      have hall := Language.append_mem_mul (cons hls ho hrs) hcs
      rwa [List.append_assoc] at hall
  · refine ((unfinished_expect close).last fun _ => answers_pure _).mono fun cs hcs ls hls => ?_
    exact Language.append_mem_mul (one hls) hcs

theorem unfinished_list (close : Token) : Unfinished (S * word close) (list item close) := by
  refine .eat (.of_answers (answers_pure _)) (.look (fun c => ⟨c.rest, rfl⟩) fun bound => ?_)
  exact unfinished_itemsUpTo hitem hitem' one cons close bound []

end

/-! ## Statements and blocks -/

section

variable {n : Nat}

/-- What is read at a rank is a phrase, whatever levels it takes. -/
theorem takes_expr {rank : Rank} (hrank : rank.toNat ≤ Rank.sign.toNat) :
    Takes (fun _ => anyPhrase (.ofRank rank)) (expr n rank) := by
  intro c e c' h
  obtain ⟨ls, k, hls, hphrase, -⟩ := readsPhrases n hrank h
  exact ⟨ls, hphrase.mem_anyPhrase, hls.rest_eq⟩

theorem takes_lowest : Takes (fun _ => anyPhrase .equality) (expr n .lowest) :=
  takes_expr (by decide)

theorem takes_hashPair : Takes (fun _ => anyPair) (hashPair (expr n)) := by
  intro c p c' h
  obtain ⟨c₁, m, c₂, hk, hm, hmt, hv⟩ := hashPair_eq_ok.1 h
  obtain ⟨ks, hks, hrest⟩ := takes_lowest hk
  obtain ⟨vs, hvs, hrest₂⟩ := takes_lowest hv
  refine ⟨ks ++ ([m] ++ vs), ?_, ?_⟩
  · exact Language.append_mem_mul hks (Language.append_mem_mul (singleton_mem_word hmt) hvs)
  · rw [hrest, hm.rest_eq, hrest₂, List.append_assoc, List.append_assoc]

theorem takes_block : Takes (fun _ => anyBlock) (block (expr n .lowest)) := by
  intro c ss c' h
  obtain ⟨ls, hls, hblock⟩ := block_derived (readsPhrases n) h
  exact ⟨ls, ⟨n, ss, hblock⟩, hls.rest_eq⟩

variable (hexpr : Unfinished (anyPhrase .equality) (expr n .lowest))
include hexpr

theorem unfinished_hashPair : Unfinished anyPair (hashPair (expr n)) := by
  refine .seq takes_lowest hexpr fun key => ?_
  refine unfinished_expect_bind fun _ => ?_
  exact hexpr.last fun value => answers_pure _

/-- An expression and what ends a statement, of which nothing is missing but the semicolon. -/
theorem unfinished_sentence {f : Expr → Parser β} (hf : ∀ e, Answers (f e)) :
    Unfinished (anyPhrase .equality * word .semi) (expr n .lowest >>= f) :=
  .seq takes_lowest hexpr fun e => .of_answers (hf e)

theorem unfinished_statement : Unfinished anySentence (statement (expr n .lowest)) := by
  have hend (g : Nat → Stmt) : Answers (eat .semi >>= fun _ => prevEnd >>= fun i => pure (g i)) :=
    (answers_eat .semi).bind fun _ => answers_end g
  refine .look (fun c => ⟨_, nextStart_eq⟩) fun start => .eat ?_ ?_
  · have hdefine (x : String × Span) := unfinished_sentence hexpr fun e =>
      hend fun stop => .define x.1 x.2 e ⟨start, stop⟩
    refine Unfinished.mono (.seq takes_name unfinished_name fun x => ?_) fun _ h _ ho =>
      anySentence_define ho h
    exact unfinished_expect_bind fun _ => hdefine x
  · exact (unfinished_sentence hexpr fun e => hend _).mono fun _ => anySentence_expr

/-- The step of the loops over statements.  A statement goes before the rest of them, unless it has
no semicolon and they go on with it; the parser would have gone on too, so they do not. -/
theorem unfinished_statement_bind {f : Stmt → Parser β} (hf : ∀ s, Unfinished anyStatements (f s)) :
    Unfinished anyStatements (statement (expr n .lowest) >>= f) := by
  intro c e he hcause
  rcases bind_eq_error.1 he with hs | ⟨s, c₁, hs, hfs⟩
  · obtain ⟨ls, ts, hrest, hmem⟩ := unfinished_statement hexpr hs hcause
    exact ⟨ls, ts, hrest, anyStatements_of_anySentence hmem⟩
  · obtain ⟨ls, ended, hls, hstatement, hend⟩ := statement_derived (readsPhrases n) hs
    obtain ⟨rs, ts, hrest, hmem⟩ := hf s hfs hcause
    by_cases hrs : rs = []
    -- of the rest nothing is there, and nothing need follow
    · refine ⟨ls, [], ?_, anyStatements_cons hstatement (.inr nofun) anyStatements_nil⟩
      rw [hls.rest_eq, hrest, hrs, List.nil_append]
    · have hnext : ended = true ∨ ¬ Continues (rs ++ ts) := by
        refine hend.imp id fun h => ?_
        rw [continues_append hrs]
        have hrs : c₁.Took rs ⟨endFrom c₁.prevEnd rs, e.unread⟩ := ⟨hrest, rfl⟩
        exact not_continues_of_took hrs h
      refine ⟨ls ++ rs, ts, ?_, ?_⟩
      · rw [hls.rest_eq, hrest, List.append_assoc]
      · rw [List.append_assoc]
        exact anyStatements_cons hstatement hnext hmem

/-- The statements of a block, up to where they break off. -/
theorem unfinished_statementsUpToBrace (bound : List Lexeme) (done : List Stmt) :
    Unfinished anyStatements (statementsUpToBrace (statement (expr n .lowest)) bound done) := by
  rw [statementsUpToBrace.eq_def]
  refine .eat (.of_answers (answers_pure _)) (.look (fun c => ⟨_, peek?_eq⟩) fun t => ?_)
  cases t with
  | none => exact unfinished_fail _
  | some t =>
    refine unfinished_statement_bind hexpr fun s => ?_
    cases bound with
    | nil => exact unfinished_fail _
    | cons _ bound => exact unfinished_statementsUpToBrace bound (s :: done)

/-- The statements of a program, up to where they break off. -/
theorem unfinished_statementsUpToEnd (bound : List Lexeme) (done : List Stmt) :
    Unfinished anyStatements (statementsUpToEnd (statement (expr n .lowest)) bound done) := by
  rw [statementsUpToEnd.eq_def]
  refine .look (fun c => ⟨_, peek?_eq⟩) fun t => ?_
  cases t with
  | none => exact .of_answers (answers_pure _)
  | some t =>
    refine unfinished_statement_bind hexpr fun s => ?_
    cases bound with
    | nil => exact .of_answers (answers_pure _)
    | cons _ bound => exact unfinished_statementsUpToEnd bound (s :: done)

theorem unfinished_block : Unfinished anyBlock (block (expr n .lowest)) := by
  refine Unfinished.mono (unfinished_expect_bind fun _ => ?_) fun _ =>
    anyBlock_braces
  refine .look (fun c => ⟨c.rest, rfl⟩) fun bound => ?_
  exact (unfinished_statementsUpToBrace hexpr bound []).append

end

/-! ## Operands and operators -/

section

variable {n : Nat}
  (hexpr : ∀ {rank : Rank}, rank.toNat ≤ Rank.sign.toNat →
    Unfinished (anyPhrase (.ofRank rank)) (expr n rank))
include hexpr

theorem unfinished_lowest : Unfinished (anyPhrase .equality) (expr n .lowest) := hexpr (by decide)

theorem unfinished_items (close : Token) :
    Unfinished (anyItems * word close) (list (expr n .lowest) close) :=
  unfinished_list takes_lowest (unfinished_lowest hexpr) anyItems_one anyItems_cons close

theorem unfinished_pairs (close : Token) :
    Unfinished (anyPairs * word close) (list (hashPair (expr n)) close) :=
  unfinished_list takes_hashPair (unfinished_hashPair (unfinished_lowest hexpr)) anyPairs_one
    anyPairs_cons close

/-- An expression and the word behind it, and nothing to fail after that. -/
theorem unfinished_expr_expect (t : Token) {f : Expr → Unit → Parser β}
    (hf : ∀ e u, Answers (f e u)) : Unfinished (anyPhrase .equality * word t)
      (expr n .lowest >>= fun e => expect t >>= f e) :=
  .seq takes_lowest (unfinished_lowest hexpr) fun e => (unfinished_expect t).last (hf e)

theorem unfinished_otherwise {f : List Stmt → Parser β} {x : Parser β} (hf : ∀ ss, Answers (f ss))
    (hx : Answers x) : Unfinished anyOtherwise
      (eat .elseWord >>= fun b => if b then block (expr n .lowest) >>= f else x) := by
  refine .eat ?_ (.of_answers hx)
  exact ((unfinished_block (unfinished_lowest hexpr)).last hf).mono fun ls hls w hw =>
    anyOtherwise_block hw hls

/-- One case for each form of an operand. -/
theorem unfinished_operand : Unfinished (anyPhrase .sign) (operand (expr n)) := by
  have hatom {ls : List Lexeme} (h : ls ∈ anyPhrase .atom) : ls ∈ anyPhrase .sign :=
    anyPhrase_loosen (by decide) h
  unfold operand
  refine .bind takes_operandStart (.of_unread fun _ _ => unread_eq_of_take)
    (M := fun r => {rs | ∀ o : Lexeme, operandStart? o.token = some r.1 →
      o :: rs ∈ anyPhrase .sign}) ?_ ?_
  · rintro ⟨first, span⟩
    cases first with
    | leaf node => exact .of_answers (answers_pure _)
    | sign op =>
      refine ((hexpr (Nat.le_refl _)).last fun e => answers_end _).mono fun ls hls o ho => ?_
      exact anyPhrase_unary (operandStart?_inv ho) hls
    | paren =>
      refine Unfinished.mono (unfinished_expr_expect hexpr .rparen fun e _ => answers_end _)
        fun ls hls o ho => ?_
      exact hatom (anyPhrase_paren (operandStart?_inv ho) hls)
    | bracket =>
      refine Unfinished.mono ((unfinished_items hexpr .rbracket).last fun es => answers_end _)
        fun ls hls o ho => ?_
      exact hatom (anyPhrase_array (operandStart?_inv ho) hls)
    | brace =>
      refine Unfinished.mono ((unfinished_pairs hexpr .rbrace).last fun ps => answers_end _)
        fun ls hls o ho => ?_
      exact hatom (anyPhrase_hash (operandStart?_inv ho) hls)
    | ifWord =>
      refine Unfinished.mono (unfinished_expect_bind fun _ =>
        .seq takes_lowest (unfinished_lowest hexpr) fun test =>
          unfinished_expect_bind fun _ =>
            .seq takes_block (unfinished_block (unfinished_lowest hexpr)) fun yes =>
              unfinished_otherwise hexpr (fun no => answers_end _) (answers_end _))
        fun ls hls o ho => ?_
      exact hatom (anyPhrase_cond (operandStart?_inv ho) hls)
  · rintro r _ ⟨o, rfl, ho⟩ rs hrs
    exact hrs o ho

/-- An operator between operands, behind a phrase that it does not bind tighter than. -/
theorem unfinished_binary {rank : Rank} {layer : Layer} {ls : List Lexeme} {t : Token}
    {op : BinaryOp} (hop : binaryOp? t = some op) (hrank : rank.toNat ≤ Rank.sign.toNat)
    (hls : ls ∈ anyPhrase layer) (hlt : rank.toNat < (rankOf t).toNat)
    (hlayer : strength t ≤ layer.toNat) (g : Expr → Expr) :
    Unfinished {rs | ls ++ rs ∈ anyPhrase (.ofRank rank)}
      (expect t >>= fun _ => expr n (rankOf t) >>= fun right => pure (g right)) := by
  obtain ⟨layer', hop', htighter⟩ := Layer.exists_binaryOp? hop
  obtain ⟨-, hrankOf, hstrength, hproduct⟩ := Layer.binaryOp?_eq_some hop'
  have hright := hexpr (hrankOf ▸ Nat.le_trans hproduct (by decide))
  refine Unfinished.mono (unfinished_expect_bind fun _ =>
    hright.last fun right => answers_pure _) ?_
  rintro _ ⟨_, ⟨a, rfl⟩, rs, hrs, rfl⟩
  have hall := anyPhrase_binary (o := ⟨t, a⟩) (anyPhrase_loosen (hstrength ▸ hlayer) hls) hop'
    (htighter ▸ hrs)
  exact anyPhrase_loosen (Layer.toNat_ofRank_le hrank (hrankOf ▸ hlt)) hall

/-- What is read behind a phrase that the operator does not bind tighter than. -/
theorem unfinished_extend {rank : Rank} {layer : Layer} {ls : List Lexeme} {t : Token}
    (hrank : rank.toNat ≤ Rank.sign.toNat) (hls : ls ∈ anyPhrase layer)
    (hlt : rank.toNat < (rankOf t).toNat) (hlayer : strength t ≤ layer.toNat) (left : Expr) :
    Unfinished {rs | ls ++ rs ∈ anyPhrase (.ofRank rank)} (extend (expr n) left t) := by
  unfold extend
  cases hop : binaryOp? t with
  | some op =>
    exact unfinished_binary hexpr hop hrank hls hlt hlayer fun right =>
      .binary left op right (left.span.merge right.span)
  | none =>
    have hsuffix (h : strength t = Layer.suffix.toNat) : ls ∈ anyPhrase .suffix :=
      anyPhrase_loosen (h ▸ hlayer) hls
    have hloose {rs : List Lexeme} (h : ls ++ rs ∈ anyPhrase .suffix) :
        ls ++ rs ∈ anyPhrase (.ofRank rank) :=
      anyPhrase_loosen (Layer.toNat_ofRank_le hrank (Nat.lt_of_le_of_lt hrank (by decide))) h
    by_cases ht : t = .lparen
    · subst ht
      refine Unfinished.mono (unfinished_expect_bind fun _ =>
        (unfinished_items hexpr .rparen).last fun args => answers_end _) fun rs hrs => ?_
      exact hloose (anyPhrase_call (hsuffix rfl) hrs)
    · obtain rfl := eq_lbracket_of_rankOf (by omega) hop ht
      refine Unfinished.mono (unfinished_expect_bind fun _ =>
        unfinished_expr_expect hexpr .rbracket fun i _ => answers_end _) fun rs hrs => ?_
      exact hloose (anyPhrase_index (hsuffix rfl) hrs)

end

/-! ## Expressions -/

/-- Where the loop over operators fails, behind a phrase as in `ReadsOperators`, it has read the
beginning of one of its rank. -/
def BreaksOff (limit n d k : Nat) : Prop :=
  ∀ ⦃rank : Rank⦄ ⦃layer : Layer⦄ ⦃c₀ c : Cursor⦄ ⦃ls : List Lexeme⦄ ⦃left : Expr⦄
    ⦃e : ParseError⦄,
    rank.toNat ≤ Rank.sign.toNat → Phrase limit layer d ls k left → rank.toNat < layer.toNat →
    (∀ t ∈ c.next?, strength t ≤ layer.toNat) → c₀.Took ls c →
    operators n rank left c = .error e → e.cause ≠ .tooDeep →
      ∃ ls' ts, c₀.rest = ls' ++ e.unread ∧ ls' ++ ts ∈ anyPhrase (.ofRank rank)

/-- Without levels the loop only fails for want of them. -/
theorem breaksOff_zero (limit d k : Nat) : BreaksOff limit 0 d k := by
  intro rank layer c₀ c ls left e _ _ _ _ _ h hcause
  by_cases hle : ∀ t ∈ c.next?, (rankOf t).toNat ≤ rank.toNat
  · rw [operators_of_le hle] at h
    cases h
  · obtain ⟨t, ht, hgt⟩ := exists_of_not_le hle
    rw [operators, bind_of_ok peek?_eq, ht] at h
    simp only [if_neg (Nat.not_le_of_lt hgt)] at h
    cases h
    exact absurd rfl hcause

/-- One round of the loop, with the phrase so far as the left side. -/
theorem breaksOff_succ {limit n d k : Nat} (hn : n + (d + 1 + (k + 1)) = limit)
    (hexpr : ∀ {rank : Rank}, rank.toNat ≤ Rank.sign.toNat →
      Unfinished (anyPhrase (.ofRank rank)) (expr n rank))
    (hops : BreaksOff limit n d (k + 1)) : BreaksOff limit (n + 1) d k := by
  intro rank layer c₀ c ls left e hrank hleft hlt hnext hls h hcause
  by_cases hle : ∀ t ∈ c.next?, (rankOf t).toNat ≤ rank.toNat
  · rw [operators_of_le hle] at h
    cases h
  · obtain ⟨t, ht, hgt⟩ := exists_of_not_le hle
    rw [operators_succ_of_lt ht hgt] at h
    -- this operator is not read to its end, or one behind it is not
    rcases bind_eq_error.1 h with hext | ⟨whole, c₁, hwhole, h⟩
    · obtain ⟨rs, ts, hrest, hmem⟩ :=
        unfinished_extend hexpr hrank hleft.mem_anyPhrase hgt (hnext t ht) left hext hcause
      refine ⟨ls ++ rs, ts, ?_, ?_⟩
      · rw [hls.rest_eq, hrest, List.append_assoc]
      · rw [List.append_assoc]
        exact hmem
    · have hread : ReadsPhrases limit n (d + 1 + (k + 1)) :=
        (readsPhrases_and_readsOperators n).1 _ hn
      obtain ⟨layer', ls', hls', hphrase, hge, hnext'⟩ :=
        extend_derived hread rfl (by omega) hleft hls (by omega) (hnext t ht) hwhole
      exact hops hrank hphrase (by omega) hnext' hls' h hcause

theorem unfinished_expr_succ {n : Nat}
    (hexpr : ∀ {rank : Rank}, rank.toNat ≤ Rank.sign.toNat →
      Unfinished (anyPhrase (.ofRank rank)) (expr n rank))
    (hops : BreaksOff (n + 1) n 0 0) {rank : Rank} (hrank : rank.toNat ≤ Rank.sign.toNat) :
    Unfinished (anyPhrase (.ofRank rank)) (expr (n + 1) rank) := by
  intro c e h hcause
  rw [expr_succ] at h
  rcases bind_eq_error.1 h with hop | ⟨left, c₁, hleft, h⟩
  · obtain ⟨ls, ts, hrest, hmem⟩ := unfinished_operand hexpr hop hcause
    have hle : (Layer.ofRank rank).toNat ≤ Layer.sign.toNat :=
      Layer.toNat_ofRank_le hrank (Nat.lt_succ_of_le hrank)
    exact ⟨ls, ts, hrest, anyPhrase_loosen hle hmem⟩
  · have hread : ReadsPhrases (n + 1) n 1 := (readsPhrases_and_readsOperators n).1 1 rfl
    obtain ⟨ls, hls, hatom | ⟨hsign, hnext⟩⟩ := operand_derived hread rfl (by omega) hleft
    · refine hops hrank hatom ?_ (fun t _ => Nat.le_succ_of_le (strength_le_suffix t)) hls h hcause
      exact Nat.lt_of_le_of_lt hrank (by decide)
    · exact hops hrank hsign (Nat.lt_succ_of_le hrank) hnext hls h hcause

/-- By induction on the levels, as expressions and operators take them from each other. -/
theorem unfinished_expr_and_breaksOff (n : Nat) :
    (∀ {rank : Rank}, rank.toNat ≤ Rank.sign.toNat →
      Unfinished (anyPhrase (.ofRank rank)) (expr n rank)) ∧
      ∀ limit d k, n + (d + 1 + k) = limit → BreaksOff limit n d k := by
  induction n with
  | zero =>
    refine ⟨fun _ c e h hcause => ?_, fun limit d k _ => breaksOff_zero limit d k⟩
    cases h
    exact absurd rfl hcause
  | succ n ih =>
    obtain ⟨hexpr, hops⟩ := ih
    refine ⟨unfinished_expr_succ hexpr (hops _ _ _ rfl), fun limit d k hd => ?_⟩
    exact breaksOff_succ (by omega) hexpr (hops _ _ _ (by omega))

/-- A program that breaks off is the beginning of one. -/
theorem unfinished_program (n : Nat) (bound : List Lexeme) : Unfinished anyStatements
    (statementsUpToEnd (statement (expr n .lowest)) bound []) :=
  unfinished_statementsUpToEnd ((unfinished_expr_and_breaksOff n).1 (by decide)) bound []

end Parser

/-! ## Programs -/

namespace Program

open Grammar

/-- The lexemes are a program, for a parser that has levels enough for it. -/
def Accepts (ls : List Lexeme) : Prop := ∃ levels p, parseWithin levels ls = .ok p

/-- Other lexemes can follow such that the whole is a program. -/
def Viable (ls : List Lexeme) : Prop := ∃ ls', ls <+: ls' ∧ Accepts ls'

/-- With levels enough, statements are a program. -/
theorem accepts_of_mem_anyStatements {ls : List Lexeme} (h : ls ∈ anyStatements) : Accepts ls := by
  obtain ⟨limit, ss, h⟩ := h
  have hderives : Derives limit ls ⟨ss⟩ := h
  exact ⟨limit, ⟨ss⟩, hderives.parseWithin_eq⟩

theorem Viable.of_prefix {ls rs : List Lexeme} (h : Viable ls) (hrs : rs <+: ls) : Viable rs := by
  obtain ⟨ls', hls', haccepts⟩ := h
  exact ⟨ls', hrs.trans hls', haccepts⟩

variable {ls : List Lexeme} {e : ParseError}

/-- What has been read before the error can be gone on with. -/
theorem viable_of_parse_eq_error (h : parse ls = .error e) (hcause : e.cause ≠ .tooDeep) :
    ∃ rs, ls = rs ++ e.unread ∧ Viable rs := by
  have hrun := parseWithin_eq_error_iff.1 h
  obtain ⟨rs, ts, hrest, hmem⟩ := Parser.unfinished_program nestingLimit ls hrun hcause
  exact ⟨rs, hrest, rs ++ ts, List.prefix_append rs ts, accepts_of_mem_anyStatements hmem⟩

/-- With the lexeme at fault, it cannot. -/
theorem not_viable_of_parse_eq_error {i : Nat} (h : parse ls = .error e)
    (hcause : e.cause ≠ .tooDeep) (hi : i < ls.length) (hunread : e.unread = ls.drop i) :
    ¬ Viable (ls.take (i + 1)) := by
  rintro ⟨ls', hprefix, levels, p, hp⟩
  have htake : ls.take (i + 1) = ls'.take (i + 1) := by
    have hlength : (ls.take (i + 1)).length = i + 1 := List.length_take_of_le hi
    have := List.prefix_iff_eq_take.1 hprefix
    rwa [hlength] at this
  have hderives : Derives (nestingLimit + levels) ls' p :=
    Statements.mono (by omega) (parseWithin_eq_ok_iff.1 hp)
  have herror := parseWithin_eq_error_of_take (Nat.le_add_right nestingLimit levels) h hcause hi
    hunread htake
  exact absurd (hderives.parseWithin_eq.symm.trans herror) nofun

/-- The error is at the first lexeme that cannot stand where it does, or behind them all. -/
theorem earliest_of_parse_eq_error (h : parse ls = .error e) (hcause : e.cause ≠ .tooDeep) :
    ∃ i ≤ ls.length, e.unread = ls.drop i ∧ Viable (ls.take i) ∧
      (i < ls.length → ¬ Viable (ls.take (i + 1))) := by
  obtain ⟨rs, hrest, hviable⟩ := viable_of_parse_eq_error h hcause
  have hunread : e.unread = ls.drop rs.length := by
    rw [hrest]
    exact (List.drop_left ..).symm
  refine ⟨rs.length, ?_, hunread, ?_, fun hi => not_viable_of_parse_eq_error h hcause hi hunread⟩
  · rw [hrest, List.length_append]
    exact Nat.le_add_right _ _
  · rw [hrest, List.take_left]
    exact hviable

/-- At the end of the input nothing is wrong but that there is an end. -/
theorem unread_eq_nil_iff_viable (h : parse ls = .error e) (hcause : e.cause ≠ .tooDeep) :
    e.unread = [] ↔ Viable ls := by
  obtain ⟨i, hi, hunread, hviable, hnot⟩ := earliest_of_parse_eq_error h hcause
  rw [hunread, List.drop_eq_nil_iff]
  constructor
  · intro hle
    rwa [List.take_of_length_le hle] at hviable
  · intro hls
    by_contra hlt
    exact hnot (Nat.lt_of_not_le hlt) (hls.of_prefix (List.take_prefix _ _))

end Program

/-- The error is shown at the lexeme at fault, or at the end. -/
theorem ParseError.span_eq {ls : List Lexeme} {e : ParseError} {i : Nat}
    (h : e.unread = ls.drop i) (size : Nat) :
    e.span size = (ls[i]?.map (·.span)).getD ⟨size, size⟩ := by
  rw [ParseError.span, h, ← List.head?_drop]
  cases ls.drop i <;> rfl

section

open Token

variable {source : String} {ls : List Lexeme} (hscan : scan source = .ok ls)
include hscan

/-- No lexeme of a source has the span of its end. -/
theorem Token.span_ne_end_of_scan {l : Lexeme} (hl : l ∈ ls) (n : Nat) : l.span ≠ ⟨n, n⟩ := by
  have hlt := (((scan_eq_ok_iff.1 hscan).spans).1 l hl).2.1
  intro h
  rw [h] at hlt
  exact Nat.lt_irrefl n hlt

/-- The lexemes of a source are told apart by their spans. -/
theorem Token.index_eq_of_scan {i j : Nat} {l m : Lexeme} (hi : ls[i]? = some l)
    (hj : ls[j]? = some m) (h : l.span = m.span) : i = j := by
  obtain ⟨hspans, hpairwise⟩ := (scan_eq_ok_iff.1 hscan).spans
  have hnodup : (ls.map (·.span)).Nodup := by
    refine List.pairwise_map.2 (hpairwise.imp_of_mem fun {a b} ha hb hle heq => ?_)
    have hlt := (hspans b hb).2.1
    rw [heq] at hle
    exact Nat.not_lt_of_le hle hlt
  have hlength : i < (ls.map (·.span)).length := by
    rw [List.length_map]
    exact (List.getElem?_eq_some_iff.1 hi).1
  refine (List.getElem?_inj hlength hnodup).1 ?_
  rw [List.getElem?_map, List.getElem?_map, hi, hj]
  exact congrArg some h

end

/-- An error of the parser, other than for want of levels, is at the first lexeme that no program
has there: others can follow those before it to make a program, and none can with it.  It is at the
end if and only if others can follow all of them.  Where the lexemes are those of a source, the span
of the error says which of these it is. -/
theorem Program.parse_error_earliest {ls : List Lexeme} {e : ParseError}
    (h : parse ls = .error e) (hcause : e.cause ≠ .tooDeep) :
    (∃ i ≤ ls.length, e.unread = ls.drop i ∧
      (∀ size, e.span size = (ls[i]?.map (·.span)).getD ⟨size, size⟩) ∧
      Viable (ls.take i) ∧ (i < ls.length → ¬ Viable (ls.take (i + 1)))) ∧
    (e.unread = [] ↔ Viable ls) ∧
    ∀ source, Token.scan source = .ok ls →
      (∀ i l, ls[i]? = some l → e.span source.utf8ByteSize = l.span →
        Viable (ls.take i) ∧ ¬ Viable (ls.take (i + 1))) ∧
      (e.span source.utf8ByteSize = ⟨source.utf8ByteSize, source.utf8ByteSize⟩ ↔ Viable ls) := by
  obtain ⟨i, hi, hunread, hviable, hnot⟩ := earliest_of_parse_eq_error h hcause
  have hend := unread_eq_nil_iff_viable h hcause
  have hspan := ParseError.span_eq hunread
  refine ⟨⟨i, hi, hunread, hspan, hviable, hnot⟩, hend, fun source hscan => ⟨?_, ?_⟩⟩
  · intro j l hj hl
    rw [hspan] at hl
    cases hget : ls[i]? with
    | none =>
      rw [hget] at hl
      exact absurd hl.symm (Token.span_ne_end_of_scan hscan (List.mem_of_getElem? hj) _)
    | some m =>
      rw [hget] at hl
      obtain rfl := Token.index_eq_of_scan hscan hget hj hl
      exact ⟨hviable, hnot (List.getElem?_eq_some_iff.1 hget).1⟩
  · rw [← hend, hspan, hunread, List.drop_eq_nil_iff, ← List.getElem?_eq_none_iff]
    cases hget : ls[i]? with
    | none => exact iff_of_true rfl rfl
    | some m =>
      exact iff_of_false (Token.span_ne_end_of_scan hscan (List.mem_of_getElem? hget) _) nofun

/-- In `(1 ;` the semicolon is the first that fits nowhere. -/
theorem Program.parse_error_earliest_of_semi :
    let ls : List Lexeme := [⟨.lparen, ⟨0, 1⟩⟩, ⟨.int 1, ⟨1, 2⟩⟩, ⟨.semi, ⟨3, 4⟩⟩]
    Token.scan "(1 ;" = .ok ls ∧ parse ls = .error ⟨.expected .rparen (some .semi), ls.drop 2⟩ ∧
      Viable (ls.take 2) ∧ ¬ Viable ls := by
  intro ls
  have hscan : Token.scan "(1 ;" = .ok ls := by decide +kernel
  have hparse : parse ls = .error ⟨.expected .rparen (some .semi), ls.drop 2⟩ := rfl
  have hall := (parse_error_earliest hparse (by decide)).2.2 "(1 ;" hscan
  exact ⟨hscan, hparse, hall.1 2 ⟨.semi, ⟨3, 4⟩⟩ rfl rfl⟩

end MonkeyLang
