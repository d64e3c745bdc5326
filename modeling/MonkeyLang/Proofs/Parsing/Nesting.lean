import MonkeyLang.Proofs.Parsing.Derives

/-!
# How deep a tree is

A chain goes from an expression down to one of its parts, and on.  The parser counts levels, and
its count is no bound on the length of a chain: an operator on a left spine is one level above the
operators before it, but what stands inside the first operand was counted from the depth of the
spine, not from that of the operator.  So a chain down a left spine pays for the spine, and then
for no more than its depth.

`fits n k w` has the shapes `w` of chains that can be paid for with `n` levels below the first
expression, where `k` operators may stand on its left spine.

    Phrase limit layer d ls k e → Path e w f → fits (limit - (d + 1)) k w        (Phrase.fits)
    fits n k w → w.length ≤ k + n * (n + 1) / 2                       (length_le_of_fits)
-/

namespace MonkeyLang

/-! ## Chains -/

/-- The expression that a statement is about. -/
def Stmt.value : Stmt → Expr
  | .define _ _ e _ => e
  | .expr e _ => e

/-- A part is the left operand, what is indexed or what is called, or it is inside. -/
inductive Descent where
  | left
  | inner
deriving DecidableEq

namespace Expr

/-- The second expression is a part of the first, with no other between them. -/
inductive Below : Descent → Expr → Expr → Prop
  | binary_left {l r : Expr} {op : BinaryOp} {s : Span} : Below .left (.binary l op r s) l
  | binary_right {l r : Expr} {op : BinaryOp} {s : Span} : Below .inner (.binary l op r s) r
  | target {t i : Expr} {s : Span} : Below .left (.index t i s) t
  | subscript {t i : Expr} {s : Span} : Below .inner (.index t i s) i
  | callee {f : Expr} {args : List Expr} {s : Span} : Below .left (.call f args s) f
  | arg {f e : Expr} {args : List Expr} {s : Span} (he : e ∈ args) :
      Below .inner (.call f args s) e
  | operand {op : UnaryOp} {e : Expr} {s : Span} : Below .inner (.unary op e s) e
  | item {e : Expr} {es : List Expr} {s : Span} (he : e ∈ es) : Below .inner (.array es s) e
  | key {p : Expr × Expr} {ps : List (Expr × Expr)} {s : Span} (hp : p ∈ ps) :
      Below .inner (.hash ps s) p.1
  | value {p : Expr × Expr} {ps : List (Expr × Expr)} {s : Span} (hp : p ∈ ps) :
      Below .inner (.hash ps s) p.2
  | test {test : Expr} {yes : List Stmt} {no : Option (List Stmt)} {s : Span} :
      Below .inner (.cond test yes no s) test
  | yes {test : Expr} {yes : List Stmt} {no : Option (List Stmt)} {s : Span} {stmt : Stmt}
      (hs : stmt ∈ yes) : Below .inner (.cond test yes no s) stmt.value
  | no {test : Expr} {yes no : List Stmt} {s : Span} {stmt : Stmt} (hs : stmt ∈ no) :
      Below .inner (.cond test yes (some no) s) stmt.value

/-- A chain from one expression down to another. -/
inductive Path : Expr → List Descent → Expr → Prop
  | nil {e : Expr} : Path e [] e
  | cons {e f g : Expr} {s : Descent} {w : List Descent} (hb : Below s e f) (hp : Path f w g) :
      Path e (s :: w) g

theorem Below.of_withSpan {s : Descent} {e f : Expr} {t : Span} (h : Below s (e.withSpan t) f) :
    Below s e f := by
  cases e <;> cases h <;> first | exact .no ‹_› | (constructor <;> assumption)

theorem Path.append {e f g : Expr} {v w : List Descent} (hv : Path e v f) (hw : Path f w g) :
    Path e (v ++ w) g := by
  induction hv with
  | nil => exact hw
  | cons hb _ ih => exact .cons hb (ih hw)

/-- A parenthesised expression has the parts of the one inside. -/
theorem Path.withSpan {e f : Expr} {s : Descent} {w : List Descent} (h : Path e (s :: w) f)
    (t : Span) : Path (e.withSpan t) (s :: w) f := by
  cases h with
  | cons hb hp =>
    refine .cons (Below.of_withSpan (t := e.span) ?_) hp
    cases e <;> exact hb

end Expr

/-- Some chain in the program has this shape, and so one more expression than steps. -/
def Program.HasChain (p : Program) (w : List Descent) : Prop :=
  ∃ s ∈ p.statements, ∃ v e f, Expr.Path s.value v e ∧ Expr.Path e w f

namespace Grammar

open MonkeyLang.Expr

/-! ## Budgets -/

/-- Whether `n` levels below an expression pay for a chain, where `k` operators may stand on its
left spine.  When the spine is used up, parentheses start another one level down; what is inside is
a level down, too, and has a whole spine of its own. -/
def fits : Nat → Nat → List Descent → Bool
  | _, _, [] => true
  | n, k + 1, .left :: w => fits n k w
  | n + 2, 0, .left :: w => fits (n + 1) n w
  | n + 1, _, .inner :: w => fits n n w
  | _, _, _ => false

/-- With no operators left on the spine, a step to the left takes a level of depth. -/
theorem fits_left_zero {n : Nat} {w : List Descent} (h : fits n 0 (.left :: w)) :
    ∃ m, n = m + 1 + 1 ∧ fits (m + 1) m w := by
  match n, h with
  | m + 2, h => exact ⟨m, rfl, h⟩

theorem fits_inner {n k : Nat} {w : List Descent} (h : fits n k (.inner :: w)) :
    ∃ m, n = m + 1 ∧ fits m m w := by
  match n, k, h with
  | m + 1, 0, h => exact ⟨m, rfl, h⟩
  | m + 1, _ + 1, h => exact ⟨m, rfl, h⟩

theorem fits_inner_eq (n k : Nat) (w : List Descent) :
    fits (n + 1) k (.inner :: w) = fits n n w := by
  cases k <;> rfl

/-- A level is worth more than any spine below it. -/
theorem fits_mono {n n' k k' : Nat} {w : List Descent} (hk : k ≤ n)
    (hlt : n < n' ∨ n = n' ∧ k ≤ k') (h : fits n k w) : fits n' k' w := by
  induction w generalizing n n' k k' with
  | nil => cases n' <;> cases k' <;> rfl
  | cons s w ih =>
    cases s with
    | inner =>
      obtain ⟨m, rfl, h⟩ := fits_inner h
      obtain ⟨m', rfl⟩ : ∃ m', n' = m' + 1 := ⟨n' - 1, by omega⟩
      rw [fits_inner_eq]
      exact ih (Nat.le_refl m) (by omega) h
    | left =>
      -- what is left of the smaller budget is still smaller, whichever spine the step is on
      obtain ⟨m, j, hj, hless, h⟩ : ∃ m j, j < m ∧ (m < n ∨ m = n ∧ j + 1 = k) ∧ fits m j w := by
        cases k with
        | zero =>
          obtain ⟨m, rfl, h⟩ := fits_left_zero h
          exact ⟨m + 1, m, by omega, by omega, h⟩
        | succ k => exact ⟨n, k, by omega, by omega, h⟩
      cases k' with
      | succ k' => exact ih (Nat.le_of_lt hj) (by omega) h
      | zero =>
        obtain ⟨m', rfl⟩ : ∃ m', n' = m' + 2 := ⟨n' - 2, by omega⟩
        exact ih (Nat.le_of_lt hj) (by omega) h

theorem fits_of_cons {n k : Nat} {s : Descent} {w : List Descent} (hk : k ≤ n)
    (h : fits n k (s :: w)) : fits n k w := by
  cases s with
  | inner =>
    obtain ⟨m, rfl, h⟩ := fits_inner h
    exact fits_mono (Nat.le_refl m) (by omega) h
  | left =>
    cases k with
    | succ k => exact fits_mono (by omega) (.inr ⟨rfl, Nat.le_succ k⟩) h
    | zero =>
      obtain ⟨m, rfl, h⟩ := fits_left_zero h
      exact fits_mono (by omega) (by omega) h

theorem fits_of_append {n k : Nat} {v w : List Descent} (hk : k ≤ n) (h : fits n k (v ++ w)) :
    fits n k w := by
  induction v with
  | nil => exact h
  | cons s v ih => exact ih (fits_of_cons hk h)

theorem triangle_succ (n : Nat) : (n + 1) * (n + 1 + 1) / 2 = n * (n + 1) / 2 + (n + 1) := by
  have h : (n + 1) * (n + 1 + 1) = n * (n + 1) + (n + 1) * 2 := by
    rw [show n + 1 + 1 = n + 2 from rfl, Nat.mul_add, Nat.mul_comm (n + 1) n]
  rw [h, Nat.add_mul_div_right _ _ (by decide)]

/-- A chain is paid for by what the whole of the spines at all levels can pay for. -/
theorem length_le_of_fits {n k : Nat} {w : List Descent} (h : fits n k w) :
    w.length ≤ k + n * (n + 1) / 2 := by
  induction w generalizing n k with
  | nil => exact Nat.zero_le _
  | cons s w ih =>
    rw [List.length_cons]
    cases s with
    | inner =>
      obtain ⟨m, rfl, h⟩ := fits_inner h
      have hw := ih h
      have htriangle := triangle_succ m
      omega
    | left =>
      cases k with
      | succ k =>
        have hw := ih (n := n) h
        omega
      | zero =>
        obtain ⟨m, rfl, h⟩ := fits_left_zero h
        have hw := ih h
        have htriangle := triangle_succ (m + 1)
        omega

/-! ## Phrases -/

variable {limit : Nat}

section

variable {α : Type} (as bs : List α) (b c : α) (cs : List α)

theorem infix_append : as <:+: as ++ bs := (List.prefix_append as bs).isInfix

theorem infix_append_cons : cs <:+: as ++ b :: cs :=
  ((List.suffix_cons b cs).trans (List.suffix_append as _)).isInfix

theorem infix_between : cs <:+: b :: cs ++ [c] := ⟨[b], [c], rfl⟩

end

theorem Items.exists_of_mem {d : Nat} {ls : List Lexeme} {es : List Expr} {e : Expr}
    (h : Items limit d ls es) (he : e ∈ es) :
    ∃ ls' k, ls' <:+: ls ∧ Phrase limit .equality d ls' k e :=
  match h, he with
  | .one hf, he => by
    obtain rfl := List.mem_singleton.1 he
    exact ⟨_, _, List.infix_rfl, hf⟩
  | .cons hf _ hes, he => by
    rcases List.mem_cons.1 he with rfl | he
    · exact ⟨_, _, infix_append _ _, hf⟩
    · obtain ⟨ls', k, hls, hf⟩ := hes.exists_of_mem he
      exact ⟨ls', k, hls.trans (infix_append_cons _ _ _), hf⟩

/-- A pair is a key and a value within the lexemes. -/
theorem Pairs.exists_of_mem {d : Nat} {ls : List Lexeme} {ps : List (Expr × Expr)}
    {p : Expr × Expr} (h : Pairs limit d ls ps) (hp : p ∈ ps) :
    (∃ ls' k, ls' <:+: ls ∧ Phrase limit .equality d ls' k p.1) ∧
      ∃ ls' k, ls' <:+: ls ∧ Phrase limit .equality d ls' k p.2 :=
  match h, hp with
  | .one hk _ hv, hp => by
    obtain rfl := List.mem_singleton.1 hp
    exact ⟨⟨_, _, infix_append _ _, hk⟩, _, _, infix_append_cons _ _ _, hv⟩
  | .cons hk _ hv _ hps, hp => by
    rcases List.mem_cons.1 hp with rfl | hp
    · refine ⟨⟨_, _, ?_, hk⟩, _, _, ?_, hv⟩
      · exact (infix_append _ _).trans (infix_append _ _)
      · exact (infix_append_cons _ _ _).trans (infix_append _ _)
    · obtain ⟨⟨ks, j, hks, hkey⟩, vs, k, hvs, hvalue⟩ := hps.exists_of_mem hp
      exact ⟨⟨ks, j, hks.trans (infix_append_cons _ _ _), hkey⟩,
        vs, k, hvs.trans (infix_append_cons _ _ _), hvalue⟩

/-- A statement of the list was read from some of the lexemes. -/
theorem Statements.exists_of_mem {d : Nat} {ls : List Lexeme} {ss : List Stmt} {s : Stmt}
    (h : Statements limit d ls ss) (hs : s ∈ ss) :
    ∃ ls' ended, ls' <:+: ls ∧ Statement limit d ended ls' s :=
  match h, hs with
  | .cons hstmt _ hss, hs => by
    rcases List.mem_cons.1 hs with rfl | hs
    · exact ⟨_, _, infix_append _ _, hstmt⟩
    · obtain ⟨ls', ended, hls, hstmt⟩ := hss.exists_of_mem hs
      exact ⟨ls', ended, hls.trans (List.suffix_append _ _).isInfix, hstmt⟩

theorem Block.exists_of_mem {d : Nat} {ls : List Lexeme} {ss : List Stmt} {s : Stmt}
    (h : Block limit d ls ss) (hs : s ∈ ss) :
    ∃ ls' ended, ls' <:+: ls ∧ Statement limit d ended ls' s := by
  cases h with
  | braces _ hss _ =>
    obtain ⟨ls', ended, hls, hstmt⟩ := hss.exists_of_mem hs
    exact ⟨ls', ended, hls.trans (infix_between _ _ _), hstmt⟩

/-- The expression of a statement was read from some of its lexemes. -/
theorem Statement.exists_value {d : Nat} {ended : Bool} {ls : List Lexeme} {s : Stmt}
    (h : Statement limit d ended ls s) :
    ∃ ls' k, ls' <:+: ls ∧ Phrase limit .equality d ls' k s.value := by
  cases h with
  | @define _ _ _ l x a _ _ _ _ _ _ _ he _ =>
    exact ⟨_, _, (List.suffix_append [l, x, a] _).isInfix.trans (infix_append _ _), he⟩
  | expr he _ => exact ⟨_, _, infix_append _ _, he⟩

theorem not_below_of_leaf? {l : Lexeme} {e f : Expr} {s : Descent} (hl : leaf? l = some e) :
    ¬ Below s e f := by
  intro hb
  unfold leaf? at hl
  cases ht : l.token <;> rw [ht] at hl <;> cases hl <;> cases hb

/-- A part of a phrase at depth `d` with `k` operators is a phrase within it: the one before the
last operator, or one at a greater depth. -/
def Holds (limit d k : Nat) (ls : List Lexeme) (s : Descent) (f : Expr) : Prop :=
  ∃ layer d' ls' k', ls' <:+: ls ∧ Phrase limit layer d' ls' k' f ∧
    (s = .left ∧ d' = d ∧ k = k' + 1 ∨ d < d' ∧ (s = .left → d' + 1 + (k' + 1) ≤ limit))

section

variable {d k : Nat} {ls : List Lexeme} {f : Expr} {s : Descent}

theorem holds_inner {layer : Layer} {d' k' : Nat} {ls' : List Lexeme} (hls : ls' <:+: ls)
    (hd : d < d') (h : Phrase limit layer d' ls' k' f) : Holds limit d k ls .inner f :=
  ⟨layer, d', ls', k', hls, h, .inr ⟨hd, nofun⟩⟩

theorem holds_left {layer : Layer} {rs : List Lexeme} (h : Phrase limit layer d ls k f) :
    Holds limit d (k + 1) (ls ++ rs) .left f :=
  ⟨layer, d, ls, k, infix_append _ _, h, .inl ⟨rfl, rfl, rfl⟩⟩

/-- What parentheses are around is deeper. -/
theorem Holds.paren {ls' : List Lexeme} {j : Nat} (hlevel : d + 1 + 1 + k ≤ limit)
    (hls : ls' <:+: ls) (h : Holds limit (d + 1) k ls' s f) : Holds limit d j ls s f := by
  obtain ⟨layer, d', ts, k', hts, hf, ⟨-, rfl, rfl⟩ | ⟨hd, hleft⟩⟩ := h
  · exact ⟨layer, d + 1, ts, k', hts.trans hls, hf, .inr ⟨Nat.lt_succ_self d, fun _ => hlevel⟩⟩
  · exact ⟨layer, d', ts, k', hts.trans hls, hf, .inr ⟨Nat.lt_of_succ_lt hd, hleft⟩⟩

end

/-- By cases on the last rule of the phrase and on the step. -/
theorem Phrase.holds {layer : Layer} {d k : Nat} {ls : List Lexeme} {e f : Expr} {s : Descent}
    (h : Phrase limit layer d ls k e) (hb : Below s e f) : Holds limit d k ls s f :=
  match h, hb with
  | .leaf _ hl, hb => absurd hb (not_below_of_leaf? hl)
  | .paren _ _ he _, hb => (he.holds hb.of_withSpan).paren he.level_le (infix_between _ _ _)
  | .array _ _ hes _, .item hmem => by
    obtain ⟨ls', k', hls, hf⟩ := hes.exists_of_mem hmem
    exact holds_inner (hls.trans (infix_between _ _ _)) (Nat.lt_succ_self d) hf
  | .hash _ _ hps _, .key hmem => by
    obtain ⟨⟨ls', k', hls, hf⟩, -⟩ := hps.exists_of_mem hmem
    exact holds_inner (hls.trans (infix_between _ _ _)) (Nat.lt_succ_self d) hf
  | .hash _ _ hps _, .value hmem => by
    obtain ⟨-, ls', k', hls, hf⟩ := hps.exists_of_mem hmem
    exact holds_inner (hls.trans (infix_between _ _ _)) (Nat.lt_succ_self d) hf
  | .cond (i := i) (o := o) _ _ _ he _ _ _, .test => by
    refine holds_inner ?_ (Nat.lt_succ_self d) he
    exact ((List.suffix_append [i, o] _).isInfix.trans (infix_append _ _)).trans (infix_append _ _)
  | .cond _ _ _ _ _ hy _, .yes hmem => by
    obtain ⟨ys', ended, hys, hstmt⟩ := hy.exists_of_mem hmem
    obtain ⟨ls', k', hls, hf⟩ := hstmt.exists_value
    refine holds_inner ((hls.trans hys).trans ?_) (Nat.lt_succ_self d) hf
    exact (infix_append_cons _ _ _).trans (infix_append _ _)
  | .cond _ _ _ _ _ _ (.block _ hb), .no hmem => by
    obtain ⟨ns', ended, hns, hstmt⟩ := hb.exists_of_mem hmem
    obtain ⟨ls', k', hls, hf⟩ := hstmt.exists_value
    exact holds_inner ((hls.trans hns).trans (infix_append_cons _ _ _)) (Nat.lt_succ_self d) hf
  | .unary (o := o) _ _ he, .operand =>
    holds_inner (List.suffix_cons o _).isInfix (Nat.lt_succ_self d) he
  | .binary hl _ _ _, .binary_left => holds_left hl
  | .binary _ _ _ hr, .binary_right => holds_inner (infix_append_cons _ _ _) (by omega) hr
  | .call hf _ _ _ _, .callee => by
    rw [List.append_assoc]
    exact holds_left hf
  | .call _ _ _ hargs _, .arg hmem => by
    obtain ⟨ls', k', hls, hf⟩ := hargs.exists_of_mem hmem
    refine holds_inner (hls.trans ?_) (by omega) hf
    exact (infix_append_cons _ _ _).trans (infix_append _ _)
  | .index ht _ _ _ _, .target => by
    rw [List.append_assoc]
    exact holds_left ht
  | .index _ _ _ hi _, .subscript => by
    refine holds_inner ?_ (by omega) hi
    exact (infix_append_cons _ _ _).trans (infix_append _ _)
  | .tighter h, hb => h.holds hb

/-- Whatever a chain needs below the part, the phrase has it, and the step too. -/
theorem fits_of_holds {d d' k k' : Nat} {s : Descent} {w : List Descent}
    (hlevel : d' + 1 + k' ≤ limit)
    (hdepth : s = .left ∧ d' = d ∧ k = k' + 1 ∨ d < d' ∧ (s = .left → d' + 1 + (k' + 1) ≤ limit))
    (hw : fits (limit - (d' + 1)) k' w) : fits (limit - (d + 1)) k (s :: w) := by
  rcases hdepth with ⟨rfl, rfl, rfl⟩ | ⟨hd, hleft⟩
  · exact hw
  · cases s with
    | left =>
      have hspine := hleft rfl
      exact fits_mono (n := limit - (d' + 1)) (k := k' + 1) (by omega) (by omega) hw
    | inner =>
      obtain ⟨n, hn⟩ : ∃ n, limit - (d + 1) = n + 1 := ⟨limit - (d + 1) - 1, by omega⟩
      rw [hn, fits_inner_eq]
      exact fits_mono (by omega) (by omega) hw

/-- Every chain below a phrase fits the levels that are left at its depth. -/
theorem Phrase.fits {layer : Layer} {d k : Nat} {ls : List Lexeme} {e f : Expr} {w : List Descent}
    (h : Phrase limit layer d ls k e) (hp : Path e w f) : fits (limit - (d + 1)) k w := by
  induction hp generalizing layer d k ls with
  | nil => cases k <;> rfl
  | cons hb _ ih =>
    obtain ⟨layer', d', ls', k', -, hf, hdepth⟩ := h.holds hb
    exact fits_of_holds hf.level_le hdepth (ih hf)

/-- Every chain of a program that is derived fits the limit. -/
theorem Derives.fits {ls : List Lexeme} {p : Program} {w : List Descent} (h : Derives limit ls p)
    (hw : p.HasChain w) : fits (limit - 1) (limit - 1) w := by
  obtain ⟨s, hs, v, e, f, hv, hw⟩ := hw
  obtain ⟨_, _, -, hstmt⟩ := Statements.exists_of_mem h hs
  obtain ⟨ls', k, -, hphrase⟩ := hstmt.exists_value
  have hlevel := hphrase.level_le
  have hfits : Grammar.fits (limit - 1) k (v ++ w) := hphrase.fits (hv.append hw)
  exact fits_of_append (Nat.le_refl _) (fits_mono (by omega) (by omega) hfits)

end Grammar

end MonkeyLang
