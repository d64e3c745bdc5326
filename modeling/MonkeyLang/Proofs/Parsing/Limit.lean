import MonkeyLang.Proofs.Parsing.Counter
import MonkeyLang.Proofs.Parsing.Viable

/-!
# What the limit on nesting does

With the limit, the parser with a counter is the program parser, for any fuel above the limit, and
the expressions being read are never more than the limit allows (`keeps_expr`).  With it the parser
does as without, or it fails at the limit (`refines_expr`):

    Refines Q x y      `x` does as `y` does, or it fails as `Q` says
-/

namespace MonkeyLang

namespace Parser

variable {α β : Type}

/-- Without levels, an operator that would be taken is an error. -/
theorem operators_zero_eq_error {c : Cursor} {t : Token} {rank : Rank} {left : Expr}
    (hnext : c.next? = some t) (h : rank.toNat < (rankOf t).toNat) :
    operators 0 rank left c = .error ⟨.tooDeep, c.rest⟩ := by
  rw [operators, bind_of_ok peek?_eq, hnext]
  exact congrFun (if_neg (Nat.not_le.2 h)) c

namespace Counted

variable {x : Counted α} {f : α → Counted β} {s s' : Gauge}

/-! ## With a limit -/

/-- The parser with a counter ends as the other does, and not over the limit. -/
inductive Alike (limit : Nat) :
    EStateM.Result Failure Gauge α → Except ParseError (α × Cursor) → Prop where
  | ok {a : α} {s : Gauge} (hpeak : s.peak ≤ limit) : Alike limit (.ok a s) (.ok (a, s.cursor))
  | error {e : ParseError} {s : Gauge} (hpeak : s.peak ≤ limit) :
      Alike limit (.error (.parse e) s) (.error e)

/-- The levels that are left and those that are taken make up the limit, and of the expressions
being read each took one. -/
structure Within (limit n : Nat) (s : Gauge) : Prop where
  levels : s.depth + n = limit
  active_le : s.active ≤ s.depth
  peak_le : s.peak ≤ limit

/-- With `n` levels left the parser with a counter does as the other one. -/
structure Keeps (limit n : Nat) (x : Counted α) (y : Parser α) : Prop where
  level : Level x
  alike {s : Gauge} (hs : Within limit n s) : Alike limit (x s) (y s.cursor)

section

variable {limit n : Nat}

theorem Within.of_level (hs : Within limit n s) (hdepth : s'.depth = s.depth)
    (hactive : s'.active = s.active) (hpeak : s'.peak ≤ limit) : Within limit n s' where
  levels := hdepth ▸ hs.levels
  active_le := by
    rw [hdepth, hactive]
    exact hs.active_le
  peak_le := hpeak

theorem alike_iff {r : EStateM.Result Failure Gauge α} {r' : Except ParseError (α × Cursor)} :
    Alike limit r r' ↔
      (∃ a s, r = .ok a s ∧ r' = .ok (a, s.cursor) ∧ s.peak ≤ limit) ∨
        ∃ e s, r = .error (.parse e) s ∧ r' = .error e ∧ s.peak ≤ limit := by
  constructor
  · rintro (⟨hpeak⟩ | ⟨hpeak⟩)
    · exact .inl ⟨_, _, rfl, rfl, hpeak⟩
    · exact .inr ⟨_, _, rfl, rfl, hpeak⟩
  · rintro (⟨a, s, rfl, rfl, hpeak⟩ | ⟨e, s, rfl, rfl, hpeak⟩)
    · exact .ok hpeak
    · exact .error hpeak

theorem Alike.bind {y : Parser α} {g : α → Parser β} {c : Cursor} (hx : Alike limit (x s) (y c))
    (hf : ∀ a s', x s = .ok a s' → s'.peak ≤ limit → Alike limit (f a s') (g a s'.cursor)) :
    Alike limit ((x >>= f) s) ((y >>= g) c) := by
  rcases alike_iff.1 hx with ⟨a, s', hok, hy, hpeak⟩ | ⟨e, s', herror, hy, hpeak⟩
  · rw [bind_of_ok hok, Parser.bind_of_ok hy]
    exact hf a s' hok hpeak
  · rw [bind_of_error herror, Parser.bind_eq_error.2 (.inl hy)]
    exact .error hpeak

theorem Alike.restoring {r : Except ParseError (α × Cursor)} (h : Alike limit (x s) r) :
    Alike limit (restoring x s) r := by
  rcases alike_iff.1 h with ⟨a, s', hok, rfl, hpeak⟩ | ⟨e, s', herror, rfl, hpeak⟩
  · rw [restoring_of_ok hok]
    exact alike_iff.2 (.inl ⟨a, _, rfl, rfl, hpeak⟩)
  · rw [restoring_of_error herror]
    exact .error hpeak

theorem Keeps.bind {y : Parser α} {g : α → Parser β} (hx : Keeps limit n x y)
    (hf : ∀ a, Keeps limit n (f a) (g a)) : Keeps limit n (x >>= f) (y >>= g) where
  level := hx.level.bind fun a => (hf a).level
  alike hs := (hx.alike hs).bind fun a _ h hpeak =>
    (hf a).alike (hs.of_level (hx.level h).1 (hx.level h).2 hpeak)

/-- Doing the same with `n` levels is kept by whatever is put together from parsers that do. -/
theorem kept_keeps : Kept fun α (x : Counted α) (y : Parser α) => Keeps limit n x y where
  pure a := ⟨level_pure a, fun hs => .ok hs.peak_le⟩
  single {α p} _ := by
    refine ⟨level_lift p, fun {s} hs => ?_⟩
    show Alike limit _ (p s.cursor)
    cases hc : p s.cursor with
    | ok r =>
      rw [lift_of_ok hc]
      exact Alike.ok (s := { s with cursor := r.2 }) hs.peak_le
    | error e =>
      rw [lift_of_error hc]
      exact .error hs.peak_le
  bind := Keeps.bind

/-- The loops over operators do the same, each with its own bound on the rounds. -/
theorem alike_operators {fuel : Nat} {expr : Rank → Counted Expr}
    (hforward : ∀ rank, Forward 0 (expr rank))
    (hexpr : ∀ n < fuel, ∀ rank, Keeps limit n (expr rank) (Parser.expr n rank)) {n : Nat}
    (hn : n ≤ fuel) {rank : Rank} {s : Gauge} (hs : Within limit n s) {bound : List Lexeme}
    {left : Expr} (hbound : s.cursor.rest.length ≤ bound.length) :
    Alike limit (operators (some limit) expr rank bound left s)
      (Parser.operators n rank left s.cursor) := by
  -- the bound goes down with every operator, as the levels do
  induction bound generalizing n s left with
  | nil =>
    have hnext : s.cursor.next? = none :=
      Cursor.next?_eq_none_iff.2 (List.eq_nil_of_length_eq_zero (Nat.le_zero.1 hbound))
    rw [operators, operator_of_le (by simp [hnext]), Parser.operators_of_le (by simp [hnext])]
    exact .ok hs.peak_le
  | cons l bound ih =>
    rw [operators]
    by_cases h : ∀ t ∈ s.cursor.next?, (rankOf t).toNat ≤ rank.toNat
    · rw [operator_of_le h, Parser.operators_of_le h]
      exact .ok hs.peak_le
    obtain ⟨t, ht, hlt⟩ : ∃ t, s.cursor.next? = some t ∧ rank.toNat < (rankOf t).toNat := by
      simpa using h
    rw [operator_of_lt ht hlt]
    have hlevels := hs.levels
    cases n with
    | zero =>
      rw [bind_of_error (descend_of_lt (by omega)), Parser.operators_zero_eq_error ht hlt]
      exact .error hs.peak_le
    | succ n =>
      have hextend := kept_keeps.extend (hexpr n (by omega)) left t
      rw [Lifted.extend_eq] at hextend
      have hs' : Within limit n { s with depth := s.depth + 1 } :=
        ⟨by show s.depth + 1 + n = limit; omega, Nat.le_succ_of_le hs.active_le, hs.peak_le⟩
      rw [bind_of_ok (descend_of_le (by simp; omega)), Parser.operators_succ_of_lt ht hlt]
      refine (hextend.alike hs').bind fun whole s₁ hok hpeak => ih (by omega) ?_ ?_
      · exact hs'.of_level (hextend.level hok).1 (hextend.level hok).2 hpeak
      · have hless := (taking_extend (k := 0) hforward left t).length_lt hok
        rw [List.length_cons] at hbound
        exact Nat.le_of_lt_succ (Nat.lt_of_lt_of_le hless hbound)

/-- More fuel than levels is enough. -/
theorem keeps_expr {n fuel : Nat} (hn : n < fuel) (rank : Rank) :
    Keeps limit n (expr (some limit) fuel rank) (Parser.expr n rank) := by
  induction fuel generalizing n rank with
  | zero => exact absurd hn (Nat.not_lt_zero n)
  | succ fuel ih =>
    refine ⟨level_expr _ _ _, fun {s} hs => Alike.restoring ?_⟩
    have hlevels := hs.levels
    cases n with
    | zero =>
      rw [bind_of_error (descend_of_lt (by omega)), Parser.expr]
      exact .error hs.peak_le
    | succ n =>
      have hexpr : ∀ rank, Keeps limit n (expr (some limit) fuel rank) (Parser.expr n rank) :=
        ih (by omega)
      have hoperand := kept_keeps.operand hexpr
      rw [Lifted.operand_eq] at hoperand
      rw [bind_of_ok (descend_of_le (by simp; omega)), Parser.expr_succ]
      have hs' : Within limit n ⟨s.cursor, s.depth + 1, s.active + 1, max s.peak (s.active + 1)⟩ := by
        have hactive := hs.active_le
        have hpeak := hs.peak_le
        exact ⟨by show s.depth + 1 + n = limit; omega, Nat.succ_le_succ hactive,
          Nat.max_le.2 ⟨hpeak, by omega⟩⟩
      refine (hoperand.alike hs').bind fun left s₁ hok hpeak => ?_
      exact alike_operators (forward_expr_zero _ fuel) (fun m hm => ih hm) (by omega)
        (hs'.of_level (hoperand.level hok).1 (hoperand.level hok).2 hpeak) (Nat.le_refl _)

theorem keeps_statement {n fuel : Nat} (hn : n < fuel) :
    Keeps limit n (statement (some limit) fuel) (Parser.statement (Parser.expr n .lowest)) :=
  kept_keeps.statement (keeps_expr hn .lowest)

end

/-! ## With and without a limit -/

/-- The first parser does as the second, or it fails as `Q` says of the failure and the place. -/
def Refines (Q : Failure → Cursor → Prop) (x y : Counted α) : Prop :=
  ∀ s, x s = y s ∨ ∃ e s', x s = .error e s' ∧ Q e s'.cursor

section

variable {Q : Failure → Cursor → Prop}

theorem refines_refl (x : Counted α) : Refines Q x x := fun _ => .inl rfl

/-- The first failure is that of one of the two. -/
theorem Refines.bind {y : Counted α} {g : α → Counted β} (hx : Refines Q x y)
    (hf : ∀ a, Refines Q (f a) (g a)) : Refines Q (x >>= f) (y >>= g) := by
  intro s
  rcases hx s with heq | ⟨e, s', he, hQ⟩
  · cases hy : y s with
    | error e s' => exact .inl (by rw [bind_of_error (heq.trans hy), bind_of_error hy])
    | ok a s' =>
      rw [bind_of_ok (heq.trans hy), bind_of_ok hy]
      exact hf a s'
  · exact .inr ⟨e, s', bind_of_error he, hQ⟩

theorem kept_refines : Kept fun α => Refines (α := α) Q where
  pure _ := refines_refl _
  single _ := refines_refl _
  bind := Refines.bind

/-- What is given back after a failure is given back in both. -/
theorem Refines.restoring {y : Counted α} (h : Refines Q x y) :
    Refines Q (restoring x) (restoring y) := by
  intro s
  rcases h s with heq | ⟨e, s', he, hQ⟩
  · exact .inl (by unfold Counted.restoring; rw [heq])
  · exact .inr ⟨e, _, restoring_of_error he, hQ⟩

/-- Only a parser with a limit can miss a level. -/
theorem refines_descend (hQ : ∀ c, Q (.parse ⟨.tooDeep, c.rest⟩) c) (limit : Option Nat) :
    Refines Q (descend limit) (descend none) := by
  intro s
  unfold descend
  split
  · exact .inr ⟨_, _, rfl, hQ s.cursor⟩
  · exact .inl rfl

variable {limit limit' : Option Nat} (hdescend : Refines Q (descend limit) (descend limit'))
include hdescend

/-- The loops over operators have the same bound, so they part only where their parts do. -/
theorem refines_operators {expr expr' : Rank → Counted Expr}
    (hexpr : ∀ rank, Refines Q (expr rank) (expr' rank)) (rank : Rank) (bound : List Lexeme)
    (left : Expr) :
    Refines Q (operators limit expr rank bound left) (operators limit' expr' rank bound left) := by
  have hoperator : ∀ {next next' : Expr → Counted Expr} (left : Expr),
      (∀ whole, Refines Q (next whole) (next' whole)) →
      Refines Q (operator limit expr rank left next) (operator limit' expr' rank left next') := by
    intro next next' left hnext
    refine Refines.bind (refines_refl _) fun found => ?_
    cases found with
    | none => exact refines_refl _
    | some t =>
      by_cases hle : (rankOf t).toNat ≤ rank.toNat
      · simp only [if_pos hle]
        exact refines_refl _
      · simp only [if_neg hle]
        exact hdescend.bind fun _ => (kept_refines.extend hexpr left t).bind hnext
  induction bound generalizing left with
  | nil => exact hoperator left fun _ => refines_refl _
  | cons l bound ih => exact hoperator left ih

/-- More fuel and another limit change nothing, as long as neither is missed. -/
theorem refines_expr (hfuel : ∀ c, Q .outOfFuel c) {fuel fuel' : Nat} (hle : fuel ≤ fuel')
    (rank : Rank) : Refines Q (expr limit fuel rank) (expr limit' fuel' rank) := by
  induction fuel generalizing fuel' rank with
  | zero => exact fun s => .inr ⟨.outOfFuel, s, rfl, hfuel s.cursor⟩
  | succ fuel ih =>
    obtain ⟨fuel', rfl⟩ := Nat.exists_eq_add_of_le' hle
    have hexpr : ∀ rank, Refines Q (expr limit fuel rank) (expr limit' (fuel' + fuel) rank) :=
      ih (by omega)
    refine (hdescend.bind fun _ => (refines_refl _).bind fun _ => ?_).restoring
    refine (kept_refines.operand hexpr).bind fun left => (refines_refl _).bind fun bound => ?_
    exact refines_operators hdescend hexpr rank bound left

end

/-! ## Programs -/

def answer : EStateM.Result Failure Gauge α → Except Failure α
  | .ok a _ => .ok a
  | .error e _ => .error e

/-- What the gauge showed at the end. -/
def gauge : EStateM.Result Failure Gauge α → Gauge
  | .ok _ s => s
  | .error _ s => s

/-- Statements up to the end of the input, with a counter. -/
def program (limit : Option Nat) (fuel : Nat) (lexemes : List Lexeme) : Counted Program := do
  return ⟨← Lifted.statementsUpToEnd (statement limit fuel) lexemes []⟩

section

variable {limit limit' : Option Nat} {fuel fuel' k n : Nat} (ls : List Lexeme)

theorem forward_program (h : 0 < k → limit = none ∧ k ≤ fuel) :
    Forward k (program limit fuel ls) :=
  (kept_forward.bind (kept_forward.statementsUpToEnd
    (kept_forward.statement ⟨rfl, forward_expr h .lowest⟩) ls []) fun _ => kept_forward.pure _).2

theorem keeps_program (hn : n < fuel) : Keeps n n (program (some n) fuel ls)
    (Program.mk <$> Parser.statementsUpToEnd (Parser.statement (Parser.expr n .lowest)) ls []) := by
  rw [← Lifted.statementsUpToEnd_eq]
  exact kept_keeps.bind (kept_keeps.statementsUpToEnd (keeps_statement hn) ls []) fun _ =>
    kept_keeps.pure _

theorem refines_program {Q : Failure → Cursor → Prop}
    (hdescend : Refines Q (descend limit) (descend limit')) (hfuel : ∀ c, Q .outOfFuel c)
    (hle : fuel ≤ fuel') : Refines Q (program limit fuel ls) (program limit' fuel' ls) :=
  kept_refines.bind (kept_refines.statementsUpToEnd
    (kept_refines.statement (refines_expr hdescend hfuel hle .lowest)) ls []) fun _ =>
    refines_refl _

end

end Counted

end Parser

open MonkeyLang.Parser (Failure Gauge)
open MonkeyLang.Parser.Counted

namespace Program

/-- Reads lexemes as a program, with a counter of levels and with fuel. -/
def parseCounted (limit : Option Nat) (fuel : Nat) (lexemes : List Lexeme) :
    EStateM.Result Failure Gauge Program :=
  Parser.Counted.program limit fuel lexemes ⟨⟨0, lexemes⟩, 0, 0, 0⟩

/-- Reads lexemes as a program that may take any number of levels. -/
def parseUnlimited (lexemes : List Lexeme) : Except Failure Program :=
  answer (parseCounted none (lexemes.length + 1) lexemes)

section

variable {n fuel : Nat} (ls : List Lexeme)

/-- With more fuel than levels, the counter is nothing but the levels, and the peak is within the
limit. -/
theorem parseCounted_eq_parseWithin (hn : n < fuel) :
    answer (parseCounted (some n) fuel ls) = (parseWithin n ls).mapError .parse ∧
      (gauge (parseCounted (some n) fuel ls)).peak ≤ n := by
  have hwithin : Within n n ⟨⟨0, ls⟩, 0, 0, 0⟩ :=
    ⟨Nat.zero_add n, Nat.le_refl 0, Nat.zero_le n⟩
  have halike := (keeps_program ls hn).alike hwithin
  have hparse : parseWithin n ls = ((Program.mk <$> Parser.statementsUpToEnd
      (Parser.statement (Parser.expr n .lowest)) ls [] : Parser Program) ⟨0, ls⟩).map (·.1) := by
    show Except.map _ (Parser.statementsUpToEnd _ ls [] ⟨0, ls⟩) =
      Except.map _ (Except.bind (Parser.statementsUpToEnd _ ls [] ⟨0, ls⟩) _)
    cases Parser.statementsUpToEnd (Parser.statement (Parser.expr n .lowest)) ls [] ⟨0, ls⟩ <;> rfl
  unfold parseCounted
  rw [hparse]
  rcases alike_iff.1 halike with ⟨a, s, hok, hy, hpeak⟩ | ⟨e, s, herror, hy, hpeak⟩
  · rw [hok, hy]
    exact ⟨rfl, hpeak⟩
  · rw [herror, hy]
    exact ⟨rfl, hpeak⟩

/-- Without a limit, nothing is refused for its depth. -/
theorem cause_of_parseCounted_eq_error (hfuel : ls.length < fuel) {e : Failure}
    (h : answer (parseCounted none fuel ls) = .error e) :
    ∃ e', e = .parse e' ∧ e'.cause ≠ .tooDeep := by
  have hends := forward_program ls (k := ls.length + 1) (fun _ => ⟨rfl, hfuel⟩) ⟨⟨0, ls⟩, 0, 0, 0⟩
  unfold parseCounted at h
  cases hr : Parser.Counted.program none fuel ls ⟨⟨0, ls⟩, 0, 0, 0⟩ with
  | ok p s =>
    rw [hr] at h
    cases h
  | error f s =>
    rw [hr] at h hends
    cases h
    exact hends.2 (Nat.lt_succ_self _)

/-- More fuel than lexemes makes no difference. -/
theorem parseCounted_eq_parseUnlimited (hfuel : ls.length < fuel) :
    answer (parseCounted none fuel ls) = parseUnlimited ls := by
  have hrefines := refines_program (Q := fun e _ => e = .outOfFuel) ls (refines_refl (descend none))
    (fun _ => rfl) hfuel ⟨⟨0, ls⟩, 0, 0, 0⟩
  rcases hrefines with heq | ⟨e, s, he, rfl⟩
  · exact congrArg answer heq.symm
  · have hanswer : parseUnlimited ls = .error .outOfFuel := congrArg answer he
    obtain ⟨_, h, -⟩ := cause_of_parseCounted_eq_error ls (Nat.lt_succ_self _) hanswer
    cases h

/-- The parser with a limit does as the one without, or it fails at the limit. -/
theorem parseWithin_eq_parseUnlimited_or (n : Nat) :
    (parseWithin n ls).mapError .parse = parseUnlimited ls ∨
      ∃ i ≤ ls.length, parseWithin n ls = .error ⟨.tooDeep, ls.drop i⟩ ∧
        (gauge (parseCounted (some n) (n + 1) ls)).cursor.rest = ls.drop i := by
  have hanswer := (parseCounted_eq_parseWithin ls (Nat.lt_succ_self n)).1
  have hrefines := refines_program
    (Q := fun e c => e = .outOfFuel ∨ e = .parse ⟨.tooDeep, c.rest⟩) ls
    (refines_descend (fun _ => .inr rfl) (some n)) (fun _ => .inl rfl)
    (Nat.le_add_right (n + 1) (ls.length + 1)) ⟨⟨0, ls⟩, 0, 0, 0⟩
  rcases hrefines with heq | ⟨e, s, he, hQ⟩
  · refine .inl (hanswer.symm.trans ((congrArg answer heq).trans ?_))
    exact parseCounted_eq_parseUnlimited ls (by omega)
  · have hcounted : parseCounted (some n) (n + 1) ls = .error e s := he
    have hforward : Forward 0 (Parser.Counted.program (some n) (n + 1) ls) :=
      forward_program ls nofun
    have hends := hforward ⟨⟨0, ls⟩, 0, 0, 0⟩
    rw [he] at hends
    obtain ⟨taken, htaken⟩ : s.cursor.rest <:+ ls := hends.1
    have hdrop : s.cursor.rest = ls.drop taken.length := by rw [← htaken, List.drop_left]
    refine .inr ⟨taken.length, ?_, ?_, ?_⟩
    · rw [← htaken, List.length_append]
      exact Nat.le_add_right _ _
    · rw [hcounted] at hanswer
      cases hparse : parseWithin n ls with
      | ok p =>
        rw [hparse] at hanswer
        cases hanswer
      | error e' =>
        rw [hparse] at hanswer
        cases hanswer
        rw [← hdrop]
        exact congrArg _ (Failure.parse.inj (hQ.resolve_left nofun))
    · rw [hcounted]
      exact hdrop

end

/-- The limit on nesting bounds the recursion of the parser and does nothing else but refuse.  With
more fuel than the limit the parser with the counter is the program parser, and at no time are more
expressions being read than the limit allows.  An expression or a statement that was read took a
lexeme and left the counter as it was.  Without a limit the lexemes are fuel enough, and how much
there is makes no difference.  What comes out is what comes out without a limit, or an error at the
limit, which is at the next lexeme or at the end of the source. -/
theorem parse_only_refuses (ls : List Lexeme) :
    (∀ fuel, nestingLimit < fuel →
      answer (parseCounted (some nestingLimit) fuel ls) = (parse ls).mapError .parse ∧
        (gauge (parseCounted (some nestingLimit) fuel ls)).peak ≤ nestingLimit) ∧
    (∀ limit fuel, (∀ rank, Taking (expr limit fuel rank) ∧ Level (expr limit fuel rank)) ∧
      Taking (statement limit fuel) ∧ Level (statement limit fuel)) ∧
    (∀ fuel, ls.length < fuel → answer (parseCounted none fuel ls) = parseUnlimited ls) ∧
    (∀ e, parseUnlimited ls = .error e → ∃ e', e = .parse e' ∧ e'.cause ≠ .tooDeep) ∧
    ((parse ls).mapError .parse = parseUnlimited ls ∨
      ∃ i ≤ ls.length, parse ls = .error ⟨.tooDeep, ls.drop i⟩ ∧
        (gauge (parseCounted (some nestingLimit) (nestingLimit + 1) ls)).cursor.rest = ls.drop i ∧
        ∀ size, ParseError.span ⟨.tooDeep, ls.drop i⟩ size =
          (ls[i]?.map (·.span)).getD ⟨size, size⟩) := by
  refine ⟨fun fuel hfuel => parseCounted_eq_parseWithin ls hfuel, fun limit fuel => ?_,
    fun fuel hfuel => parseCounted_eq_parseUnlimited ls hfuel, fun e he => ?_, ?_⟩
  · exact ⟨fun rank => ⟨taking_expr limit fuel rank, level_expr limit fuel rank⟩,
      taking_statement limit fuel, level_statement limit fuel⟩
  · exact cause_of_parseCounted_eq_error ls (Nat.lt_succ_self _) he
  · refine (parseWithin_eq_parseUnlimited_or ls nestingLimit).imp_right ?_
    rintro ⟨i, hi, hparse, hrest⟩
    exact ⟨i, hi, hparse, hrest, fun size => ParseError.span_eq rfl size⟩

/-- A sign and its operand are two expressions, one in the other. -/
example : (gauge (parseCounted none 3 [⟨.bang, ⟨0, 1⟩⟩, ⟨.trueWord, ⟨1, 5⟩⟩])).peak = 2 := by
  decide +kernel

end Program

end MonkeyLang
