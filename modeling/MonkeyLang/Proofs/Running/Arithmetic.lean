import Mathlib.Data.Int.ModEq
import MonkeyLang.Proofs.Running.Entries

/-!
# Integers that wrap around

An expression of integers, names that are bound to integers, signs and the four operators stands for
a tree (`Expr.IsArith`).  Sums, differences and products may be wrapped around at every step or all
at once at the end; a quotient may not, and so the tree is reckoned exactly from one division to the
next (`Arith.value?`).  The evaluator gives that value, wrapped around, or stops at the first
division in order whose right operand is 0 then (`Expr.IsArith.eval_wraps`).
-/

namespace MonkeyLang

/-! ## Wrapping around -/

/-- The number that 64 bits in two's complement stand for, when the given one is cut off to them. -/
def wrap (n : Int) : Int := n.bmod (2 ^ 64)

/-- It is the one number of 64 bits that is congruent to the given one. -/
theorem wrap_eq_iff {n k : Int} :
    wrap n = k ↔ -2 ^ 63 ≤ k ∧ k < 2 ^ 63 ∧ k ≡ n [ZMOD 2 ^ 64] := by
  have hleast : ((2 ^ 64 : Nat) : Int) / 2 = 2 ^ 63 := rfl
  have hmost : (((2 ^ 64 : Nat) : Int) + 1) / 2 = 2 ^ 63 := rfl
  unfold wrap
  rw [Int.bmod_eq_iff (Nat.two_pow_pos 64), hleast, hmost, ← Int.modEq_iff_dvd, Int.modEq_comm]
  rfl

theorem wrap_wrap (n : Int) : wrap (wrap n) = wrap n := Int.bmod_bmod

theorem wrap_neg_wrap (n : Int) : wrap (-wrap n) = wrap (-n) := Int.bmod_neg_bmod

theorem wrap_toInt (n : Int64) : wrap n.toInt = n.toInt := n.toInt_bmod

/-! ## Trees -/

namespace Arith

/-- The operators that have nothing to do with division. -/
inductive Op where
  | add
  | sub
  | mul

namespace Op

def binary : Op → BinaryOp
  | add => .add
  | sub => .sub
  | mul => .mul

def exact : Op → Int → Int → Int
  | add, a, b => a + b
  | sub, a, b => a - b
  | mul, a, b => a * b

/-- The operands may be wrapped around or not, the result is the same. -/
theorem wrap_exact_wrap (op : Op) (a b : Int) :
    wrap (op.exact (wrap a) (wrap b)) = wrap (op.exact a b) := by
  cases op with
  | add => exact Int.bmod_add_bmod.trans Int.add_bmod_bmod
  | sub => exact Int.bmod_sub_bmod.trans Int.sub_bmod_bmod
  | mul => exact Int.bmod_mul_bmod.trans Int.mul_bmod_bmod

/-- Two integers are added, subtracted and multiplied modulo the power, and without an error. -/
theorem exists_applyInt_eq {κ : Type} (op : Op) (a b : Int64) :
    ∃ c : Int64, (op.binary.applyInt a b : Run κ Value) = pure (.int c) ∧
      c.toInt = wrap (op.exact a.toInt b.toInt) := by
  cases op with
  | add => exact ⟨a + b, rfl, Int64.toInt_add a b⟩
  | sub => exact ⟨a - b, rfl, Int64.toInt_sub a b⟩
  | mul => exact ⟨a * b, rfl, Int64.toInt_mul a b⟩

end Op

end Arith

/-- A tree of integers and operators. -/
inductive Arith where
  | const (n : Int64)
  | neg (t : Arith)
  | op (o : Arith.Op) (l r : Arith)
  | div (l r : Arith)

namespace Arith

/-- The value among all integers.  It is of interest where nothing is divided. -/
def exact : Arith → Int
  | const n => n.toInt
  | neg t => -t.exact
  | op o l r => o.exact l.exact r.exact
  | div l r => l.exact.tdiv r.exact

/-- The value with all numbers on the way wrapped around; none if something is divided by 0. -/
def stepwise? : Arith → Option Int
  | const n => some n.toInt
  | neg t => do return wrap (-(← t.stepwise?))
  | op o l r => do return wrap (o.exact (← l.stepwise?) (← r.stepwise?))
  | div l r => do
    let a ← l.stepwise?
    let b ← r.stepwise?
    if b = 0 then none else some (wrap (a.tdiv b))

/-- The value that is exact but for the divisions.  There both operands are wrapped around, and so
is the quotient, when what is behind the point has been left out. -/
def value? : Arith → Option Int
  | const n => some n.toInt
  | neg t => do return -(← t.value?)
  | op o l r => do return o.exact (← l.value?) (← r.value?)
  | div l r => do
    let a ← l.value?
    let b ← r.value?
    if wrap b = 0 then none else some (wrap ((wrap a).tdiv (wrap b)))

/-- The divisions from left to right, each behind those in its operands. -/
def divisions : Arith → List (Arith × Arith)
  | const _ => []
  | neg t => t.divisions
  | op _ l r => l.divisions ++ r.divisions
  | div l r => l.divisions ++ r.divisions ++ [(l, r)]

/-- Where nothing is divided, the exact value is there. -/
theorem value?_of_divisions_eq_nil {t : Arith} (h : t.divisions = []) :
    t.value? = some t.exact := by
  induction t with
  | const n => rfl
  | neg t ih => rw [value?, ih h]; rfl
  | op o l r ihl ihr =>
    obtain ⟨hl, hr⟩ := List.append_eq_nil_iff.1 h
    rw [value?, ihl hl, ihr hr]
    rfl
  | div l r => simp [divisions] at h

/-- The value wrapped around. -/
def wrapped? (t : Arith) : Option Int := t.value?.map wrap

/-- It makes no difference where sums, differences and products are wrapped around. -/
theorem stepwise?_eq (t : Arith) : t.stepwise? = t.wrapped? := by
  unfold wrapped?
  induction t with
  | const n => exact congrArg some (wrap_toInt n).symm
  | neg t ih =>
    rw [stepwise?, value?, ih]
    cases t.value? with
    | none => rfl
    | some a => exact congrArg some (wrap_neg_wrap a)
  | op o l r ihl ihr =>
    rw [stepwise?, value?, ihl, ihr]
    cases l.value? with
    | none => rfl
    | some a =>
      cases r.value? with
      | none => rfl
      | some b => exact congrArg some (o.wrap_exact_wrap a b)
  | div l r ihl ihr =>
    rw [stepwise?, value?, ihl, ihr]
    cases l.value? with
    | none => rfl
    | some a =>
      cases r.value? with
      | none => rfl
      | some b =>
        show (if wrap b = 0 then none else some _) =
          Option.map wrap (if wrap b = 0 then none else _)
        split
        · rfl
        · exact congrArg some (wrap_wrap _).symm

/-! ## Divisions by 0 -/

/-- Of these divisions in order, one is by 0, and each before it is by something else. -/
inductive ReachesZero : List (Arith × Arith) → Prop where
  | here {l r : Arith} {ds : List (Arith × Arith)} (h : r.wrapped? = some 0) :
      ReachesZero ((l, r) :: ds)
  | later {l r : Arith} {ds : List (Arith × Arith)} {b : Int} (hr : r.wrapped? = some b)
      (hb : b ≠ 0) (h : ReachesZero ds) : ReachesZero ((l, r) :: ds)

/-- All of these divisions are by something else than 0. -/
def Divide (ds : List (Arith × Arith)) : Prop := ∀ d ∈ ds, ∃ b, d.2.wrapped? = some b ∧ b ≠ 0

section

variable {ds es : List (Arith × Arith)} {t : Arith} {k : Int}

theorem ReachesZero.append (h : ReachesZero ds) (es : List (Arith × Arith)) :
    ReachesZero (ds ++ es) := by
  induction h with
  | here h => exact .here h
  | later hr hb _ ih => exact .later hr hb ih

theorem Divide.reachesZero_append (hds : Divide ds) (hes : ReachesZero es) :
    ReachesZero (ds ++ es) := by
  induction ds with
  | nil => exact hes
  | cons d ds ih =>
    obtain ⟨b, hr, hb⟩ := hds d (List.mem_cons_self ..)
    exact .later hr hb (ih fun d hd => hds d (List.mem_cons_of_mem _ hd))

theorem Divide.not_reachesZero (hds : Divide ds) : ¬ ReachesZero ds := by
  intro h
  induction h with
  | here h =>
    obtain ⟨b, hr, hb⟩ := hds _ (List.mem_cons_self ..)
    exact hb (Option.some.inj (hr.symm.trans h))
  | later _ _ _ ih => exact ih fun d hd => hds d (List.mem_cons_of_mem _ hd)

theorem Divide.append (hds : Divide ds) (hes : Divide es) : Divide (ds ++ es) :=
  fun d hd => (List.mem_append.1 hd).elim (hds d) (hes d)

/-- What has a value divides by nothing that is 0. -/
theorem divide_of_value?_eq_some (h : t.value? = some k) : Divide t.divisions := by
  induction t generalizing k with
  | const n => exact fun _ => nofun
  | neg t ih =>
    obtain ⟨a, ha, -⟩ := Option.bind_eq_some_iff.1 h
    exact ih ha
  | op o l r ihl ihr =>
    obtain ⟨a, ha, h⟩ := Option.bind_eq_some_iff.1 h
    obtain ⟨b, hb, -⟩ := Option.bind_eq_some_iff.1 h
    exact (ihl ha).append (ihr hb)
  | div l r ihl ihr =>
    obtain ⟨a, ha, h⟩ := Option.bind_eq_some_iff.1 h
    obtain ⟨b, hb, h⟩ := Option.bind_eq_some_iff.1 h
    refine ((ihl ha).append (ihr hb)).append fun d hd => ?_
    obtain rfl := List.mem_singleton.1 hd
    refine ⟨wrap b, congrArg (Option.map wrap) hb, fun h0 => ?_⟩
    rw [if_pos h0] at h
    cases h

/-- Where an operand has no value, the division is in its tree, and those before it divide. -/
theorem reachesZero_operands {l r : Arith} (hl : l.value? = none → ReachesZero l.divisions)
    (hr : r.value? = none → ReachesZero r.divisions) (h : l.value? = none ∨ r.value? = none) :
    ReachesZero (l.divisions ++ r.divisions) := by
  cases ha : l.value? with
  | none => exact (hl ha).append _
  | some a =>
    have hnone : r.value? = none := h.resolve_left fun hnone => by cases ha.symm.trans hnone
    exact (divide_of_value?_eq_some ha).reachesZero_append (hr hnone)

/-- What has no value comes to a division by 0, all before it being done. -/
theorem reachesZero_of_value?_eq_none (h : t.value? = none) : ReachesZero t.divisions := by
  induction t with
  | const n => cases h
  | neg t ih =>
    cases ha : t.value? with
    | none => exact ih ha
    | some a =>
      rw [value?, ha] at h
      cases h
  | op o l r ihl ihr =>
    refine reachesZero_operands ihl ihr ?_
    cases ha : l.value? with
    | none => exact .inl rfl
    | some a =>
      cases hb : r.value? with
      | none => exact .inr rfl
      | some b =>
        rw [value?, ha, hb] at h
        cases h
  | div l r ihl ihr =>
    cases ha : l.value? with
    | none => exact (reachesZero_operands ihl ihr (.inl ha)).append _
    | some a =>
      cases hb : r.value? with
      | none => exact (reachesZero_operands ihl ihr (.inr hb)).append _
      | some b =>
        have hdivide := (divide_of_value?_eq_some ha).append (divide_of_value?_eq_some hb)
        refine hdivide.reachesZero_append (.here ?_)
        rw [value?, ha, hb] at h
        rw [wrapped?, hb, Option.map_some, Option.some.injEq]
        by_contra hne
        exact Option.some_ne_none _ ((if_neg hne).symm.trans h)

/-- There is no value exactly where the first division that fails is reached. -/
theorem value?_eq_none_iff : t.value? = none ↔ ReachesZero t.divisions := by
  refine ⟨reachesZero_of_value?_eq_none, fun h => ?_⟩
  cases ht : t.value? with
  | none => rfl
  | some k => exact absurd h (divide_of_value?_eq_some ht).not_reachesZero

end

end Arith

/-! ## Evaluation -/

variable {κ : Type}

/-- The expression is that tree, with the integers that its names are bound to in their place. -/
inductive Expr.IsArith (m : Machine κ) (scope : Nat) : Expr → Arith → Prop where
  | int (n : Int64) (a : Span) : IsArith m scope (.int n a) (.const n)
  | ident {x : String} {n : Int64} (h : m.scopes.get? scope x = some (.int n)) (a : Span) :
      IsArith m scope (.ident x a) (.const n)
  | neg {e : Expr} {t : Arith} (h : IsArith m scope e t) (a : Span) :
      IsArith m scope (.unary .neg e a) (.neg t)
  | op (o : Arith.Op) {e f : Expr} {l r : Arith} (hl : IsArith m scope e l)
      (hr : IsArith m scope f r) (a : Span) : IsArith m scope (.binary e o.binary f a) (.op o l r)
  | div {e f : Expr} {l r : Arith} (hl : IsArith m scope e l) (hr : IsArith m scope f r)
      (a : Span) : IsArith m scope (.binary e .div f a) (.div l r)

/-- The outcome is that integer, or a division by 0 if there is none. -/
inductive Arith.Outcome : Option Int → Except Fault Value → Prop where
  | value {n : Int64} {k : Int} (h : n.toInt = k) : Outcome (some k) (.ok (.int n))
  | divisionByZero : Outcome none (.error .divisionByZero)

open Arith (Outcome)

theorem Arith.Outcome.exists_int {k : Int} {r : Except Fault Value} (h : Outcome (some k) r) :
    ∃ n : Int64, r = .ok (.int n) ∧ n.toInt = k := by
  cases h with
  | value hn => exact ⟨_, rfl, hn⟩

theorem Arith.Outcome.error_iff {o : Option Int} {r : Except Fault Value} (h : Outcome o r) :
    Value.ofOutcome r = .error "division by zero" ↔ o = none := by
  cases h with
  | value _ => exact iff_of_false (by rintro ⟨⟩) (by rintro ⟨⟩)
  | divisionByZero => exact iff_of_true rfl rfl

section

variable {m : Machine κ} {scope : Nat} {e f : Expr} {t : Arith}

/-- A division gives the truncated quotient wrapped around, unless it is by 0. -/
theorem Arith.outcome_applyDiv (a b : Int64) (m : Machine κ) :
    ∃ r, (BinaryOp.div.applyInt a b).outcome m = (r, m) ∧
      Outcome (if b.toInt = 0 then none else some (wrap (a.toInt.tdiv b.toInt))) r := by
  have hzero : b = 0 ↔ b.toInt = 0 := Int64.toInt_inj.symm
  rw [BinaryOp.applyInt]
  by_cases hb : b = 0
  · rw [if_pos hb, if_pos (hzero.1 hb)]
    exact ⟨_, rfl, .divisionByZero⟩
  · rw [if_neg hb, if_neg (mt hzero.2 hb)]
    exact ⟨_, rfl, .value (Int64.toInt_div a b)⟩

variable [Console κ]

/-- The left operand is evaluated first, then the right one, then the operator is applied. -/
theorem Arith.Outcome.binary {op : BinaryOp} {o p : Option Int} {g : Int → Int → Option Int}
    {x y : Except Fault Value} (hl : (e.eval scope).outcome m = (x, m)) (hx : Outcome o x)
    (hr : (f.eval scope).outcome m = (y, m)) (hy : Outcome p y)
    (happly : ∀ a b : Int64, ∃ z, (op.applyInt a b).outcome m = (z, m) ∧
      Outcome (g a.toInt b.toInt) z) (a : Span) :
    ∃ z, ((Expr.binary e op f a).eval scope).outcome m = (z, m) ∧
      Outcome (o.bind fun a => p.bind fun b => g a b) z := by
  rw [Expr.eval]
  cases hx with
  | divisionByZero => exact ⟨_, Run.outcome_bind_of_error hl, .divisionByZero⟩
  | value ha =>
    subst ha
    rw [Run.outcome_bind_of_ok hl]
    cases hy with
    | divisionByZero => exact ⟨_, Run.outcome_bind_of_error hr, .divisionByZero⟩
    | value hb =>
      subst hb
      rw [Run.outcome_bind_of_ok hr]
      exact happly _ _

/-- The tree stepwise is what the expression evaluates to, and the machine stays as it is. -/
theorem Expr.IsArith.outcome_eval (h : e.IsArith m scope t) :
    ∃ r, (e.eval scope).outcome m = (r, m) ∧ Outcome t.stepwise? r := by
  induction h with
  | int n a => exact ⟨_, rfl, .value rfl⟩
  | @ident x n h a =>
    refine ⟨.ok (.int n), ?_, .value rfl⟩
    have hget : (get : Run κ (Machine κ)).outcome m = (.ok m, m) := rfl
    rw [Expr.eval, resolve, Run.outcome_bind_of_ok hget, h]
    rfl
  | neg _ a ih =>
    obtain ⟨r, hr, hr'⟩ := ih
    rw [Expr.eval, Arith.stepwise?]
    generalize Arith.stepwise? _ = o at hr'
    cases hr' with
    | divisionByZero => exact ⟨_, Run.outcome_bind_of_error hr, .divisionByZero⟩
    | @value n k hn =>
      subst hn
      rw [Run.outcome_bind_of_ok hr]
      exact ⟨_, rfl, .value n.toInt_neg⟩
  | op o _ _ a ihl ihr =>
    obtain ⟨x, hl, hx⟩ := ihl
    obtain ⟨y, hr, hy⟩ := ihr
    refine Arith.Outcome.binary hl hx hr hy (fun a b => ?_) a
    obtain ⟨c, hc, hwrap⟩ := o.exists_applyInt_eq (κ := κ) a b
    exact ⟨.ok (.int c), by rw [hc]; rfl, .value hwrap⟩
  | div _ _ a ihl ihr =>
    obtain ⟨x, hl, hx⟩ := ihl
    obtain ⟨y, hr, hy⟩ := ihr
    exact Arith.Outcome.binary hl hx hr hy (fun a b => Arith.outcome_applyDiv a b m) a

/-! ## Top theorem -/

/-- An expression of integers changes nothing.  If it divides nothing, it has the one integer of 64
bits for its value that is the exact value up to multiples of `2 ^ 64`, and that is the same as when
every step is wrapped around.  Otherwise it has the value that is exact but for the divisions,
wrapped around, and fails exactly if in order one comes to a division by 0. -/
theorem Expr.IsArith.eval_wraps (h : e.IsArith m scope t) :
    let r := (e.eval scope).outcome m
    r.2 = m ∧
    (t.divisions = [] → ∃ n : Int64, r.1 = .ok (.int n) ∧ t.stepwise? = some n.toInt ∧
      ∀ k : Int, -2 ^ 63 ≤ k ∧ k < 2 ^ 63 ∧ k ≡ t.exact [ZMOD 2 ^ 64] ↔ k = n.toInt) ∧
    (match t.value? with
      | some k => ∃ n : Int64, r.1 = .ok (.int n) ∧ n.toInt = wrap k
      | none => Value.ofOutcome r.1 = .error "division by zero") ∧
    (Value.ofOutcome r.1 = .error "division by zero" ↔ Arith.ReachesZero t.divisions) := by
  obtain ⟨r, hr, houtcome⟩ := h.outcome_eval
  rw [t.stepwise?_eq] at houtcome
  rw [hr]
  refine ⟨rfl, fun hdivisions => ?_, ?_, ?_⟩
  · have hexact : t.wrapped? = some (wrap t.exact) :=
      congrArg (Option.map wrap) (Arith.value?_of_divisions_eq_nil hdivisions)
    rw [hexact] at houtcome
    obtain ⟨n, hok, hn⟩ := houtcome.exists_int
    refine ⟨n, hok, ?_, fun k => ?_⟩
    · rw [t.stepwise?_eq, hexact, hn]
    · rw [← wrap_eq_iff, hn, eq_comm]
  · cases hvalue : t.value? with
    | some k =>
      rw [Arith.wrapped?, hvalue] at houtcome
      exact houtcome.exists_int
    | none => exact houtcome.error_iff.2 (congrArg (Option.map wrap) hvalue)
  · rw [houtcome.error_iff, Arith.wrapped?, Option.map_eq_none_iff, Arith.value?_eq_none_iff]

end

/-- The least integer through -1 is the least integer. -/
theorem Expr.IsArith.eval_wraps_of_least :
    let m : Machine Transcript := .start {}
    let m := { m with scopes := m.scopes.define globalScope "x" (.int Int64.minValue) }
    let e : Expr := .binary (.ident "x" ⟨0, 1⟩) .div (.unary .neg (.int 1 ⟨5, 6⟩) ⟨4, 6⟩) ⟨0, 6⟩
    (∃ t, e.IsArith m globalScope t) ∧
      (e.eval globalScope).outcome m = (.ok (.int Int64.minValue), m) := by
  intro m₀ m e
  have hname : m.scopes.get? globalScope "x" = some (.int Int64.minValue) := by
    exact (Scopes.get?_define m₀.scopes Nat.zero_lt_one "x" _)
  have h : e.IsArith m globalScope (.div (.const Int64.minValue) (.neg (.const 1))) :=
    .div (.ident hname _) (.neg (.int 1 _) _) _
  obtain ⟨hm, -, ⟨n, hn, hwrap⟩, -⟩ := h.eval_wraps
  refine ⟨⟨_, h⟩, Prod.ext (hn.trans ?_) hm⟩
  rw [← Int64.toInt_inj.1 (show n.toInt = Int64.minValue.toInt from hwrap)]

end MonkeyLang
