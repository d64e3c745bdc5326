import Mathlib.Logic.Function.Iterate
import MonkeyLang.Proofs.Running.Sequence

/-!
# Arrays as lists

An array is put together by `push` and taken apart by `first` and `rest`, and the functions on
arrays keep the laws of lists.  Each law is an equation between runs: both sides come to the same
value on every machine, and leave it alike.  An item may be a stored error, and then it is met where
it is taken out.

The same items make the same array, whether they stand in a literal or are pushed one by one
(`PushesAll.eval_eq`), and an index finds what `rest` and `first` find (`Value.at_array_eq_first`).
-/

namespace MonkeyLang

open Run (value valueOrNull)

variable {κ : Type}

/-- The expression is `push(.. push([], e₁) .., eₙ)`, wherever its words stand. -/
inductive PushesAll : List Expr → Expr → Prop where
  | nil (a : Span) : PushesAll [] (.array [] a)
  | concat {es : List Expr} {f : Expr} (h : PushesAll es f) (e : Expr) (a b : Span) :
      PushesAll (es ++ [e]) (.call (.ident Builtin.push.name a) [f, e] b)

/-! ## Calls on arrays -/

namespace Builtin

variable [Console κ]

/-- One `rest` more. -/
def restOf (x : Run κ Value) : Run κ Value := x >>= (rest.call [·])

section

variable (v x : Value) (items : List Value)

theorem call_first_cons :
    (first.call [.array (v :: items).toArray] : Run κ Value) = value v := rfl

theorem call_rest_cons :
    (rest.call [.array (v :: items).toArray] : Run κ Value) = pure (.array items.toArray) := by
  have hrest : (rest.call [.array (v :: items).toArray] : Run κ Value) =
      pure (.array ((v :: items).toArray.extract 1)) := rfl
  rw [hrest, List.extract_toArray]
  simp

theorem call_push_toArray :
    (push.call [.array items.toArray, x] : Run κ Value) =
      pure (.array (items ++ [x]).toArray) := by
  rw [← List.push_toArray]
  rfl

theorem len_push :
    (push.call [.array items.toArray, x] >>= (len.call [·]) : Run κ Value) =
      len.call [.array items.toArray] >>= (BinaryOp.add.apply · (.int 1)) := by
  rw [call_push_toArray, pure_bind]
  show (pure (.int (.ofNat (items ++ [x]).toArray.size)) : Run κ Value) =
    pure (.int (.ofNat items.toArray.size + 1))
  rw [List.size_toArray, List.size_toArray, List.length_append, Int64.ofNat_add]
  rfl

/-- What is pushed behind an item leaves it the first one. -/
theorem first_push_cons :
    (push.call [.array (v :: items).toArray, x] >>= (first.call [·]) : Run κ Value) =
      first.call [.array (v :: items).toArray] := by
  rw [call_push_toArray, pure_bind, List.cons_append, call_first_cons, call_first_cons]

theorem rest_push_cons :
    (push.call [.array (v :: items).toArray, x] >>= (rest.call [·]) : Run κ Value) =
      rest.call [.array (v :: items).toArray] >>= (push.call [·, x]) := by
  rw [call_push_toArray, pure_bind, List.cons_append, call_rest_cons, call_rest_cons, pure_bind,
    call_push_toArray]

theorem last_push :
    (push.call [.array items.toArray, x] >>= (last.call [·]) : Run κ Value) = value x := by
  rw [call_push_toArray, pure_bind]
  show valueOrNull (items ++ [x]).toArray.back? = _
  rw [List.back?_toArray, List.getLast?_concat]
  rfl

end

/-- Taking the rest `k` times drops the first `k` items. -/
theorem restOf_iterate {items : List Value} {k : Nat} (hk : k ≤ items.length) :
    restOf^[k] (pure (.array items.toArray) : Run κ Value) =
      pure (.array (items.drop k).toArray) := by
  induction k generalizing items with
  | zero => rfl
  | succ k ih =>
    cases items with
    | nil => cases hk
    | cons v items =>
      rw [Function.iterate_succ_apply, restOf, pure_bind, call_rest_cons]
      exact ih (Nat.le_of_succ_le_succ hk)

theorem call_first_drop (items : List Value) (k : Nat) :
    (first.call [.array (items.drop k).toArray] : Run κ Value) = valueOrNull items[k]? := by
  show valueOrNull (items.drop k).toArray[0]? = _
  rw [List.getElem?_toArray, List.getElem?_drop, Nat.add_zero]

end Builtin

open Builtin (restOf)

/-! ## Indices -/

/-- An index finds the item that is first when as many have been taken away. -/
theorem Value.at_array_eq_first [Console κ] (vs : Array Value) (i : Int64) :
    ((Value.array vs).at (.int i) : Run κ Value) =
      if 0 ≤ i.toInt ∧ i.toInt ≤ vs.size then
        restOf^[i.toInt.toNat] (pure (.array vs)) >>= (Builtin.first.call [·])
      else pure .null := by
  obtain ⟨items⟩ := vs
  have hat : ((Value.array ⟨items⟩).at (.int i) : Run κ Value) =
      valueOrNull (if 0 ≤ i.toInt then items[i.toInt.toNat]? else none) := by
    rw [← List.getElem?_toArray]
    rfl
  have hsize : (⟨items⟩ : Array Value).size = items.length := rfl
  rw [hat, hsize]
  by_cases h : 0 ≤ i.toInt ∧ i.toInt ≤ items.length
  · have hk : i.toInt.toNat ≤ items.length := Int.toNat_le.2 h.2
    rw [if_pos h, if_pos h.1, Builtin.restOf_iterate hk, pure_bind, Builtin.call_first_drop]
  · have hnone : (if 0 ≤ i.toInt then items[i.toInt.toNat]? else none) = none := by
      split
      · next hleast => exact List.getElem?_eq_none (by omega)
      · rfl
    rw [if_neg h, hnone]
    rfl

/-! ## Literals -/

section

variable {scope : Nat} {m : Machine κ}

/-- A name that no scope binds is the function of that name. -/
theorem resolve_builtin {b : Builtin} (h : m.scopes.get? scope b.name = none) :
    (resolve scope b.name : Run κ Value) m = .ok (.builtin b) m := by
  have hget : (get : Run κ (Machine κ)) m = .ok m m := rfl
  rw [resolve, Run.bind_of_ok hget]
  simp only [h, Builtin.ofName?_name]
  rfl

variable [Console κ]

/-- The items of an array literal are evaluated from left to right, so they may be cut anywhere. -/
theorem Expr.evalItems_append (done : List Value) (es fs : List Expr) :
    (Expr.evalItems scope done (es ++ fs) : Run κ (List Value)) =
      Expr.evalItems scope done es >>= fun vs => Expr.evalItems scope vs.reverse fs := by
  induction es generalizing done with
  | nil => rw [List.nil_append, Expr.evalItems, pure_bind, List.reverse_reverse]
  | cons e es ih =>
    rw [List.cons_append, Expr.evalItems, Expr.evalItems, bind_assoc]
    exact congrArg _ (funext fun v => ih (v :: done))

theorem Expr.eval_push (hpush : m.scopes.get? scope Builtin.push.name = none) (f e : Expr)
    (a b : Span) :
    (Expr.call (.ident Builtin.push.name a) [f, e] b).eval scope m =
      (f.eval scope >>= fun v => e.eval scope >>= fun w => Builtin.push.call [v, w]) m := by
  have hname : (Expr.ident Builtin.push.name a).eval scope m = .ok (.builtin .push) m := by
    rw [Expr.eval, resolve_builtin hpush]
  rw [Expr.eval, Run.bind_of_ok hname]
  simp only [Expr.evalItems, bind_assoc, pure_bind]
  rfl

theorem Expr.eval_array_concat (es : List Expr) (e : Expr) (s : Span) :
    (Expr.array (es ++ [e]) s).eval scope =
      (Expr.evalItems scope [] es >>= fun vs => e.eval scope >>= fun w =>
        pure (.array (vs ++ [w]).toArray) : Run κ Value) := by
  rw [Expr.eval, Expr.evalItems_append]
  simp only [Expr.evalItems, bind_assoc, pure_bind, List.reverse_cons, List.reverse_reverse]

/-- All calls ask for the name first, and then the items are evaluated from left to right. -/
theorem PushesAll.eval_eq {es : List Expr} {f : Expr} (h : PushesAll es f)
    (hpush : m.scopes.get? scope Builtin.push.name = none) (s : Span) :
    (Expr.array es s).eval scope m = f.eval scope m := by
  induction h with
  | nil a => rw [Expr.eval, Expr.eval]
  | @concat es f h e a b ih =>
    rw [Expr.eval_array_concat, Expr.eval_push hpush]
    rw [Expr.eval] at ih
    cases hes : (Expr.evalItems scope [] es : Run κ (List Value)) m with
    | ok vs m₁ =>
      rw [Run.bind_of_ok hes] at ih ⊢
      rw [Run.bind_of_ok ih.symm]
      simp only [Builtin.call_push_toArray]
    | error e m₁ =>
      rw [Run.bind_of_error hes] at ih ⊢
      rw [Run.bind_of_error ih.symm]

end

theorem exists_pushesAll (es : List Expr) : ∃ f, PushesAll es f := by
  induction es using List.reverseRecOn with
  | nil => exact ⟨_, .nil ⟨0, 0⟩⟩
  | append_singleton es e ih =>
    obtain ⟨f, h⟩ := ih
    exact ⟨_, h.concat e ⟨0, 0⟩ ⟨0, 0⟩⟩

/-! ## Top theorem -/

namespace Builtin

/-- What holds of an array and a value if the functions on arrays are those on lists. -/
structure ListLaws (κ : Type) [Console κ] (vs : Array Value) (x : Value) : Prop where
  size : (len.call [.array vs] : Run κ Value) = pure (.int (.ofNat vs.size))
  len_push : (push.call [.array vs, x] >>= (len.call [·]) : Run κ Value) =
    len.call [.array vs] >>= (BinaryOp.add.apply · (.int 1))
  last_push : (push.call [.array vs, x] >>= (last.call [·]) : Run κ Value) = value x
  first_push : (push.call [.array vs, x] >>= (first.call [·]) : Run κ Value) =
    if vs.isEmpty then value x else first.call [.array vs]
  rest_push : (push.call [.array vs, x] >>= (rest.call [·]) : Run κ Value) =
    if vs.isEmpty then pure (.array #[]) else rest.call [.array vs] >>= (push.call [·, x])
  parts : vs ≠ #[] → ∃ v tail, (first.call [.array vs] : Run κ Value) = value v ∧
    (rest.call [.array vs] : Run κ Value) = pure (.array tail) ∧ vs = #[v] ++ tail
  index : ∀ i : Int64, ((Value.array vs).at (.int i) : Run κ Value) =
    if 0 ≤ i.toInt ∧ i.toInt ≤ vs.size then
      restOf^[i.toInt.toNat] (pure (.array vs)) >>= (first.call [·])
    else pure .null

theorem listLaws [Console κ] (vs : Array Value) (x : Value) : ListLaws κ vs x := by
  obtain ⟨items⟩ := vs
  cases items with
  | nil =>
    exact ⟨rfl, len_push x [], last_push x [], rfl, rfl, fun h => absurd rfl h,
      Value.at_array_eq_first #[]⟩
  | cons v items =>
    exact {
      size := rfl
      len_push := len_push x (v :: items)
      last_push := last_push x (v :: items)
      first_push := first_push_cons v x items
      rest_push := rest_push_cons v x items
      parts := fun _ => ⟨v, items.toArray, rfl, call_rest_cons v items, by simp⟩
      index := Value.at_array_eq_first ⟨v :: items⟩ }

/-- The functions on arrays are those on lists, an index is a number of `rest`s and a `first`, and a
literal is as many calls of `push`: these come to the same value, or stop at the same error, and do
the same to the machine on the way. -/
theorem arrays_are_lists [Console κ] :
    (∀ (vs : Array Value) (x : Value), ListLaws κ vs x) ∧
    ∀ es : List Expr, (∃ f, PushesAll es f) ∧
      ∀ (f : Expr) (s : Span) (scope : Nat) (m : Machine κ), PushesAll es f →
        m.scopes.get? scope push.name = none →
        ((Expr.array es s).eval scope).outcome m = (f.eval scope).outcome m := by
  refine ⟨listLaws, fun es => ⟨exists_pushesAll es, fun f s scope m h hpush => ?_⟩⟩
  rw [Run.outcome, Run.outcome, h.eval_eq hpush]

/-- An array that begins with a stored error; and items that write a line, make a table, divide by 0
and would write another line. -/
theorem arrays_are_lists_of_effects :
    let vs : Array Value := #[.error "e", .int 2]
    let s : Span := ⟨0, 0⟩
    let m : Machine Transcript := .start {}
    let shout (text : String) : Expr := .call (.ident puts.name s) [.str text s] s
    let division : Expr := .binary (.int 1 s) .div (.int 0 s) s
    let pushed (f e : Expr) : Expr := .call (.ident push.name s) [f, e] s
    let f := pushed (pushed (pushed (pushed (.array [] s) (shout "a")) (.hash [] s)) division)
      (shout "b")
    (vs ≠ #[] ∧ ∃ v tail, (first.call [.array vs] : Run Transcript Value) = value v ∧
      (rest.call [.array vs] : Run Transcript Value) = pure (.array tail) ∧ vs = #[v] ++ tail) ∧
    PushesAll [shout "a", .hash [] s, division, shout "b"] f ∧
      m.scopes.get? globalScope push.name = none ∧
      let r := (f.eval globalScope).outcome m
      r.1 = .error .divisionByZero ∧ r.2.heap.size = 1 ∧ r.2.console.output = #["a"] := by
  intro vs s m shout division pushed f
  obtain ⟨hlists, hliterals⟩ := arrays_are_lists (κ := Transcript)
  have hne : vs ≠ #[] := by simp [vs]
  have hf : PushesAll [shout "a", .hash [] s, division, shout "b"] f :=
    ((((PushesAll.nil s).concat _ s s).concat _ s s).concat _ s s).concat _ s s
  have hpush : m.scopes.get? globalScope push.name = none := by decide +kernel
  have hsame := (hliterals _).2 f s globalScope m hf hpush
  refine ⟨⟨hne, (hlists vs .null).parts hne⟩, hf, hpush, ?_⟩
  rw [← hsame]
  refine ⟨?_, ?_, ?_⟩ <;> with_unfolding_all rfl

end Builtin

end MonkeyLang
