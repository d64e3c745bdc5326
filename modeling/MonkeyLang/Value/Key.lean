import MonkeyLang.Value.Basic

/-!
# Keys

The values that a table can be keyed by: integers, then strings by their code points, which is
also the order of their bytes in UTF-8, then `false` and `true`.  A key is as good as its value
(`key?_toValue`, `toValue_of_key?`).  `compare` is a linear order: the two instances at the end say
so.
-/

namespace MonkeyLang

/-- What a table can be asked for. -/
inductive Key where
  | int (n : Int64)
  | str (s : String)
  | bool (b : Bool)
deriving DecidableEq

namespace Key

/-! ## Algorithm -/

/-- The value that a key is written as. -/
def toValue : Key → Value
  | int n => .int n
  | str s => .str s
  | bool b => .bool b

/-- Integers come before texts, and texts before booleans; each kind in its own order. -/
protected def compare : Key → Key → Ordering
  | int a, int b => compare a b
  | int _, _ => .lt
  | str _, int _ => .gt
  | str a, str b => compare a b
  | str _, bool _ => .lt
  | bool a, bool b => compare a b
  | bool _, _ => .gt

instance : Ord Key := ⟨Key.compare⟩

end Key

/-- The key that a value is; only integers, strings and booleans are keys. -/
def Value.key? : Value → Option Key
  | .int n => some (.int n)
  | .str s => some (.str s)
  | .bool b => some (.bool b)
  | _ => none

/-! ## Lemmas -/

theorem Key.key?_toValue (k : Key) : k.toValue.key? = some k := by cases k <;> rfl

/-- A key is the only one of its value. -/
theorem Key.toValue_of_key? {v : Value} {k : Key} (h : v.key? = some k) : k.toValue = v := by
  cases v <;> simp only [Value.key?, Option.some.injEq, reduceCtorEq] at h <;> subst h <;> rfl

namespace Key

instance : Std.TransOrd Key where
  eq_swap {a b} :=
    match a, b with
    | int a, int b => (Std.OrientedCmp.eq_swap : compare a b = (compare b a).swap)
    | str a, str b => (Std.OrientedCmp.eq_swap : compare a b = (compare b a).swap)
    | bool a, bool b => (Std.OrientedCmp.eq_swap : compare a b = (compare b a).swap)
    | int _, str _ => rfl
    | int _, bool _ => rfl
    | str _, int _ => rfl
    | str _, bool _ => rfl
    | bool _, int _ => rfl
    | bool _, str _ => rfl
  isLE_trans {a b c} hab hbc :=
    match a, b, c with
    | int a, int b, int c => Std.TransOrd.isLE_trans (a := a) (b := b) (c := c) hab hbc
    | str a, str b, str c => Std.TransOrd.isLE_trans (a := a) (b := b) (c := c) hab hbc
    | bool a, bool b, bool c => Std.TransOrd.isLE_trans (a := a) (b := b) (c := c) hab hbc
    | int _, _, str _ => rfl
    | int _, _, bool _ => rfl
    | str _, _, bool _ => rfl
    | int _, str _, int _ => nomatch hbc
    | int _, bool _, int _ => nomatch hbc
    | str _, int _, _ => nomatch hab
    | str _, bool _, int _ => nomatch hbc
    | str _, bool _, str _ => nomatch hbc
    | str _, str _, int _ => nomatch hbc
    | bool _, int _, _ => nomatch hab
    | bool _, str _, _ => nomatch hab
    | bool _, bool _, int _ => nomatch hbc
    | bool _, bool _, str _ => nomatch hbc

instance : Std.LawfulEqOrd Key where
  eq_of_compare {a b} h :=
    match a, b with
    | int a, int b => congrArg int (Std.LawfulEqOrd.eq_of_compare (a := a) (b := b) h)
    | str a, str b => congrArg str (Std.LawfulEqOrd.eq_of_compare (a := a) (b := b) h)
    | bool a, bool b => congrArg bool (Std.LawfulEqOrd.eq_of_compare (a := a) (b := b) h)

end Key

end MonkeyLang
