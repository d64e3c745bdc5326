import MonkeyLang.Builtin.Basic

/-!
# Values

What an expression of a program stands for.  Arrays never change.  A table is known by its number
in the heap, so that all who hold it see the same entries.  A failure is no value of its own
accord, but one that a host puts into a scope, an array or a table is kept there as `error`.

`beq` compares arrays item by item and tables by number.  It holds of a value and itself alone
(`eq_of_beq`, `beq_self`).  `==` gives its answer (`beq_def`), but does not look into an array that
is compared with itself or with one of another length.
-/

namespace MonkeyLang

inductive ValueKind where
  | integer
  | string
  | boolean
  | null
  | array
  | hash
  | error
  | function
deriving DecidableEq

/-- The name of a kind. -/
def ValueKind.display : ValueKind → String
  | integer => "INTEGER"
  | string => "STRING"
  | boolean => "BOOLEAN"
  | null => "NULL"
  | array => "ARRAY"
  | hash => "HASH"
  | error => "ERROR"
  | function => "FUNCTION"

/-- Values.  A table stands for itself by its number in the heap; an error is data once a host has
stored it. -/
inductive Value where
  | int (n : Int64)
  | str (s : String)
  | bool (b : Bool)
  | null
  | array (items : Array Value)
  | table (id : Nat)
  | error (message : String)
  | builtin (b : Builtin)
deriving Inhabited

namespace Value

/-! ## Algorithm -/

def kind : Value → ValueKind
  | int _ => .integer
  | str _ => .string
  | bool _ => .boolean
  | null => .null
  | array _ => .array
  | table _ => .hash
  | error _ => .error
  | builtin _ => .function

def isNull : Value → Bool
  | null => true
  | _ => false

def isError : Value → Bool
  | error _ => true
  | _ => false

/-- Everything holds but `false` and `null`. -/
def isTruthy : Value → Bool
  | bool b => b
  | null => false
  | _ => true

mutual

/-- Equality by what is in a value; tables are the same if they have the same number. -/
def beq : Value → Value → Bool
  | int a, int b => a == b
  | str a, str b => a == b
  | bool a, bool b => a == b
  | null, null => true
  | array ⟨as⟩, array ⟨bs⟩ => beqItems as bs
  | table a, table b => a == b
  | error a, error b => a == b
  | builtin a, builtin b => a == b
  | _, _ => false

def beqItems : List Value → List Value → Bool
  | [], [] => true
  | a :: as, b :: bs => if a.beq b then beqItems as bs else false
  | _, _ => false

end

/-! ## Lemmas -/

mutual

/-- Every value equals itself. -/
theorem beq_self : (v : Value) → v.beq v = true
  | int _ => by simp [beq]
  | str _ => by simp [beq]
  | bool _ => by simp [beq]
  | null => rfl
  | array ⟨vs⟩ => by simp [beq, beqItems_self vs]
  | table _ => by simp [beq]
  | error _ => by simp [beq]
  | builtin _ => by simp [beq]

theorem beqItems_self : (vs : List Value) → beqItems vs vs = true
  | [] => rfl
  | v :: vs => by simp [beqItems, beq_self v, beqItems_self vs]

end

mutual

/-- Values that are equal for a program are one value of the model. -/
theorem eq_of_beq : {v w : Value} → v.beq w = true → v = w
  | int _, w, h => by cases w <;> simp_all [beq]
  | str _, w, h => by cases w <;> simp_all [beq]
  | bool _, w, h => by cases w <;> simp_all [beq]
  | null, w, h => by cases w <;> simp_all [beq]
  | array ⟨vs⟩, w, h => by
    cases w <;> simp only [beq, Bool.false_eq_true] at h
    rw [eq_of_beqItems h]
  | table _, w, h => by cases w <;> simp_all [beq]
  | error _, w, h => by cases w <;> simp_all [beq]
  | builtin _, w, h => by cases w <;> simp_all [beq]

theorem eq_of_beqItems : {vs ws : List Value} → beqItems vs ws = true → vs = ws
  | [], ws, h => by cases ws <;> simp_all [beqItems]
  | v :: vs, ws, h => by
    cases ws with
    | nil => simp [beqItems] at h
    | cons w ws =>
      rw [beqItems] at h
      split at h
      · next hv => rw [eq_of_beq hv, eq_of_beqItems h]
      · exact absurd h Bool.false_ne_true

end

theorem beq_array (vs ws : Array Value) :
    (array vs).beq (array ws) = beqItems vs.toList ws.toList := by
  cases vs; cases ws; rfl

/-- Items are compared in vain if there are more of one array than of the other. -/
theorem beq_array_of_size_ne {vs ws : Array Value} (h : vs.size ≠ ws.size) :
    (array vs).beq (array ws) = false :=
  Bool.eq_false_iff.2 fun hb => h (by cases eq_of_beq hb; rfl)

/-! ## Comparison with short cuts

An array may hold another one many times over, down to any depth, and then is small in memory and
huge item by item.  So arrays at one address are taken as equal, which `beq_self` allows, and
arrays of two sizes as different, which `beq_array_of_size_ne` does. -/

mutual

/-- The answer of `beq`. -/
def same (v w : Value) : { r : Bool // r = v.beq w } :=
  match v, w with
  | array vs, array ws =>
    have h : (if hs : vs.size = ws.size then (sameFrom vs ws hs 0).1 else false) =
        (array vs).beq (array ws) := by
      split
      · next hs => rw [(sameFrom vs ws hs 0).2, beq_array]; rfl
      · next hs => exact (beq_array_of_size_ne hs).symm
    ⟨withPtrEq vs ws (fun _ => if hs : vs.size = ws.size then (sameFrom vs ws hs 0).1 else false)
      fun e => h.trans (e ▸ beq_self _), h⟩
  | v, w => ⟨v.beq w, rfl⟩
termination_by (sizeOf v, 0)

/-- The answer for the items from the number `i` on. -/
def sameFrom (vs ws : Array Value) (h : vs.size = ws.size) (i : Nat) :
    { r : Bool // r = beqItems (vs.toList.drop i) (ws.toList.drop i) } :=
  if hi : i < vs.size then
    ⟨if (same vs[i] ws[i]).1 then (sameFrom vs ws h (i + 1)).1 else false, by
      have hv : vs.toList.drop i = vs[i] :: vs.toList.drop (i + 1) :=
        List.drop_eq_getElem_cons (by simpa using hi)
      have hw : ws.toList.drop i = ws[i] :: ws.toList.drop (i + 1) :=
        List.drop_eq_getElem_cons (by simpa [← h] using hi)
      rw [hv, hw, beqItems, (same vs[i] ws[i]).2, (sameFrom vs ws h (i + 1)).2]⟩
  else
    ⟨true, by
      rw [List.drop_eq_nil_of_le (by simpa using hi),
        List.drop_eq_nil_of_le (by simpa [h] using hi), beqItems]⟩
termination_by (sizeOf vs, vs.size - i)

end

instance : BEq Value := ⟨fun v w => (same v w).1⟩

/-- What `==` is computed by makes no difference. -/
theorem beq_def (v w : Value) : (v == w) = v.beq w := (same v w).2

instance : LawfulBEq Value where
  rfl := (beq_def ..).trans (beq_self _)
  eq_of_beq h := eq_of_beq ((beq_def ..).symm.trans h)

end Value

end MonkeyLang
