import MonkeyLang.Proofs.Running.Invariants

/-!
# Operations on values

Operators, indices and calls are put together from a few steps, none of which needs a scope: a look
at the tables, a change of one, a line that is written or read.  What goes wrong in them is never
that a name is missing, and the error of a value is met only where such a value is at hand.  So a
relation between runs that each of these steps keeps (`Run.Local`) holds of the runs of all
operations; in contrast to `Run.Parametric`, it may be one between runs in scopes of their own.
-/

namespace MonkeyLang

open Run (value valueOrNull setEntry writeLine readLine newTable)

variable {κ : Type}

/-- A fault that an operation comes to by itself: no name is missing, and no stored error is met. -/
def Fault.Own : Fault → Prop
  | unboundName _ => False
  | stored _ => False
  | _ => True

/-- A relation between runs that every step of an operation keeps.  With it goes a property of what
comes out; all values that are at hand have the property `V`. -/
structure Run.Local [Console κ] (V : Value → Prop)
    (P : (α : Type) → Run κ α → Run κ α → (α → Prop) → Prop) : Prop where
  values : Value.Invariant (fun _ => True) fun _ => V
  pure {α : Type} {a : α} {Q : α → Prop} (h : Q a) : P α (pure a) (pure a) Q
  throw {α : Type} {f : Fault} {Q : α → Prop} (h : f.Own) : P α (throw f) (throw f) Q
  bind {α β : Type} {x x' : Run κ α} {f f' : α → Run κ β} {Q : α → Prop}
    {R : β → Prop} (hx : P α x x' Q) (hf : ∀ a, Q a → P β (f a) (f' a) R) :
    P β (x >>= f) (x' >>= f') R
  value {v : Value} (h : V v) : P Value (value v) (value v) V
  heap {α : Type} {f f' : Heap → Run κ α} {Q : α → Prop}
    (h : ∀ heap, (∀ id, (heap.table id).All V) → P α (f heap) (f' heap) Q) :
    P α (get >>= fun m => f m.heap) (get >>= fun m => f' m.heap) Q
  newTable {t : Table} (h : t.All V) : P Value (newTable t) (newTable t) V
  setEntry (id : Nat) (k : Key) {v : Value} (h : V v) :
    P Unit (setEntry id k v) (setEntry id k v) fun _ => True
  writeLine (line : String) : P Unit (writeLine line) (writeLine line) fun _ => True
  readLine (prompt : Option String) :
    P (Option String) (readLine prompt) (readLine prompt) fun _ => True

namespace Run.Local

variable [Console κ] {V : Value → Prop}
  {P : (α : Type) → Run κ α → Run κ α → (α → Prop) → Prop} (hP : Local V P)

include hP

theorem null : P Value (Pure.pure .null) (Pure.pure .null) V := hP.pure (hP.values.null (n := 0))

theorem int (n : Int64) : P Value (Pure.pure (.int n)) (Pure.pure (.int n)) V :=
  hP.pure (hP.values.int (n := 0) n)

theorem str (s : String) : P Value (Pure.pure (.str s)) (Pure.pure (.str s)) V :=
  hP.pure (hP.values.str (n := 0) s)

theorem bool (b : Bool) : P Value (Pure.pure (.bool b)) (Pure.pure (.bool b)) V :=
  hP.pure (hP.values.bool (n := 0) b)

theorem array {vs : Array Value} (h : ∀ v ∈ vs, V v) :
    P Value (Pure.pure (.array vs)) (Pure.pure (.array vs)) V :=
  hP.pure ((hP.values.array (n := 0)).2 h)

theorem item {vs : Array Value} (h : V (.array vs)) {v : Value} (hv : v ∈ vs) : V v :=
  (hP.values.array (n := 0)).1 h v hv

/-- What was looked for is an item, or null stands in for it. -/
theorem valueOrNull {found : Option Value} (h : ∀ v ∈ found, V v) :
    P Value (valueOrNull found) (valueOrNull found) V := by
  cases found with
  | none => exact hP.value (hP.values.null (n := 0))
  | some v => exact hP.value (h v rfl)

/-! ## Operators -/

theorem unary (op : UnaryOp) (v : Value) : P Value (op.apply v) (op.apply v) V := by
  unfold UnaryOp.apply
  split
  · exact hP.bool _
  · exact hP.int _
  · exact hP.throw trivial

theorem applyInt (op : BinaryOp) (a b : Int64) : P Value (op.applyInt a b) (op.applyInt a b) V := by
  cases op with
  | add => exact hP.int _
  | sub => exact hP.int _
  | mul => exact hP.int _
  | div =>
    by_cases hb : b = 0
    · simp only [BinaryOp.applyInt, if_pos hb]
      exact hP.throw trivial
    · simp only [BinaryOp.applyInt, if_neg hb]
      exact hP.int _
  | lt => exact hP.bool _
  | gt => exact hP.bool _
  | eq => exact hP.bool _
  | notEq => exact hP.bool _

/-- Operators make their values anew. -/
theorem binary (op : BinaryOp) (v w : Value) : P Value (op.apply v w) (op.apply v w) V := by
  unfold BinaryOp.apply
  split
  · exact hP.applyInt op _ _
  · exact hP.str _
  · exact hP.bool _
  · exact hP.bool _
  · split
    · exact hP.throw trivial
    · exact hP.throw trivial

/-- What stands under an index was in the value. -/
theorem index {v : Value} (hv : V v) (w : Value) : P Value (v.at w) (v.at w) V := by
  unfold Value.at
  split
  · refine hP.valueOrNull fun u hu => hP.item hv ?_
    unfold itemAt? at hu
    split at hu
    · exact Array.mem_of_getElem? hu
    · cases hu
  · next id =>
    split
    · next k _ =>
      exact hP.heap (f := fun heap => Run.valueOrNull ((heap.table id).get? k)) fun heap hheap =>
        hP.valueOrNull fun u hu => hheap id k u hu
    · exact hP.throw trivial
  · exact hP.throw trivial

/-! ## Calls -/

section

open Builtin

theorem callLen (v : Value) : P Value (callLen v) (callLen v) V := by
  unfold Builtin.callLen
  split
  · exact hP.int _
  · exact hP.int _
  · exact hP.throw trivial

theorem callFirst {v : Value} (hv : V v) : P Value (callFirst v) (callFirst v) V := by
  unfold Builtin.callFirst
  split
  · exact hP.valueOrNull fun u hu => hP.item hv (Array.mem_of_getElem? hu)
  · exact hP.throw trivial

theorem callLast {v : Value} (hv : V v) : P Value (callLast v) (callLast v) V := by
  unfold Builtin.callLast
  split
  · exact hP.valueOrNull fun u hu => hP.item hv (Array.mem_of_back? hu)
  · exact hP.throw trivial

theorem callRest {v : Value} (hv : V v) : P Value (callRest v) (callRest v) V := by
  unfold Builtin.callRest
  split
  · split
    · exact hP.null
    · refine hP.array fun u hu => ?_
      obtain ⟨i, hi, rfl⟩ := Array.getElem_of_mem hu
      rw [Array.getElem_extract]
      exact hP.item hv (Array.getElem_mem _)
  · exact hP.throw trivial

theorem callPush {v w : Value} (hv : V v) (hw : V w) :
    P Value (callPush v w) (callPush v w) V := by
  unfold Builtin.callPush
  split
  · refine hP.array fun u hu => ?_
    rcases Array.mem_push.1 hu with hu | rfl
    · exact hP.item hv hu
    · exact hw
  · exact hP.throw trivial

theorem callPuts (vs : List Value) : P Value (callPuts vs) (callPuts vs) V := by
  induction vs with
  | nil => exact hP.null
  | cons v vs ih =>
    exact hP.heap
      (f := fun heap => Run.writeLine (heap.inspect v) >>= fun _ => Builtin.callPuts vs)
      fun heap _ => hP.bind (hP.writeLine _) fun _ _ => ih

theorem readValue (prompt : Option String) : P Value (readValue prompt) (readValue prompt) V := by
  refine hP.bind (hP.readLine prompt) fun line _ => ?_
  cases line with
  | some line => exact hP.str _
  | none => exact hP.throw trivial

theorem callStdinRead (vs : List Value) : P Value (callStdinRead vs) (callStdinRead vs) V := by
  unfold Builtin.callStdinRead
  split
  · exact hP.readValue _
  · exact hP.readValue _
  · exact hP.throw trivial

/-- A stored error that would be set is given back instead. -/
theorem callObjectSet (v k : Value) {w : Value} (hw : V w) :
    P Value (callObjectSet v k w) (callObjectSet v k w) V := by
  unfold Builtin.callObjectSet
  split
  · refine hP.bind (hP.value hw) fun u hu => ?_
    split
    · exact hP.bind (hP.setEntry _ _ hu) fun _ _ => hP.pure hu
    · exact hP.throw trivial
  · exact hP.throw trivial

theorem callCharAt (v w : Value) : P Value (callCharAt v w) (callCharAt v w) V := by
  unfold Builtin.callCharAt
  split
  · split
    · exact hP.str _
    · exact hP.throw trivial
  · exact hP.throw trivial
  · exact hP.throw trivial

theorem call (b : Builtin) {args : List Value} (h : ∀ v ∈ args, V v) :
    P Value (b.call args) (b.call args) V := by
  unfold Builtin.call
  split
  · split
    · exact hP.callLen _
    · exact hP.callFirst (h _ (by simp))
    · exact hP.callLast (h _ (by simp))
    · exact hP.callRest (h _ (by simp))
    · exact hP.callPush (h _ (by simp)) (h _ (by simp))
    · exact hP.callPuts _
    · exact hP.bool _
    · exact hP.callStdinRead _
    · exact hP.callObjectSet _ _ (h _ (by simp))
    · exact hP.callCharAt _ _
    · exact hP.throw trivial
  · exact hP.throw trivial

end

theorem apply (callee : Value) {args : List Value} (h : ∀ v ∈ args, V v) :
    P Value (callee.apply args) (callee.apply args) V := by
  cases callee with
  | builtin b => exact hP.call b h
  | _ => exact hP.throw trivial

end Run.Local

end MonkeyLang
