import MonkeyLang.Value.Basic

/-!
# Arrays at places in memory

An array that is met twice may be one array at one place, or two that happen to have the same items.
A value does not tell, and `==` may ask: it takes arrays at one place as equal without looking at
their items.  Here each array is written down with its place, and places are those of a memory that
has one list of items at each of them (`Placed.LiesIn`).  The short cut is never seen in the answer:

    p.quick q = p.itemwise q = (p.value == q.value)          (LiesIn.quick_eq, itemwise_eq)

The short cut at a place answers for all items below it, so it is right because every value is equal
to itself, whatever it holds.
-/

namespace MonkeyLang

/-- A value with the places of its arrays. -/
inductive Placed where
  | plain (v : Value) (h : v.kind ≠ .array)
  | array (place : Nat) (items : List Placed)

namespace Placed

/-! ## Algorithm -/

mutual

/-- The value without the places. -/
def value : Placed → Value
  | plain v _ => v
  | array _ ps => .array (values ps).toArray

def values : List Placed → List Value
  | [] => []
  | p :: ps => p.value :: values ps

end

mutual

/-- Comparison down to the items of the items. -/
def itemwise : Placed → Placed → Bool
  | plain v _, plain w _ => v == w
  | array _ ps, array _ qs => itemwiseAll ps qs
  | _, _ => false

def itemwiseAll : List Placed → List Placed → Bool
  | [], [] => true
  | p :: ps, q :: qs => p.itemwise q && itemwiseAll ps qs
  | _, _ => false

end

mutual

/-- Comparison that looks at places first, at every array that it comes to. -/
def quick : Placed → Placed → Bool
  | plain v _, plain w _ => v == w
  | array i ps, array j qs => i == j || quickAll ps qs
  | _, _ => false

def quickAll : List Placed → List Placed → Bool
  | [], [] => true
  | p :: ps, q :: qs => p.quick q && quickAll ps qs
  | _, _ => false

end

/-- The arrays in the value are at their places in the memory. -/
inductive LiesIn (memory : Nat → List Placed) : Placed → Prop where
  | plain {v : Value} {h : v.kind ≠ .array} : LiesIn memory (plain v h)
  | array {place : Nat} {items : List Placed} (hplace : memory place = items)
      (hitems : ∀ p ∈ items, LiesIn memory p) : LiesIn memory (array place items)

/-! ## Lemmas -/

mutual

theorem itemwise_eq : (p q : Placed) → p.itemwise q = (p.value == q.value)
  | plain v h, plain w h' => rfl
  | plain v h, array j qs => (beq_eq_false_iff_ne.2 fun heq => h (congrArg Value.kind heq)).symm
  | array i ps, plain w h =>
    (beq_eq_false_iff_ne.2 fun heq => h (congrArg Value.kind heq.symm)).symm
  | array i ps, array j qs => by
    rw [itemwise, itemwiseAll_eq ps qs, value, value, Value.beq_def, Value.beq_array]

theorem itemwiseAll_eq :
    (ps qs : List Placed) → itemwiseAll ps qs = Value.beqItems (values ps) (values qs)
  | [], [] => rfl
  | [], q :: qs => rfl
  | p :: ps, [] => rfl
  | p :: ps, q :: qs => by
    rw [itemwiseAll, itemwise_eq p q, itemwiseAll_eq ps qs, values, values, Value.beqItems,
      Value.beq_def]
    cases p.value.beq q.value <;> rfl

end

theorem itemwiseAll_self (ps : List Placed) : itemwiseAll ps ps = true := by
  rw [itemwiseAll_eq, Value.beqItems_self]

section

variable {memory : Nat → List Placed}

/-- An array has the items that are at its place, and so have they. -/
theorem LiesIn.items {i : Nat} {ps : List Placed} (h : LiesIn memory (.array i ps)) :
    memory i = ps ∧ ∀ p ∈ ps, LiesIn memory p := by
  cases h with
  | array hplace hitems => exact ⟨hplace, hitems⟩

mutual

/-- Two arrays at one place have the same items, so that it makes no difference to look at places
first. -/
theorem LiesIn.quick_eq : {p q : Placed} → LiesIn memory p → LiesIn memory q →
    p.quick q = p.itemwise q
  | .plain v h, .plain w h', _, _ => rfl
  | .plain v h, .array j qs, _, _ => rfl
  | .array i ps, .plain w h, _, _ => rfl
  | .array i ps, .array j qs, hp, hq => by
    obtain ⟨hi, hps⟩ := hp.items
    obtain ⟨hj, hqs⟩ := hq.items
    rw [quick, itemwise, quickAll_eq hps hqs]
    by_cases hij : i = j
    · -- the same place, so the same items
      rw [← hi, ← hj, hij, itemwiseAll_self, Bool.or_true]
    · rw [beq_eq_false_iff_ne.2 hij, Bool.false_or]

theorem quickAll_eq : {ps qs : List Placed} → (∀ p ∈ ps, LiesIn memory p) →
    (∀ q ∈ qs, LiesIn memory q) → quickAll ps qs = itemwiseAll ps qs
  | [], [], _, _ => rfl
  | [], q :: qs, _, _ => rfl
  | p :: ps, [], _, _ => rfl
  | p :: ps, q :: qs, hps, hqs => by
    obtain ⟨hp, hps⟩ := List.forall_mem_cons.1 hps
    obtain ⟨hq, hqs⟩ := List.forall_mem_cons.1 hqs
    rw [quickAll, itemwiseAll, LiesIn.quick_eq hp hq, quickAll_eq hps hqs]

end

end

end Placed

end MonkeyLang
