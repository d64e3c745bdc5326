import MonkeyLang.Proofs.Data.Placed
import MonkeyLang.Proofs.Running.FreshTables
import MonkeyLang.Proofs.Running.Sequence

/-!
# Comparisons

Values can be equal or not, and programs can ask if they are.  Equality is an equivalence, whatever
the values hold: it looks into arrays, and takes a table as equal to itself alone.  The operators
`==` and `!=` ask for it and nothing else, though integers have a way of their own
(`BinaryOp.apply_eq`, `BinaryOp.apply_notEq`).
-/

namespace MonkeyLang

open Visit (literalsAll)

variable {κ : Type}

/-! ## Operators -/

theorem Value.int_beq_int (a b : Int64) : (Value.int a == Value.int b) = (a == b) :=
  Value.beq_def ..

/-- Integers or not, and equal or not, the answer is that of equality. -/
theorem BinaryOp.apply_eq (v w : Value) :
    (BinaryOp.eq.apply v w : Run κ Value) = pure (.bool (v == w)) := by
  unfold apply
  split
  · rw [Value.int_beq_int]
    rfl
  · contradiction
  · rfl
  · contradiction
  · contradiction

/-- `!=` says the opposite of `==`. -/
theorem BinaryOp.apply_notEq (v w : Value) :
    (BinaryOp.notEq.apply v w : Run κ Value) = pure (.bool !(v == w)) := by
  unfold apply
  split
  · rw [Value.int_beq_int]
    rfl
  · contradiction
  · contradiction
  · rfl
  · contradiction

variable [Console κ]

/-- The operator is applied to the operands' values, on the machine after both. -/
theorem Expr.eval_binary {scope : Nat} {l r : Expr} {m m₁ m₂ : Machine κ} {v w : Value}
    (hl : l.eval scope m = .ok v m₁) (hr : r.eval scope m₁ = .ok w m₂) (op : BinaryOp) (s : Span) :
    (Expr.binary l op r s).eval scope m = op.apply v w m₂ := by
  rw [Expr.eval, Run.bind_of_ok hl, Run.bind_of_ok hr]

/-! ## Top theorem -/

/-- Equality is an equivalence, with or without a look at the places of arrays, and takes no two
tables that were made as equal; `==` says if its operands are equal, `!=` if they are not. -/
theorem comparisons_are_an_equivalence :
    (Equivalence fun v w : Value => (v == w) = true) ∧
    (∀ (memory : Nat → List Placed) (p q : Placed), p.LiesIn memory → q.LiesIn memory →
      p.quick q = p.itemwise q ∧ p.itemwise q = (p.value == q.value)) ∧
    (∀ (id : Nat) (w : Value), (Value.table id == w) = true ↔ w = .table id) ∧
    (∀ (m : Machine κ) (sources : List String),
      (literalsAll (m.visitsAll sources)).Pairwise fun v w => (v == w) = false) ∧
    ∀ (l r : Expr) (scope : Nat) (m m₁ m₂ : Machine κ) (v w : Value) (s : Span),
      l.eval scope m = .ok v m₁ → r.eval scope m₁ = .ok w m₂ →
        (Expr.binary l .eq r s).eval scope m = .ok (.bool (v == w)) m₂ ∧
        (Expr.binary l .notEq r s).eval scope m = .ok (.bool !(v == w)) m₂ := by
  refine ⟨⟨beq_self_eq_true, BEq.symm, BEq.trans⟩, fun memory p q hp hq => ?_, fun id w => ?_,
    fun m sources => (m.numbered_visitsAll sources).pairwise, ?_⟩
  · exact ⟨hp.quick_eq hq, p.itemwise_eq q⟩
  · rw [beq_iff_eq, eq_comm]
  · intro l r scope m m₁ m₂ v w s hl hr
    rw [Expr.eval_binary hl hr, Expr.eval_binary hl hr, BinaryOp.apply_eq, BinaryOp.apply_notEq]
    exact ⟨rfl, rfl⟩

/-- An array that holds one array twice and an array that holds it once, with a table at the bottom;
and two literals of an empty table. -/
theorem comparisons_are_an_equivalence_of_tables :
    (∃ (memory : Nat → List Placed) (p q : Placed), p.LiesIn memory ∧ q.LiesIn memory ∧
      p.value = .array #[.array #[.table 0], .array #[.table 0]] ∧
      p.quick q = true ∧ p.itemwise q = true ∧ (p.value == q.value) = true) ∧
    let s : Span := ⟨0, 0⟩
    let m : Machine Transcript := .start {}
    ∃ m₁ m₂, (Expr.hash [] s).eval globalScope m = .ok (.table 0) m₁ ∧
      (Expr.hash [] s).eval globalScope m₁ = .ok (.table 1) m₂ ∧
      (Expr.binary (.hash [] s) .eq (.hash [] s) s).eval globalScope m = .ok (.bool false) m₂ ∧
      (Expr.binary (.hash [] s) .notEq (.hash [] s) s).eval globalScope m = .ok (.bool true) m₂ := by
  obtain ⟨-, hplaces, htable, -, heval⟩ := comparisons_are_an_equivalence (κ := Transcript)
  constructor
  · let t : Placed := .plain (.table 0) (by decide)
    let memory : Nat → List Placed := fun place =>
      if place = 0 then [.array 2 [t], .array 2 [t]]
      else if place = 1 then [.array 2 [t], .array 3 [t]]
      else [t]
    have ht : ∀ p ∈ [t], p.LiesIn memory := fun p hp => by
      rw [List.mem_singleton.1 hp]
      exact .plain
    have h₂ : Placed.LiesIn memory (.array 2 [t]) := .array rfl ht
    have h₃ : Placed.LiesIn memory (.array 3 [t]) := .array rfl ht
    have hp : Placed.LiesIn memory (.array 0 [.array 2 [t], .array 2 [t]]) :=
      .array rfl (List.forall_mem_cons.2 ⟨h₂, List.forall_mem_cons.2 ⟨h₂, List.forall_mem_nil _⟩⟩)
    have hq : Placed.LiesIn memory (.array 1 [.array 2 [t], .array 3 [t]]) :=
      .array rfl (List.forall_mem_cons.2 ⟨h₂, List.forall_mem_cons.2 ⟨h₃, List.forall_mem_nil _⟩⟩)
    obtain ⟨hquick, hitems⟩ := hplaces memory _ _ hp hq
    have hvalue := hitems.trans (beq_self_eq_true _)
    exact ⟨memory, _, _, hp, hq, rfl, hquick.trans hvalue, hvalue, hitems.symm.trans hvalue⟩
  · intro s m
    let m₁ : Machine Transcript := { m with heap := (m.heap.alloc {}).2 }
    have hl : (Expr.hash [] s).eval globalScope m = .ok (.table 0) m₁ := rfl
    have hr : (Expr.hash [] s).eval globalScope m₁ =
        .ok (.table 1) { m₁ with heap := (m₁.heap.alloc {}).2 } := rfl
    have hne : (Value.table 0 == .table 1) = false := by
      rw [Bool.eq_false_iff, Ne, htable]
      rintro ⟨⟩
    have h := heval _ _ _ _ _ _ _ _ s hl hr
    rw [hne] at h
    exact ⟨_, _, hl, hr, h⟩

end MonkeyLang
