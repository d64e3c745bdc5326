import MonkeyLang.Proofs.Running.Traces

/-!
# Tables that are made

Each evaluation of a table literal puts a new table into the heap.  So the values of all table
literals of a session, in the order in which they are found, are tables whose numbers go up, from
the size of the heap before the session to its size after it:

    Numbered m.heap.size (literalsAll (m.visitsAll sources)) (m.runSources sources).heap.size

(`Machine.numbered_visitsAll`), and no two of them are equal (`Numbered.pairwise`).  A literal in
another one is found before it.
-/

namespace MonkeyLang

open Recorded (lift visit bind_of_ok bind_of_error)

variable {κ α β : Type}

/-! ## Literals -/

/-- The value of a table literal. -/
def Node.literal? (node : Node) (result : EStateM.Result Fault (Machine κ) Value) : Option Value :=
  match node, result with
  | .expr (.hash _ _), .ok v _ => some v
  | _, _ => none

namespace Visit

mutual

/-- The values of the table literals in the visit, in the order in which they are found. -/
def literals : Visit κ → List Value
  | ⟨node, _, _, nested, result⟩ => literalsAll nested ++ (node.literal? result).toList

def literalsAll : List (Visit κ) → List Value
  | [] => []
  | v :: vs => v.literals ++ literalsAll vs

end

theorem literals_eq (v : Visit κ) :
    v.literals = literalsAll v.nested ++ (v.node.literal? v.result).toList := by
  cases v
  rw [literals]

theorem literalsAll_append (vs ws : List (Visit κ)) :
    literalsAll (vs ++ ws) = literalsAll vs ++ literalsAll ws := by
  induction vs with
  | nil => rfl
  | cons v vs ih => rw [List.cons_append, literalsAll, literalsAll, ih, List.append_assoc]

theorem literalsAll_singleton (v : Visit κ) : literalsAll [v] = v.literals := by
  rw [literalsAll, literalsAll, List.append_nil]

end Visit

open Visit (literals literalsAll literalsAll_append literalsAll_singleton literals_eq)

/-! ## Numbers that go up -/

/-- The values are tables.  Their numbers go up, from the first number on and below the last. -/
inductive Numbered : Nat → List Value → Nat → Prop where
  | nil {n n' : Nat} (h : n ≤ n') : Numbered n [] n'
  | cons {n id n' : Nat} {vs : List Value} (h : n ≤ id) (hvs : Numbered (id + 1) vs n') :
      Numbered n (.table id :: vs) n'

namespace Numbered

variable {n n' n'' : Nat} {vs ws : List Value}

theorem of_le (hle : n ≤ n') (h : Numbered n' vs n'') : Numbered n vs n'' := by
  cases h with
  | nil h => exact .nil (Nat.le_trans hle h)
  | cons h hvs => exact .cons (Nat.le_trans hle h) hvs

theorem append (h : Numbered n vs n') (h' : Numbered n' ws n'') : Numbered n (vs ++ ws) n'' := by
  induction h with
  | nil hle => exact of_le hle h'
  | cons hle _ ih => exact .cons hle (ih h')

theorem exists_of_mem (h : Numbered n vs n') {v : Value} (hv : v ∈ vs) :
    ∃ id, v = .table id ∧ n ≤ id := by
  induction h with
  | nil => cases hv
  | cons hle _ ih =>
    rcases List.mem_cons.1 hv with rfl | hv
    · exact ⟨_, rfl, hle⟩
    · obtain ⟨id, hid, hle'⟩ := ih hv
      exact ⟨id, hid, by omega⟩

theorem pairwise (h : Numbered n vs n') : vs.Pairwise fun v w => (v == w) = false := by
  induction h with
  | nil => exact .nil
  | cons _ hvs ih =>
    refine List.pairwise_cons.2 ⟨fun w hw => ?_, ih⟩
    obtain ⟨id, rfl, hid⟩ := hvs.exists_of_mem hw
    refine beq_eq_false_iff_ne.2 fun heq => ?_
    injection heq with heq
    omega

end Numbered

/-! ## Runs -/

variable [Console κ]

/-- Tables are never taken away. -/
theorem steps_size : Steps (fun _ => True) fun m m' : Machine κ => m.heap.size ≤ m'.heap.size where
  refl _ := Nat.le_refl _
  trans := Nat.le_trans
  scopes _ _ := Nat.le_refl _
  alloc m t := by
    rw [Heap.size_alloc]
    exact Nat.le_succ _
  insert _ m id k v := Nat.le_of_eq (m.heap.size_insert id k v).symm
  writeLine _ _ _ := Nat.le_refl _
  readLine _ _ _ := Nat.le_refl _

open Run (Looks Rises)

namespace Recorded

/-- The literals that the run goes through make all their tables in the heap, one after another. -/
def Numbers (x : Recorded κ α) : Prop :=
  ∀ m, Numbered m.heap.size (literalsAll (x m).1) (Run.final (x m).2).heap.size

omit [Console κ] in
/-- A run that makes no visits may make tables, but no literals. -/
theorem numbers_lift {x : Run κ α}
    (h : Rises (fun m m' : Machine κ => m.heap.size ≤ m'.heap.size) x) : Numbers (lift x) :=
  fun m => .nil (h m)

theorem numbers_look {x : Run κ α} (h : Looks x x) : Numbers (lift x) :=
  numbers_lift (Run.rises_of_looks steps_size h)

omit [Console κ] in
theorem numbers_pure (a : α) : Numbers (pure a : Recorded κ α) := fun _ => .nil (Nat.le_refl _)

omit [Console κ] in
/-- The tables of the second run come after those of the first. -/
theorem Numbers.bind {x : Recorded κ α} {f : α → Recorded κ β} (hx : Numbers x)
    (hf : ∀ a, Numbers (f a)) : Numbers (x >>= f) := by
  intro m
  have h := hx m
  rcases hr : x m with ⟨vs, ⟨a, m'⟩ | ⟨e, m'⟩⟩
  · rw [hr] at h
    rw [bind_of_ok hr, literalsAll_append]
    exact h.append (hf a m')
  · rw [hr] at h
    rw [bind_of_error hr]
    exact h

omit [Console κ] in
/-- A visit adds its own literal behind those inside it. -/
theorem numbered_visit {x : Recorded κ Value} {node : Node} {m : Machine κ} (scope : Nat)
    (h : Numbered m.heap.size (literalsAll (x m).1 ++ (node.literal? (x m).2).toList)
      (Run.final (x m).2).heap.size) :
    Numbered m.heap.size (literalsAll (visit node scope x m).1)
      (Run.final (visit node scope x m).2).heap.size := by
  show Numbered _ (literalsAll [_]) _
  rw [literalsAll_singleton, literals_eq]
  exact h

omit [Console κ] in
/-- A visit to anything else adds no literal to those inside it. -/
theorem Numbers.visit {x : Recorded κ Value} (hx : Numbers x) {node : Node} (scope : Nat)
    (hnode : ∀ ps s, node ≠ .expr (.hash ps s) := by rintro _ _ ⟨⟩) :
    Numbers (visit node scope x) := by
  intro m
  have hnone : node.literal? (x m).2 = none := by
    unfold Node.literal?
    split
    · exact absurd rfl (hnode _ _)
    · rfl
  refine numbered_visit scope ?_
  rw [hnone, Option.toList_none, List.append_nil]
  exact hx m

omit [Console κ] in
/-- The table of a literal is put into the heap behind those of the literals inside it. -/
theorem Numbers.visit_hash {x : Recorded κ Table} (hx : Numbers x) (ps : List (Expr × Expr))
    (s : Span) (scope : Nat) :
    Numbers (Recorded.visit (.expr (.hash ps s)) scope (x >>= fun t => lift (Run.newTable t))) := by
  intro m
  refine numbered_visit scope ?_
  have h := hx m
  rcases hr : x m with ⟨vs, ⟨t, m'⟩ | ⟨e, m'⟩⟩
  · rw [hr] at h
    rw [bind_of_ok hr, literalsAll_append]
    have hnew : Numbered m'.heap.size [.table m'.heap.size] (m'.heap.alloc t).2.size :=
      .cons (Nat.le_refl _) (.nil (Nat.le_of_eq (m'.heap.size_alloc t).symm))
    exact (h.append (.nil (Nat.le_refl _))).append hnew
  · -- a literal that fails has no value
    rw [hr] at h
    rw [bind_of_error hr]
    show Numbered _ (literalsAll vs ++ []) _
    rw [List.append_nil]
    exact h

/-- A call makes no literal. -/
theorem numbers_application (callee : Value) (args : List Value) (scope : Nat) :
    Numbers (visit (.application callee args) scope
      (lift (callee.apply args : Run κ Value))) := by
  refine Numbers.visit ?_ scope
  cases callee with
  | builtin b => exact numbers_lift (Builtin.rises_call steps_size trivial args)
  | _ => exact numbers_look (Run.looks_throw _)

end Recorded

/-! ## The evaluator -/

open Recorded (Numbers numbers_lift numbers_look numbers_pure numbers_application)

omit [Console κ] in
theorem Run.numbers_enter (scope : Nat) : Numbers (lift (Run.enter scope : Run κ Nat)) :=
  numbers_lift fun _ => Nat.le_refl _

mutual

-- By the recursion of the evaluator, as the node of a visit matters here: a table literal adds a
-- number of its own, all others only those of what is inside them.
/-- Every expression numbers its literals, as do all the parts of a program below. -/
theorem Expr.numbers_record (scope : Nat) :
    (e : Expr) → Numbers (e.record scope : Recorded κ Value)
  | .int n s => by
    rw [Expr.record]
    exact (numbers_pure _).visit scope
  | .str t s => by
    rw [Expr.record]
    exact (numbers_pure _).visit scope
  | .bool b s => by
    rw [Expr.record]
    exact (numbers_pure _).visit scope
  | .null s => by
    rw [Expr.record]
    exact (numbers_pure _).visit scope
  | .ident x s => by
    rw [Expr.record]
    exact (numbers_look (looks_resolve scope x)).visit scope
  | .unary op e s => by
    rw [Expr.record]
    refine Numbers.visit (.bind (Expr.numbers_record scope e) fun v => ?_) scope
    exact numbers_look (looks_unaryApply op v)
  | .binary l op r s => by
    rw [Expr.record]
    refine Numbers.visit (.bind (Expr.numbers_record scope l) fun v =>
      .bind (Expr.numbers_record scope r) fun w => ?_) scope
    exact numbers_look (looks_binaryApply op v w)
  | .cond test yes no s => by
    rw [Expr.record]
    refine Numbers.visit (.bind (Expr.numbers_record scope test) fun v => ?_) scope
    split
    · exact (Run.numbers_enter scope).bind fun inner => Stmt.numbers_recordAll inner .null yes
    · exact Stmt.numbers_recordElse scope no
  | .array es s => by
    rw [Expr.record]
    exact Numbers.visit (.bind (Expr.numbers_recordItems scope [] es) fun vs => numbers_pure _) scope
  | .hash ps s => by
    rw [Expr.record]
    exact (Expr.numbers_recordPairs scope {} ps).visit_hash ps s scope
  | .index target subscript s => by
    rw [Expr.record]
    refine Numbers.visit (.bind (Expr.numbers_record scope target) fun v =>
      .bind (Expr.numbers_record scope subscript) fun w => ?_) scope
    exact numbers_look (looks_at v w)
  | .call callee args s => by
    rw [Expr.record]
    refine Numbers.visit (.bind (Expr.numbers_record scope callee) fun f =>
      .bind (Expr.numbers_recordItems scope [] args) fun vs => ?_) scope
    exact numbers_application f vs scope

theorem Expr.numbers_recordItems (scope : Nat) (done : List Value) : (es : List Expr) →
    Numbers (Expr.recordItems scope done es : Recorded κ (List Value))
  | [] => numbers_pure _
  | e :: es => by
    rw [Expr.recordItems]
    exact (Expr.numbers_record scope e).bind fun v => Expr.numbers_recordItems scope (v :: done) es

theorem Expr.numbers_recordPairs (scope : Nat) (t : Table) : (ps : List (Expr × Expr)) →
    Numbers (Expr.recordPairs scope t ps : Recorded κ Table)
  | [] => numbers_pure _
  | (k, e) :: ps => by
    rw [Expr.recordPairs]
    refine (Expr.numbers_record scope k).bind fun key =>
      (Expr.numbers_record scope e).bind fun v => ?_
    cases key.key? with
    | some k => exact Expr.numbers_recordPairs scope (t.insert k v) ps
    | none => exact numbers_look (Run.looks_throw _)

theorem Stmt.numbers_record (scope : Nat) :
    (s : Stmt) → Numbers (s.record scope : Recorded κ Value)
  | .define x xs e s => by
    rw [Stmt.record]
    refine Numbers.visit (.bind (Expr.numbers_record scope e) fun v =>
      .bind ?_ fun _ => numbers_pure _) scope
    exact numbers_lift fun _ => Nat.le_refl _
  | .expr e s => by
    rw [Stmt.record]
    exact (Expr.numbers_record scope e).visit scope

theorem Stmt.numbers_recordAll (scope : Nat) (last : Value) : (ss : List Stmt) →
    Numbers (Stmt.recordAll scope last ss : Recorded κ Value)
  | [] => numbers_pure _
  | s :: ss => by
    rw [Stmt.recordAll]
    exact (Stmt.numbers_record scope s).bind fun v => Stmt.numbers_recordAll scope v ss

theorem Stmt.numbers_recordElse (scope : Nat) : (no : Option (List Stmt)) →
    Numbers (Stmt.recordElse scope no : Recorded κ Value)
  | none => numbers_pure _
  | some ss => by
    rw [Stmt.recordElse]
    exact (Run.numbers_enter scope).bind fun inner => Stmt.numbers_recordAll inner .null ss

end

/-! ## Sessions -/

namespace Machine

/-- The literals of a source are new tables, each in its order. -/
theorem numbered_visits (m : Machine κ) (source : String) :
    Numbered m.heap.size (literalsAll (m.visits source)) (m.runSource source).2.heap.size := by
  unfold visits runSource
  cases compile source with
  | error e => exact .nil (Nat.le_refl _)
  | ok p =>
    show Numbered _ _ (p.eval.outcome m).2.heap.size
    rw [p.outcome_eq_final]
    exact Stmt.numbers_recordAll globalScope .null p.statements m

theorem numbered_visitsAll (m : Machine κ) (sources : List String) :
    Numbered m.heap.size (literalsAll (m.visitsAll sources)) (m.runSources sources).heap.size := by
  induction sources generalizing m with
  | nil => exact .nil (Nat.le_refl _)
  | cons source sources ih =>
    rw [visitsAll, literalsAll_append]
    exact (m.numbered_visits source).append (ih (m.runSource source).2)

end Machine

end MonkeyLang
