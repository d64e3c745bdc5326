import MonkeyLang.Machine.Eval

/-!
# Recorded runs

What a run does on its way, not only what it ends in.  A recorded run keeps a visit for every
expression and statement that it evaluates and for every call that it makes, with the visits inside
it: the machine that the visit met, and what it ended in.

`Expr.record` goes through an expression as `Expr.eval` does, and drops to it when the visits are
left out:

    (e.record scope).erase = e.eval scope        (Expr.erase_record)
    p.record.erase = p.eval                      (Program.erase_record)
-/

namespace MonkeyLang

/-! ## Visits -/

/-- What is evaluated: an expression, a statement, or a call whose arguments are known. -/
inductive Node where
  | expr (e : Expr)
  | stmt (s : Stmt)
  | application (callee : Value) (args : List Value)

/-- One evaluation: of what and in which scope, the machine before it, the visits inside it in
order, and what it ends in. -/
structure Visit (κ : Type) where
  node : Node
  scope : Nat
  before : Machine κ
  nested : List (Visit κ)
  result : EStateM.Result Fault (Machine κ) Value

namespace Visit

variable {κ : Type} {vs ws : List (Visit κ)} {u v w : Visit κ}

/-- The value that comes out; for a fault, the error that stands for it. -/
def yielded (v : Visit κ) : Value :=
  match v.result with
  | .ok a _ => a
  | .error e _ => e.toValue

/-- The machine when the visit is over. -/
def after (v : Visit κ) : Machine κ :=
  match v.result with
  | .ok _ m => m
  | .error _ m => m

/-- A visit is one of the list, or inside one. -/
inductive Occurs : List (Visit κ) → Visit κ → Prop
  | here {vs : List (Visit κ)} {v : Visit κ} (hv : v ∈ vs) : Occurs vs v
  | inside {vs : List (Visit κ)} {v w : Visit κ} (hv : v ∈ vs) (hw : Occurs v.nested w) :
      Occurs vs w

/-- No visit of the list begins when this one is over. -/
inductive EndsWith : List (Visit κ) → Visit κ → Prop
  | here {vs : List (Visit κ)} {v : Visit κ} : EndsWith (vs ++ [v]) v
  | inside {vs : List (Visit κ)} {v w : Visit κ} (hw : EndsWith v.nested w) :
      EndsWith (vs ++ [v]) w

theorem not_occurs_nil : ¬ Occurs [] w := by
  intro h
  cases h with
  | here hv => cases hv
  | inside hv _ => cases hv

theorem occurs_append : Occurs (vs ++ ws) w ↔ Occurs vs w ∨ Occurs ws w := by
  constructor
  · intro h
    cases h with
    | here hv => exact (List.mem_append.1 hv).imp .here .here
    | inside hv hw => exact (List.mem_append.1 hv).imp (.inside · hw) (.inside · hw)
  · rintro (h | h)
    · cases h with
      | here hv => exact .here (List.mem_append_left ws hv)
      | inside hv hw => exact .inside (List.mem_append_left ws hv) hw
    · cases h with
      | here hv => exact .here (List.mem_append_right vs hv)
      | inside hv hw => exact .inside (List.mem_append_right vs hv) hw

theorem occurs_singleton : Occurs [v] w ↔ w = v ∨ Occurs v.nested w := by
  constructor
  · intro h
    cases h with
    | here hv => exact .inl (List.mem_singleton.1 hv)
    | inside hv hw =>
      obtain rfl := List.mem_singleton.1 hv
      exact .inr hw
  · rintro (rfl | h)
    · exact .here (List.mem_singleton_self w)
    · exact .inside (List.mem_singleton_self v) h

theorem Occurs.trans (h : Occurs vs u) (hw : Occurs u.nested w) : Occurs vs w := by
  induction h with
  | here hv => exact .inside hv hw
  | inside hv _ ih => exact .inside hv (ih hw)

/-- The built-in functions that are called in the visits are among those that `can` has. -/
def CallsOnly (can : Builtin → Prop) (vs : List (Visit κ)) : Prop :=
  ∀ v b args, Occurs vs v → v.node = .application (.builtin b) args → can b

theorem callsOnly_append {can : Builtin → Prop} :
    CallsOnly can (vs ++ ws) ↔ CallsOnly can vs ∧ CallsOnly can ws := by
  constructor
  · intro h
    exact ⟨fun v b args hv => h v b args (occurs_append.2 (.inl hv)),
      fun v b args hv => h v b args (occurs_append.2 (.inr hv))⟩
  · rintro ⟨hvs, hws⟩ v b args hv
    exact (occurs_append.1 hv).elim (hvs v b args) (hws v b args)

theorem CallsOnly.nested {can : Builtin → Prop} (h : CallsOnly can [v]) :
    CallsOnly can v.nested :=
  fun w b args hw => h w b args (occurs_singleton.2 (.inr hw))

theorem EndsWith.append_left (h : EndsWith ws w) (vs : List (Visit κ)) : EndsWith (vs ++ ws) w := by
  cases h with
  | here =>
    rw [← List.append_assoc]
    exact .here
  | inside hw =>
    rw [← List.append_assoc]
    exact .inside hw

theorem endsWith_singleton : EndsWith [v] v := by
  show EndsWith ([] ++ [v]) v
  exact .here

theorem EndsWith.singleton (h : EndsWith v.nested w) : EndsWith [v] w := by
  show EndsWith ([] ++ [v]) w
  exact .inside h

end Visit

/-! ## Recorded runs -/

/-- A run together with the visits that it makes. -/
def Recorded (κ α : Type) : Type :=
  Machine κ → List (Visit κ) × EStateM.Result Fault (Machine κ) α

namespace Recorded

variable {κ α β : Type}

protected def pure (a : α) : Recorded κ α := fun m => ([], .ok a m)

/-- The visits of the first run come before those of the second, which is not begun after a fault.
-/
protected def bind (x : Recorded κ α) (f : α → Recorded κ β) : Recorded κ β := fun m =>
  match x m with
  | (vs, .ok a m) =>
    let (ws, r) := f a m
    (vs ++ ws, r)
  | (vs, .error e m) => (vs, .error e m)

instance : Monad (Recorded κ) where
  pure := Recorded.pure
  bind := Recorded.bind

/-- A run that makes no visits. -/
def lift (x : Run κ α) : Recorded κ α := fun m => ([], x m)

/-- All visits of the run are inside one. -/
def visit (node : Node) (scope : Nat) (x : Recorded κ Value) : Recorded κ Value := fun m =>
  let (nested, result) := x m
  ([{ node, scope, before := m, nested, result }], result)

/-- The run without its visits. -/
def erase (x : Recorded κ α) : Run κ α := fun m => (x m).2

@[simp] theorem erase_pure (a : α) : (pure a : Recorded κ α).erase = pure a := rfl

@[simp] theorem erase_lift (x : Run κ α) : (lift x).erase = x := rfl

@[simp] theorem erase_visit (node : Node) (scope : Nat) (x : Recorded κ Value) :
    (visit node scope x).erase = x.erase := rfl

section

variable {x : Recorded κ α} {f : α → Recorded κ β} {vs : List (Visit κ)} {m m' : Machine κ}

theorem bind_of_ok {a : α} (h : x m = (vs, .ok a m')) :
    (x >>= f) m = (vs ++ (f a m').1, (f a m').2) := by
  show x.bind f m = _
  rw [Recorded.bind, h]

theorem bind_of_error {e : Fault} (h : x m = (vs, .error e m')) :
    (x >>= f) m = (vs, .error e m') := by
  show x.bind f m = _
  rw [Recorded.bind, h]

end

@[simp] theorem erase_bind (x : Recorded κ α) (f : α → Recorded κ β) :
    (x >>= f).erase = x.erase >>= fun a => (f a).erase := by
  funext m
  show ((x >>= f) m).2 = EStateM.bind x.erase (fun a => (f a).erase) m
  unfold EStateM.bind erase
  rcases hr : x m with ⟨vs, ⟨a, m'⟩ | ⟨e, m'⟩⟩
  · rw [bind_of_ok hr]
  · rw [bind_of_error hr]

end Recorded

/-! ## The evaluator with its visits -/

open Recorded (lift visit)

variable {κ : Type} [Console κ]

mutual

/-- Evaluates an expression as `Expr.eval` does, and records its visits. -/
def Expr.record (scope : Nat) (e : Expr) : Recorded κ Value :=
  visit (.expr e) scope <| match e with
  | .int n _ => pure (.int n)
  | .str s _ => pure (.str s)
  | .bool b _ => pure (.bool b)
  | .null _ => pure .null
  | .ident x _ => lift (resolve scope x)
  | .unary op e _ => do
    let v ← e.record scope
    lift (op.apply v)
  | .binary l op r _ => do
    let v ← l.record scope
    let w ← r.record scope
    lift (op.apply v w)
  | .cond test yes no _ => do
    let v ← test.record scope
    if v.isTruthy then
      let inner ← lift (Run.enter scope)
      Stmt.recordAll inner .null yes
    else Stmt.recordElse scope no
  | .array es _ => do
    let vs ← Expr.recordItems scope [] es
    pure (.array vs.toArray)
  | .hash ps _ => do
    let t ← Expr.recordPairs scope {} ps
    lift (Run.newTable t)
  | .index target subscript _ => do
    let v ← target.record scope
    let w ← subscript.record scope
    lift (v.at w)
  | .call callee args _ => do
    let f ← callee.record scope
    let vs ← Expr.recordItems scope [] args
    visit (.application f vs) scope (lift (f.apply vs))

/-- Items or arguments in order, after those in `done`, which are in reverse order. -/
def Expr.recordItems (scope : Nat) (done : List Value) : List Expr → Recorded κ (List Value)
  | [] => pure done.reverse
  | e :: es => do
    let v ← e.record scope
    Expr.recordItems scope (v :: done) es

def Expr.recordPairs (scope : Nat) (t : Table) : List (Expr × Expr) → Recorded κ Table
  | [] => pure t
  | (k, e) :: ps => do
    let key ← k.record scope
    let v ← e.record scope
    match key.key? with
    | some k => Expr.recordPairs scope (t.insert k v) ps
    | none => lift (throw (.unhashable key.kind))

def Stmt.record (scope : Nat) (s : Stmt) : Recorded κ Value :=
  visit (.stmt s) scope <| match s with
  | .define x _ e _ => do
    let v ← e.record scope
    lift (Run.define scope x v)
    pure .null
  | .expr e _ => e.record scope

def Stmt.recordAll (scope : Nat) (last : Value) : List Stmt → Recorded κ Value
  | [] => pure last
  | s :: ss => do
    let v ← s.record scope
    Stmt.recordAll scope v ss

def Stmt.recordElse (scope : Nat) : Option (List Stmt) → Recorded κ Value
  | none => pure .null
  | some ss => do
    let inner ← lift (Run.enter scope)
    Stmt.recordAll inner .null ss

end

/-- Evaluates a program in the global scope, and records its visits. -/
def Program.record (p : Program) : Recorded κ Value :=
  Stmt.recordAll globalScope .null p.statements

/-- The visits that the program makes on a machine. -/
def Program.visits (p : Program) (m : Machine κ) : List (Visit κ) := (p.record m).1

/-! ## Leaving the visits out -/

open Recorded (erase erase_bind erase_lift erase_pure erase_visit)

mutual

/-- To record the visits makes no difference to an expression, nor to the other parts of a program.
-/
theorem Expr.erase_record (scope : Nat) :
    (e : Expr) → (e.record scope : Recorded κ Value).erase = e.eval scope
  | .int _ _ => rfl
  | .str _ _ => rfl
  | .bool _ _ => rfl
  | .null _ => rfl
  | .ident _ _ => rfl
  | .unary op e _ => by
    rw [Expr.record, erase_visit, erase_bind, Expr.erase_record scope e, Expr.eval]
    rfl
  | .binary l op r _ => by
    rw [Expr.record, erase_visit, erase_bind, Expr.erase_record scope l, Expr.eval]
    simp only [erase_bind, Expr.erase_record scope r, erase_lift]
  | .cond test yes no _ => by
    rw [Expr.record, erase_visit, erase_bind, Expr.erase_record scope test, Expr.eval]
    congr 1
    funext v
    split
    · simp only [erase_bind, erase_lift, Stmt.erase_recordAll _ _ yes]
    · exact Stmt.erase_recordElse scope no
  | .array es _ => by
    rw [Expr.record, erase_visit, erase_bind, Expr.erase_recordItems scope [] es, Expr.eval]
    rfl
  | .hash ps _ => by
    rw [Expr.record, erase_visit, erase_bind, Expr.erase_recordPairs scope {} ps, Expr.eval]
    rfl
  | .index target subscript _ => by
    rw [Expr.record, erase_visit, erase_bind, Expr.erase_record scope target, Expr.eval]
    simp only [erase_bind, Expr.erase_record scope subscript, erase_lift]
  | .call callee args _ => by
    rw [Expr.record, erase_visit, erase_bind, Expr.erase_record scope callee, Expr.eval]
    simp only [erase_bind, Expr.erase_recordItems scope [] args, erase_visit, erase_lift]

theorem Expr.erase_recordItems (scope : Nat) (done : List Value) : (es : List Expr) →
    (Expr.recordItems scope done es : Recorded κ (List Value)).erase = Expr.evalItems scope done es
  | [] => rfl
  | e :: es => by
    rw [Expr.recordItems, erase_bind, Expr.erase_record scope e, Expr.evalItems]
    simp only [Expr.erase_recordItems scope _ es]

theorem Expr.erase_recordPairs (scope : Nat) (t : Table) : (ps : List (Expr × Expr)) →
    (Expr.recordPairs scope t ps : Recorded κ Table).erase = Expr.evalPairs scope t ps
  | [] => rfl
  | (k, e) :: ps => by
    rw [Expr.recordPairs, erase_bind, Expr.erase_record scope k, Expr.evalPairs]
    simp only [erase_bind, Expr.erase_record scope e]
    congr 1
    funext key
    congr 1
    funext v
    cases key.key? with
    | some k => exact Expr.erase_recordPairs scope _ ps
    | none => rfl

theorem Stmt.erase_record (scope : Nat) :
    (s : Stmt) → (s.record scope : Recorded κ Value).erase = s.eval scope
  | .define x _ e _ => by
    rw [Stmt.record, erase_visit, erase_bind, Expr.erase_record scope e, Stmt.eval]
    rfl
  | .expr e _ => by
    rw [Stmt.record, erase_visit, Expr.erase_record scope e, Stmt.eval]

theorem Stmt.erase_recordAll (scope : Nat) (last : Value) : (ss : List Stmt) →
    (Stmt.recordAll scope last ss : Recorded κ Value).erase = Stmt.evalAll scope last ss
  | [] => rfl
  | s :: ss => by
    rw [Stmt.recordAll, erase_bind, Stmt.erase_record scope s, Stmt.evalAll]
    simp only [Stmt.erase_recordAll scope _ ss]

theorem Stmt.erase_recordElse (scope : Nat) : (no : Option (List Stmt)) →
    (Stmt.recordElse scope no : Recorded κ Value).erase = Stmt.evalElse scope no
  | none => rfl
  | some ss => by
    rw [Stmt.recordElse, erase_bind, erase_lift, Stmt.evalElse]
    simp only [Stmt.erase_recordAll _ _ ss]

end

theorem Program.erase_record (p : Program) : (p.record : Recorded κ Value).erase = p.eval :=
  Stmt.erase_recordAll globalScope .null p.statements

/-! ## Sessions -/

namespace Machine

/-- The visits that a source makes on a machine; none if it does not compile. -/
def visits (m : Machine κ) (source : String) : List (Visit κ) :=
  match compile source with
  | .ok p => p.visits m
  | .error _ => []

/-- The machine after some sources, one after the other, whether they fail or not. -/
def runSources (m : Machine κ) (sources : List String) : Machine κ :=
  sources.foldl (fun m source => (m.runSource source).2) m

/-- The visits of some sources, one after the other, whether they fail or not. -/
def visitsAll (m : Machine κ) : List String → List (Visit κ)
  | [] => []
  | source :: sources => m.visits source ++ (m.runSource source).2.visitsAll sources

/-- What each of the sources ends in. -/
def results (m : Machine κ) : List String → List (Except CompileError (Except Fault Value))
  | [] => []
  | source :: sources => (m.runSource source).1 :: (m.runSource source).2.results sources

end Machine

end MonkeyLang
