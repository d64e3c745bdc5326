import MonkeyLang.Proofs.Scoping.Closed
import MonkeyLang.Proofs.Scoping.Local

/-!
# Evaluation in scopes

Two runs of one piece of program need not be in the same scope, and each opens scopes of its own on
the way.  A place says which scope each run is in, and which names both may look up.  If a relation
between runs at a place is kept by each operation of the evaluator, where a block goes on at a place
further in and a definition makes a name visible, then it holds of the runs of all expressions that
are closed over what is visible at their place (`Run.Scoped.expr`):

    Scoped V Opens P → e.Closed c.visible → P c (e.eval c.left) (e.eval c.right) V

With each run goes a property of what comes out of it: all values have the property `V`, which is an
invariant.  Names are defined only in scopes that are open.  What is said about one run alone is a
relation that does not mention the other.
-/

namespace MonkeyLang

variable {κ : Type}

/-- Where something is evaluated on two machines, and the names that it may look up there. -/
structure Place where
  left : Nat
  right : Nat
  visible : Set String

namespace Place

/-- In scopes further in. -/
def inner (c : Place) (left right : Nat) : Place := { c with left, right }

/-- Behind a definition. -/
def define (c : Place) (x : String) : Place := { c with visible := insert x c.visible }

end Place

variable [Console κ]

/-- A relation between runs that all operations of the evaluator keep.  A block may be run in any
two scopes that `Opens` has. -/
structure Run.Scoped (V : Value → Prop) (Opens : Nat → Nat → Prop)
    (P : Place → (α : Type) → Run κ α → Run κ α → (α → Prop) → Prop) : Prop where
  operations (c : Place) : Run.Local V (P c)
  resolve {c : Place} {x : String} (hx : x ∈ c.visible) :
    P c Value (MonkeyLang.resolve c.left x) (MonkeyLang.resolve c.right x) V
  block {c : Place} {ss : List Stmt}
    (h : ∀ left right, Opens left right →
      P (c.inner left right) Value (Stmt.evalAll left .null ss) (Stmt.evalAll right .null ss) V) :
    P c Value (Run.enter c.left >>= fun left => Stmt.evalAll left .null ss)
      (Run.enter c.right >>= fun right => Stmt.evalAll right .null ss) V
  define {c : Place} (hc : Opens c.left c.right) {x : String} {v : Value} (hv : V v) {α : Type}
    {y y' : Run κ α} {Q : α → Prop} (h : P (c.define x) α y y' Q) :
    P c α (Run.define c.left x v >>= fun _ => y) (Run.define c.right x v >>= fun _ => y') Q

/-- What is done first in statements whose first one is a definition. -/
theorem Stmt.evalAll_define (scope : Nat) (last : Value) (x : String) (xs : Span) (e : Expr)
    (a : Span) (ss : List Stmt) :
    (Stmt.evalAll scope last (.define x xs e a :: ss) : Run κ Value) =
      e.eval scope >>= fun v =>
        Run.define scope x v >>= fun _ => Stmt.evalAll scope .null ss := by
  rw [Stmt.evalAll, Stmt.eval]
  simp only [bind_assoc, pure_bind]

namespace Run.Scoped

variable {V : Value → Prop} {Opens : Nat → Nat → Prop}
  {P : Place → (α : Type) → Run κ α → Run κ α → (α → Prop) → Prop} (hP : Scoped V Opens P)

include hP

theorem null : V .null := (hP.operations ⟨0, 0, ∅⟩).values.null (n := 0)

mutual

/-- An expression is in the relation if its names are visible; the cases are those of the trees. -/
theorem expr (c : Place) (e : Expr) (he : e.Closed c.visible) :
    P c Value (e.eval c.left) (e.eval c.right) V := by
  have hops := hP.operations c
  rw [Expr.eval.eq_def, Expr.eval.eq_def]
  cases e with
  | int n s => exact hops.int n
  | str t s => exact hops.str t
  | bool b s => exact hops.bool b
  | null s => exact hops.null
  | ident x s => exact hP.resolve he
  | unary op e s => exact hops.bind (expr c e he) fun v _ => hops.unary op v
  | binary l op r s =>
    exact hops.bind (expr c l he.1) fun v _ => hops.bind (expr c r he.2) fun w _ =>
      hops.binary op v w
  | cond test yes no s =>
    obtain ⟨htest, hyes, hno⟩ := he
    refine hops.bind (expr c test htest) fun v _ => ?_
    split
    · exact hP.block fun left right hopen =>
        stmts (c.inner left right) hopen hP.null yes hyes
    · exact stmtsElse c no hno
  | array es s =>
    exact hops.bind (items c (List.forall_mem_nil V) es he) fun vs hvs =>
      hops.array fun v hv => hvs v (List.mem_toArray.1 hv)
  | hash ps s => exact hops.bind (pairs c Table.all_empty ps he) fun t ht => hops.newTable ht
  | index target subscript s =>
    exact hops.bind (expr c target he.1) fun v hv =>
      hops.bind (expr c subscript he.2) fun w _ => hops.index hv w
  | call callee args s =>
    exact hops.bind (expr c callee he.1) fun f _ =>
      hops.bind (items c (List.forall_mem_nil V) args he.2) fun vs hvs => hops.apply f hvs

theorem items (c : Place) {done : List Value} (hdone : ∀ v ∈ done, V v) (es : List Expr)
    (hes : Expr.ClosedAll c.visible es) :
    P c (List Value) (Expr.evalItems c.left done es) (Expr.evalItems c.right done es)
      fun vs => ∀ v ∈ vs, V v := by
  have hops := hP.operations c
  cases es with
  | nil => exact hops.pure fun v hv => hdone v (List.mem_reverse.1 hv)
  | cons e es =>
    exact hops.bind (expr c e hes.1) fun v hv =>
      items c (List.forall_mem_cons.2 ⟨hv, hdone⟩) es hes.2

theorem pairs (c : Place) {t : Table} (ht : t.All V) (ps : List (Expr × Expr))
    (hps : Expr.ClosedPairs c.visible ps) :
    P c Table (Expr.evalPairs c.left t ps) (Expr.evalPairs c.right t ps) fun t => t.All V := by
  have hops := hP.operations c
  match ps with
  | [] => exact hops.pure ht
  | (k, e) :: ps =>
    obtain ⟨hk, he, hps⟩ := hps
    refine hops.bind (expr c k hk) fun key _ => hops.bind (expr c e he) fun v hv => ?_
    split
    · exact pairs c (ht.insert _ hv) ps hps
    · exact hops.throw trivial

/-- Each definition changes the place for the statements behind it. -/
theorem stmts (c : Place) (hc : Opens c.left c.right) {last : Value} (hlast : V last)
    (ss : List Stmt) (hss : Stmt.ClosedAll c.visible ss) :
    P c Value (Stmt.evalAll c.left last ss) (Stmt.evalAll c.right last ss) V := by
  have hops := hP.operations c
  match ss with
  | [] => exact hops.pure hlast
  | .define x xs e a :: ss =>
    rw [Stmt.evalAll_define, Stmt.evalAll_define]
    exact hops.bind (expr c e hss.1) fun v hv =>
      hP.define hc hv (stmts (c.define x) hc hP.null ss hss.2)
  | .expr e a :: ss => exact hops.bind (expr c e hss.1) fun v hv => stmts c hc hv ss hss.2

theorem stmtsElse (c : Place) (no : Option (List Stmt)) (hno : Stmt.ClosedElse c.visible no) :
    P c Value (Stmt.evalElse c.left no) (Stmt.evalElse c.right no) V := by
  match no with
  | none => exact (hP.operations c).null
  | some ss =>
    exact hP.block fun left right hopen => stmts (c.inner left right) hopen hP.null ss hno

end

end Run.Scoped

end MonkeyLang
