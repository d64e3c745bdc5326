import MonkeyLang.Proofs.Running.Visits

/-!
# Relations that the evaluator keeps

The evaluator is put together from a few operations.  Some only look at the tables and the scopes
(`Run.Looks`); others open a scope, define a name or make a table; and all that can happen besides
happens in a call of a built-in function.  So a relation between runs, perhaps on consoles of two
kinds, that each of these keeps is kept by every program (`Recorded.Parametric`):

    Parametric P → P (p.record) (p.record)                    (Parametric.program)

What holds of a single run is a relation that does not mention the second one.

Two such relations stand in modules of their own: runs on consoles that answer alike end alike
(`Recorded.Agree`, in Agreement), and all that a run goes through is in an order in which each
operation goes up (`Recorded.Climbs`, in Traces).  Both only ask this of the built-in functions that
are called.
-/

namespace MonkeyLang

open Recorded (lift visit)

variable {κ κ' α β : Type}

/-! ## Looking -/

/-- Both runs change nothing, and their outcome is the same where tables and scopes are. -/
def Run.Looks (x : Run κ α) (x' : Run κ' α) : Prop :=
  ∀ m m', m.heap = m'.heap → m.scopes = m'.scopes →
    (∃ a, x m = .ok a m ∧ x' m' = .ok a m') ∨ ∃ e, x m = .error e m ∧ x' m' = .error e m'

namespace Run

theorem looks_pure (a : α) : Looks (pure a : Run κ α) (pure a : Run κ' α) :=
  fun _ _ _ _ => .inl ⟨a, rfl, rfl⟩

theorem looks_throw (e : Fault) : Looks (throw e : Run κ α) (throw e : Run κ' α) :=
  fun _ _ _ _ => .inr ⟨e, rfl, rfl⟩

theorem looks_get_bind {f : Machine κ → Run κ α} {f' : Machine κ' → Run κ' α}
    (h : ∀ m m', m.heap = m'.heap → m.scopes = m'.scopes → Looks (f m) (f' m')) :
    Looks (get >>= f) (get >>= f') :=
  fun m m' hheap hscopes => h m m' hheap hscopes m m' hheap hscopes

/-- A value that is met is the same anywhere. -/
theorem looks_value (v : Value) : Looks (value v : Run κ Value) (value v : Run κ' Value) := by
  cases v with
  | error m => exact looks_throw _
  | _ => exact looks_pure _

theorem looks_valueOrNull (found : Option Value) :
    Looks (valueOrNull found : Run κ Value) (valueOrNull found : Run κ' Value) :=
  looks_value _

end Run

open Run

theorem looks_unaryApply (op : UnaryOp) (v : Value) :
    Looks (op.apply v : Run κ Value) (op.apply v : Run κ' Value) := by
  unfold UnaryOp.apply
  split
  · exact looks_pure _
  · exact looks_pure _
  · exact looks_throw _

theorem looks_applyInt (op : BinaryOp) (a b : Int64) :
    Looks (op.applyInt a b : Run κ Value) (op.applyInt a b : Run κ' Value) := by
  cases op with
  | div =>
    by_cases hb : b = 0
    · simp only [BinaryOp.applyInt, if_pos hb]
      exact looks_throw _
    · simp only [BinaryOp.applyInt, if_neg hb]
      exact looks_pure _
  | _ => exact looks_pure _

theorem looks_binaryApply (op : BinaryOp) (v w : Value) :
    Looks (op.apply v w : Run κ Value) (op.apply v w : Run κ' Value) := by
  unfold BinaryOp.apply
  split
  · exact looks_applyInt op _ _
  · exact looks_pure _
  · exact looks_pure _
  · exact looks_pure _
  · split
    · exact looks_throw _
    · exact looks_throw _

theorem looks_at (v w : Value) : Looks (v.at w : Run κ Value) (v.at w : Run κ' Value) := by
  unfold Value.at
  split
  · exact looks_valueOrNull _
  · split
    · refine looks_get_bind fun m m' hheap _ => ?_
      rw [hheap]
      exact looks_valueOrNull _
    · exact looks_throw _
  · exact looks_throw _

theorem looks_resolve (scope : Nat) (name : String) :
    Looks (resolve scope name : Run κ Value) (resolve scope name : Run κ' Value) := by
  refine looks_get_bind fun m m' _ hscopes => ?_
  rw [hscopes]
  split
  · exact looks_value _
  · split
    · exact looks_pure _
    · exact looks_throw _

/-! ## Calls -/

/-- A relation that is kept by looking and by doing one thing after another. -/
structure Run.Parametric (P : (α : Type) → Run κ α → Run κ' α → Prop) : Prop where
  look {α : Type} {x : Run κ α} {x' : Run κ' α} (h : Looks x x') : P α x x'
  bind {α β : Type} {x : Run κ α} {x' : Run κ' α} {f : α → Run κ β} {f' : α → Run κ' β}
    (hx : P α x x') (hf : ∀ a, P β (f a) (f' a)) : P β (x >>= f) (x' >>= f')

namespace Builtin

theorem looks_callLen (v : Value) : Looks (callLen v : Run κ Value) (callLen v : Run κ' Value) := by
  unfold callLen
  split
  · exact looks_pure _
  · exact looks_pure _
  · exact looks_throw _

theorem looks_callFirst (v : Value) :
    Looks (callFirst v : Run κ Value) (callFirst v : Run κ' Value) := by
  unfold callFirst
  split
  · exact looks_valueOrNull _
  · exact looks_throw _

theorem looks_callLast (v : Value) :
    Looks (callLast v : Run κ Value) (callLast v : Run κ' Value) := by
  unfold callLast
  split
  · exact looks_valueOrNull _
  · exact looks_throw _

theorem looks_callRest (v : Value) :
    Looks (callRest v : Run κ Value) (callRest v : Run κ' Value) := by
  unfold callRest
  split
  · exact looks_pure _
  · exact looks_throw _

theorem looks_callPush (v w : Value) :
    Looks (callPush v w : Run κ Value) (callPush v w : Run κ' Value) := by
  unfold callPush
  split
  · exact looks_pure _
  · exact looks_throw _

theorem looks_callCharAt (v w : Value) :
    Looks (callCharAt v w : Run κ Value) (callCharAt v w : Run κ' Value) := by
  unfold callCharAt
  split
  · split
    · exact looks_pure _
    · exact looks_throw _
  · exact looks_throw _
  · exact looks_throw _

variable {P : (α : Type) → Run κ α → Run κ' α → Prop} (hP : Run.Parametric P)

include hP

/-- A relation that is kept where an entry is set is kept by `object_set`. -/
theorem related_callObjectSet
    (hset : ∀ id k v, P Unit (setEntry id k v) (setEntry id k v)) (v k w : Value) :
    P Value (callObjectSet v k w) (callObjectSet v k w) := by
  unfold callObjectSet
  split
  · refine hP.bind (hP.look (looks_value w)) fun u => ?_
    split
    · exact hP.bind (hset _ _ u) fun _ => hP.look (looks_pure u)
    · exact hP.look (looks_throw _)
  · exact hP.look (looks_throw _)

variable [Console κ] [Console κ']

theorem related_callPuts (hwrite : ∀ line, P Unit (writeLine line) (writeLine line))
    (vs : List Value) : P Value (callPuts vs) (callPuts vs) := by
  induction vs with
  | nil => exact hP.look (looks_pure _)
  | cons v vs ih =>
    have hline : P String (get >>= fun m => pure (m.heap.inspect v))
        (get >>= fun m => pure (m.heap.inspect v)) := by
      refine hP.look (looks_get_bind fun m m' hheap _ => ?_)
      rw [hheap]
      exact looks_pure _
    exact hP.bind hline fun line => hP.bind (hwrite line) fun _ => ih

theorem related_callStdinRead
    (hread : ∀ prompt, P (Option String) (readLine prompt) (readLine prompt)) (vs : List Value) :
    P Value (callStdinRead vs) (callStdinRead vs) := by
  have hvalue (prompt : Option String) : P Value (readValue prompt) (readValue prompt) := by
    refine hP.bind (hread prompt) fun line => ?_
    cases line with
    | some line => exact hP.look (looks_pure _)
    | none => exact hP.look (looks_throw _)
  unfold callStdinRead
  split
  · exact hvalue none
  · exact hvalue _
  · exact hP.look (looks_throw _)

/-- Only `puts` writes, only `stdin_read` reads, and only `object_set` changes a table. -/
theorem related_call (b : Builtin) (args : List Value)
    (hwrite : b = puts → ∀ line, P Unit (writeLine line) (writeLine line))
    (hread : b = stdinRead → ∀ prompt, P (Option String) (readLine prompt) (readLine prompt))
    (hset : b = objectSet → ∀ id k v, P Unit (setEntry id k v) (setEntry id k v)) :
    P Value (b.call args) (b.call args) := by
  unfold call
  split
  · split
    · exact hP.look (looks_callLen _)
    · exact hP.look (looks_callFirst _)
    · exact hP.look (looks_callLast _)
    · exact hP.look (looks_callRest _)
    · exact hP.look (looks_callPush _ _)
    · exact related_callPuts hP (hwrite rfl) _
    · exact hP.look (looks_pure _)
    · exact related_callStdinRead hP (hread rfl) _
    · exact related_callObjectSet hP (hset rfl) _ _ _
    · exact hP.look (looks_callCharAt _ _)
    · exact hP.look (looks_throw _)
  · exact hP.look (looks_throw _)

end Builtin

/-! ## Recorded runs -/

variable [Console κ] [Console κ']

/-- A relation between recorded runs that all operations of the evaluator keep. -/
structure Recorded.Parametric (P : (α : Type) → Recorded κ α → Recorded κ' α → Prop) : Prop where
  look {α : Type} {x : Run κ α} {x' : Run κ' α} (h : Looks x x') : P α (lift x) (lift x')
  bind {α β : Type} {x : Recorded κ α} {x' : Recorded κ' α} {f : α → Recorded κ β}
    {f' : α → Recorded κ' β} (hx : P α x x') (hf : ∀ a, P β (f a) (f' a)) :
    P β (x >>= f) (x' >>= f')
  enter (scope : Nat) : P Nat (lift (enter scope)) (lift (enter scope))
  define (scope : Nat) (name : String) (v : Value) :
    P Unit (lift (define scope name v)) (lift (define scope name v))
  newTable (t : Table) : P Value (lift (newTable t)) (lift (newTable t))
  visit {x : Recorded κ Value} {x' : Recorded κ' Value} (hx : P Value x x') (node : Node)
    (hnode : ∀ b args, node ≠ .application (.builtin b) args) (scope : Nat) :
    P Value (visit node scope x) (visit node scope x')
  call (b : Builtin) (args : List Value) (scope : Nat) :
    P Value (Recorded.visit (.application (.builtin b) args) scope (lift (b.call args)))
      (Recorded.visit (.application (.builtin b) args) scope (lift (b.call args)))

namespace Recorded.Parametric

variable {P : (α : Type) → Recorded κ α → Recorded κ' α → Prop} (hP : Parametric P)

include hP

protected theorem pure (a : α) : P α (pure a) (pure a) := hP.look (looks_pure a)

protected theorem throw (e : Fault) : P α (lift (throw e)) (lift (throw e)) :=
  hP.look (looks_throw e)

theorem application (callee : Value) (args : List Value) (scope : Nat) :
    P Value (Recorded.visit (.application callee args) scope (lift (callee.apply args)))
      (Recorded.visit (.application callee args) scope (lift (callee.apply args))) := by
  cases callee with
  | builtin b => exact hP.call b args scope
  | _ => exact hP.visit (hP.throw _) _ (by rintro _ _ ⟨⟩) _

mutual

/-- Every expression is in the relation, by induction on its tree; the parts of a program follow
suit. -/
theorem expr (scope : Nat) (e : Expr) : P Value (e.record scope) (e.record scope) := by
  rw [Expr.record.eq_def, Expr.record.eq_def]
  refine hP.visit ?_ _ (by rintro _ _ ⟨⟩) _
  cases e with
  | int n s => exact hP.pure _
  | str t s => exact hP.pure _
  | bool b s => exact hP.pure _
  | null s => exact hP.pure _
  | ident x s => exact hP.look (looks_resolve scope x)
  | unary op e s => exact hP.bind (expr scope e) fun v => hP.look (looks_unaryApply op v)
  | binary l op r s =>
    exact hP.bind (expr scope l) fun v => hP.bind (expr scope r) fun w =>
      hP.look (looks_binaryApply op v w)
  | cond test yes no s =>
    refine hP.bind (expr scope test) fun v => ?_
    split
    · exact hP.bind (hP.enter scope) fun inner => stmts inner .null yes
    · exact stmtsElse scope no
  | array es s => exact hP.bind (items scope [] es) fun vs => hP.pure _
  | hash ps s => exact hP.bind (pairs scope {} ps) fun t => hP.newTable t
  | index target subscript s =>
    exact hP.bind (expr scope target) fun v => hP.bind (expr scope subscript) fun w =>
      hP.look (looks_at v w)
  | call callee args s =>
    exact hP.bind (expr scope callee) fun f => hP.bind (items scope [] args) fun vs =>
      hP.application f vs scope

theorem items (scope : Nat) (done : List Value) (es : List Expr) :
    P (List Value) (Expr.recordItems scope done es) (Expr.recordItems scope done es) := by
  cases es with
  | nil => exact hP.pure _
  | cons e es => exact hP.bind (expr scope e) fun v => items scope (v :: done) es

theorem pairs (scope : Nat) (t : Table) (ps : List (Expr × Expr)) :
    P Table (Expr.recordPairs scope t ps) (Expr.recordPairs scope t ps) := by
  match ps with
  | [] => exact hP.pure _
  | (k, e) :: ps =>
    refine hP.bind (expr scope k) fun key => hP.bind (expr scope e) fun v => ?_
    split
    · exact pairs scope _ ps
    · exact hP.throw _

theorem stmt (scope : Nat) (s : Stmt) : P Value (s.record scope) (s.record scope) := by
  rw [Stmt.record.eq_def, Stmt.record.eq_def]
  refine hP.visit ?_ _ (by rintro _ _ ⟨⟩) _
  cases s with
  | define x xs e s =>
    exact hP.bind (expr scope e) fun v => hP.bind (hP.define scope x v) fun _ => hP.pure _
  | expr e s => exact expr scope e

theorem stmts (scope : Nat) (last : Value) (ss : List Stmt) :
    P Value (Stmt.recordAll scope last ss) (Stmt.recordAll scope last ss) := by
  cases ss with
  | nil => exact hP.pure _
  | cons s ss => exact hP.bind (stmt scope s) fun v => stmts scope v ss

theorem stmtsElse (scope : Nat) (no : Option (List Stmt)) :
    P Value (Stmt.recordElse scope no) (Stmt.recordElse scope no) := by
  cases no with
  | none => exact hP.pure _
  | some ss => exact hP.bind (hP.enter scope) fun inner => stmts inner .null ss

end

/-- A program is in the relation to itself. -/
theorem program (p : Program) : P Value p.record p.record := stmts hP globalScope .null p.statements

end Recorded.Parametric

end MonkeyLang
