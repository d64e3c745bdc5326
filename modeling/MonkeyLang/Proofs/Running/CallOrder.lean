import MonkeyLang.Machine.Eval
import MonkeyLang.Proofs.Running.Plans

/-!
# Calls from left to right

The evaluator goes along the plan of a program.  `Program.trace` notes each call at the moment when
the callee is applied, and each condition when one of its blocks is chosen; the run is the one of
`Program.eval` (`Program.erase_trace`).

A run that follows a plan (`Traced.Follows`) does what stands at the beginning of the course that
its own choices give, and all of it if it does not end in a fault.  This is kept when one thing is
done after another, and so holds of the evaluator.
-/

namespace MonkeyLang

variable {κ α β : Type}

/-! ## Runs with what is done at the nodes -/

/-- A run together with what it does at the nodes. -/
def Traced (κ α : Type) : Type :=
  Machine κ → List Act × EStateM.Result Fault (Machine κ) α

namespace Traced

protected def pure (a : α) : Traced κ α := fun m => ([], .ok a m)

/-- What the first does comes before what the second does, and a fault ends both. -/
protected def bind (x : Traced κ α) (f : α → Traced κ β) : Traced κ β := fun m =>
  match x m with
  | (acts, .ok a m) =>
    let (acts', r) := f a m
    (acts ++ acts', r)
  | (acts, .error e m) => (acts, .error e m)

instance : Monad (Traced κ) where
  pure := Traced.pure
  bind := Traced.bind

def lift (x : Run κ α) : Traced κ α := fun m => ([], x m)

def note (act : Act) : Traced κ Unit := fun m => ([act], .ok () m)

/-- The run alone. -/
def erase (x : Traced κ α) : Run κ α := fun m => (x m).2

theorem erase_lift (x : Run κ α) : (lift x).erase = x := rfl

section

variable {x : Traced κ α} {f : α → Traced κ β} {acts : List Act} {m m' : Machine κ}

theorem bind_of_ok {a : α} (h : x m = (acts, .ok a m')) :
    (x >>= f) m = (acts ++ (f a m').1, (f a m').2) := by
  show x.bind f m = _
  rw [Traced.bind, h]

theorem bind_of_error {e : Fault} (h : x m = (acts, .error e m')) :
    (x >>= f) m = (acts, .error e m') := by
  show x.bind f m = _
  rw [Traced.bind, h]

end

theorem erase_bind (x : Traced κ α) (f : α → Traced κ β) :
    (x >>= f).erase = x.erase >>= fun a => (f a).erase := by
  funext m
  show ((x >>= f) m).2 = EStateM.bind x.erase (fun a => (f a).erase) m
  unfold EStateM.bind erase
  rcases hr : x m with ⟨acts, ⟨a, m'⟩ | ⟨e, m'⟩⟩
  · rw [bind_of_ok hr]
  · rw [bind_of_error hr]

theorem erase_note_bind (act : Act) (x : Unit → Traced κ α) :
    (note act >>= x).erase = (x ()).erase := by
  rw [erase_bind]
  rfl

end Traced

/-! ## The evaluator with what it does at the nodes -/

section

open Traced (lift note)

variable [Console κ]

mutual

/-- Evaluates an expression as `Expr.eval` does, and notes each call and each choice at its site. -/
def Expr.trace (scope : Nat) (s : Site) : Expr → Traced κ Value
  | .int n _ => pure (.int n)
  | .str t _ => pure (.str t)
  | .bool b _ => pure (.bool b)
  | .null _ => pure .null
  | .ident x _ => lift (resolve scope x)
  | .unary op e _ => do
    let v ← e.trace scope (.operand :: s)
    lift (op.apply v)
  | .binary l op r _ => do
    let v ← l.trace scope (.left :: s)
    let w ← r.trace scope (.right :: s)
    lift (op.apply v w)
  | .cond test yes no _ => do
    let v ← test.trace scope (.test :: s)
    note (.chose s v.isTruthy)
    if v.isTruthy then
      let inner ← lift (Run.enter scope)
      Stmt.traceAll inner (fun i => .block true i :: s) 0 .null yes
    else Stmt.traceElse scope s no
  | .array es _ => do
    let vs ← Expr.traceItems scope (fun i => .item i :: s) 0 [] es
    pure (.array vs.toArray)
  | .hash ps _ => do
    let t ← Expr.tracePairs scope s 0 {} ps
    lift (Run.newTable t)
  | .index target subscript _ => do
    let v ← target.trace scope (.target :: s)
    let w ← subscript.trace scope (.subscript :: s)
    lift (v.at w)
  | .call callee args _ => do
    let f ← callee.trace scope (.callee :: s)
    let vs ← Expr.traceItems scope (fun i => .argument i :: s) 0 [] args
    note (.applied s)
    lift (f.apply vs)

/-- Items or arguments in order, from the `i`-th on. -/
def Expr.traceItems (scope : Nat) (site : Nat → Site) (i : Nat) (done : List Value) :
    List Expr → Traced κ (List Value)
  | [] => pure done.reverse
  | e :: es => do
    let v ← e.trace scope (site i)
    Expr.traceItems scope site (i + 1) (v :: done) es

def Expr.tracePairs (scope : Nat) (s : Site) (i : Nat) (t : Table) :
    List (Expr × Expr) → Traced κ Table
  | [] => pure t
  | (k, e) :: ps => do
    let key ← k.trace scope (.key i :: s)
    let v ← e.trace scope (.value i :: s)
    match key.key? with
    | some k => Expr.tracePairs scope s (i + 1) (t.insert k v) ps
    | none => lift (throw (.unhashable key.kind))

def Stmt.trace (scope : Nat) (s : Site) : Stmt → Traced κ Value
  | .define x _ e _ => do
    let v ← e.trace scope s
    lift (Run.define scope x v)
    pure .null
  | .expr e _ => e.trace scope s

def Stmt.traceAll (scope : Nat) (site : Nat → Site) (i : Nat) (last : Value) :
    List Stmt → Traced κ Value
  | [] => pure last
  | st :: ss => do
    let v ← st.trace scope (site i)
    Stmt.traceAll scope site (i + 1) v ss

def Stmt.traceElse (scope : Nat) (s : Site) : Option (List Stmt) → Traced κ Value
  | none => pure .null
  | some ss => do
    let inner ← lift (Run.enter scope)
    Stmt.traceAll inner (fun i => .block false i :: s) 0 .null ss

end

/-- Evaluates a program in the global scope, and notes its calls and choices. -/
def Program.trace (p : Program) : Traced κ Value :=
  Stmt.traceAll globalScope (fun i => [.statement i]) 0 .null p.statements

end

/-! ## The run alone -/

section

open Traced (erase_bind erase_lift erase_note_bind)

variable [Console κ]

mutual

/-- Nothing but the notes is added to the evaluation of an expression. -/
theorem Expr.erase_trace (scope : Nat) (s : Site) :
    (e : Expr) → (e.trace scope s : Traced κ Value).erase = e.eval scope
  | .int _ _ => rfl
  | .str _ _ => rfl
  | .bool _ _ => rfl
  | .null _ => rfl
  | .ident _ _ => rfl
  | .unary op e _ => by
    rw [Expr.trace, erase_bind, Expr.erase_trace scope _ e, Expr.eval]
    rfl
  | .binary l op r _ => by
    rw [Expr.trace, erase_bind, Expr.erase_trace scope _ l, Expr.eval]
    simp only [erase_bind, Expr.erase_trace scope _ r, erase_lift]
  | .cond test yes no _ => by
    rw [Expr.trace, erase_bind, Expr.erase_trace scope _ test, Expr.eval]
    congr 1
    funext v
    rw [erase_note_bind]
    split
    · simp only [erase_bind, erase_lift, Stmt.erase_traceAll _ _ _ _ yes]
    · exact Stmt.erase_traceElse scope s no
  | .array es _ => by
    rw [Expr.trace, erase_bind, Expr.erase_traceItems scope _ 0 [] es, Expr.eval]
    rfl
  | .hash ps _ => by
    rw [Expr.trace, erase_bind, Expr.erase_tracePairs scope s 0 {} ps, Expr.eval]
    rfl
  | .index target subscript _ => by
    rw [Expr.trace, erase_bind, Expr.erase_trace scope _ target, Expr.eval]
    simp only [erase_bind, Expr.erase_trace scope _ subscript, erase_lift]
  | .call callee args _ => by
    rw [Expr.trace, erase_bind, Expr.erase_trace scope _ callee, Expr.eval]
    simp only [erase_bind, Expr.erase_traceItems scope _ 0 [] args, erase_lift]
    rfl

theorem Expr.erase_traceItems (scope : Nat) (site : Nat → Site) (i : Nat) (done : List Value) :
    (es : List Expr) → (Expr.traceItems scope site i done es : Traced κ (List Value)).erase =
      Expr.evalItems scope done es
  | [] => rfl
  | e :: es => by
    rw [Expr.traceItems, erase_bind, Expr.erase_trace scope _ e, Expr.evalItems]
    simp only [Expr.erase_traceItems scope _ _ _ es]

theorem Expr.erase_tracePairs (scope : Nat) (s : Site) (i : Nat) (t : Table) :
    (ps : List (Expr × Expr)) →
    (Expr.tracePairs scope s i t ps : Traced κ Table).erase = Expr.evalPairs scope t ps
  | [] => rfl
  | (k, e) :: ps => by
    rw [Expr.tracePairs, erase_bind, Expr.erase_trace scope _ k, Expr.evalPairs]
    simp only [erase_bind, Expr.erase_trace scope _ e]
    congr 1
    funext key
    congr 1
    funext v
    cases key.key? with
    | some k => exact Expr.erase_tracePairs scope s _ _ ps
    | none => rfl

theorem Stmt.erase_trace (scope : Nat) (s : Site) :
    (st : Stmt) → (st.trace scope s : Traced κ Value).erase = st.eval scope
  | .define x _ e _ => by
    rw [Stmt.trace, erase_bind, Expr.erase_trace scope s e, Stmt.eval]
    rfl
  | .expr e _ => by
    rw [Stmt.trace, Expr.erase_trace scope s e, Stmt.eval]

theorem Stmt.erase_traceAll (scope : Nat) (site : Nat → Site) (i : Nat) (last : Value) :
    (ss : List Stmt) →
    (Stmt.traceAll scope site i last ss : Traced κ Value).erase = Stmt.evalAll scope last ss
  | [] => rfl
  | st :: ss => by
    rw [Stmt.traceAll, erase_bind, Stmt.erase_trace scope _ st, Stmt.evalAll]
    simp only [Stmt.erase_traceAll scope _ _ _ ss]

theorem Stmt.erase_traceElse (scope : Nat) (s : Site) : (no : Option (List Stmt)) →
    (Stmt.traceElse scope s no : Traced κ Value).erase = Stmt.evalElse scope no
  | none => rfl
  | some ss => by
    rw [Stmt.traceElse, erase_bind, erase_lift, Stmt.evalElse]
    simp only [Stmt.erase_traceAll _ _ _ _ ss]

end

/-- A program runs as it does without the notes. -/
theorem Program.erase_trace (p : Program) : (p.trace : Traced κ Value).erase = p.eval :=
  Stmt.erase_traceAll globalScope _ 0 .null p.statements

end

/-! ## Along a plan -/

/-- The choices are those that were made. -/
def Act.Agrees (took : Site → Bool) (acts : List Act) : Prop :=
  ∀ s b, chose s b ∈ acts → took s = b

theorem Act.agrees_append {took : Site → Bool} {acts acts' : List Act} :
    Agrees took (acts ++ acts') ↔ Agrees took acts ∧ Agrees took acts' := by
  constructor
  · intro h
    exact ⟨fun s b hb => h s b (List.mem_append_left _ hb),
      fun s b hb => h s b (List.mem_append_right _ hb)⟩
  · rintro ⟨h, h'⟩ s b hb
    exact (List.mem_append.1 hb).elim (h s b) (h' s b)

theorem Act.agrees_chose_cons {took : Site → Bool} {s : Site} {b : Bool} {acts : List Act} :
    Agrees took (.chose s b :: acts) ↔ took s = b ∧ Agrees took acts := by
  constructor
  · intro h
    exact ⟨h s b (List.mem_cons_self ..), fun t c hc => h t c (List.mem_cons_of_mem _ hc)⟩
  · rintro ⟨hs, h⟩ t c hc
    rcases List.mem_cons.1 hc with heq | hc
    · cases heq
      exact hs
    · exact h t c hc

/-- Where each node is met once, the choices that were made are choices. -/
theorem Act.agrees_held {acts : List Act} (h : (acts.map site).Nodup) :
    Agrees (held acts) acts := by
  intro s b hb
  cases b with
  | true => exact decide_eq_true hb
  | false =>
    refine decide_eq_false fun htrue => ?_
    cases List.inj_on_of_nodup_map h htrue hb rfl

namespace Plan

/-- What is done is the beginning of a course through the plan, the one with the choices that were
made, or all of it. -/
structure Covers (p : Plan) (acts : List Act) (all : Bool) : Prop where
  sublist : (acts.map Act.site).Sublist p.sites
  isPrefix {took : Site → Bool} (h : Act.Agrees took acts) : acts <+: p.course took
  eq {took : Site → Bool} (h : Act.Agrees took acts) (hall : all = true) : acts = p.course took

variable {p q : Plan} {acts acts' : List Act} {all : Bool} {s : Site}

theorem covers_nothing (all : Bool) : nothing.Covers [] all where
  sublist := .refl _
  isPrefix _ := List.prefix_refl _
  eq _ _ := rfl

theorem covers_nil (p : Plan) : p.Covers [] false where
  sublist := List.nil_sublist _
  isPrefix _ := List.nil_prefix
  eq _ := nofun

theorem covers_call (s : Site) : (call s).Covers [.applied s] true where
  sublist := .refl _
  isPrefix _ := List.prefix_refl _
  eq _ _ := rfl

namespace Covers

theorem stop (h : p.Covers acts false) (q : Plan) : (both p q).Covers acts false where
  sublist := h.sublist.trans (List.sublist_append_left ..)
  isPrefix hacts := (h.isPrefix hacts).trans (List.prefix_append ..)
  eq _ := nofun

theorem both (hp : p.Covers acts true) (hq : q.Covers acts' all) :
    (Plan.both p q).Covers (acts ++ acts') all where
  sublist := by
    rw [List.map_append]
    exact hp.sublist.append hq.sublist
  isPrefix h := by
    obtain ⟨h, h'⟩ := Act.agrees_append.1 h
    rw [course, ← hp.eq h rfl]
    exact (List.prefix_append_right_inj _).2 (hq.isPrefix h')
  eq h hall := by
    obtain ⟨h, h'⟩ := Act.agrees_append.1 h
    rw [course, ← hp.eq h rfl, ← hq.eq h' hall]

theorem either {b : Bool} (h : (if b then p else q).Covers acts all) :
    (Plan.either s p q).Covers (.chose s b :: acts) all where
  sublist := by
    refine .cons_cons s ?_
    cases b with
    | true => exact h.sublist.trans (List.sublist_append_left ..)
    | false => exact h.sublist.trans (List.sublist_append_right ..)
  isPrefix hacts := by
    obtain ⟨hs, hrest⟩ := Act.agrees_chose_cons.1 hacts
    rw [course, hs]
    refine (List.prefix_cons_inj _).2 ?_
    cases b <;> exact h.isPrefix hrest
  eq hacts hall := by
    obtain ⟨hs, hrest⟩ := Act.agrees_chose_cons.1 hacts
    rw [course, hs]
    refine congrArg _ ?_
    cases b <;> exact h.eq hrest hall

theorem congr (h : p.Covers acts all) (hsites : p.sites = q.sites)
    (hcourse : ∀ took, p.course took = q.course took) : q.Covers acts all where
  sublist := hsites ▸ h.sublist
  isPrefix hacts := hcourse _ ▸ h.isPrefix hacts
  eq hacts hall := hcourse _ ▸ h.eq hacts hall

end Covers

end Plan

namespace Traced

/-- The result is a value. -/
def ended : EStateM.Result Fault (Machine κ) α → Bool
  | .ok _ _ => true
  | .error _ _ => false

/-- Whatever the run does, is along the plan, and all of it is done if the run ends in a value. -/
def Follows (x : Traced κ α) (p : Plan) : Prop := ∀ m, p.Covers (x m).1 (ended (x m).2)

variable {x : Traced κ α} {f : α → Traced κ β} {p q : Plan} {s : Site}

theorem follows_pure (a : α) : (pure a : Traced κ α).Follows .nothing :=
  fun _ => Plan.covers_nothing _

theorem follows_lift (x : Run κ α) : (lift x).Follows .nothing := fun _ => Plan.covers_nothing _

theorem follows_throw (e : Fault) (p : Plan) : (lift (throw e) : Traced κ α).Follows p :=
  fun _ => p.covers_nil

theorem follows_call (s : Site) : (note (.applied s) : Traced κ Unit).Follows (.call s) :=
  fun _ => Plan.covers_call s

namespace Follows

theorem bind (hx : x.Follows p) (hf : ∀ a, (f a).Follows q) : (x >>= f).Follows (.both p q) := by
  intro m
  have hx := hx m
  rcases hr : x m with ⟨acts, ⟨a, m'⟩ | ⟨e, m'⟩⟩
  · rw [hr] at hx
    rw [bind_of_ok hr]
    exact hx.both (hf a m')
  · rw [hr] at hx
    rw [bind_of_error hr]
    exact hx.stop q

/-- What does nothing at the nodes has no place in the plan. -/
theorem bind_nothing (hx : x.Follows p) (hf : ∀ a, (f a).Follows .nothing) :
    (x >>= f).Follows p :=
  fun m => (hx.bind hf m).congr (List.append_nil _) fun _ => List.append_nil _

theorem nothing_bind (hx : x.Follows .nothing) (hf : ∀ a, (f a).Follows p) :
    (x >>= f).Follows p :=
  fun m => (hx.bind hf m).congr rfl fun _ => rfl

/-- After the choice, the run goes along the plan of the block that is taken. -/
theorem choose {b : Bool} {x : Traced κ α} (hx : x.Follows (if b then p else q)) :
    (note (.chose s b) >>= fun _ => x).Follows (.either s p q) := by
  intro m
  have hnote : (note (.chose s b) : Traced κ Unit) m = ([.chose s b], .ok () m) := rfl
  rw [bind_of_ok hnote]
  exact (hx m).either

end Follows

end Traced

/-! ## The evaluator -/

section

open Traced (follows_call follows_lift follows_pure)

variable [Console κ]

mutual

/-- An expression goes along the plan of its tree, and all of it unless it fails. -/
theorem Expr.follows_trace (scope : Nat) (s : Site) :
    (e : Expr) → (e.trace scope s : Traced κ Value).Follows (e.plan s)
  | .int _ _ => follows_pure _
  | .str _ _ => follows_pure _
  | .bool _ _ => follows_pure _
  | .null _ => follows_pure _
  | .ident _ _ => follows_lift _
  | .unary op e _ => (e.follows_trace scope _).bind_nothing fun _ => follows_lift _
  | .binary l op r _ => (l.follows_trace scope _).bind fun _ =>
      (r.follows_trace scope _).bind_nothing fun _ => follows_lift _
  | .cond test yes no _ => by
    refine (test.follows_trace scope _).bind fun v => .choose ?_
    cases v.isTruthy with
    | true => exact (follows_lift _).nothing_bind fun inner => Stmt.follows_traceAll inner _ 0 _ yes
    | false => exact Stmt.follows_traceElse scope s no
  | .array es _ => (Expr.follows_traceItems scope _ 0 [] es).bind_nothing fun _ => follows_pure _
  | .hash ps _ => (Expr.follows_tracePairs scope s 0 {} ps).bind_nothing fun _ => follows_lift _
  | .index target subscript _ => (target.follows_trace scope _).bind fun _ =>
      (subscript.follows_trace scope _).bind_nothing fun _ => follows_lift _
  | .call callee args _ => (callee.follows_trace scope _).bind fun _ =>
      (Expr.follows_traceItems scope _ 0 [] args).bind fun _ =>
        (follows_call s).bind_nothing fun _ => follows_lift _

theorem Expr.follows_traceItems (scope : Nat) (site : Nat → Site) (i : Nat) (done : List Value) :
    (es : List Expr) → (Expr.traceItems scope site i done es : Traced κ (List Value)).Follows
      (Expr.planItems site i es)
  | [] => follows_pure _
  | e :: es => (e.follows_trace scope _).bind fun _ =>
      Expr.follows_traceItems scope site (i + 1) _ es

theorem Expr.follows_tracePairs (scope : Nat) (s : Site) (i : Nat) (t : Table) :
    (ps : List (Expr × Expr)) →
    (Expr.tracePairs scope s i t ps : Traced κ Table).Follows (Expr.planPairs s i ps)
  | [] => follows_pure _
  | (k, e) :: ps => by
    refine (k.follows_trace scope _).bind fun key => (e.follows_trace scope _).bind fun v => ?_
    cases key.key? with
    | some k => exact Expr.follows_tracePairs scope s (i + 1) _ ps
    | none => exact Traced.follows_throw _ _

theorem Stmt.follows_trace (scope : Nat) (s : Site) :
    (st : Stmt) → (st.trace scope s : Traced κ Value).Follows (st.plan s)
  | .define _ _ e _ => (e.follows_trace scope s).bind_nothing fun _ =>
      (follows_lift _).bind_nothing fun _ => follows_pure _
  | .expr e _ => e.follows_trace scope s

theorem Stmt.follows_traceAll (scope : Nat) (site : Nat → Site) (i : Nat) (last : Value) :
    (ss : List Stmt) →
    (Stmt.traceAll scope site i last ss : Traced κ Value).Follows (Stmt.planAll site i ss)
  | [] => follows_pure _
  | st :: ss =>
    (st.follows_trace scope _).bind fun _ => Stmt.follows_traceAll scope site (i + 1) _ ss

theorem Stmt.follows_traceElse (scope : Nat) (s : Site) : (no : Option (List Stmt)) →
    (Stmt.traceElse scope s no : Traced κ Value).Follows (Stmt.planElse s no)
  | none => follows_pure _
  | some ss => (follows_lift _).nothing_bind fun inner => Stmt.follows_traceAll inner _ 0 _ ss

end

theorem Program.follows_trace (p : Program) : (p.trace : Traced κ Value).Follows p.plan :=
  Stmt.follows_traceAll globalScope _ 0 .null p.statements

/-- The calls whose callee is applied come in the order of the tree, each once at most: they are the
first of those that are outside the blocks not taken, and a condition is decided once at most.  If
the program does not end in an error, they are all of those. -/
theorem Program.calls_left_to_right (p : Program) (m : Machine κ) :
    let acts := (p.trace m).1
    (p.trace m).2 = p.eval m ∧ (Act.calls acts).Sublist p.plan.calls ∧ p.plan.calls.Nodup ∧
      (∀ s b, .chose s b ∈ acts → Act.held acts s = b) ∧
      Act.calls acts <+: p.plan.callsTaken (Act.held acts) ∧
      ((Value.ofOutcome (p.eval.outcome m).1).isError = false →
        Act.calls acts = p.plan.callsTaken (Act.held acts)) := by
  intro acts
  have hresult : (p.trace m).2 = p.eval m := congrFun p.erase_trace m
  have hcovers := p.follows_trace m
  have hagrees : Act.Agrees (Act.held acts) acts :=
    Act.agrees_held (hcovers.sublist.nodup p.nodup_plan)
  have hprefix : Act.calls acts <+: p.plan.callsTaken (Act.held acts) := by
    rw [← Plan.calls_course]
    exact (hcovers.isPrefix hagrees).filterMap _
  refine ⟨hresult, hprefix.sublist.trans (p.plan.sublist_calls _),
    p.plan.calls_sublist_sites.nodup p.nodup_plan, hagrees, hprefix, fun hvalue => ?_⟩
  rw [← Plan.calls_course]
  refine congrArg Act.calls (hcovers.eq hagrees ?_)
  rw [hresult]
  rw [Run.outcome] at hvalue
  cases hr : p.eval m with
  | ok v m' => rfl
  | error e m' =>
    rw [hr] at hvalue
    cases hvalue

/-- A condition that calls a function, with calls in both blocks and one inside the other. -/
theorem Program.calls_left_to_right_of_cond :
    let s : Span := ⟨0, 1⟩
    let len (args : List Expr) : Expr := .call (.ident "len" s) args s
    let puts (args : List Expr) : Expr := .call (.ident "puts" s) args s
    let p : Program := ⟨[.expr (.cond (len [.str "" s]) [.expr (puts [len [.str "a" s]]) s]
      (some [.expr (puts []) s]) s) s]⟩
    let m : Machine Transcript := .start {}
    (Value.ofOutcome (p.eval.outcome m).1).isError = false ∧
      Act.calls (p.trace m).1 =
        [[.test, .statement 0], [.argument 0, .block true 0, .statement 0],
          [.block true 0, .statement 0]] := by
  intro s len puts p m
  have hvalue : (Value.ofOutcome (p.eval.outcome m).1).isError = false := by decide +kernel
  obtain ⟨-, -, -, -, -, hall⟩ := p.calls_left_to_right m
  exact ⟨hvalue, (hall hvalue).trans (by decide +kernel)⟩

end

end MonkeyLang
