import MonkeyLang.Proofs.Running.Sequence
import MonkeyLang.Proofs.Running.Traces
import MonkeyLang.Proofs.Scoping.Scoped

/-!
# What runs do to scopes

An expression changes no scope that was there before it: what is defined on the way is defined in
scopes that are opened on the way, and those are newer (`Expr.spares_eval`).  So a program changes
the global scope only by its own definitions, in order, as far as it gets
(`Machine.scopes_after`).  The definitions that a program has made are taken from its visits.
-/

namespace MonkeyLang

/-! ## Scopes -/

namespace Scopes

/-- The scopes below `n` are all there, each with the bindings and the outer scope that it has in
the first. -/
structure SameBelow (n : Nat) (s s' : Scopes) : Prop where
  size_le : n ≤ s'.size
  frame {id : Nat} (h : id < n) : s'.frames[id]? = s.frames[id]?

/-- Every scope of the first is in the second one as it was. -/
def Before (s s' : Scopes) : Prop := s.SameBelow s.size s'

section

variable {n n' : Nat} {s s' s'' : Scopes}

theorem SameBelow.refl (h : n ≤ s.size) : s.SameBelow n s := ⟨h, fun _ => rfl⟩

theorem SameBelow.trans (h : s.SameBelow n s') (h' : s'.SameBelow n s'') : s.SameBelow n s'' :=
  ⟨h'.size_le, fun hid => (h'.frame hid).trans (h.frame hid)⟩

theorem SameBelow.mono (h : s.SameBelow n' s') (hn : n ≤ n') : s.SameBelow n s' :=
  ⟨Nat.le_trans hn h.size_le, fun hid => h.frame (Nat.lt_of_lt_of_le hid hn)⟩

theorem Before.trans (h : s.Before s') (h' : s'.Before s'') : s.Before s'' :=
  SameBelow.trans h (SameBelow.mono h' h.size_le)

/-- Looking up a name goes only to older scopes. -/
theorem SameBelow.get? (h : s.SameBelow n s') {id : Nat} (hid : id < n) (x : String) :
    s'.get? id x = s.get? id x := by
  induction id using Nat.strongRecOn with
  | ind id ih =>
    rw [get?_eq, get?_eq, h.frame hid]
    cases hf : s.frames[id]? with
    | none => rfl
    | some f =>
      simp only [Option.bind_some]
      congr 1
      cases hp : f.parent with
      | none => rfl
      | some p =>
        obtain ⟨hlt, rfl⟩ := Array.getElem?_eq_some_iff.1 hf
        have hpid := s.parent_lt id p hlt hp
        exact ih p hpid (Nat.lt_trans hpid hid)

/-- A scope that is opened is behind the others. -/
theorem sameBelow_push (h : n ≤ s.size) (vars : Bindings) (parent : Option Nat) :
    s.SameBelow n (s.push vars parent) where
  size_le := by
    have : s.frames.size ≤ (s.push vars parent).size := by simp [push, size]
    exact Nat.le_trans h this
  frame {id} hid := by
    have hid : id < s.frames.size := Nat.lt_of_lt_of_le hid h
    simp [push, Array.getElem?_push, Nat.ne_of_lt hid]

@[simp] theorem size_define (s : Scopes) (id : Nat) (x : String) (v : Value) :
    (s.define id x v).size = s.size := by
  simp [define, size]

/-- A definition changes the bindings of one scope, and of none but its own. -/
theorem frame_define (s : Scopes) (id id' : Nat) (x : String) (v : Value) :
    (s.define id x v).frames[id']? =
      if id = id' then s.frames[id']?.map fun f => { f with vars := f.vars.insert x v }
      else s.frames[id']? :=
  Array.getElem?_modify

/-- A definition in a later scope leaves the older ones alone. -/
theorem sameBelow_define (h : n ≤ s.size) {id : Nat} (hid : n ≤ id) (x : String) (v : Value) :
    s.SameBelow n (s.define id x v) where
  size_le := by rwa [size_define]
  frame hlt := by rw [frame_define, if_neg (Nat.ne_of_gt (Nat.lt_of_lt_of_le hlt hid))]

theorem SameBelow.define (h : s.SameBelow n s') (id : Nat) (x : String) (v : Value) :
    (s.define id x v).SameBelow n (s'.define id x v) where
  size_le := by
    rw [size_define]
    exact h.size_le
  frame hid := by rw [frame_define, frame_define, h.frame hid]

end

/-- Definitions in one scope, one after the other. -/
def defineAll (s : Scopes) (id : Nat) (ds : List (String × Value)) : Scopes :=
  ds.foldl (fun s d => s.define id d.1 d.2) s

@[simp] theorem size_defineAll (s : Scopes) (id : Nat) (ds : List (String × Value)) :
    (s.defineAll id ds).size = s.size := by
  induction ds generalizing s with
  | nil => rfl
  | cons d ds ih => exact (ih _).trans (size_define ..)

theorem Before.defineAll {s s' : Scopes} (h : s.Before s') (id : Nat) (ds : List (String × Value)) :
    (s.defineAll id ds).Before (s'.defineAll id ds) := by
  induction ds generalizing s s' with
  | nil => exact h
  | cons d ds ih =>
    refine ih (?_ : (s.define id d.1 d.2).SameBelow _ _)
    rw [size_define]
    exact SameBelow.define h id d.1 d.2

theorem defineAll_append (s : Scopes) (id : Nat) (ds ds' : List (String × Value)) :
    s.defineAll id (ds ++ ds') = (s.defineAll id ds).defineAll id ds' :=
  List.foldl_append

theorem frame_defineAll_of_ne (s : Scopes) {id id' : Nat} (hne : id ≠ id')
    (ds : List (String × Value)) : (s.defineAll id ds).frames[id']? = s.frames[id']? := by
  induction ds generalizing s with
  | nil => rfl
  | cons d ds ih => exact (ih _).trans (by rw [frame_define, if_neg hne])

/-- Of several definitions of a name, the last one counts. -/
theorem frame_defineAll (s : Scopes) {id : Nat} {f : Frame} (hf : s.frames[id]? = some f)
    (ds : List (String × Value)) :
    ∃ f', (s.defineAll id ds).frames[id]? = some f' ∧ f'.parent = f.parent ∧
      ∀ x : String, f'.vars[x]? = (ds.reverse.lookup x).or f.vars[x]? := by
  induction ds generalizing s f with
  | nil => exact ⟨f, hf, rfl, fun x => rfl⟩
  | cons d ds ih =>
    have hd : (s.define id d.1 d.2).frames[id]? =
        some { f with vars := f.vars.insert d.1 d.2 } := by
      rw [frame_define, if_pos rfl, hf, Option.map_some]
    obtain ⟨f', hf', hparent, hvars⟩ := ih _ hd
    refine ⟨f', hf', hparent, fun x => ?_⟩
    rw [hvars, List.reverse_cons, List.lookup_append, Option.or_assoc]
    congr 1
    rw [Std.TreeMap.getElem?_insert, List.lookup_cons]
    by_cases hx : x = d.1
    · subst hx
      simp
    · simp [beq_false_of_ne hx, Ne.symm hx]

end Scopes

open Scopes (SameBelow)

/-! ## Runs -/

variable {κ α β : Type} {n : Nat} {Q : α → Prop} {R : β → Prop}

/-- The run is over with the scopes below `n` as they were, and not with a value that `Q` does not
hold of. -/
def Sparing (n : Nat) (s : Scopes) (Q : α → Prop) : EStateM.Result Fault (Machine κ) α → Prop
  | .ok a m => s.SameBelow n m.scopes ∧ Q a
  | .error _ m => s.SameBelow n m.scopes

namespace Run

/-- The run leaves the scopes below `n` as they are, if they are there. -/
def Spares (n : Nat) (x : Run κ α) (Q : α → Prop) : Prop :=
  ∀ m, n ≤ m.scopes.size → Sparing n m.scopes Q (x m)

theorem Spares.final {x : Run κ α} (h : Spares n x Q) {m : Machine κ} (hn : n ≤ m.scopes.size) :
    m.scopes.SameBelow n (Run.final (x m)).scopes := by
  have h := h m hn
  cases hr : x m with
  | ok a m' =>
    rw [hr] at h
    exact h.1
  | error e m' =>
    rw [hr] at h
    exact h

/-- Both runs leave them alone, the second one using what comes out of the first. -/
theorem Spares.bind {x : Run κ α} {f : α → Run κ β} (hx : Spares n x Q)
    (hf : ∀ a, Q a → Spares n (f a) R) : Spares n (x >>= f) R := by
  intro m hn
  have h := hx m hn
  cases hr : x m with
  | ok a m' =>
    rw [hr] at h
    rw [bind_of_ok hr]
    obtain ⟨hsame, ha⟩ := h
    have h' := hf a ha m' hsame.size_le
    cases hr' : f a m' with
    | ok b m'' =>
      rw [hr'] at h'
      exact ⟨hsame.trans h'.1, h'.2⟩
    | error e m'' =>
      rw [hr'] at h'
      exact hsame.trans h'
  | error e m' =>
    rw [hr] at h
    rw [bind_of_error hr]
    exact h

theorem enter_bind (scope : Nat) (f : Nat → Run κ α) (m : Machine κ) :
    (enter scope >>= f) m = f m.scopes.size { m with scopes := (m.scopes.child scope).2 } := rfl

theorem define_bind (scope : Nat) (x : String) (v : Value) (f : Unit → Run κ α) (m : Machine κ) :
    (define scope x v >>= f) m = f () { m with scopes := m.scopes.define scope x v } := rfl

/-- A block is evaluated in a scope of its own. -/
theorem spares_enter (scope : Nat) : Spares n (enter scope : Run κ Nat) (n ≤ ·) :=
  fun _ hn => ⟨Scopes.sameBelow_push hn _ _, hn⟩

theorem spares_define {scope : Nat} (h : n ≤ scope) (x : String) (v : Value) :
    Spares n (define scope x v : Run κ Unit) fun _ => True :=
  fun _ hn => ⟨Scopes.sameBelow_define hn h x v, trivial⟩

end Run

theorem Value.invariant_true : Value.Invariant (fun _ => True) fun _ _ => True where
  mono _ _ := trivial
  int _ := trivial
  str _ := trivial
  bool _ := trivial
  null := trivial
  array := ⟨fun _ _ _ => trivial, fun _ => trivial⟩
  table _ := trivial
  builtin := Iff.rfl

/-! ## The evaluator -/

variable [Console κ]

namespace Run

/-- No operation makes a definition. -/
theorem local_spares (n : Nat) :
    Local (κ := κ) (fun _ => True) fun _ x _ Q => Spares n x Q where
  values := Value.invariant_true
  pure h := fun _ hn => ⟨.refl hn, h⟩
  throw _ := fun _ hn => .refl hn
  bind hx hf := hx.bind hf
  value {v} _ := fun m hn => by
    cases v with
    | error e => exact .refl hn
    | _ => exact ⟨.refl hn, trivial⟩
  heap h := fun m hn => h m.heap (fun _ _ _ _ => trivial) m hn
  newTable _ := fun _ hn => ⟨.refl hn, trivial⟩
  setEntry _ _ _ _ := fun _ hn => ⟨.refl hn, trivial⟩
  writeLine _ := fun _ hn => ⟨.refl hn, trivial⟩
  readLine _ := fun _ hn => ⟨.refl hn, trivial⟩

omit [Console κ] in
theorem spares_resolve (scope : Nat) (x : String) :
    Spares n (resolve scope x : Run κ Value) fun _ => True := by
  intro m hn
  rcases looks_resolve scope x m m rfl rfl with ⟨v, hr, -⟩ | ⟨e, hr, -⟩
  · rw [hr]
    exact ⟨.refl hn, trivial⟩
  · rw [hr]
    exact .refl hn

/-- Definitions are made only in scopes that were opened later. -/
theorem scoped_spares (n : Nat) :
    Scoped (κ := κ) (fun _ => True) (fun left _ => n ≤ left)
      fun _ _ x _ Q => Spares n x Q where
  operations _ := local_spares n
  resolve _ := spares_resolve _ _
  block h := (spares_enter _).bind fun left hleft => h left left hleft
  define hc _ _ _ _ _ _ _ h := (spares_define hc _ _).bind fun _ _ => h

end Run

theorem Expr.spares_eval (n scope : Nat) (e : Expr) :
    Run.Spares n (e.eval scope : Run κ Value) fun _ => True :=
  (Run.scoped_spares n).expr ⟨scope, scope, .univ⟩ e (e.closed_of_names fun _ _ => trivial)

/-- A block makes its definitions in its own scope. -/
theorem Stmt.spares_block (n scope : Nat) (ss : List Stmt) :
    Run.Spares n (Run.enter scope >>= fun inner => Stmt.evalAll inner .null ss : Run κ Value)
      fun _ => True :=
  (Run.scoped_spares n).stmtsElse ⟨scope, scope, .univ⟩ (some ss)
    (Stmt.closedAll_of_names ss fun _ _ _ _ => trivial)

/-- An expression, whether it comes to a value or to a fault, leaves all scopes as they are. -/
theorem Expr.before_eval (scope : Nat) (e : Expr) (m : Machine κ) :
    m.scopes.Before (Run.final (e.eval scope m)).scopes :=
  (e.spares_eval _ scope).final (Nat.le_refl _)

/-! ## Definitions of a program -/

/-- The name that a statement defines. -/
def Stmt.defined? : Stmt → Option String
  | .define x _ _ _ => some x
  | .expr _ _ => none

/-- The name that is defined in the visit, if it is that of a definition and ends in no fault, and
the value that it is given, which comes out of the visit inside. -/
def Visit.binding? (v : Visit κ) : Option (String × Value) :=
  match v.node, v.result, v.nested with
  | .stmt (.define x _ _ _), .ok _ _, [w] => some (x, w.yielded)
  | _, _, _ => none

/-- The definitions of the program that are made when it runs on the machine, in order; not those
in its blocks. -/
def Program.definitions (p : Program) (m : Machine κ) : List (String × Value) :=
  (p.visits m).filterMap Visit.binding?

/-- The run is over, and the older scopes are as they were but for the definitions that its visits
have made in this one.  These are of the given names; of the first ones of them if there is a
fault. -/
structure Defining (scope : Nat) (names : List String) (s : Scopes)
    (r : List (Visit κ) × EStateM.Result Fault (Machine κ) α) : Prop where
  before :
    (s.defineAll scope (r.1.filterMap Visit.binding?)).Before (Run.final r.2).scopes
  some_of : (r.1.filterMap Visit.binding?).map Prod.fst <+: names
  all_of {a : α} {m : Machine κ} (h : r.2 = .ok a m) :
    (r.1.filterMap Visit.binding?).map Prod.fst = names

/-- Of the older scopes, the run changes only this one, by definitions of these names. -/
def Recorded.Defines (scope : Nat) (names : List String) (x : Recorded κ α) : Prop :=
  ∀ m, Defining scope names m.scopes (x m)

omit [Console κ] in
/-- The definitions of two runs are made one behind the other. -/
theorem Recorded.Defines.bind {scope : Nat} {names names' : List String} {x : Recorded κ α}
    {f : α → Recorded κ β} (hx : x.Defines scope names) (hf : ∀ a, (f a).Defines scope names') :
    (x >>= f).Defines scope (names ++ names') := by
  intro m
  have h := hx m
  rcases hr : x m with ⟨vs, ⟨a, m'⟩ | ⟨e, m'⟩⟩
  · rw [hr] at h
    rw [bind_of_ok hr]
    have h' := hf a m'
    have hnames := h.all_of rfl
    constructor
    · rw [List.filterMap_append, Scopes.defineAll_append]
      exact (h.before.defineAll scope _).trans h'.before
    · rw [List.filterMap_append, List.map_append, hnames]
      exact (List.prefix_append_right_inj names).2 h'.some_of
    · intro b m'' hb
      rw [List.filterMap_append, List.map_append, hnames, h'.all_of hb]
  · rw [hr] at h
    rw [bind_of_error hr]
    exact ⟨h.before, h.some_of.trans (List.prefix_append names names'), nofun⟩

/-- All that happens in an expression is inside one visit. -/
theorem Expr.exists_visit (scope : Nat) (e : Expr) (m : Machine κ) :
    ∃ w, e.record scope m = ([w], e.eval scope m) ∧ w.result = e.eval scope m := by
  rw [← congrFun (e.erase_record scope) m, Recorded.erase, Expr.record.eq_def]
  exact ⟨_, rfl, rfl⟩

theorem Stmt.record_expr (scope : Nat) (e : Expr) (a : Span) (m : Machine κ) :
    ∃ nested, (Stmt.expr e a).record scope m =
      ([⟨.stmt (.expr e a), scope, m, nested, e.eval scope m⟩], e.eval scope m) := by
  rw [← congrFun (e.erase_record scope) m, Stmt.record.eq_def]
  exact ⟨_, rfl⟩

/-- A definition whose value is found is made in its scope. -/
theorem Stmt.record_define_of_ok {scope : Nat} (x : String) (xs : Span) {e : Expr} (a : Span)
    {m m' : Machine κ} {v : Value} (h : e.eval scope m = .ok v m') :
    ∃ w : Visit κ, w.yielded = v ∧
      let r := .ok .null { m' with scopes := m'.scopes.define scope x v }
      (Stmt.define x xs e a).record scope m =
        ([⟨.stmt (.define x xs e a), scope, m, [w], r⟩], r) := by
  obtain ⟨w, hw, hresult⟩ := e.exists_visit scope m
  rw [h] at hw hresult
  refine ⟨w, by rw [Visit.yielded, hresult], ?_⟩
  rw [Stmt.record.eq_def]
  simp only [Recorded.visit, Recorded.bind_of_ok hw]
  rfl

/-- One whose value fails is not made. -/
theorem Stmt.record_define_of_error {scope : Nat} (x : String) (xs : Span) {e : Expr} (a : Span)
    {m m' : Machine κ} {f : Fault} (h : e.eval scope m = .error f m') :
    ∃ nested, (Stmt.define x xs e a).record scope m =
      ([⟨.stmt (.define x xs e a), scope, m, nested, .error f m'⟩], .error f m') := by
  obtain ⟨w, hw, -⟩ := e.exists_visit scope m
  rw [h] at hw
  refine ⟨[w], ?_⟩
  rw [Stmt.record.eq_def]
  simp only [Recorded.visit, Recorded.bind_of_error hw]

/-- A statement defines the name that it has, if any. -/
theorem Stmt.defines_record (scope : Nat) (s : Stmt) :
    (s.record scope : Recorded κ Value).Defines scope s.defined?.toList := by
  intro m
  cases s with
  | define x xs e a =>
    have he := e.before_eval scope m
    cases h : e.eval scope m with
    | ok v m' =>
      rw [h] at he
      obtain ⟨w, rfl, hrecord⟩ := Stmt.record_define_of_ok x xs a h
      rw [hrecord]
      exact ⟨Scopes.Before.defineAll he scope [(x, w.yielded)], List.prefix_rfl, fun _ => rfl⟩
    | error f m' =>
      rw [h] at he
      obtain ⟨nested, hrecord⟩ := Stmt.record_define_of_error x xs a h
      rw [hrecord]
      exact ⟨he, List.nil_prefix, nofun⟩
  | expr e a =>
    obtain ⟨nested, hrecord⟩ := Stmt.record_expr scope e a m
    rw [hrecord]
    exact ⟨e.before_eval scope m, List.nil_prefix, fun _ => rfl⟩

/-- The statements of a program define their names in order. -/
theorem Stmt.defines_recordAll (scope : Nat) (last : Value) (ss : List Stmt) :
    (Stmt.recordAll scope last ss : Recorded κ Value).Defines scope
      (ss.flatMap fun s => s.defined?.toList) := by
  induction ss generalizing last with
  | nil => exact fun m => ⟨.refl (Nat.le_refl _), List.nil_prefix, fun _ => rfl⟩
  | cons s ss ih => exact (Stmt.defines_record scope s).bind ih

/-! ## Top theorem -/

namespace Machine

/-- Evaluation of an expression, in whatever scope, leaves every scope that there is with the
bindings and the outer scope that it has, whether it comes to a value or to a fault.  So a program
leaves all scopes but the global one as they are.  That one keeps what it lies in and has for each
name the last value that a completed definition of the program gave it, else the one it had; the
definitions in question are those of the program itself, in order, as far as it got. -/
theorem scopes_after (m : Machine κ) :
    (∀ scope (e : Expr), m.scopes.Before (Run.final (e.eval scope m)).scopes) ∧
    ∀ p : Program,
      let s := (Run.final (p.eval m)).scopes
      (∀ id < m.scopes.size, id ≠ globalScope → s.frames[id]? = m.scopes.frames[id]?) ∧
      (∀ f, m.scopes.frames[globalScope]? = some f →
        ∃ f', s.frames[globalScope]? = some f' ∧ f'.parent = f.parent ∧
          ∀ x : String, f'.vars[x]? = ((p.definitions m).reverse.lookup x).or f.vars[x]?) ∧
      (p.definitions m).map Prod.fst <+: p.statements.filterMap Stmt.defined? ∧
      ∀ v m', p.eval m = .ok v m' →
        (p.definitions m).map Prod.fst = p.statements.filterMap Stmt.defined? := by
  refine ⟨fun scope e => e.before_eval scope m, fun p => ?_⟩
  have h := Stmt.defines_recordAll globalScope .null p.statements m
  have hrun : (p.record m).2 = p.eval m := congrFun p.erase_record m
  change Defining globalScope _ m.scopes (p.record m) at h
  obtain ⟨hbefore, hsome, hall⟩ := h
  rw [← List.filterMap_eq_flatMap_toList] at hsome hall
  rw [hrun] at hbefore hall
  have hframe {id : Nat} (hid : id < m.scopes.size) :
      (Run.final (p.eval m)).scopes.frames[id]? =
        (m.scopes.defineAll globalScope (p.definitions m)).frames[id]? := by
    refine hbefore.frame ?_
    rwa [Scopes.size_defineAll]
  refine ⟨fun id hid hne => ?_, fun f hf => ?_, hsome, fun v m' hr => hall hr⟩
  · rw [hframe hid, Scopes.frame_defineAll_of_ne _ (Ne.symm hne)]
  · rw [hframe (Array.getElem?_eq_some_iff.1 hf).1]
    exact m.scopes.frame_defineAll hf (p.definitions m)

/-- Definitions in a block, one of them of a name that the program defines itself, and a fault
before the last definition. -/
theorem scopes_after_of_block :
    let a : Span := ⟨0, 0⟩
    let block : List Stmt :=
      [.define "x" a (.int 2 a) a, .define "y" a (.int 3 a) a, .expr (.ident "x" a) a]
    let p : Program := ⟨[.define "x" a (.cond (.bool true a) block none a) a,
      .define "x" a (.binary (.ident "x" a) .add (.int 1 a) a) a, .expr (.ident "y" a) a,
      .define "x" a (.int 9 a) a]⟩
    let m : Machine Transcript := .start {}
    p.definitions m = [("x", .int 2), ("x", .int 3)] ∧
      ∃ f, (Run.final (p.eval m)).scopes.frames[globalScope]? = some f ∧ f.parent = none ∧
        f.vars["x"]? = some (.int 3) ∧ f.vars["y"]? = none := by
  intro a block p m
  have hdefinitions : p.definitions m = [("x", .int 2), ("x", .int 3)] := by
    with_unfolding_all rfl
  obtain ⟨f, hf, hparent, hvars⟩ := ((scopes_after m).2 p).2.1 {} rfl
  rw [hdefinitions] at hvars
  exact ⟨hdefinitions, f, hf, hparent, hvars "x", hvars "y"⟩

end Machine

end MonkeyLang
