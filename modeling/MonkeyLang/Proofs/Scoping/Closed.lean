import Mathlib.Data.Set.Insert
import MonkeyLang.Builtin.Basic
import MonkeyLang.Proofs.Parsing.Nesting

/-!
# Names in scope

An expression is closed over some names if each name in it is one of them, or is defined before it
in its block or in a block around it.  A definition is there for the statements behind it, not for
its own value, and what a block defines is gone after the block.  A program is well scoped if it is
closed over the names of the built-in functions; this can be decided.

An expression is closed over all names that stand in it (`Expr.closed_of_names`).
-/

namespace MonkeyLang

/-! ## Closed -/

mutual

/-- Each name in the expression is one of the visible names, or is defined before it in a block of
the expression. -/
def Expr.Closed (visible : Set String) : Expr → Prop
  | .int _ _ => True
  | .str _ _ => True
  | .bool _ _ => True
  | .null _ => True
  | .ident x _ => x ∈ visible
  | .unary _ e _ => e.Closed visible
  | .binary l _ r _ => l.Closed visible ∧ r.Closed visible
  | .cond test yes no _ =>
    test.Closed visible ∧ Stmt.ClosedAll visible yes ∧ Stmt.ClosedElse visible no
  | .array es _ => Expr.ClosedAll visible es
  | .hash ps _ => Expr.ClosedPairs visible ps
  | .index target subscript _ => target.Closed visible ∧ subscript.Closed visible
  | .call callee args _ => callee.Closed visible ∧ Expr.ClosedAll visible args

def Expr.ClosedAll (visible : Set String) : List Expr → Prop
  | [] => True
  | e :: es => e.Closed visible ∧ Expr.ClosedAll visible es

def Expr.ClosedPairs (visible : Set String) : List (Expr × Expr) → Prop
  | [] => True
  | (k, e) :: ps => k.Closed visible ∧ e.Closed visible ∧ Expr.ClosedPairs visible ps

/-- Each definition adds a name for the statements behind it. -/
def Stmt.ClosedAll (visible : Set String) : List Stmt → Prop
  | [] => True
  | .define x _ e _ :: ss => e.Closed visible ∧ Stmt.ClosedAll (insert x visible) ss
  | .expr e _ :: ss => e.Closed visible ∧ Stmt.ClosedAll visible ss

def Stmt.ClosedElse (visible : Set String) : Option (List Stmt) → Prop
  | none => True
  | some ss => Stmt.ClosedAll visible ss

end

/-- The names that mean something without a definition. -/
def Builtin.names : Set String := {x | (Builtin.ofName? x).isSome}

instance : DecidablePred (· ∈ Builtin.names) :=
  fun x => inferInstanceAs (Decidable ((Builtin.ofName? x).isSome = true))

/-- Each name in the program is that of a built-in function or is defined before, in the same block
or in one around it. -/
def Program.WellScoped (p : Program) : Prop := Stmt.ClosedAll Builtin.names p.statements

/-! ## Deciding -/

mutual

/-- A tree is checked from the root to the leaves, and the other kinds of trees with it. -/
def Expr.decideClosed (visible : Set String) [DecidablePred (· ∈ visible)] :
    (e : Expr) → Decidable (e.Closed visible)
  | .int _ _ => isTrue trivial
  | .str _ _ => isTrue trivial
  | .bool _ _ => isTrue trivial
  | .null _ => isTrue trivial
  | .ident x _ => inferInstanceAs (Decidable (x ∈ visible))
  | .unary _ e _ => e.decideClosed visible
  | .binary l _ r _ => @instDecidableAnd _ _ (l.decideClosed visible) (r.decideClosed visible)
  | .cond test yes no _ =>
    @instDecidableAnd _ _ (test.decideClosed visible)
      (@instDecidableAnd _ _ (Stmt.decideClosedAll visible yes) (Stmt.decideClosedElse visible no))
  | .array es _ => Expr.decideClosedAll visible es
  | .hash ps _ => Expr.decideClosedPairs visible ps
  | .index target subscript _ =>
    @instDecidableAnd _ _ (target.decideClosed visible) (subscript.decideClosed visible)
  | .call callee args _ =>
    @instDecidableAnd _ _ (callee.decideClosed visible) (Expr.decideClosedAll visible args)

def Expr.decideClosedAll (visible : Set String) [DecidablePred (· ∈ visible)] :
    (es : List Expr) → Decidable (Expr.ClosedAll visible es)
  | [] => isTrue trivial
  | e :: es => @instDecidableAnd _ _ (e.decideClosed visible) (Expr.decideClosedAll visible es)

def Expr.decideClosedPairs (visible : Set String) [DecidablePred (· ∈ visible)] :
    (ps : List (Expr × Expr)) → Decidable (Expr.ClosedPairs visible ps)
  | [] => isTrue trivial
  | (k, e) :: ps =>
    @instDecidableAnd _ _ (k.decideClosed visible)
      (@instDecidableAnd _ _ (e.decideClosed visible) (Expr.decideClosedPairs visible ps))

def Stmt.decideClosedAll (visible : Set String) [DecidablePred (· ∈ visible)] :
    (ss : List Stmt) → Decidable (Stmt.ClosedAll visible ss)
  | [] => isTrue trivial
  | .define x _ e _ :: ss =>
    @instDecidableAnd _ _ (e.decideClosed visible)
      (@Stmt.decideClosedAll (insert x visible)
        (fun y => inferInstanceAs (Decidable (y = x ∨ y ∈ visible))) ss)
  | .expr e _ :: ss =>
    @instDecidableAnd _ _ (e.decideClosed visible) (Stmt.decideClosedAll visible ss)

def Stmt.decideClosedElse (visible : Set String) [DecidablePred (· ∈ visible)] :
    (no : Option (List Stmt)) → Decidable (Stmt.ClosedElse visible no)
  | none => isTrue trivial
  | some ss => Stmt.decideClosedAll visible ss

end

instance (p : Program) : Decidable p.WellScoped := Stmt.decideClosedAll _ p.statements

/-! ## Names that occur -/

namespace Expr

/-- The name stands in the expression, in whatever part of it. -/
def Names (e : Expr) (x : String) : Prop := ∃ w a, Path e w (.ident x a)

/-- A name in a part stands in the whole. -/
theorem Names.below {e f : Expr} {s : Descent} (hb : Below s e f) {x : String} (h : f.Names x) :
    e.Names x := by
  obtain ⟨w, a, hp⟩ := h
  exact ⟨s :: w, a, .cons hb hp⟩

/-- A name stands in an expression which is that name, or in one of the parts. -/
theorem names_iff {e : Expr} {x : String} :
    e.Names x ↔ (∃ a, e = .ident x a) ∨ ∃ s f, Below s e f ∧ f.Names x := by
  constructor
  · rintro ⟨w, a, hp⟩
    cases hp with
    | nil => exact .inl ⟨a, rfl⟩
    | cons hb hp => exact .inr ⟨_, _, hb, _, a, hp⟩
  · rintro (⟨a, rfl⟩ | ⟨s, f, hb, hf⟩)
    · exact ⟨[], a, .nil⟩
    · exact hf.below hb

theorem names_ident {x y : String} {a : Span} : Names (.ident x a) y ↔ y = x := by
  rw [names_iff]
  constructor
  · rintro (⟨_, ⟨⟩⟩ | ⟨_, _, ⟨⟩, _⟩)
    rfl
  · rintro rfl
    exact .inl ⟨a, rfl⟩

end Expr

mutual

/-- An expression is closed if all its names are visible, whatever it defines. -/
theorem Expr.closed_of_names {visible : Set String} :
    (e : Expr) → (∀ x, e.Names x → x ∈ visible) → e.Closed visible
  | .int _ _, _ => trivial
  | .str _ _, _ => trivial
  | .bool _ _, _ => trivial
  | .null _, _ => trivial
  | .ident x a, h => h x ⟨[], a, .nil⟩
  | .unary _ e _, h => e.closed_of_names fun x hx => h x (hx.below .operand)
  | .binary l _ r _, h =>
    ⟨l.closed_of_names fun x hx => h x (hx.below .binary_left),
      r.closed_of_names fun x hx => h x (hx.below .binary_right)⟩
  | .cond test yes no _, h =>
    ⟨test.closed_of_names fun x hx => h x (hx.below .test),
      Stmt.closedAll_of_names yes fun s hs x hx => h x (hx.below (.yes hs)),
      Stmt.closedElse_of_names no fun ss hss s hs x hx => by
        subst hss
        exact h x (hx.below (.no hs))⟩
  | .array es _, h => Expr.closedAll_of_names es fun e he x hx => h x (hx.below (.item he))
  | .hash ps _, h =>
    Expr.closedPairs_of_names ps fun p hp =>
      ⟨fun x hx => h x (hx.below (.key hp)), fun x hx => h x (hx.below (.value hp))⟩
  | .index target subscript _, h =>
    ⟨target.closed_of_names fun x hx => h x (hx.below .target),
      subscript.closed_of_names fun x hx => h x (hx.below .subscript)⟩
  | .call callee args _, h =>
    ⟨callee.closed_of_names fun x hx => h x (hx.below .callee),
      Expr.closedAll_of_names args fun e he x hx => h x (hx.below (.arg he))⟩

theorem Expr.closedAll_of_names {visible : Set String} : (es : List Expr) →
    (∀ e ∈ es, ∀ x, e.Names x → x ∈ visible) → Expr.ClosedAll visible es
  | [], _ => trivial
  | e :: es, h => by
    obtain ⟨he, hes⟩ := List.forall_mem_cons.1 h
    exact ⟨e.closed_of_names he, Expr.closedAll_of_names es hes⟩

theorem Expr.closedPairs_of_names {visible : Set String} : (ps : List (Expr × Expr)) →
    (∀ p ∈ ps, (∀ x, p.1.Names x → x ∈ visible) ∧ ∀ x, p.2.Names x → x ∈ visible) →
    Expr.ClosedPairs visible ps
  | [], _ => trivial
  | (k, e) :: ps, h => by
    obtain ⟨⟨hk, he⟩, hps⟩ := List.forall_mem_cons.1 h
    exact ⟨k.closed_of_names hk, e.closed_of_names he, Expr.closedPairs_of_names ps hps⟩

theorem Stmt.closedAll_of_names {visible : Set String} : (ss : List Stmt) →
    (∀ s ∈ ss, ∀ x, s.value.Names x → x ∈ visible) → Stmt.ClosedAll visible ss
  | [], _ => trivial
  | .define y _ e _ :: ss, h => by
    obtain ⟨he, hss⟩ := List.forall_mem_cons.1 h
    exact ⟨e.closed_of_names he,
      Stmt.closedAll_of_names ss fun s hs x hx => Set.mem_insert_of_mem y (hss s hs x hx)⟩
  | .expr e _ :: ss, h => by
    obtain ⟨he, hss⟩ := List.forall_mem_cons.1 h
    exact ⟨e.closed_of_names he, Stmt.closedAll_of_names ss hss⟩

theorem Stmt.closedElse_of_names {visible : Set String} : (no : Option (List Stmt)) →
    (∀ ss, no = some ss → ∀ s ∈ ss, ∀ x, s.value.Names x → x ∈ visible) →
    Stmt.ClosedElse visible no
  | none, _ => trivial
  | some ss, h => Stmt.closedAll_of_names ss (h ss rfl)

end

end MonkeyLang
