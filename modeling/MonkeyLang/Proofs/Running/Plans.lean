import Mathlib.Data.List.Nodup
import Mathlib.Order.Interval.Set.Basic
import MonkeyLang.Program.Basic

/-!
# The order of the calls of a program

A node of a program is known by its site, the slots that lead to it from the outside.  The plan of a
program (`Program.plan`) has its calls in the order of the tree: what a node is made of from left to
right, and then the node.  A condition comes before its two blocks, of which a run takes one.

So for each choice of blocks there is one course through the plan (`Plan.course`).  Its calls are in
the order of all calls of the plan (`Plan.sublist_calls`), and no node is in the plan twice
(`Program.nodup_plan`).
-/

namespace MonkeyLang

/-! ## Sites -/

/-- Where in a node a part of it stands. -/
inductive Slot where
  | operand
  | left
  | right
  | test
  | block (holds : Bool) (number : Nat)
  | item (number : Nat)
  | key (number : Nat)
  | value (number : Nat)
  | target
  | subscript
  | callee
  | argument (number : Nat)
  | statement (number : Nat)
deriving DecidableEq

/-- The slots that lead to a node, the innermost first. -/
abbrev Site := List Slot

/-- What is done at a node: one of the blocks of a condition is chosen, or a callee is applied. -/
inductive Act where
  | chose (site : Site) (holds : Bool)
  | applied (site : Site)
deriving DecidableEq

namespace Act

def site : Act → Site
  | chose s _ => s
  | applied s => s

def call? : Act → Option Site
  | chose _ _ => none
  | applied s => some s

/-- The callees that are applied, in order. -/
def calls (acts : List Act) : List Site := acts.filterMap call?

/-- Whether the condition was found to hold. -/
def held (acts : List Act) (s : Site) : Bool := decide (chose s true ∈ acts)

end Act

/-! ## Plans -/

/-- Calls in order, and conditions of which one side is taken. -/
inductive Plan where
  | nothing
  | call (site : Site)
  | both (first second : Plan)
  | either (site : Site) (yes no : Plan)

namespace Plan

/-- All calls, from left to right, those of both sides of a condition among them. -/
def calls : Plan → List Site
  | nothing => []
  | call s => [s]
  | both a b => a.calls ++ b.calls
  | either _ a b => a.calls ++ b.calls

/-- The conditions and calls. -/
def sites : Plan → List Site
  | nothing => []
  | call s => [s]
  | both a b => a.sites ++ b.sites
  | either s a b => s :: (a.sites ++ b.sites)

/-- What is done if the conditions hold that `took` has. -/
def course (took : Site → Bool) : Plan → List Act
  | nothing => []
  | call s => [.applied s]
  | both a b => a.course took ++ b.course took
  | either s a b => .chose s (took s) :: if took s then a.course took else b.course took

/-- The calls outside the blocks that are not taken. -/
def callsTaken (took : Site → Bool) : Plan → List Site
  | nothing => []
  | call s => [s]
  | both a b => a.callsTaken took ++ b.callsTaken took
  | either s a b => if took s then a.callsTaken took else b.callsTaken took

/-- The calls of a course are those outside the blocks that are not taken. -/
theorem calls_course (took : Site → Bool) (p : Plan) :
    Act.calls (p.course took) = p.callsTaken took := by
  induction p with
  | nothing => rfl
  | call s => rfl
  | both a b iha ihb => rw [course, Act.calls, List.filterMap_append, callsTaken, ← iha, ← ihb]; rfl
  | either s a b iha ihb =>
    rw [course, callsTaken]
    cases took s with
    | true => exact iha
    | false => exact ihb

/-- They come in the order of the plan, some of them left out. -/
theorem sublist_calls (took : Site → Bool) (p : Plan) : (p.callsTaken took).Sublist p.calls := by
  induction p with
  | nothing => exact .refl _
  | call s => exact .refl _
  | both a b iha ihb => exact iha.append ihb
  | either s a b iha ihb =>
    rw [callsTaken]
    cases took s with
    | true => exact iha.trans (List.sublist_append_left ..)
    | false => exact ihb.trans (List.sublist_append_right ..)

/-- Each call is at a site of the plan. -/
theorem calls_sublist_sites (p : Plan) : p.calls.Sublist p.sites := by
  induction p with
  | nothing => exact .refl _
  | call s => exact .refl _
  | both a b iha ihb => exact iha.append ihb
  | either s a b iha ihb => exact (iha.append ihb).cons s

end Plan

/-! ## The plan of a program -/

mutual

/-- What is to be done in an expression at the site, from left to right, its own call last. -/
def Expr.plan (s : Site) : Expr → Plan
  | .int _ _ => .nothing
  | .str _ _ => .nothing
  | .bool _ _ => .nothing
  | .null _ => .nothing
  | .ident _ _ => .nothing
  | .unary _ e _ => e.plan (.operand :: s)
  | .binary l _ r _ => .both (l.plan (.left :: s)) (r.plan (.right :: s))
  | .cond test yes no _ =>
    .both (test.plan (.test :: s))
      (.either s (Stmt.planAll (fun i => .block true i :: s) 0 yes) (Stmt.planElse s no))
  | .array es _ => Expr.planItems (fun i => .item i :: s) 0 es
  | .hash ps _ => Expr.planPairs s 0 ps
  | .index target subscript _ =>
    .both (target.plan (.target :: s)) (subscript.plan (.subscript :: s))
  | .call callee args _ =>
    .both (callee.plan (.callee :: s))
      (.both (Expr.planItems (fun i => .argument i :: s) 0 args) (.call s))

/-- The expressions from the number `i` on. -/
def Expr.planItems (site : Nat → Site) (i : Nat) : List Expr → Plan
  | [] => .nothing
  | e :: es => .both (e.plan (site i)) (Expr.planItems site (i + 1) es)

/-- The pairs from the number `i` on, each key before its value. -/
def Expr.planPairs (s : Site) (i : Nat) : List (Expr × Expr) → Plan
  | [] => .nothing
  | (k, e) :: ps =>
    .both (k.plan (.key i :: s)) (.both (e.plan (.value i :: s)) (Expr.planPairs s (i + 1) ps))

/-- A statement has one expression, which is at the site of the statement. -/
def Stmt.plan (s : Site) : Stmt → Plan
  | .define _ _ e _ => e.plan s
  | .expr e _ => e.plan s

def Stmt.planAll (site : Nat → Site) (i : Nat) : List Stmt → Plan
  | [] => .nothing
  | st :: ss => .both (st.plan (site i)) (Stmt.planAll site (i + 1) ss)

def Stmt.planElse (s : Site) : Option (List Stmt) → Plan
  | none => .nothing
  | some ss => Stmt.planAll (fun i => .block false i :: s) 0 ss

end

/-- What is to be done in a program. -/
def Program.plan (p : Program) : Plan := Stmt.planAll (fun i => [.statement i]) 0 p.statements

/-! ## No node twice -/

namespace Plan

/-- No site twice, and all of them at `s` or inside. -/
structure At (s : Site) (p : Plan) : Prop where
  nodup : p.sites.Nodup
  suffix : ∀ t ∈ p.sites, s <:+ t

/-- No site twice, and all of them inside `s`, in slots of the set. -/
structure Inside (s : Site) (slots : Set Slot) (p : Plan) : Prop where
  nodup : p.sites.Nodup
  suffix : ∀ t ∈ p.sites, ∃ a ∈ slots, (a :: s) <:+ t

variable {s : Site} {a : Slot} {A B : Set Slot} {p q : Plan}

theorem at_nothing : At s nothing where
  nodup := .nil
  suffix := nofun

theorem inside_nothing : Inside s A nothing where
  nodup := .nil
  suffix := nofun

theorem At.inside (h : p.At (a :: s)) : p.Inside s {a} where
  nodup := h.nodup
  suffix t ht := ⟨a, rfl, h.suffix t ht⟩

namespace Inside

theorem mono (h : p.Inside s A) (hAB : A ⊆ B) : p.Inside s B where
  nodup := h.nodup
  suffix t ht := by
    obtain ⟨a, ha, hsuffix⟩ := h.suffix t ht
    exact ⟨a, hAB ha, hsuffix⟩

theorem at_site (h : p.Inside s A) : p.At s where
  nodup := h.nodup
  suffix t ht := by
    obtain ⟨a, -, hsuffix⟩ := h.suffix t ht
    exact (List.suffix_cons a s).trans hsuffix

/-- The node itself is not inside. -/
theorem not_mem (h : p.Inside s A) : s ∉ p.sites := by
  intro hs
  obtain ⟨a, -, hsuffix⟩ := h.suffix s hs
  have hle := hsuffix.length_le
  rw [List.length_cons] at hle
  exact Nat.not_succ_le_self _ hle

/-- What is in different slots is at different sites. -/
theorem nodup_append (hp : p.Inside s A) (hq : q.Inside s B) (hAB : ∀ a ∈ A, a ∉ B) :
    (p.sites ++ q.sites).Nodup := by
  refine hp.nodup.append hq.nodup fun t htp htq => ?_
  obtain ⟨a, ha, hat⟩ := hp.suffix t htp
  obtain ⟨b, hb, hbt⟩ := hq.suffix t htq
  have heq := List.suffix_of_suffix_length_le hat hbt (Nat.le_refl _)
  obtain ⟨rfl, -⟩ := List.cons.inj (heq.eq_of_length rfl)
  exact hAB a ha hb

theorem both (hp : p.Inside s A) (hq : q.Inside s B) (hAB : ∀ a ∈ A, a ∉ B) :
    (Plan.both p q).Inside s (A ∪ B) where
  nodup := hp.nodup_append hq hAB
  suffix t ht := (List.mem_append.1 ht).elim ((hp.mono Set.subset_union_left).suffix t)
    ((hq.mono Set.subset_union_right).suffix t)

/-- The node itself can stand between the parts of it. -/
theorem nodup_middle (h : (Plan.both p q).Inside s A) : (p.sites ++ s :: q.sites).Nodup :=
  List.nodup_middle.2 (List.nodup_cons.2 ⟨h.not_mem, h.nodup⟩)

/-- All sites of the parts, and the node itself, lie at the node or below. -/
theorem suffix_middle (h : (Plan.both p q).Inside s A) :
    ∀ t ∈ p.sites ++ s :: q.sites, s <:+ t := by
  intro t ht
  rcases List.mem_append.1 ht with ht | ht
  · exact h.at_site.suffix t (List.mem_append_left _ ht)
  rcases List.mem_cons.1 ht with rfl | ht
  · exact List.suffix_refl t
  · exact h.at_site.suffix t (List.mem_append_right _ ht)

/-- Numbered slots, from the number `i` on. -/
theorem cons {slot : Nat → Slot} (hslot : Function.Injective slot) {i : Nat}
    (hp : p.At (slot i :: s)) (hq : q.Inside s (slot '' Set.Ici (i + 1))) :
    (Plan.both p q).Inside s (slot '' Set.Ici i) := by
  refine (hp.inside.both hq ?_).mono (Set.union_subset ?_ ?_)
  · rintro _ rfl ⟨j, hj, hij⟩
    rw [hslot hij] at hj
    exact Nat.not_succ_le_self i hj
  · exact Set.singleton_subset_iff.2 ⟨i, Set.self_mem_Ici, rfl⟩
  · rintro _ ⟨j, hj, rfl⟩
    exact ⟨j, Nat.le_of_succ_le hj, rfl⟩

end Inside

/-- The slots of the pairs from the number `i` on. -/
def pairsFrom (i : Nat) : Set Slot := Slot.key '' Set.Ici i ∪ Slot.value '' Set.Ici i

theorem Inside.consPair {i : Nat} {k e : Plan} (hk : k.At (.key i :: s)) (he : e.At (.value i :: s))
    (hq : q.Inside s (pairsFrom (i + 1))) :
    (Plan.both k (.both e q)).Inside s (pairsFrom i) := by
  have hlt {j : Nat} (hj : j ∈ Set.Ici (i + 1)) : j ≠ i := Nat.ne_of_gt hj
  have heq : (Plan.both e q).Inside s ({.value i} ∪ pairsFrom (i + 1)) := by
    refine he.inside.both hq ?_
    rintro _ rfl (⟨j, hj, hij⟩ | ⟨j, hj, hij⟩) <;> cases hij
    exact hlt hj rfl
  refine (hk.inside.both heq ?_).mono ?_
  · rintro _ rfl (hij | ⟨j, hj, hij⟩ | ⟨j, hj, hij⟩) <;> cases hij
    exact hlt hj rfl
  · rintro _ (rfl | rfl | ⟨j, hj, rfl⟩ | ⟨j, hj, rfl⟩)
    · exact .inl ⟨i, Set.self_mem_Ici, rfl⟩
    · exact .inr ⟨i, Set.self_mem_Ici, rfl⟩
    · exact .inl ⟨j, Nat.le_of_succ_le hj, rfl⟩
    · exact .inr ⟨j, Nat.le_of_succ_le hj, rfl⟩

end Plan

open Plan (Inside at_nothing inside_nothing)

theorem Slot.injective_block (b : Bool) : Function.Injective (Slot.block b) :=
  fun _ _ h => (Slot.block.inj h).2

/-- The two blocks of a condition are in different slots. -/
theorem Slot.not_mem_other_block :
    ∀ a ∈ Slot.block true '' Set.Ici 0, a ∉ Slot.block false '' Set.Ici 0 := by
  rintro _ ⟨i, -, rfl⟩ ⟨j, -, h⟩
  cases h

mutual

/-- Every plan has its sites where the tree has its nodes, and none of them twice. -/
theorem Expr.at_plan (s : Site) : (e : Expr) → (e.plan s).At s
  | .int _ _ => at_nothing
  | .str _ _ => at_nothing
  | .bool _ _ => at_nothing
  | .null _ => at_nothing
  | .ident _ _ => at_nothing
  | .unary _ e _ => (e.at_plan (.operand :: s)).inside.at_site
  | .binary l _ r _ => by
    refine ((l.at_plan (.left :: s)).inside.both (r.at_plan (.right :: s)).inside ?_).at_site
    rintro _ rfl ⟨⟩
  | .cond test yes no _ => by
    have hblocks := (Stmt.inside_planAll (Slot.injective_block true) s 0 yes).both
      (Stmt.inside_planElse s no) Slot.not_mem_other_block
    have hall := (test.at_plan (.test :: s)).inside.both hblocks (by
      rintro _ rfl (⟨i, -, h⟩ | ⟨i, -, h⟩) <;> cases h)
    exact ⟨hall.nodup_middle, hall.suffix_middle⟩
  | .array es _ => (Expr.inside_planItems (fun _ _ => Slot.item.inj) s 0 es).at_site
  | .hash ps _ => (Expr.inside_planPairs s 0 ps).at_site
  | .index target subscript _ => by
    refine ((target.at_plan (.target :: s)).inside.both
      (subscript.at_plan (.subscript :: s)).inside ?_).at_site
    rintro _ rfl ⟨⟩
  | .call callee args _ => by
    have hargs := Expr.inside_planItems (fun _ _ => Slot.argument.inj) s 0 args
    have hparts := (callee.at_plan (.callee :: s)).inside.both hargs
      (by rintro _ rfl ⟨i, -, h⟩; cases h)
    have hall := hparts.both (inside_nothing (A := ∅)) fun _ _ => id
    have hsites : ((callee.plan (.callee :: s)).both
        (.both (Expr.planItems (fun i => .argument i :: s) 0 args) (.call s))).sites =
          (Plan.both _ _).sites ++ s :: Plan.nothing.sites := (List.append_assoc ..).symm
    exact ⟨hsites ▸ hall.nodup_middle, hsites ▸ hall.suffix_middle⟩

theorem Expr.inside_planItems {slot : Nat → Slot} (hslot : Function.Injective slot) (s : Site)
    (i : Nat) : (es : List Expr) →
    (Expr.planItems (fun j => slot j :: s) i es).Inside s (slot '' Set.Ici i)
  | [] => inside_nothing
  | e :: es =>
    Inside.cons hslot (e.at_plan (slot i :: s)) (Expr.inside_planItems hslot s (i + 1) es)

theorem Expr.inside_planPairs (s : Site) (i : Nat) : (ps : List (Expr × Expr)) →
    (Expr.planPairs s i ps).Inside s (Plan.pairsFrom i)
  | [] => inside_nothing
  | (k, e) :: ps => .consPair (k.at_plan (.key i :: s)) (e.at_plan (.value i :: s))
      (Expr.inside_planPairs s (i + 1) ps)

theorem Stmt.at_plan (s : Site) : (st : Stmt) → (st.plan s).At s
  | .define _ _ e _ => e.at_plan s
  | .expr e _ => e.at_plan s

theorem Stmt.inside_planAll {slot : Nat → Slot} (hslot : Function.Injective slot) (s : Site)
    (i : Nat) : (ss : List Stmt) →
    (Stmt.planAll (fun j => slot j :: s) i ss).Inside s (slot '' Set.Ici i)
  | [] => inside_nothing
  | st :: ss => .cons hslot (st.at_plan (slot i :: s)) (Stmt.inside_planAll hslot s (i + 1) ss)

theorem Stmt.inside_planElse (s : Site) : (no : Option (List Stmt)) →
    (Stmt.planElse s no).Inside s (Slot.block false '' Set.Ici 0)
  | none => inside_nothing
  | some ss => Stmt.inside_planAll (Slot.injective_block false) s 0 ss

end

/-- No two nodes of a program are at one site. -/
theorem Program.nodup_plan (p : Program) : p.plan.sites.Nodup :=
  (Stmt.inside_planAll (fun _ _ => Slot.statement.inj) [] 0 p.statements).nodup

end MonkeyLang
