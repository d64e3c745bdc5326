import Mathlib.Logic.Relation
import MonkeyLang.Proofs.Scoping.Frames

/-!
# Scopes with a history

Scopes come about by four operations: a new scope that lies in no other, a new scope in an older
one, a copy of a scope, and the definition of a name.  `History n` is any sequence of them that
makes `n` scopes.  What a scope binds by itself (`own?`) and what it lies in (`parent?`) are read
off the history, from its end, without the scopes that it leads to.

In these scopes a name means what lexical scoping says (`History.get?_eq_own?_or`): the value last
defined for it in the scope itself, else what it means in the scope around it, as that is now.  A
scope lies in older ones only (`History.parent?_lt`), so this comes to an end (`History.finds_iff`).
A definition is seen from those scopes alone from which one comes to it before any other binding of
the name (`History.get?_define_of_reaches`, `History.get?_define_of_not_reaches`).
-/

namespace MonkeyLang.Scopes

/-- The operations on scopes, from no scopes at all: a scope by itself, one inside another, a copy
of one, and a definition. -/
inductive History : Nat → Type where
  | start : History 0
  | root {n : Nat} (h : History n) : History (n + 1)
  | child {n : Nat} (h : History n) (id : Fin n) : History (n + 1)
  | clone {n : Nat} (h : History n) (id : Fin n) : History (n + 1)
  | define {n : Nat} (h : History n) (id : Fin n) (x : String) (v : Value) : History n

/-! ## Frames -/

/-- The scope that is opened last has the next number. -/
theorem frame_push (s : Scopes) (vars : Bindings) (parent : Option Nat) (id : Nat) :
    (s.push vars parent).frames[id]? =
      if id = s.size then some ⟨vars, parent.filter (· < s.size)⟩ else s.frames[id]? :=
  Array.getElem?_push

theorem size_push (s : Scopes) (vars : Bindings) (parent : Option Nat) :
    (s.push vars parent).size = s.size + 1 :=
  Array.size_push _

/-- Every scope lies in older ones, and so a copy lies in the same scope. -/
theorem filter_parent (s : Scopes) {id : Nat} {f : Frame} (hf : s.frames[id]? = some f) :
    f.parent.filter (· < s.size) = f.parent := by
  obtain ⟨hid, rfl⟩ := Array.getElem?_eq_some_iff.1 hf
  cases hp : s.frames[id].parent with
  | none => rfl
  | some p =>
    have hlt : p < s.size := Nat.lt_trans (s.parent_lt id p hid hp) hid
    rw [Option.filter_some, decide_eq_true hlt, if_pos rfl]

namespace History

/-! ## What a history says -/

theorem parent_lt_empty (i p : Nat) (h : i < (#[] : Array Frame).size)
    (_ : (#[] : Array Frame)[i].parent = some p) : p < i :=
  absurd h (Nat.not_lt_zero i)

/-- No scopes. -/
def noScopes : Scopes := ⟨#[], parent_lt_empty⟩

/-- The scopes that the operations lead to. -/
def scopes : {n : Nat} → History n → Scopes
  | _, start => noScopes
  | _, root h => h.scopes.root.2
  | _, child h id => (h.scopes.child id).2
  | _, clone h id => (h.scopes.clone id).2
  | _, define h id x v => h.scopes.define id x v

/-- The value last defined for the name in the scope itself.  A copy starts with what the scope that
it is made of has at that time. -/
def own? : {n : Nat} → History n → Nat → String → Option Value
  | _, start, _, _ => none
  | _, @root n h, id, x => if id = n then none else h.own? id x
  | _, @child n h _, id, x => if id = n then none else h.own? id x
  | _, @clone n h of, id, x => h.own? (if id = n then of else id) x
  | _, define h of y v, id, x => if id = of ∧ x = y then some v else h.own? id x

/-- The scope that the scope lies in. -/
def parent? : {n : Nat} → History n → Nat → Option Nat
  | _, start, _ => none
  | _, @root n h, id => if id = n then none else h.parent? id
  | _, @child n h of, id => if id = n then some of else h.parent? id
  | _, @clone n h of, id => h.parent? (if id = n then of else id)
  | _, define h _ _ _, id => h.parent? id

/-- From the scope `id` outwards, `r` is what is found for the name: a value, or nothing at the end
of the chain. -/
inductive Finds {n : Nat} (h : History n) (x : String) : Nat → Option Value → Prop where
  | own {id : Nat} {v : Value} (hv : h.own? id x = some v) : Finds h x id (some v)
  | outer {id p : Nat} {r : Option Value} (hx : h.own? id x = none) (hp : h.parent? id = some p)
      (hr : Finds h x p r) : Finds h x id r
  | nowhere {id : Nat} (hx : h.own? id x = none) (hp : h.parent? id = none) : Finds h x id none

/-- From a scope outwards, one comes to the scope `id` before any other that binds the name. -/
inductive Reaches {n : Nat} (h : History n) (x : String) (id : Nat) : Nat → Prop where
  | here : Reaches h x id id
  | outer {id' p : Nat} (hx : h.own? id' x = none) (hp : h.parent? id' = some p)
      (hr : Reaches h x id p) : Reaches h x id id'

section

variable {n : Nat} (h : History n)

/-! ## Lemmas -/

/-- Each of the operations but a definition makes one scope. -/
@[simp] theorem size_scopes : h.scopes.size = n := by
  induction h with
  | start => rfl
  | root h ih => exact (size_push ..).trans (congrArg (· + 1) ih)
  | child h _ ih => exact (size_push ..).trans (congrArg (· + 1) ih)
  | clone h _ ih => exact (size_push ..).trans (congrArg (· + 1) ih)
  | define h _ _ _ ih => exact (size_define ..).trans ih

theorem exists_frame (id : Fin n) : ∃ f, h.scopes.frames[id.val]? = some f := by
  have hid : id.val < h.scopes.size := by
    rw [size_scopes]
    exact id.isLt
  exact ⟨_, Array.getElem?_eq_getElem hid⟩

/-- A scope lies in older ones only. -/
theorem parent?_lt {id p : Nat} (hp : h.parent? id = some p) : p < id := by
  induction h generalizing id with
  | start => cases hp
  | root h ih =>
    rw [parent?] at hp
    split at hp
    · cases hp
    · exact ih hp
  | child h of ih =>
    rw [parent?] at hp
    split at hp
    · next hid =>
      cases hp
      rw [hid]
      exact of.isLt
    · exact ih hp
  | clone h of ih =>
    rw [parent?] at hp
    have hlt := ih hp
    split at hlt
    · next hid =>
      rw [hid]
      exact Nat.lt_trans hlt of.isLt
    · exact hlt
  | define h _ _ _ ih => exact ih hp

theorem frame_root (id : Nat) :
    (root h).scopes.frames[id]? = if id = n then some ⟨{}, none⟩ else h.scopes.frames[id]? := by
  rw [scopes, Scopes.root, frame_push, size_scopes]
  rfl

theorem frame_child (of : Fin n) (id : Nat) :
    (child h of).scopes.frames[id]? =
      if id = n then some ⟨{}, some of⟩ else h.scopes.frames[id]? := by
  rw [scopes, Scopes.child, frame_push, size_scopes, Option.filter_some, decide_eq_true of.isLt,
    if_pos rfl]

theorem frame_clone (of : Fin n) (id : Nat) :
    (clone h of).scopes.frames[id]? = h.scopes.frames[if id = n then of.val else id]? := by
  obtain ⟨f, hf⟩ := h.exists_frame of
  rw [scopes, Scopes.clone, frame_push, Array.getD_eq_getD_getElem?, hf, Option.getD_some,
    filter_parent h.scopes hf, size_scopes]
  split
  · exact hf.symm
  · rfl

theorem parent?_eq_bind (id : Nat) :
    h.parent? id = h.scopes.frames[id]?.bind (·.parent) := by
  induction h generalizing id with
  | start => rfl
  | root h ih =>
    rw [parent?, frame_root]
    split
    · rfl
    · exact ih id
  | child h of ih =>
    rw [parent?, frame_child]
    split
    · rfl
    · exact ih id
  | clone h of ih => rw [parent?, frame_clone, ih]
  | define h of x v ih =>
    rw [parent?, ih, scopes, frame_define]
    split
    · cases h.scopes.frames[id]? <;> rfl
    · rfl

theorem own?_eq_bind (id : Nat) (x : String) :
    h.own? id x = h.scopes.frames[id]?.bind fun f => f.vars[x]? := by
  induction h generalizing id with
  | start => rfl
  | root h ih =>
    rw [own?, frame_root]
    split
    · rw [Option.bind_some, Std.TreeMap.getElem?_emptyc]
    · exact ih id
  | child h of ih =>
    rw [own?, frame_child]
    split
    · rw [Option.bind_some, Std.TreeMap.getElem?_emptyc]
    · exact ih id
  | clone h of ih => rw [own?, frame_clone, ih]
  | define h of y v ih =>
    obtain ⟨f, hf⟩ := h.exists_frame of
    rw [own?, ih, scopes, frame_define]
    by_cases hid : id = of
    · rw [hid, if_pos rfl, hf, Option.map_some, Option.bind_some, Option.bind_some,
        Std.TreeMap.getElem?_insert]
      by_cases hx : x = y
      · simp [hx]
      · simp [hx, Ne.symm hx]
    · rw [if_neg (fun h => hid h.1), if_neg (Ne.symm hid)]

/-- The value last defined in the scope itself, else what the scope around it gives now. -/
theorem get?_eq_own?_or (id : Nat) (x : String) :
    h.scopes.get? id x = (h.own? id x).or ((h.parent? id).bind fun p => h.scopes.get? p x) := by
  rw [get?_eq, own?_eq_bind, parent?_eq_bind]
  cases h.scopes.frames[id]? with
  | none => rfl
  | some f => rfl

/-- A name of the scope itself hides those further out. -/
theorem get?_of_own? {id : Nat} {x : String} {v : Value} (hx : h.own? id x = some v) :
    h.scopes.get? id x = some v := by
  rw [get?_eq_own?_or, hx, Option.some_or]

/-- Any other name is looked up in the scope around it. -/
theorem get?_of_parent? {id p : Nat} {x : String} (hx : h.own? id x = none)
    (hp : h.parent? id = some p) : h.scopes.get? id x = h.scopes.get? p x := by
  rw [get?_eq_own?_or, hx, Option.none_or, hp, Option.bind_some]

theorem get?_of_nowhere {id : Nat} {x : String} (hx : h.own? id x = none)
    (hp : h.parent? id = none) : h.scopes.get? id x = none := by
  rw [get?_eq_own?_or, hx, Option.none_or, hp, Option.bind_none]

/-- From every scope one comes to an end, and finds what `get?` gives. -/
theorem finds_get? (id : Nat) (x : String) : h.Finds x id (h.scopes.get? id x) := by
  induction id using Nat.strongRecOn with
  | ind id ih =>
    cases hx : h.own? id x with
    | some v =>
      rw [h.get?_of_own? hx]
      exact .own hx
    | none =>
      cases hp : h.parent? id with
      | some p =>
        rw [h.get?_of_parent? hx hp]
        exact .outer hx hp (ih p (h.parent?_lt hp))
      | none =>
        rw [h.get?_of_nowhere hx hp]
        exact .nowhere hx hp

/-- What is found is what `get?` gives, and nothing else. -/
theorem finds_iff {id : Nat} {x : String} {r : Option Value} :
    h.Finds x id r ↔ h.scopes.get? id x = r := by
  constructor
  · intro hfinds
    induction hfinds with
    | own hv => exact h.get?_of_own? hv
    | outer hx hp _ ih => exact (h.get?_of_parent? hx hp).trans ih
    | nowhere hx hp => exact h.get?_of_nowhere hx hp
  · rintro rfl
    exact h.finds_get? id x

/-- Further out means older. -/
theorem lt_of_transGen {id p : Nat}
    (hchain : Relation.TransGen (fun id p => h.parent? id = some p) id p) : p < id := by
  induction hchain with
  | single hp => exact h.parent?_lt hp
  | tail _ hp ih => exact Nat.lt_trans (h.parent?_lt hp) ih

/-! ## Definitions -/

variable (id : Fin n) (x : String) (v : Value)

/-- A definition is seen from where it is reached. -/
theorem get?_define_of_reaches {id' : Nat} (hreaches : h.Reaches x id id') :
    (h.define id x v).scopes.get? id' x = some v := by
  induction hreaches with
  | here => exact get?_of_own? _ (if_pos ⟨rfl, rfl⟩)
  | @outer id' p hx hp _ ih =>
    by_cases hid : id' = id
    · exact get?_of_own? _ (if_pos ⟨hid, rfl⟩)
    · have hown : (h.define id x v).own? id' x = none :=
        (if_neg fun hand => hid hand.1).trans hx
      exact (get?_of_parent? _ hown hp).trans ih

/-- Elsewhere it is not seen, nor under any other name. -/
theorem get?_define_of_not_reaches {id' : Nat} {y : String}
    (hreaches : ¬ (y = x ∧ h.Reaches x id id')) :
    (h.define id x v).scopes.get? id' y = h.scopes.get? id' y := by
  induction id' using Nat.strongRecOn with
  | ind id' ih =>
    have hown : (h.define id x v).own? id' y = h.own? id' y := by
      refine if_neg ?_
      rintro ⟨rfl, rfl⟩
      exact hreaches ⟨rfl, .here⟩
    cases hy : h.own? id' y with
    | some w => rw [get?_of_own? _ (hown.trans hy), get?_of_own? _ hy]
    | none =>
      cases hp : h.parent? id' with
      | none => rw [get?_of_nowhere _ (hown.trans hy) hp, get?_of_nowhere _ hy hp]
      | some p =>
        rw [get?_of_parent? _ (hown.trans hy) hp, get?_of_parent? _ hy hp]
        refine ih p (h.parent?_lt hp) ?_
        rintro ⟨rfl, hr⟩
        exact hreaches ⟨rfl, .outer hy hp hr⟩

end

/-! ## Top theorem -/

/-- After any history no scope lies in itself, however far out.  Looking up a name comes to an end
at every scope, with the value last defined for it in the scope itself, else with what the scope
around it gives now.  A definition gives its value to the name, and changes what is found for
this name only, from those scopes only from which one comes to it first. -/
theorem lexical_scoping {n : Nat} (h : History n) :
    h.scopes.size = n ∧
    (∀ id, ¬ Relation.TransGen (fun id p => h.parent? id = some p) id id) ∧
    (∀ id x r, h.Finds x id r ↔ h.scopes.get? id x = r) ∧
    (∀ id x, h.scopes.get? id x =
      (h.own? id x).or ((h.parent? id).bind fun p => h.scopes.get? p x)) ∧
    ∀ (id : Fin n) x v,
      (∀ id', h.Reaches x id id' → (h.define id x v).scopes.get? id' x = some v) ∧
      ∀ id' y, (h.define id x v).scopes.get? id' y ≠ h.scopes.get? id' y →
        y = x ∧ h.Reaches x id id' := by
  refine ⟨h.size_scopes, fun id hchain => Nat.lt_irrefl id (h.lt_of_transGen hchain),
    fun id x r => h.finds_iff, h.get?_eq_own?_or, fun id x v => ⟨fun id' hreaches => ?_, ?_⟩⟩
  · exact h.get?_define_of_reaches id x v hreaches
  · intro id' y hne
    by_contra hreaches
    exact hne (h.get?_define_of_not_reaches id x v hreaches)

/-- A copy of a child has a name of its own from then on, and sees a definition that is made later
in the scope around both. -/
theorem lexical_scoping_of_clone :
    let h : History 3 := .clone (.define (.child (.root .start) 0) 1 "y" (.int 1)) 1
    h.scopes.get? 2 "x" = none ∧ h.Reaches "x" 0 2 ∧
      (h.define 0 "x" (.int 2)).scopes.get? 2 "x" = some (.int 2) ∧
      (h.define 1 "y" (.int 3)).scopes.get? 2 "y" = some (.int 1) := by
  intro h
  obtain ⟨-, -, hfinds, -, hdefine⟩ := h.lexical_scoping
  have hbefore : h.scopes.get? 2 "x" = none :=
    (hfinds 2 "x" none).1 (.outer rfl rfl (.nowhere rfl rfl))
  have hafter : (h.define 0 "x" (.int 2)).scopes.get? 2 "x" = some (.int 2) :=
    (hdefine 0 "x" (.int 2)).1 2 (.outer rfl rfl .here)
  have hreaches := (hdefine 0 "x" (.int 2)).2 2 "x" (by
    rw [hbefore, hafter]
    exact Option.some_ne_none _)
  obtain ⟨-, -, hfinds', -⟩ := (h.define 1 "y" (.int 3)).lexical_scoping
  exact ⟨hbefore, hreaches.2, hafter, (hfinds' 2 "y" _).1 (.own rfl)⟩

end History

end MonkeyLang.Scopes
