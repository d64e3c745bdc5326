import Std.Data.TreeMap
import MonkeyLang.Value.Basic

/-!
# Scopes

A scope binds names to values and may lie in an older one, in which names are looked up that it
does not bind itself.  All scopes of a run are kept, by number.

An outer scope is always older (`parent_lt`), so looking up a name ends at a scope that lies in no
other.  A new scope leaves the older ones as they are (`get?_push_of_lt`) and starts out like the
one it lies in (`get?_child`); a definition is seen at once where it is made (`get?_define`).
-/

namespace MonkeyLang

/-- Names with their values, in the order of the names. -/
abbrev Bindings := Std.TreeMap String Value compare

/-- One scope: its own names, and the scope it lies in. -/
structure Frame where
  vars : Bindings := {}
  parent : Option Nat := none
deriving Inhabited

/-- All scopes of a machine.  Those around a scope are older than it, so a look-up ends. -/
structure Scopes where
  frames : Array Frame := #[]
  parent_lt : ∀ i p (h : i < frames.size), frames[i].parent = some p → p < i := by simp

namespace Scopes

/-! ## Algorithm -/

def size (s : Scopes) : Nat := s.frames.size

/-- Adds a scope that lies in `parent`, or in none if there is no such scope. -/
def push (s : Scopes) (vars : Bindings) (parent : Option Nat) : Scopes where
  frames := s.frames.push ⟨vars, parent.filter (· < s.frames.size)⟩
  parent_lt i p h hp := by
    rw [Array.getElem_push] at hp
    split at hp
    · exact s.parent_lt i p _ hp
    · have := (Option.mem_filter_iff.1 hp).2
      simp only [decide_eq_true_eq] at this
      omega

/-- A new scope that lies in no other. -/
def root (s : Scopes) : Nat × Scopes := (s.size, s.push {} none)

/-- A new scope that lies in `id`. -/
def child (s : Scopes) (id : Nat) : Nat × Scopes := (s.size, s.push {} (some id))

/-- A new scope with the bindings that `id` has now, in the scope that `id` lies in. -/
def clone (s : Scopes) (id : Nat) : Nat × Scopes :=
  let frame := s.frames.getD id {}
  (s.size, s.push frame.vars frame.parent)

/-- Binds a name in the scope `id` itself. -/
def define (s : Scopes) (id : Nat) (name : String) (v : Value) : Scopes where
  frames := s.frames.modify id fun f => { f with vars := f.vars.insert name v }
  parent_lt i p h hp := by
    have h' : i < s.frames.size := by simpa using h
    refine s.parent_lt i p h' ?_
    rw [Array.getElem_modify] at hp
    split at hp <;> exact hp

/-- The value of a name in the scope `id` and those around it. -/
def get? (s : Scopes) (id : Nat) (name : String) : Option Value :=
  if h : id < s.frames.size then
    match s.frames[id].vars[name]? with
    | some v => some v
    | none =>
      match hp : s.frames[id].parent with
      | some p => s.get? p name
      | none => none
  else none
termination_by id
decreasing_by exact s.parent_lt id p h hp

/-! ## Lemmas -/

/-- A name is looked up in the scope itself, and then in the one it lies in. -/
theorem get?_eq (s : Scopes) (id : Nat) (name : String) :
    s.get? id name = s.frames[id]?.bind fun f =>
      f.vars[name]?.or (f.parent.bind fun p => s.get? p name) := by
  rw [get?]
  split
  · next h =>
    rw [Array.getElem?_eq_getElem h, Option.bind_some]
    split
    · next hv => simp [hv]
    · next hv =>
      rw [hv, Option.none_or]
      split <;> simp_all
  · next h => simp [h]

theorem get?_push_of_lt (s : Scopes) (vars : Bindings) (parent : Option Nat)
    {id : Nat} (hid : id < s.size) (name : String) :
    (s.push vars parent).get? id name = s.get? id name := by
  induction id using Nat.strongRecOn with
  | ind id ih =>
    have hid : id < s.frames.size := hid
    have hframe : (s.push vars parent).frames[id]? = s.frames[id]? := by
      simp [push, Array.getElem?_push, Nat.ne_of_lt hid]
    rw [get?_eq, get?_eq s, hframe, Array.getElem?_eq_getElem hid]
    simp only [Option.bind_some]
    congr 1
    cases hp : s.frames[id].parent with
    | none => rfl
    | some p =>
      have hlt := s.parent_lt id p hid hp
      exact ih p hlt (Nat.lt_trans hlt hid)

theorem get?_child (s : Scopes) {id : Nat} (hid : id < s.size) (name : String) :
    (s.child id).2.get? s.size name = s.get? id name := by
  have hframe : (s.push {} (some id)).frames[s.size]? = some ⟨{}, some id⟩ := by
    have hid : id < s.frames.size := hid
    simp [push, size, Option.filter, hid]
  show (s.push {} (some id)).get? s.size name = s.get? id name
  rw [get?_eq, hframe, Option.bind_some, Std.TreeMap.getElem?_emptyc, Option.none_or]
  exact s.get?_push_of_lt {} (some id) hid name

theorem get?_define (s : Scopes) {id : Nat} (hid : id < s.size) (name : String) (v : Value) :
    (s.define id name v).get? id name = some v := by
  have hid : id < s.frames.size := hid
  have hframe : (s.define id name v).frames[id]? =
      some { s.frames[id] with vars := s.frames[id].vars.insert name v } := by
    simp [define, Array.getElem?_modify, Array.getElem?_eq_getElem hid]
  rw [get?_eq, hframe, Option.bind_some, Std.TreeMap.getElem?_insert_self, Option.some_or]

/-- Whatever a scope binds a name to has the property, whether the scope is still in use or not. -/
def All (s : Scopes) (P : Value → Prop) : Prop :=
  ∀ f ∈ s.frames, ∀ (x : String) v, f.vars[x]? = some v → P v

section

variable {s : Scopes} {P : Value → Prop}

theorem All.mono {Q : Value → Prop} (hs : s.All P) (h : ∀ v, P v → Q v) : s.All Q :=
  fun f hf x v hv => h v (hs f hf x v hv)

/-- What is found has the property. -/
theorem All.get? (hs : s.All P) {id : Nat} {x : String} {v : Value} (h : s.get? id x = some v) :
    P v := by
  induction id using Nat.strongRecOn with
  | ind id ih =>
    rw [Scopes.get?_eq] at h
    obtain ⟨f, hf, h⟩ := Option.bind_eq_some_iff.1 h
    rcases Option.or_eq_some_iff.1 h with h | ⟨-, h⟩
    · exact hs f (Array.mem_of_getElem? hf) x v h
    · obtain ⟨hid, rfl⟩ := Array.getElem?_eq_some_iff.1 hf
      obtain ⟨p, hp, h⟩ := Option.bind_eq_some_iff.1 h
      exact ih p (s.parent_lt id p hid hp) h

theorem All.push (hs : s.All P) (parent : Option Nat) : (s.push {} parent).All P := by
  intro f hf x v h
  rcases Array.mem_push.1 hf with hf | rfl
  · exact hs f hf x v h
  · rw [Std.TreeMap.getElem?_emptyc] at h
    cases h

theorem All.define (hs : s.All P) (id : Nat) (name : String) {v : Value} (hv : P v) :
    (s.define id name v).All P := by
  intro f hf x w h
  obtain ⟨i, hi, rfl⟩ := Array.getElem_of_mem hf
  have hi' : i < s.frames.size := by simpa [Scopes.define] using hi
  simp only [Scopes.define, Array.getElem_modify] at h
  split at h
  · rw [Std.TreeMap.getElem?_insert] at h
    split at h
    · cases h
      exact hv
    · exact hs _ (Array.getElem_mem hi') x w h
  · exact hs _ (Array.getElem_mem hi') x w h

end

end Scopes

end MonkeyLang
