import Mathlib.Logic.Relation
import MonkeyLang.Value.Heap

/-!
# Tables in tables

Going down from a value leads through arrays to the tables that stand in it, and from a table
through its entries to others (`Value.Reaches`).  It may lead back to a table, as a program can put
a table into itself; a heap in which it never does is acyclic (`Heap.Acyclic`).
-/

namespace MonkeyLang

open Relation (TransGen ReflTransGen)

/-- The table of that number stands in the value, in whatever arrays. -/
inductive Value.Holds (id : Nat) : Value → Prop
  | table : Holds id (.table id)
  | item {vs : Array Value} {v : Value} (hv : v ∈ vs) (h : Holds id v) : Holds id (.array vs)

namespace Heap

/-- The first table has a value in which the second stands. -/
def Holds (h : Heap) (id id' : Nat) : Prop := ∃ k v, (h.table id).get? k = some v ∧ v.Holds id'

/-- From no table does one come back to it by going down through tables and arrays. -/
def Acyclic (h : Heap) : Prop := ∀ id, ¬ TransGen h.Holds id id

/-- Going down leads to older and older tables. -/
theorem acyclic_of_lt {h : Heap} (hlt : ∀ id id', h.Holds id id' → id' < id) : h.Acyclic := by
  intro id hid
  have hpath {id id' : Nat} (hp : TransGen h.Holds id id') : id' < id := by
    induction hp with
    | single hs => exact hlt _ _ hs
    | tail _ hs ih => exact Nat.lt_trans (hlt _ _ hs) ih
  exact Nat.lt_irrefl id (hpath hid)

end Heap

/-- Going down from the value leads to the table. -/
def Value.Reaches (h : Heap) (v : Value) (id : Nat) : Prop :=
  ∃ id', v.Holds id' ∧ ReflTransGen h.Holds id' id

namespace Value.Reaches

variable {h : Heap} {id id' : Nat} {k : Key} {v : Value}

theorem refl : (table id).Reaches h id := ⟨id, .table, .refl⟩

theorem item {vs : List Value} (hv : v ∈ vs) (hid : v.Reaches h id) :
    (array ⟨vs⟩).Reaches h id := by
  obtain ⟨id', hheld, hpath⟩ := hid
  exact ⟨id', .item (List.mem_toArray.2 hv) hheld, hpath⟩

theorem entry (hv : (h.table id).get? k = some v) (hid : v.Reaches h id') :
    (table id).Reaches h id' := by
  obtain ⟨id'', hheld, hpath⟩ := hid
  exact ⟨id, .table, .head ⟨k, v, hv, hheld⟩ hpath⟩

/-- Going down from an array goes down from one of its items. -/
theorem array_iff {vs : List Value} :
    (array ⟨vs⟩).Reaches h id ↔ ∃ v ∈ vs, v.Reaches h id := by
  constructor
  · rintro ⟨id', hheld, hpath⟩
    cases hheld with
    | item hv hheld => exact ⟨_, List.mem_toArray.1 hv, id', hheld, hpath⟩
  · rintro ⟨v, hv, hid⟩
    exact hid.item hv

end Value.Reaches

end MonkeyLang
