import Std.Data.TreeMap
import MonkeyLang.Value.Key

/-!
# Tables

A table holds each key once.  `toList` has its entries in the order of their keys
(`pairwise_toList`), and they are those that look-up finds (`mem_toList`).
-/

namespace MonkeyLang

/-- A table keeps its entries in the order of their keys. -/
structure Table where
  entries : Std.TreeMap Key Value compare := {}
deriving Inhabited

namespace Table

/-! ## Algorithm -/

/-- Puts an entry in its place, over the one of that key if there is one. -/
def insert (t : Table) (k : Key) (v : Value) : Table := ⟨t.entries.insert k v⟩

def get? (t : Table) (k : Key) : Option Value := t.entries[k]?

def size (t : Table) : Nat := t.entries.size

def isEmpty (t : Table) : Bool := t.entries.isEmpty

def toList (t : Table) : List (Key × Value) := t.entries.toList

/-- The keys in order, as values. -/
def keys (t : Table) : List Value := t.toList.map (·.1.toValue)

/-! ## Lemmas -/

/-- The last value that a key was given counts. -/
theorem get?_insert (t : Table) (k l : Key) (v : Value) :
    (t.insert k v).get? l = if k = l then some v else t.get? l := by
  simp [insert, get?, Std.TreeMap.getElem?_insert, Std.LawfulEqCmp.compare_eq_iff_eq]

@[simp] theorem get?_empty (k : Key) : ({} : Table).get? k = none := Std.TreeMap.getElem?_emptyc

/-- Every value of the table has the property. -/
def All (t : Table) (P : Value → Prop) : Prop := ∀ k v, t.get? k = some v → P v

theorem all_empty {P : Value → Prop} : ({} : Table).All P := by
  intro k v h
  rw [get?_empty] at h
  cases h

theorem All.mono {t : Table} {P Q : Value → Prop} (ht : t.All P) (h : ∀ v, P v → Q v) : t.All Q :=
  fun k v hv => h v (ht k v hv)

/-- An entry that has the property keeps it for the whole table. -/
theorem All.insert {t : Table} {P : Value → Prop} (ht : t.All P) (k : Key) {v : Value} (hv : P v) :
    (t.insert k v).All P := by
  intro l w h
  rw [get?_insert] at h
  split at h
  · cases h
    exact hv
  · exact ht l w h

/-- The entries are what look-up finds. -/
theorem mem_toList {t : Table} {k : Key} {v : Value} :
    (k, v) ∈ t.toList ↔ t.get? k = some v :=
  Std.TreeMap.mem_toList_iff_getElem?_eq_some

@[simp] theorem toList_empty : ({} : Table).toList = [] := rfl

/-- No key comes twice, and the keys go up. -/
theorem pairwise_toList (t : Table) : t.toList.Pairwise fun e f => compare e.1 f.1 = .lt :=
  Std.TreeMap.ordered_keys_toList

@[simp] theorem length_toList (t : Table) : t.toList.length = t.size :=
  Std.TreeMap.length_toList

end Table

end MonkeyLang
