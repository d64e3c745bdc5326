import MonkeyLang.Value.Table

/-!
# The heap

All tables of a run, by number.  A table is never taken away, so a number keeps its meaning; one
that was never given out is the number of an empty table.
-/

namespace MonkeyLang

/-- The tables that have been made, by their numbers.  None is ever taken away. -/
structure Heap where
  tables : Array Table := #[]

namespace Heap

/-! ## Algorithm -/

def size (h : Heap) : Nat := h.tables.size

def table (h : Heap) (id : Nat) : Table := h.tables.getD id {}

/-- A new table, and its number. -/
def alloc (h : Heap) (t : Table) : Nat × Heap := (h.tables.size, ⟨h.tables.push t⟩)

/-- Puts an entry into the table of that number. -/
def insert (h : Heap) (id : Nat) (k : Key) (v : Value) : Heap :=
  ⟨h.tables.modify id (·.insert k v)⟩

/-! ## Lemmas -/

/-- No table is made by putting something into one. -/
@[simp] theorem size_insert (h : Heap) (id : Nat) (k : Key) (v : Value) :
    (h.insert id k v).size = h.size := by
  simp [insert, size]

theorem table_insert_self (h : Heap) {id : Nat} (hid : id < h.size) (k : Key) (v : Value) :
    (h.insert id k v).table id = (h.table id).insert k v := by
  have hid : id < h.tables.size := hid
  simp [insert, table, Array.getD, hid, Array.getElem_modify]

theorem table_insert_of_ne (h : Heap) {id id' : Nat} (hne : id ≠ id') (k : Key) (v : Value) :
    (h.insert id k v).table id' = h.table id' := by
  by_cases hid : id' < h.tables.size <;>
    simp [insert, table, Array.getD, hid, Array.getElem_modify, hne]

@[simp] theorem size_alloc (h : Heap) (t : Table) : (h.alloc t).2.size = h.size + 1 :=
  Array.size_push t

theorem table_of_size_le (h : Heap) {id : Nat} (hid : h.size ≤ id) : h.table id = {} := by
  have hid : ¬ id < h.tables.size := Nat.not_lt.2 hid
  simp [table, Array.getD, hid]

@[simp] theorem table_alloc_new (h : Heap) (t : Table) : (h.alloc t).2.table h.size = t := by
  simp [alloc, table, size, Array.getD]

theorem table_alloc_old (h : Heap) (t : Table) {id : Nat} (hid : id < h.size) :
    (h.alloc t).2.table id = h.table id := by
  have hid : id < h.tables.size := hid
  have hid' : id < h.tables.size + 1 := by omega
  simp [alloc, table, Array.getD, hid, hid', Array.getElem_push]

/-! ## Older heaps -/

/-- Every table of the first heap is in the second one as it was. -/
def Before (h h' : Heap) : Prop := h.size ≤ h'.size ∧ ∀ id < h.size, h'.table id = h.table id

theorem Before.refl (h : Heap) : h.Before h := ⟨Nat.le_refl _, fun _ _ => rfl⟩

theorem Before.trans {h₁ h₂ h₃ : Heap} (h : h₁.Before h₂) (h' : h₂.Before h₃) : h₁.Before h₃ :=
  ⟨Nat.le_trans h.1 h'.1, fun id hid =>
    (h'.2 id (Nat.lt_of_lt_of_le hid h.1)).trans (h.2 id hid)⟩

theorem before_alloc (h : Heap) (t : Table) : h.Before (h.alloc t).2 := by
  refine ⟨?_, fun id hid => h.table_alloc_old t hid⟩
  rw [size_alloc]
  exact Nat.le_succ _

end Heap

end MonkeyLang
