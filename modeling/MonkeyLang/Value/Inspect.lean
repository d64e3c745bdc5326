import MonkeyLang.Value.Heap

/-!
# Inspection

The text of a value as a reader sees it.  Texts stand without quotes.  A table that is reached
again on the way down through its own entries is cut off as an ellipsis in braces; one that is
only held twice is written twice.

The text of tables is a parameter of `inspectWith`, which goes down through arrays.  A way down
through tables that are all different is no longer than there are tables, so `inspectTable`, which
counts the tables it may still open, is never stopped by the count.
-/

namespace MonkeyLang

mutual

/-- The text of a value, given that of each table. -/
def Value.inspectWith (table : Nat → String) : Value → String
  | .int n => toString n.toInt
  | .str s => s
  | .bool b => if b then "true" else "false"
  | .null => "null"
  | .array ⟨[]⟩ => "[]"
  | .array ⟨v :: vs⟩ => Value.inspectItems table ("[" ++ v.inspectWith table) vs ++ "]"
  | .table id => table id
  | .error m => "ERROR: " ++ m
  | .builtin _ => "builtin function"

/-- Puts the items after a first one behind `text`. -/
def Value.inspectItems (table : Nat → String) (text : String) : List Value → String
  | [] => text
  | v :: vs => Value.inspectItems table (text ++ ", " ++ v.inspectWith table) vs

end

namespace Table

/-- A key and its value, with a colon between them. -/
def entryText (table : Nat → String) (e : Key × Value) : String :=
  e.1.toValue.inspectWith table ++ ": " ++ e.2.inspectWith table

/-- The entries between braces, given the text of each table among them. -/
def inspectWith (table : Nat → String) (t : Table) : String :=
  "\x7b" ++ ", ".intercalate (t.toList.map (entryText table)) ++ "\x7d"

/-- A table that is open already. -/
def ellipsis : String := "\x7b...\x7d"

end Table

namespace Heap

/-- The text of a table below those on `path`, with `opens` more that may be opened. -/
def inspectTable (h : Heap) : (opens : Nat) → (path : List Nat) → (id : Nat) → String
  | 0, _, _ => Table.ellipsis
  | opens + 1, path, id =>
    if path.contains id then Table.ellipsis
    else (h.table id).inspectWith (h.inspectTable opens (id :: path))

/-- The text of a value below the tables on `path`. -/
def inspectUnder (h : Heap) (path : List Nat) (v : Value) : String :=
  v.inspectWith (h.inspectTable (h.size + 1) path)

/-- The text of a value, as a program shows it. -/
def inspect (h : Heap) (v : Value) : String := h.inspectUnder [] v

/-- The text of a table on its own.  No table is open yet, not even this one, so where it holds
itself it is opened once more. -/
def displayTable (h : Heap) (id : Nat) : String :=
  (h.table id).inspectWith (h.inspectTable (h.size + 1) [])

end Heap

/-! ## Lemmas -/

namespace Value

/-- The items with a comma between each two. -/
theorem inspectItems_eq (table : Nat → String) (text : String) (vs : List Value) :
    inspectItems table text vs = ", ".intercalate (text :: vs.map (·.inspectWith table)) := by
  induction vs generalizing text with
  | nil => rfl
  | cons v vs ih => exact ih _

theorem inspectWith_array (table : Nat → String) (vs : List Value) :
    (array ⟨vs⟩).inspectWith table =
      "[" ++ ", ".intercalate (vs.map (·.inspectWith table)) ++ "]" := by
  cases vs with
  | nil => rfl
  | cons v vs =>
    rw [inspectWith, inspectItems_eq, String.intercalate_cons_append, List.map_cons]

end Value

end MonkeyLang
