import Mathlib.Data.List.MinMax
import Mathlib.Order.Nat
import MonkeyLang.Program.Basic
import MonkeyLang.Value.Key

/-!
# Plain data

Integers, booleans, `null`, arrays and tables as finite trees.  A table is its entries here, with
integers and booleans for keys, and has no number.

A datum has a text, which is how a value of that datum is shown, and a literal, which is the
expression that stands for it.  Both go up the tree as `fold` does, given what to do at each kind of
node.
-/

namespace MonkeyLang

/-! ## Trees -/

/-- What a plain table can be keyed by. -/
inductive Scalar where
  | int (n : Int64)
  | bool (b : Bool)

/-- Data that can be written down: no errors, no functions, and nothing that holds itself. -/
inductive Datum where
  | scalar (a : Scalar)
  | null
  | array (items : List Datum)
  | table (entries : List (Scalar × Datum))

namespace Datum

variable {α : Type}

/-- What to do at each kind of node. -/
structure Algebra (α : Type) where
  scalar : Scalar → α
  null : α
  array : List α → α
  table : List (Scalar × α) → α

mutual

/-- What comes out if every node is put together from its parts. -/
def fold (f : Algebra α) : Datum → α
  | scalar a => f.scalar a
  | null => f.null
  | array ts => f.array (foldItems f ts)
  | table es => f.table (foldEntries f es)

def foldItems (f : Algebra α) : List Datum → List α
  | [] => []
  | t :: ts => t.fold f :: foldItems f ts

def foldEntries (f : Algebra α) : List (Scalar × Datum) → List (Scalar × α)
  | [] => []
  | (a, t) :: es => (a, t.fold f) :: foldEntries f es

end

theorem fold_array (f : Algebra α) (ts : List Datum) :
    (array ts).fold f = f.array (ts.map (fold f)) := by
  have h : foldItems f ts = ts.map (fold f) := by
    induction ts with
    | nil => rfl
    | cons t ts ih => rw [foldItems, ih, List.map_cons]
  rw [fold, h]

theorem fold_table (f : Algebra α) (es : List (Scalar × Datum)) :
    (table es).fold f = f.table (es.map fun e => (e.1, e.2.fold f)) := by
  have h : foldEntries f es = es.map fun e => (e.1, e.2.fold f) := by
    induction es with
    | nil => rfl
    | cons e es ih => rw [foldEntries, ih, List.map_cons]
  rw [fold, h]

/-- A property of all data goes from the parts of a datum to the datum. -/
@[elab_as_elim, induction_eliminator]
theorem induct {P : Datum → Prop} (scalar : ∀ a, P (scalar a)) (null : P null)
    (array : ∀ ts, (∀ t ∈ ts, P t) → P (array ts))
    (table : ∀ es, (∀ e ∈ es, P e.2) → P (table es)) (t : Datum) : P t :=
  @Datum.rec P (fun ts => ∀ t ∈ ts, P t) (fun es => ∀ e ∈ es, P e.2) (fun e => P e.2)
    scalar null array table
    (List.forall_mem_nil _) (fun _ _ ht hts => List.forall_mem_cons.2 ⟨ht, hts⟩)
    (List.forall_mem_nil _) (fun _ _ he hes => List.forall_mem_cons.2 ⟨he, hes⟩)
    (fun _ _ ht => ht) t

/-! ## Levels -/

/-- How many arrays and tables stand one in the other. -/
def depth : Datum → Nat :=
  fold ⟨fun _ => 0, 0, fun ds => ds.foldr max 0 + 1, fun es => (es.map (·.2)).foldr max 0 + 1⟩

theorem depth_lt_array {ts : List Datum} {t : Datum} (h : t ∈ ts) :
    t.depth < (array ts).depth := by
  rw [depth, fold_array]
  exact Nat.lt_succ_of_le (List.le_max_of_le (List.mem_map_of_mem h) (Nat.le_refl _))

theorem depth_lt_table {es : List (Scalar × Datum)} {e : Scalar × Datum} (h : e ∈ es) :
    e.2.depth < (table es).depth := by
  simp only [depth, fold_table, List.map_map]
  exact Nat.lt_succ_of_le (List.le_max_of_le (List.mem_map_of_mem h) (Nat.le_refl _))

theorem foldr_max_le {n : Nat} {ns : List Nat} (h : ∀ k ∈ ns, k ≤ n) : ns.foldr max 0 ≤ n := by
  induction ns with
  | nil => exact Nat.zero_le n
  | cons k ns ih =>
    obtain ⟨hk, hns⟩ := List.forall_mem_cons.1 h
    exact Nat.max_le.2 ⟨hk, ih hns⟩

theorem depth_array_le {n : Nat} {ts : List Datum} (h : ∀ t ∈ ts, t.depth ≤ n) :
    (array ts).depth ≤ n + 1 := by
  rw [depth, fold_array]
  exact Nat.succ_le_succ (foldr_max_le (List.forall_mem_map.2 h))

theorem depth_table_le {n : Nat} {es : List (Scalar × Datum)} (h : ∀ e ∈ es, e.2.depth ≤ n) :
    (table es).depth ≤ n + 1 := by
  simp only [depth, fold_table, List.map_map]
  exact Nat.succ_le_succ (foldr_max_le (List.forall_mem_map.2 h))

/-! ## Parts -/

/-- The integer stands in the datum, as a leaf or as a key. -/
inductive HasInt (n : Int64) : Datum → Prop
  | leaf : HasInt n (scalar (.int n))
  | item {ts : List Datum} {t : Datum} (ht : t ∈ ts) (h : HasInt n t) : HasInt n (array ts)
  | key {es : List (Scalar × Datum)} {e : Scalar × Datum} (he : e ∈ es) (h : e.1 = .int n) :
      HasInt n (table es)
  | value {es : List (Scalar × Datum)} {e : Scalar × Datum} (he : e ∈ es) (h : HasInt n e.2) :
      HasInt n (table es)

/-- Some node of the datum is a table. -/
inductive HasTable : Datum → Prop
  | table {es : List (Scalar × Datum)} : HasTable (table es)
  | item {ts : List Datum} {t : Datum} (ht : t ∈ ts) (h : HasTable t) : HasTable (array ts)

end Datum

/-! ## Texts -/

def Scalar.text : Scalar → String
  | int n => toString n.toInt
  | bool b => if b then "true" else "false"

namespace Datum

/-- The text that `inspect` shows of the datum. -/
def text : Datum → String :=
  fold ⟨Scalar.text, "null", fun ts => "[" ++ ", ".intercalate ts ++ "]",
    fun es => "\x7b" ++ ", ".intercalate (es.map fun e => e.1.text ++ ": " ++ e.2) ++ "\x7d"⟩

theorem text_array (ts : List Datum) :
    (array ts).text = "[" ++ ", ".intercalate (ts.map text) ++ "]" :=
  fold_array _ ts

theorem text_table (es : List (Scalar × Datum)) : (table es).text =
    "\x7b" ++ ", ".intercalate (es.map fun e => e.1.text ++ ": " ++ e.2.text) ++ "\x7d" := by
  simp only [text, fold_table, List.map_map]
  rfl

end Datum

/-! ## Literals -/

/-- There are no literals below zero, so a sign is put before the number without it. -/
def Scalar.literal : Scalar → Expr
  | int n => if n.toInt < 0 then .unary .neg (.int (-n) ⟨0, 0⟩) ⟨0, 0⟩ else .int n ⟨0, 0⟩
  | bool b => .bool b ⟨0, 0⟩

namespace Datum

/-- The expression whose value is the datum. -/
def literal : Datum → Expr :=
  fold ⟨Scalar.literal, .null ⟨0, 0⟩, fun es => .array es ⟨0, 0⟩,
    fun ps => .hash (ps.map fun p => (p.1.literal, p.2)) ⟨0, 0⟩⟩

theorem literal_array (ts : List Datum) :
    (array ts).literal = .array (ts.map literal) ⟨0, 0⟩ :=
  fold_array _ ts

theorem literal_table (es : List (Scalar × Datum)) :
    (table es).literal = .hash (es.map fun e => (e.1.literal, e.2.literal)) ⟨0, 0⟩ := by
  simp only [literal, fold_table, List.map_map]
  rfl

end Datum

end MonkeyLang
