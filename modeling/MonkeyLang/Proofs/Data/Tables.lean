import Mathlib.Data.Finset.Card
import Mathlib.Data.List.Induction
import Mathlib.Data.List.Sort
import MonkeyLang.Proofs.Data.Keys
import MonkeyLang.Value.Inspect

/-!
# Tables as maps

What a table is after some calls that each put a value under a key, which may be any value.  Keys
that are no integers, texts or booleans are turned down.  Of the others the last value counts, where
keys are one as the language compares values:

    (t.setAll calls).find? key = lastValue? calls key                      (find?_setAll)

The entries come in the order of the keys, so a table is known by what it finds (`toList_ext`), and
so is its text (`inspectTable_congr`).  A table that keeps the keys as they were written has the same
entries (`Written.iter_setAll`).
-/

namespace MonkeyLang

/-! ## Calls -/

namespace Value

/-- Integers, texts and booleans. -/
def isHashable (v : Value) : Bool := v.kind == .integer || v.kind == .string || v.kind == .boolean

theorem isSome_key? (v : Value) : v.key?.isSome = v.isHashable := by cases v <;> rfl

/-- Two values are one key where the language takes them as equal. -/
theorem isHashable_and_beq_iff {v w : Value} :
    (v.isHashable && v == w) = true ↔ ∃ k, v.key? = some k ∧ w.key? = some k := by
  rw [Bool.and_eq_true, beq_iff_eq, ← isSome_key?, Option.isSome_iff_exists]
  constructor
  · rintro ⟨⟨k, hk⟩, rfl⟩
    exact ⟨k, hk, hk⟩
  · rintro ⟨k, hv, hw⟩
    exact ⟨⟨k, hv⟩, (Key.toValue_of_key? hv).symm.trans (Key.toValue_of_key? hw)⟩

/-- Both are keys, and the first is below the second. -/
def Before (v w : Value) : Prop := ∃ k l, v.key? = some k ∧ w.key? = some l ∧ k.Below l

end Value

/-- The value of the last of the calls that was not turned down and had that key. -/
def lastValue? (calls : List (Value × Value)) (key : Value) : Option Value :=
  (calls.reverse.find? fun c => c.1.isHashable && c.1 == key).map (·.2)

namespace Table

/-- Puts a value under a key and says so, or leaves the table alone if the key is none. -/
def set (t : Table) (key value : Value) : Bool × Table :=
  match key.key? with
  | some k => (true, t.insert k value)
  | none => (false, t)

def setAll (t : Table) (calls : List (Value × Value)) : Table :=
  calls.foldl (fun t c => (t.set c.1 c.2).2) t

def find? (t : Table) (key : Value) : Option Value := key.key?.bind t.get?

/-- The entries in order, with their keys as values. -/
def iter (t : Table) : List (Value × Value) := t.toList.map fun e => (e.1.toValue, e.2)

end Table

namespace Heap

def set (h : Heap) (id : Nat) (key value : Value) : Heap :=
  match key.key? with
  | some k => h.insert id k value
  | none => h

/-- A new table, and the calls on it. -/
def withCalls (h : Heap) (calls : List (Value × Value)) : Heap :=
  calls.foldl (fun h' c => h'.set h.size c.1 c.2) (h.alloc {}).2

end Heap

/-! ## One call -/

namespace Table

variable {t : Table} {key value : Value} {k l : Key}

theorem set_of_key (h : key.key? = some k) : t.set key value = (true, t.insert k value) := by
  rw [set, h]

theorem set_of_not_key (h : key.key? = none) : t.set key value = (false, t) := by
  rw [set, h]

theorem set_fst (t : Table) (key value : Value) : (t.set key value).1 = key.isHashable := by
  rw [← Value.isSome_key?]
  cases h : key.key? with
  | none => rw [set_of_not_key h]; rfl
  | some k => rw [set_of_key h]; rfl

theorem set_snd_of_not_hashable (t : Table) (value : Value) (h : key.isHashable = false) :
    (t.set key value).2 = t := by
  rw [set_of_not_key]
  rwa [← Value.isSome_key?, Option.isSome_eq_false_iff, Option.isNone_iff_eq_none] at h

/-- What a table finds after a call: the new value under that key, and the old ones. -/
theorem get?_set (t : Table) (key value : Value) (k : Key) :
    (t.set key value).2.get? k = if key.key? = some k then some value else t.get? k := by
  cases h : key.key? with
  | none =>
    rw [set_of_not_key h]
    rfl
  | some l =>
    rw [set_of_key h, get?_insert]
    simp only [Option.some.injEq]

/-! ## All calls -/

theorem setAll_concat (t : Table) (calls : List (Value × Value)) (c : Value × Value) :
    t.setAll (calls ++ [c]) = ((t.setAll calls).set c.1 c.2).2 := by
  simp [setAll]

/-- Of the calls with that key, the last one counts. -/
theorem lastValue?_concat (calls : List (Value × Value)) (c : Value × Value) (key : Value) :
    lastValue? (calls ++ [c]) key =
      if c.1.isHashable && c.1 == key then some c.2 else lastValue? calls key := by
  rw [lastValue?, List.reverse_concat, List.find?_cons]
  cases c.1.isHashable && c.1 == key <;> rfl

/-- What a new table finds after all calls. -/
theorem get?_setAll (calls : List (Value × Value)) {key : Value} {k : Key}
    (h : key.key? = some k) : (({} : Table).setAll calls).get? k = lastValue? calls key := by
  induction calls using List.reverseRecOn with
  | nil => exact get?_empty k
  | append_singleton calls c ih =>
    rw [setAll_concat, get?_set, lastValue?_concat, ih]
    refine if_congr ?_ rfl rfl
    rw [Value.isHashable_and_beq_iff, h]
    simp

theorem lastValue?_of_not_key (calls : List (Value × Value)) {key : Value} (h : key.key? = none) :
    lastValue? calls key = none := by
  rw [lastValue?, Option.map_eq_none_iff, List.find?_eq_none]
  intro c _ hc
  obtain ⟨k, -, hk⟩ := Value.isHashable_and_beq_iff.1 hc
  cases h.symm.trans hk

/-- What is found is the last value put there. -/
theorem find?_setAll (calls : List (Value × Value)) (key : Value) :
    (({} : Table).setAll calls).find? key = lastValue? calls key := by
  unfold find?
  cases h : key.key? with
  | none => exact (lastValue?_of_not_key calls h).symm
  | some k => exact get?_setAll calls h

/-! ## Entries -/

theorem mem_iter {t : Table} {key value : Value} :
    (key, value) ∈ t.iter ↔ t.find? key = some value := by
  unfold iter find?
  rw [List.mem_map, Option.bind_eq_some_iff]
  constructor
  · rintro ⟨⟨k, v⟩, hmem, heq⟩
    obtain ⟨rfl, rfl⟩ := Prod.mk.inj heq
    exact ⟨k, k.key?_toValue, mem_toList.1 hmem⟩
  · rintro ⟨k, hk, hv⟩
    exact ⟨(k, value), mem_toList.2 hv, Prod.ext (Key.toValue_of_key? hk) rfl⟩

/-- No key comes twice, and the keys go up. -/
theorem pairwise_iter (t : Table) : t.iter.Pairwise fun e f => e.1.Before f.1 := by
  refine List.pairwise_map.2 (t.pairwise_toList.imp fun {e f} h => ?_)
  exact ⟨e.1, f.1, e.1.key?_toValue, f.1.key?_toValue, Key.compare_eq_lt_iff.1 h⟩

/-- Entries in the order of their keys are known by which they are. -/
theorem eq_of_mem_iff {β : Type} {es fs : List (Key × β)}
    (hes : es.Pairwise fun e f => compare e.1 f.1 = .lt)
    (hfs : fs.Pairwise fun e f => compare e.1 f.1 = .lt) (h : ∀ e, e ∈ es ↔ e ∈ fs) : es = fs := by
  have hirrefl : Std.Irrefl fun e f : Key × β => compare e.1 f.1 = .lt :=
    ⟨fun e he => Key.Below.irrefl e.1 (Key.compare_eq_lt_iff.1 he)⟩
  have hantisymm : Std.Antisymm fun e f : Key × β => compare e.1 f.1 = .lt :=
    ⟨fun e f hef hfe => absurd
      ((Key.compare_eq_lt_iff.1 hef).trans (Key.compare_eq_lt_iff.1 hfe)) (Key.Below.irrefl e.1)⟩
  exact hes.eq_of_mem_iff hfs h

/-- A table is known by what it finds. -/
theorem toList_ext {t t' : Table} (h : ∀ k, t.get? k = t'.get? k) : t.toList = t'.toList := by
  refine eq_of_mem_iff t.pairwise_toList t'.pairwise_toList fun e => ?_
  rw [mem_toList, mem_toList, h]

theorem nodup_keys (t : Table) : (t.toList.map (·.1)).Nodup := by
  refine List.pairwise_map.2 (t.pairwise_toList.imp fun {e f} h heq => ?_)
  rw [heq] at h
  exact Key.Below.irrefl f.1 (Key.compare_eq_lt_iff.1 h)

/-- A key has a value if it was put there. -/
theorem mem_keys_setAll {calls : List (Value × Value)} {k : Key} :
    k ∈ (({} : Table).setAll calls).toList.map (·.1) ↔ k ∈ calls.filterMap (·.1.key?) := by
  have hfound : k ∈ (({} : Table).setAll calls).toList.map (·.1) ↔
      (lastValue? calls k.toValue).isSome := by
    rw [← get?_setAll calls k.key?_toValue, Option.isSome_iff_exists, List.mem_map]
    constructor
    · rintro ⟨⟨k, v⟩, hmem, rfl⟩
      exact ⟨v, mem_toList.1 hmem⟩
    · rintro ⟨v, hv⟩
      exact ⟨(k, v), mem_toList.2 hv, rfl⟩
  rw [hfound, lastValue?, Option.isSome_map, List.find?_isSome, List.mem_filterMap]
  simp only [List.mem_reverse, Value.isHashable_and_beq_iff, Key.key?_toValue, Option.some.injEq,
    exists_eq_right']

/-- The table has as many entries as there are different keys among the calls. -/
theorem size_setAll (calls : List (Value × Value)) :
    (({} : Table).setAll calls).size = (calls.filterMap (·.1.key?)).toFinset.card := by
  rw [← length_toList, ← List.length_map (·.1), ← List.toFinset_card_of_nodup (nodup_keys _)]
  congr 1
  ext k
  rw [List.mem_toFinset, List.mem_toFinset, mem_keys_setAll]

/-- The table is a map from keys to the last values they had, in the order of the keys. -/
structure HoldsLast (t : Table) (calls : List (Value × Value)) : Prop where
  found (key : Value) : t.find? key = lastValue? calls key
  listed (key value : Value) : (key, value) ∈ t.iter ↔ lastValue? calls key = some value
  ascending : t.iter.Pairwise fun e f => e.1.Before f.1
  size_eq : t.size = (calls.filterMap (·.1.key?)).toFinset.card

/-- A new table with the calls made on it. -/
theorem holdsLast_setAll (calls : List (Value × Value)) :
    (({} : Table).setAll calls).HoldsLast calls where
  found := find?_setAll calls
  listed key value := by rw [mem_iter, find?_setAll]
  ascending := pairwise_iter _
  size_eq := size_setAll calls

/-- The last values are all there is to the calls. -/
theorem toList_setAll_congr {calls calls' : List (Value × Value)}
    (h : ∀ key, lastValue? calls' key = lastValue? calls key) :
    (({} : Table).setAll calls').toList = (({} : Table).setAll calls).toList := by
  refine toList_ext fun k => ?_
  rw [get?_setAll calls' k.key?_toValue, get?_setAll calls k.key?_toValue, h]

/-! ## Texts -/

theorem inspectWith_congr {table table' : Nat → String} {t t' : Table} (h : t.toList = t'.toList)
    (htable : ∀ id, table id = table' id) : t.inspectWith table = t'.inspectWith table' := by
  rw [inspectWith, inspectWith, h, funext htable]

end Table

namespace Heap

/-- Heaps whose tables have the same entries show them alike. -/
theorem inspectTable_congr {h h' : Heap} (heq : ∀ id, (h.table id).toList = (h'.table id).toList)
    (opens : Nat) (path : List Nat) (id : Nat) :
    h.inspectTable opens path id = h'.inspectTable opens path id := by
  induction opens generalizing path id with
  | zero => rfl
  | succ opens ih =>
    rw [inspectTable, inspectTable]
    exact if_congr Iff.rfl rfl (Table.inspectWith_congr (heq id) fun _ => ih _ _)

theorem displayTable_congr {h h' : Heap} (hsize : h.size = h'.size)
    (heq : ∀ id, (h.table id).toList = (h'.table id).toList) (id : Nat) :
    h.displayTable id = h'.displayTable id := by
  unfold displayTable
  rw [hsize]
  exact Table.inspectWith_congr (heq id) fun _ => inspectTable_congr heq _ _ _

/-! ## Tables in a heap -/

variable (h : Heap) (calls : List (Value × Value))

@[simp] theorem size_set (id : Nat) (key value : Value) : (h.set id key value).size = h.size := by
  unfold set
  split
  · exact size_insert _ _ _ _
  · rfl

theorem table_set_self {id : Nat} (hid : id < h.size) (key value : Value) :
    (h.set id key value).table id = ((h.table id).set key value).2 := by
  unfold set
  cases hk : key.key? with
  | none => rw [Table.set_of_not_key hk]
  | some k => rw [Table.set_of_key hk, table_insert_self h hid]

theorem table_set_of_ne {id id' : Nat} (hne : id ≠ id') (key value : Value) :
    (h.set id key value).table id' = h.table id' := by
  unfold set
  cases key.key? with
  | none => rfl
  | some k => exact table_insert_of_ne h hne k value

theorem withCalls_concat (c : Value × Value) :
    h.withCalls (calls ++ [c]) = (h.withCalls calls).set h.size c.1 c.2 := by
  simp [withCalls]

theorem size_withCalls : (h.withCalls calls).size = h.size + 1 := by
  induction calls using List.reverseRecOn with
  | nil => exact size_alloc _ _
  | append_singleton calls c ih => rw [withCalls_concat, size_set, ih]

theorem table_withCalls_self :
    (h.withCalls calls).table h.size = ({} : Table).setAll calls := by
  induction calls using List.reverseRecOn with
  | nil => exact table_alloc_new _ _
  | append_singleton calls c ih =>
    have hlt : h.size < (h.withCalls calls).size := by
      rw [size_withCalls]
      exact Nat.lt_succ_self _
    rw [withCalls_concat, table_set_self _ hlt, ih, Table.setAll_concat]

/-- Tables that were there before are not touched by the calls. -/
theorem table_withCalls_of_ne {id : Nat} (hne : h.size ≠ id) :
    (h.withCalls calls).table id = (h.alloc {}).2.table id := by
  induction calls using List.reverseRecOn with
  | nil => rfl
  | append_singleton calls c ih => rw [withCalls_concat, table_set_of_ne _ hne, ih]

end Heap

/-! ## Keys as written -/

/-- A table that keeps the key of each entry as it was written, in the place of the key. -/
structure Table.Written where
  slots : Std.TreeMap Key (Value × Value) compare := {}

namespace Table.Written

def set (w : Written) (key value : Value) : Bool × Written :=
  match key.key? with
  | some k => (true, ⟨w.slots.insert k (key, value)⟩)
  | none => (false, w)

def setAll (w : Written) (calls : List (Value × Value)) : Written :=
  calls.foldl (fun w c => (w.set c.1 c.2).2) w

def find? (w : Written) (key : Value) : Option Value :=
  (key.key?.bind (w.slots[·]?)).map (·.2)

def iter (w : Written) : List (Value × Value) := w.slots.toList.map (·.2)

def inspectWith (table : Nat → String) (w : Written) : String :=
  "\x7b" ++ ", ".intercalate
    (w.iter.map fun e => e.1.inspectWith table ++ ": " ++ e.2.inspectWith table) ++ "\x7d"

variable {w : Written} {t : Table}

/-- In the place of a key stands the key itself, with the value that the table has. -/
def Shows (w : Written) (t : Table) : Prop :=
  ∀ k : Key, w.slots[k]? = (t.get? k).map fun v => (k.toValue, v)

theorem shows_empty : ({} : Written).Shows {} := by
  intro k
  rw [get?_empty]
  exact Std.TreeMap.getElem?_emptyc

theorem Shows.set (h : w.Shows t) (key value : Value) :
    (w.set key value).2.Shows (t.set key value).2 := by
  unfold Written.set Table.set
  cases hk : key.key? with
  | none => exact h
  | some k =>
    intro l
    show (w.slots.insert k (key, value))[l]? = _
    rw [get?_insert, Std.TreeMap.getElem?_insert]
    by_cases hkl : k = l
    · rw [if_pos hkl, if_pos (Key.compare_eq_eq_iff.2 hkl), ← hkl, Key.toValue_of_key? hk]
      rfl
    · rw [if_neg hkl, if_neg (fun heq => hkl (Key.compare_eq_eq_iff.1 heq)), h l]

/-- Both kinds of tables take the calls in step. -/
theorem shows_setAll (calls : List (Value × Value)) :
    (({} : Written).setAll calls).Shows (({} : Table).setAll calls) := by
  induction calls using List.reverseRecOn with
  | nil => exact shows_empty
  | append_singleton calls c ih =>
    rw [setAll_concat]
    have hconcat : ({} : Written).setAll (calls ++ [c]) =
        ((({} : Written).setAll calls).set c.1 c.2).2 := by
      simp [Written.setAll]
    rw [hconcat]
    exact ih.set c.1 c.2

/-- The slots are the entries, with the key beside each. -/
theorem Shows.toList_eq (h : w.Shows t) :
    w.slots.toList = t.toList.map fun e => (e.1, e.1.toValue, e.2) := by
  refine eq_of_mem_iff Std.TreeMap.ordered_keys_toList (List.pairwise_map.2 t.pairwise_toList) ?_
  rintro ⟨k, e⟩
  rw [Std.TreeMap.mem_toList_iff_getElem?_eq_some, h k, Option.map_eq_some_iff, List.mem_map]
  constructor
  · rintro ⟨v, hv, rfl⟩
    exact ⟨(k, v), mem_toList.2 hv, rfl⟩
  · rintro ⟨⟨l, v⟩, hmem, heq⟩
    obtain ⟨rfl, rfl⟩ := Prod.mk.inj heq
    exact ⟨v, mem_toList.1 hmem, rfl⟩

theorem Shows.find?_eq (h : w.Shows t) (key : Value) : w.find? key = t.find? key := by
  unfold Written.find? Table.find?
  cases key.key? with
  | none => rfl
  | some k =>
    show (w.slots[k]?).map (·.2) = t.get? k
    rw [h k, Option.map_map]
    exact Option.map_id'

/-- The keys as they were written stand in their own places, and all else is as in the table. -/
structure Matches (w : Written) (t : Table) : Prop where
  place {k : Key} {key value : Value} (h : (k, key, value) ∈ w.slots.toList) : key.key? = some k
  find?_eq (key : Value) : w.find? key = t.find? key
  iter_eq : w.iter = t.iter
  size_eq : w.slots.size = t.size
  inspectWith_eq (table : Nat → String) : w.inspectWith table = t.inspectWith table

/-- The same can be found, and is shown, in the same order. -/
theorem Shows.matches (h : w.Shows t) : w.Matches t := by
  have hiter : w.iter = t.iter := by
    rw [iter, h.toList_eq, List.map_map]
    rfl
  refine ⟨fun {k key value} hmem => ?_, h.find?_eq, hiter, ?_, fun table => ?_⟩
  · rw [h.toList_eq, List.mem_map] at hmem
    obtain ⟨e, -, heq⟩ := hmem
    cases heq
    exact e.1.key?_toValue
  · rw [← Std.TreeMap.length_toList, h.toList_eq, List.length_map, length_toList]
  · rw [Written.inspectWith, Table.inspectWith, hiter, Table.iter, List.map_map]
    rfl

end Table.Written

/-- A new table on which values are put under keys is a map from keys to the last values they had.

Keys are in a strict order, and are one where the language takes the values as equal.  A call is
turned down if the key is no integer, text or boolean, and then changes nothing.  What is found is
the last value, each key stands among the entries once, in order, and there are as many as different
keys were put there.  The keys as they were written stand in their own places.  The table and its
text depend on the last values alone. -/
theorem Heap.table_holds_last (h : Heap) (calls : List (Value × Value)) :
    IsStrictTotalOrder Key Key.Below ∧ (∀ k l : Key, compare k l = .lt ↔ k.Below l) ∧
    (∀ (v w : Value) (k l : Key), v.key? = some k → w.key? = some l →
      (compare k l = .eq ↔ (v == w) = true)) ∧
    (∀ (t : Table) (key value : Value), (t.set key value).1 = key.isHashable ∧
      (key.isHashable = false → (t.set key value).2 = t)) ∧
    ((h.withCalls calls).table h.size).HoldsLast calls ∧
    (({} : Table.Written).setAll calls).Matches ((h.withCalls calls).table h.size) ∧
    ∀ calls', (∀ key, lastValue? calls' key = lastValue? calls key) →
      ((h.withCalls calls').table h.size).iter = ((h.withCalls calls).table h.size).iter ∧
        (h.withCalls calls').displayTable h.size = (h.withCalls calls).displayTable h.size := by
  refine ⟨inferInstance, fun k l => Key.compare_eq_lt_iff,
    fun v w k l hv hw => Key.compare_eq_iff_beq hv hw,
    fun t key value => ⟨t.set_fst key value, t.set_snd_of_not_hashable value⟩, ?_, ?_,
    fun calls' hlast => ?_⟩
  · rw [table_withCalls_self]
    exact Table.holdsLast_setAll calls
  · rw [table_withCalls_self]
    exact (Table.Written.shows_setAll calls).matches
  · have heq (id : Nat) :
        ((h.withCalls calls').table id).toList = ((h.withCalls calls).table id).toList := by
      by_cases hid : h.size = id
      · subst hid
        rw [table_withCalls_self, table_withCalls_self, Table.toList_setAll_congr hlast]
      · rw [table_withCalls_of_ne h calls' hid, table_withCalls_of_ne h calls hid]
    refine ⟨by rw [Table.iter, Table.iter, heq], displayTable_congr ?_ heq h.size⟩
    rw [size_withCalls, size_withCalls]

end MonkeyLang
