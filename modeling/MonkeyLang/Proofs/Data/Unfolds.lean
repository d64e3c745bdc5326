import Mathlib.Data.List.Forall2
import Mathlib.Data.List.Perm.Subperm
import MonkeyLang.Proofs.Data.Datum
import MonkeyLang.Value.Inspect

/-!
# Values as plain data

A value is plain if it has integers, booleans, `null`, arrays and tables only, tables are keyed by
integers and booleans, and there is an end to going down from it (`Heap.Plain`).  It is a datum
then, when tables are their entries (`Heap.Unfolds`), and no more than one (`Unfolds.unique`).

What is met on the way down is of fewer and fewer levels.  So no table is met inside itself, and the
value is shown as the datum (`Unfolds.inspect_eq`).
-/

namespace MonkeyLang

/-! ## Two lists side by side -/

section

variable {α β γ : Type} {R : α → β → Prop} {as : List α} {bs : List β}

theorem forall₂_mem_right (h : List.Forall₂ R as bs) :
    List.Forall₂ (fun a b => b ∈ bs ∧ R a b) as bs := by
  have hflip : List.Forall₂ (fun b a => b ∈ bs ∧ R a b) bs as :=
    (List.forall₂_and_left bs as).2 ⟨fun _ hb => hb, h.flip⟩
  exact hflip.flip

theorem exists_of_forall₂ (h : List.Forall₂ R as bs) {b : β} (hb : b ∈ bs) : ∃ a, R a b := by
  induction h with
  | nil => cases hb
  | cons hab _ ih =>
    rcases List.mem_cons.1 hb with rfl | hb
    · exact ⟨_, hab⟩
    · exact ih hb

/-- If each item is related to something, all of them are. -/
theorem exists_forall₂ (h : ∀ a ∈ as, ∃ b, R a b) : ∃ bs, List.Forall₂ R as bs := by
  induction as with
  | nil => exact ⟨[], .nil⟩
  | cons a as ih =>
    obtain ⟨⟨b, hab⟩, has⟩ := List.forall_mem_cons.1 h
    obtain ⟨bs, hbs⟩ := ih has
    exact ⟨b :: bs, .cons hab hbs⟩

theorem map_eq_of_forall₂ {f : α → γ} {g : β → γ} (h : List.Forall₂ R as bs)
    (hfg : ∀ a b, R a b → f a = g b) : as.map f = bs.map g := by
  rw [← List.forall₂_eq_eq_eq, List.forall₂_map_left_iff, List.forall₂_map_right_iff]
  exact h.imp hfg

theorem eq_of_forall₂ {S : α → β → Prop} {cs : List β} (hb : List.Forall₂ R as bs)
    (hc : List.Forall₂ S as cs) (h : ∀ a b c, R a b → S a c → b = c) : bs = cs := by
  induction hb generalizing cs with
  | nil =>
    cases hc
    rfl
  | cons hab hbs ih =>
    obtain _ | ⟨hac, hcs⟩ := hc
    rw [h _ _ _ hab hac, ih hcs]

end

/-! ## Unfolding -/

/-- The key of a table that a datum is keyed by. -/
def Scalar.key : Scalar → Key
  | int n => .int n
  | bool b => .bool b

theorem Scalar.key_inj {a b : Scalar} (h : a.key = b.key) : a = b := by
  cases a <;> cases b <;> cases h <;> rfl

/-- Integers, booleans, `null`, arrays and tables keyed by integers and booleans, with no more than
`n` arrays and tables one in the other. -/
inductive Heap.Plain (h : Heap) : Nat → Value → Prop
  | int {n : Nat} {i : Int64} : h.Plain n (.int i)
  | bool {n : Nat} {b : Bool} : h.Plain n (.bool b)
  | null {n : Nat} : h.Plain n .null
  | array {n : Nat} {vs : List Value} (hvs : ∀ v ∈ vs, h.Plain n v) : h.Plain (n + 1) (.array ⟨vs⟩)
  | table {n id : Nat} (hid : id < h.size)
      (hkeys : ∀ e ∈ (h.table id).toList, ∃ a : Scalar, e.1 = a.key)
      (hvalues : ∀ e ∈ (h.table id).toList, h.Plain n e.2) : h.Plain (n + 1) (.table id)

/-- An entry of a table is one of a datum. -/
inductive EntryOf (R : Value → Datum → Prop) : Key × Value → Scalar × Datum → Prop
  | mk {a : Scalar} {v : Value} {t : Datum} (h : R v t) : EntryOf R (a.key, v) (a, t)

theorem EntryOf.key {R : Value → Datum → Prop} {e : Key × Value} {f : Scalar × Datum}
    (h : EntryOf R e f) : e.1 = f.1.key := by
  cases h
  rfl

theorem EntryOf.value {R : Value → Datum → Prop} {e : Key × Value} {f : Scalar × Datum}
    (h : EntryOf R e f) : R e.2 f.2 := by
  cases h with
  | mk h => exact h

/-- The value is the datum, when tables are their entries. -/
inductive Heap.Unfolds (h : Heap) : Value → Datum → Prop
  | int {n : Int64} : h.Unfolds (.int n) (.scalar (.int n))
  | bool {b : Bool} : h.Unfolds (.bool b) (.scalar (.bool b))
  | null : h.Unfolds .null .null
  | array {vs : List Value} {ts : List Datum} (hts : List.Forall₂ h.Unfolds vs ts) :
      h.Unfolds (.array ⟨vs⟩) (.array ts)
  | table {id : Nat} {es : List (Scalar × Datum)} (hid : id < h.size)
      (hes : List.Forall₂ (EntryOf h.Unfolds) (h.table id).toList es) :
      h.Unfolds (.table id) (.table es)

/-- A plain value is a datum. -/
theorem Heap.Plain.exists_unfolds {h : Heap} {n : Nat} {v : Value} (hv : h.Plain n v) :
    ∃ t, h.Unfolds v t ∧ t.depth ≤ n := by
  induction hv with
  | int => exact ⟨_, .int, Nat.zero_le _⟩
  | bool => exact ⟨_, .bool, Nat.zero_le _⟩
  | null => exact ⟨_, .null, Nat.zero_le _⟩
  | array _ ih =>
    obtain ⟨ts, hts⟩ := exists_forall₂ ih
    refine ⟨.array ts, .array (hts.imp fun _ _ h => h.1), Datum.depth_array_le fun t ht => ?_⟩
    obtain ⟨v, hv⟩ := exists_of_forall₂ hts ht
    exact hv.2
  | @table n id hid hkeys _ ih =>
    have hentry : ∀ e ∈ (h.table id).toList, ∃ f, EntryOf h.Unfolds e f ∧ f.2.depth ≤ n := by
      rintro ⟨k, v⟩ he
      obtain ⟨a, ha⟩ := hkeys _ he
      obtain ⟨t, ht, hdepth⟩ := ih _ he
      obtain rfl : k = a.key := ha
      exact ⟨(a, t), .mk ht, hdepth⟩
    obtain ⟨es, hes⟩ := exists_forall₂ hentry
    refine ⟨.table es, .table hid (hes.imp fun _ _ h => h.1), Datum.depth_table_le fun e he => ?_⟩
    obtain ⟨f, hf⟩ := exists_of_forall₂ hes he
    exact hf.2

theorem Scalar.unfolds (a : Scalar) (h : Heap) : h.Unfolds a.key.toValue (.scalar a) := by
  cases a with
  | int n => exact .int
  | bool b => exact .bool

namespace Heap.Unfolds

variable {h h' : Heap} {v w : Value} {t u : Datum}

/-- A value is one datum at most. -/
theorem unique (hv : h.Unfolds v t) (hu : h.Unfolds v u) : t = u := by
  induction t generalizing v u with
  | scalar a => cases hv <;> cases hu <;> rfl
  | null => cases hv; cases hu; rfl
  | array ts ih =>
    obtain _ | _ | _ | hts := hv
    obtain _ | _ | _ | hus := hu
    rw [eq_of_forall₂ (forall₂_mem_right hts) hus fun v t u hv => ih t hv.1 hv.2]
  | table es ih =>
    obtain _ | _ | _ | _ | ⟨-, hes⟩ := hv
    obtain _ | _ | _ | _ | ⟨-, hfs⟩ := hu
    rw [eq_of_forall₂ (forall₂_mem_right hes) hfs]
    rintro e f g ⟨hf, hef⟩ heg
    exact Prod.ext (Scalar.key_inj (hef.key.symm.trans heg.key)) (ih f hf hef.value heg.value)

/-- Where there are no tables, the datum is one value at most. -/
theorem eq_of_not_hasTable (hv : h.Unfolds v t) (hw : h'.Unfolds w t) (ht : ¬ t.HasTable) :
    v = w := by
  induction t generalizing v w with
  | scalar a => cases hv <;> cases hw <;> rfl
  | null => cases hv; cases hw; rfl
  | array ts ih =>
    obtain _ | _ | _ | hvs := hv
    obtain _ | _ | _ | hws := hw
    rw [eq_of_forall₂ (forall₂_mem_right hvs).flip hws.flip]
    rintro t v w ⟨hmem, hv⟩ hw
    exact ih t hmem hv hw fun h => ht (.item hmem h)
  | table es ih => exact absurd .table ht

/-- Putting new tables into the heap leaves a value what it is. -/
theorem before (hv : h.Unfolds v t) (hh : h.Before h') : h'.Unfolds v t := by
  induction t generalizing v with
  | scalar a =>
    cases hv with
    | int => exact .int
    | bool => exact .bool
  | null => cases hv; exact .null
  | array ts ih =>
    obtain _ | _ | _ | hts := hv
    exact .array ((forall₂_mem_right hts).imp fun v t ht => ih t ht.1 ht.2)
  | table es ih =>
    obtain _ | _ | _ | _ | ⟨hid, hes⟩ := hv
    refine .table (Nat.lt_of_lt_of_le hid hh.1) ?_
    rw [hh.2 _ hid]
    refine (forall₂_mem_right hes).imp fun e f hf => ?_
    obtain ⟨hmem, ⟨hv⟩⟩ := hf
    exact .mk (ih _ hmem hv)

end Heap.Unfolds

/-! ## Texts -/

theorem Scalar.inspectWith_key (a : Scalar) (table : Nat → String) :
    a.key.toValue.inspectWith table = a.text := by
  cases a <;> rfl

/-- A table whose values are shown as data is shown as the datum of its entries. -/
theorem Table.inspectWith_eq {table : Nat → String} {t : Table} {es : List (Scalar × Datum)}
    (hes : List.Forall₂ (EntryOf fun v t => v.inspectWith table = t.text) t.toList es) :
    t.inspectWith table = (Datum.table es).text := by
  have hmap : t.toList.map (entryText table) = es.map fun e => e.1.text ++ ": " ++ e.2.text := by
    refine map_eq_of_forall₂ hes ?_
    rintro _ _ ⟨hv⟩
    rw [entryText, Scalar.inspectWith_key, hv]
  rw [inspectWith, hmap, Datum.text_table]

namespace Heap

/-- The tables are all different, and each is a datum of more levels than the one that is met below
them. -/
structure Around (h : Heap) (path : List Nat) (t : Datum) : Prop where
  nodup : path.Nodup
  lt : ∀ id ∈ path, id < h.size
  deeper : ∀ id ∈ path, ∃ u, h.Unfolds (.table id) u ∧ t.depth < u.depth

variable {h : Heap} {v : Value} {t u : Datum} {path : List Nat} {id : Nat}

theorem around_nil : h.Around [] t := ⟨.nil, nofun, nofun⟩

namespace Around

theorem below (hpath : h.Around path t) (hu : u.depth < t.depth) : h.Around path u where
  nodup := hpath.nodup
  lt := hpath.lt
  deeper id hid := by
    obtain ⟨w, hw, htw⟩ := hpath.deeper id hid
    exact ⟨w, hw, Nat.lt_trans hu htw⟩

theorem not_mem (hpath : h.Around path t) (ht : h.Unfolds (.table id) t) : id ∉ path := by
  intro hid
  obtain ⟨u, hu, htu⟩ := hpath.deeper id hid
  rw [ht.unique hu] at htu
  exact Nat.lt_irrefl _ htu

/-- One more table on the path, and a datum below it. -/
theorem push (hpath : h.Around path t) (ht : h.Unfolds (.table id) t) (hid : id < h.size)
    (hu : u.depth < t.depth) : h.Around (id :: path) u where
  nodup := List.nodup_cons.2 ⟨hpath.not_mem ht, hpath.nodup⟩
  lt := List.forall_mem_cons.2 ⟨hid, hpath.lt⟩
  deeper := List.forall_mem_cons.2 ⟨⟨t, ht, hu⟩, (hpath.below hu).deeper⟩

/-- There are no more tables on a path than in the heap. -/
theorem length_le (hpath : h.Around path t) : path.length ≤ h.size := by
  have hrange : path ⊆ List.range h.size := fun id hid => List.mem_range.2 (hpath.lt id hid)
  have hle := (hpath.nodup.subperm hrange).length_le
  rwa [List.length_range] at hle

end Around

namespace Unfolds

/-- With levels left for the tables that are not on the path, a datum is shown whole. -/
theorem inspectWith_eq (hv : h.Unfolds v t) (hpath : h.Around path t) {opens : Nat}
    (hopens : opens + path.length = h.size + 1) :
    v.inspectWith (h.inspectTable opens path) = t.text := by
  induction t generalizing v path opens with
  | scalar a => cases hv <;> rfl
  | null => cases hv; rfl
  | array ts ih =>
    obtain _ | _ | _ | hts := hv
    rw [Value.inspectWith_array, Datum.text_array, map_eq_of_forall₂ (forall₂_mem_right hts)]
    rintro v t ⟨hmem, hv⟩
    exact ih t hmem hv (hpath.below (Datum.depth_lt_array hmem)) hopens
  | table es ih =>
    have ht := hv
    cases hv with
    | @table id _ hid hes =>
      cases opens with
      | zero =>
        -- more tables would be open than there are
        have hle := hpath.length_le
        omega
      | succ opens =>
        have hclosed : path.contains id = false := by
          rw [List.contains_eq_mem]
          exact decide_eq_false (hpath.not_mem ht)
        rw [Value.inspectWith, inspectTable, hclosed, if_neg Bool.false_ne_true]
        refine Table.inspectWith_eq ((forall₂_mem_right hes).imp ?_)
        rintro _ _ ⟨hmem, ⟨hv⟩⟩
        have hdeeper := hpath.push ht hid (Datum.depth_lt_table hmem)
        exact .mk (ih _ hmem hv hdeeper (by rw [List.length_cons]; omega))

/-- A value that is a datum is shown as that datum. -/
theorem inspect_eq (hv : h.Unfolds v t) : h.inspect v = t.text :=
  hv.inspectWith_eq around_nil rfl

end Unfolds

end Heap

end MonkeyLang
