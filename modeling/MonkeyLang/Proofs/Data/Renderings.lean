import Mathlib.Data.Finset.Card
import Mathlib.Data.List.Forall2
import MonkeyLang.Proofs.Data.Reach
import MonkeyLang.Proofs.Data.Unfolds
import MonkeyLang.Value.Dump

/-!
# What is written for a value

A value is written by going down from it, through arrays and through the entries of tables, and a
table that is met while it is open is cut off (`Heap.Renders`, with `Heap.Open` for what is cut
off).  No steps are counted there, so a heap with cycles could leave a value without any rendering.
It does not: a way down opens a table that was not open with each step into one, and there are no
more than there are.  So each value has one rendering, and its text is what `Heap.inspect` gives
(`Heap.Renders.inspect_eq`).

Where one does not come to a table inside itself, nothing is cut off, and the rendering is the one
that there is if nothing ever is (`Heap.Never`).
-/

namespace MonkeyLang

open Relation (TransGen ReflTransGen)

theorem forall₂_mem {α β : Type} {R : α → β → Prop} {as : List α} {bs : List β}
    (h : List.Forall₂ R as bs) : List.Forall₂ (fun a b => a ∈ as ∧ b ∈ bs ∧ R a b) as bs :=
  (List.forall₂_and_left as bs).2 ⟨fun _ ha => ha, forall₂_mem_right h⟩

/-! ## Renderings -/

/-- What is written for a value, with the number of each table that is written or cut off. -/
inductive Rendering where
  | scalar (text : String)
  | array (items : List Rendering)
  | table (id : Nat) (keys : List Key) (values : List Rendering)
  | ellipsis (id : Nat)

def Key.text (k : Key) : String := k.toValue.inspectWith fun _ => Table.ellipsis

theorem Key.inspectWith_toValue (k : Key) (table : Nat → String) :
    k.toValue.inspectWith table = k.text := by
  cases k <;> rfl

namespace Rendering

mutual

def text : Rendering → String
  | scalar s => s
  | array rs => "[" ++ ", ".intercalate (texts rs) ++ "]"
  | table _ ks rs =>
    "\x7b" ++ ", ".intercalate (List.zipWith (·.text ++ ": " ++ ·) ks (texts rs)) ++ "\x7d"
  | ellipsis _ => Table.ellipsis

def texts : List Rendering → List String
  | [] => []
  | r :: rs => r.text :: texts rs

end

theorem texts_eq_map (rs : List Rendering) : texts rs = rs.map text := by
  induction rs with
  | nil => rfl
  | cons r rs ih => rw [texts, ih, List.map_cons]

/-- A property of all renderings goes from the parts of one to the whole. -/
@[elab_as_elim, induction_eliminator]
theorem induct {P : Rendering → Prop} (scalar : ∀ s, P (scalar s))
    (array : ∀ rs, (∀ r ∈ rs, P r) → P (array rs))
    (table : ∀ id ks rs, (∀ r ∈ rs, P r) → P (table id ks rs)) (ellipsis : ∀ id, P (ellipsis id))
    (r : Rendering) : P r :=
  @Rendering.rec P (fun rs => ∀ r ∈ rs, P r) scalar array table ellipsis (List.forall_mem_nil _)
    (fun _ _ hr hrs => List.forall_mem_cons.2 ⟨hr, hrs⟩) r

/-- From the rendering down to one in it, through the tables, the innermost first. -/
inductive Way (r : Rendering) : List Nat → Rendering → Prop
  | here : r.Way [] r
  | item {path : List Nat} {rs : List Rendering} {s : Rendering} (h : r.Way path (.array rs))
      (hs : s ∈ rs) : r.Way path s
  | value {path : List Nat} {id : Nat} {ks : List Key} {rs : List Rendering} {s : Rendering}
      (h : r.Way path (.table id ks rs)) (hs : s ∈ rs) : r.Way (id :: path) s

end Rendering

/-! ## Writing -/

/-- The text of a value that has no parts. -/
def Value.scalarText : Value → Option String
  | int n => some (toString n.toInt)
  | str s => some s
  | bool b => some (if b then "true" else "false")
  | null => some "null"
  | error m => some ("ERROR: " ++ m)
  | builtin _ => some "builtin function"
  | array _ => none
  | table _ => none

/-- A value that has no parts is shown alike, however tables are. -/
theorem Value.inspectWith_of_scalarText {v : Value} {s : String} (h : v.scalarText = some s)
    (table : Nat → String) : v.inspectWith table = s := by
  cases v <;> cases h <;> rfl

namespace Table

def values (t : Table) : List Value := t.toList.map (·.2)

theorem mem_values {t : Table} {v : Value} : v ∈ t.values ↔ ∃ k, t.get? k = some v := by
  rw [values, List.mem_map]
  constructor
  · rintro ⟨⟨k, _⟩, he, rfl⟩
    exact ⟨k, mem_toList.1 he⟩
  · rintro ⟨k, hv⟩
    exact ⟨(k, v), mem_toList.2 hv, rfl⟩

/-- A table whose values are shown by their renderings is shown by its own. -/
theorem inspectWith_eq_text {table : Nat → String} {t : Table} {rs : List Rendering}
    (hvs : List.Forall₂ (fun v r => v.inspectWith table = r.text) t.values rs) (id : Nat) :
    t.inspectWith table = (Rendering.table id (t.toList.map (·.1)) rs).text := by
  have hentries : t.toList.map (entryText table) =
      List.zipWith (·.text ++ ": " ++ ·) (t.toList.map (·.1)) (rs.map (·.text)) := by
    rw [values] at hvs
    generalize t.toList = es at hvs
    induction es generalizing rs with
    | nil => rfl
    | cons e es ih =>
      obtain _ | ⟨hv, hvs⟩ := hvs
      rw [List.map_cons, entryText, hv, e.1.inspectWith_toValue, ih hvs]
      rfl
  rw [inspectWith, hentries, Rendering.text, Rendering.texts_eq_map]

end Table

namespace Heap

/-- The table is met inside itself. -/
def Open (path : List Nat) (id : Nat) : Prop := id ∈ path

def Never (_ : List Nat) (_ : Nat) : Prop := False

mutual

/-- Below the tables on `path`, the innermost first, that is what is written for the value, if the
tables are cut off for which `Cut` holds. -/
inductive Renders (h : Heap) (Cut : List Nat → Nat → Prop) : List Nat → Value → Rendering → Prop
  | scalar {path : List Nat} {v : Value} {s : String} (hv : v.scalarText = some s) :
      h.Renders Cut path v (.scalar s)
  | array {path : List Nat} {vs : List Value} {rs : List Rendering}
      (hvs : h.RendersAll Cut path vs rs) : h.Renders Cut path (.array ⟨vs⟩) (.array rs)
  | table {path : List Nat} {id : Nat} {rs : List Rendering} (hid : ¬ Cut path id)
      (hvs : h.RendersAll Cut (id :: path) (h.table id).values rs) :
      h.Renders Cut path (.table id) (.table id ((h.table id).toList.map (·.1)) rs)
  | ellipsis {path : List Nat} {id : Nat} (hid : Cut path id) :
      h.Renders Cut path (.table id) (.ellipsis id)

/-- The values one by one. -/
inductive RendersAll (h : Heap) (Cut : List Nat → Nat → Prop) :
    List Nat → List Value → List Rendering → Prop
  | nil {path : List Nat} : h.RendersAll Cut path [] []
  | cons {path : List Nat} {v : Value} {vs : List Value} {r : Rendering} {rs : List Rendering}
      (hv : h.Renders Cut path v r) (hvs : h.RendersAll Cut path vs rs) :
      h.RendersAll Cut path (v :: vs) (r :: rs)

end

/-- The table on its own.  It is opened, but is not on the path of its values. -/
inductive Displays (h : Heap) (id : Nat) : Rendering → Prop
  | mk {rs : List Rendering} (hvs : h.RendersAll Open [] (h.table id).values rs) :
      h.Displays id (.table id ((h.table id).toList.map (·.1)) rs)

variable {h : Heap} {Cut : List Nat → Nat → Prop} {path : List Nat} {id : Nat} {v : Value}
  {vs : List Value} {r s : Rendering} {rs : List Rendering}

theorem rendersAll_iff : h.RendersAll Cut path vs rs ↔ List.Forall₂ (h.Renders Cut path) vs rs := by
  constructor
  · intro hvs
    induction vs generalizing rs with
    | nil => cases hvs; exact .nil
    | cons v vs ih =>
      obtain _ | ⟨hv, hvs⟩ := hvs
      exact .cons hv (ih hvs)
  · intro hvs
    induction hvs with
    | nil => exact .nil
    | cons hv _ ih => exact .cons hv ih

/-- No more than one rendering. -/
theorem Renders.unique (hr : h.Renders Cut path v r) (hs : h.Renders Cut path v s) : r = s := by
  induction r generalizing path v s with
  | scalar s =>
    cases hr with
    | scalar hv => cases hs <;> simp_all [Value.scalarText]
  | array rs ih =>
    cases hr with
    | array hrs =>
      cases hs with
      | scalar hv => cases hv
      | array hss =>
        rw [eq_of_forall₂ (forall₂_mem_right (rendersAll_iff.1 hrs)) (rendersAll_iff.1 hss)]
        exact fun v r s hr hs => ih r hr.1 hr.2 hs
  | table id ks rs ih =>
    cases hr with
    | table hid hrs =>
      cases hs with
      | scalar hv => cases hv
      | table _ hss =>
        rw [eq_of_forall₂ (forall₂_mem_right (rendersAll_iff.1 hrs)) (rendersAll_iff.1 hss)]
        exact fun v r s hr hs => ih r hr.1 hr.2 hs
      | ellipsis hid' => exact absurd hid' hid
  | ellipsis id =>
    cases hr with
    | ellipsis hid =>
      cases hs with
      | scalar hv => cases hv
      | table hid' _ => exact absurd hid hid'
      | ellipsis _ => rfl

/-! ## Open tables -/

/-- How many tables of the heap are not on the path. -/
def unopened (h : Heap) (path : List Nat) : Nat := (Finset.range h.size \ path.toFinset).card

@[simp] theorem unopened_nil (h : Heap) : h.unopened [] = h.size := by simp [unopened]

/-- Opening a table leaves fewer to open. -/
theorem unopened_cons_lt (hid : id < h.size) (hpath : id ∉ path) :
    h.unopened (id :: path) < h.unopened path := by
  rw [unopened, unopened, List.toFinset_cons, Finset.sdiff_insert]
  refine Finset.card_erase_lt_of_mem ?_
  rw [Finset.mem_sdiff, Finset.mem_range, List.mem_toFinset]
  exact ⟨hid, hpath⟩

/-- A number that was never given out is that of an empty table. -/
theorem values_of_size_le (hid : h.size ≤ id) : (h.table id).values = [] := by
  rw [table_of_size_le h hid]
  rfl

/-! ## Each value has a rendering -/

mutual

/-- Going down through arrays ends at the tables. -/
theorem exists_renders_of_tables (htable : ∀ id, ∃ r, h.Renders Cut path (.table id) r) :
    (v : Value) → ∃ r, h.Renders Cut path v r
  | .int _ => ⟨_, .scalar rfl⟩
  | .str _ => ⟨_, .scalar rfl⟩
  | .bool _ => ⟨_, .scalar rfl⟩
  | .null => ⟨_, .scalar rfl⟩
  | .array ⟨vs⟩ => by
    obtain ⟨rs, hvs⟩ := exists_rendersAll_of_tables htable vs
    exact ⟨_, .array hvs⟩
  | .table id => htable id
  | .error _ => ⟨_, .scalar rfl⟩
  | .builtin _ => ⟨_, .scalar rfl⟩

theorem exists_rendersAll_of_tables (htable : ∀ id, ∃ r, h.Renders Cut path (.table id) r) :
    (vs : List Value) → ∃ rs, h.RendersAll Cut path vs rs
  | [] => ⟨_, .nil⟩
  | v :: vs => by
    obtain ⟨r, hv⟩ := exists_renders_of_tables htable v
    obtain ⟨rs, hvs⟩ := exists_rendersAll_of_tables htable vs
    exact ⟨_, .cons hv hvs⟩

end

/-- Going down from table to table ends where all are open. -/
theorem exists_renders (h : Heap) (path : List Nat) (v : Value) : ∃ r, h.Renders Open path v r := by
  refine exists_renders_of_tables (fun id => ?_) v
  by_cases hpath : id ∈ path
  · exact ⟨_, .ellipsis hpath⟩
  by_cases hid : id < h.size
  · have hlt := unopened_cons_lt hid hpath
    have hbelow := exists_renders h (id :: path)
    obtain ⟨rs, hvs⟩ := exists_rendersAll_of_tables (fun id' => hbelow (.table id'))
      (h.table id).values
    exact ⟨_, .table hpath hvs⟩
  · refine ⟨.table id _ [], .table hpath ?_⟩
    rw [values_of_size_le (Nat.not_lt.1 hid)]
    exact .nil
termination_by h.unopened path

theorem exists_displays (h : Heap) (id : Nat) : ∃ r, h.Displays id r := by
  obtain ⟨rs, hvs⟩ := exists_rendersAll_of_tables (fun id' => h.exists_renders [] (.table id'))
    (h.table id).values
  exact ⟨_, .mk hvs⟩

theorem Displays.unique (hr : h.Displays id r) (hs : h.Displays id s) : r = s := by
  cases hr with
  | mk hrs =>
    cases hs with
    | mk hss =>
      rw [eq_of_forall₂ (rendersAll_iff.1 hrs) (rendersAll_iff.1 hss)]
      exact fun _ _ _ => Renders.unique

/-! ## The text -/

/-- With as many levels as there are tables to open, the text is that of the rendering. -/
theorem Renders.inspectWith_eq (hr : h.Renders Open path v r) {opens : Nat}
    (hopens : h.unopened path < opens) : v.inspectWith (h.inspectTable opens path) = r.text := by
  induction r generalizing path v opens with
  | scalar s =>
    cases hr with
    | scalar hv => exact Value.inspectWith_of_scalarText hv _
  | array rs ih =>
    cases hr with
    | array hvs =>
      rw [Value.inspectWith_array, Rendering.text, Rendering.texts_eq_map,
        map_eq_of_forall₂ (forall₂_mem_right (rendersAll_iff.1 hvs))]
      exact fun v r hr => ih r hr.1 hr.2 hopens
  | table id ks rs ih =>
    cases hr with
    | table hid hvs =>
      obtain _ | opens := opens
      · exact absurd hopens (Nat.not_lt_zero _)
      have hclosed : path.contains id = false := by
        rw [List.contains_eq_mem]
        exact decide_eq_false hid
      rw [Value.inspectWith, inspectTable, hclosed, if_neg Bool.false_ne_true]
      refine Table.inspectWith_eq_text ((forall₂_mem_right (rendersAll_iff.1 hvs)).imp ?_) id
      rintro v r ⟨hmem, hv⟩
      have hlt : id < h.size := by
        by_contra hge
        rw [values_of_size_le (Nat.not_lt.1 hge)] at hvs
        cases hvs
        cases hmem
      exact ih r hmem hv (Nat.lt_of_lt_of_le (unopened_cons_lt hlt hid) (Nat.lt_succ_iff.1 hopens))
  | ellipsis id =>
    cases hr with
    | ellipsis hid =>
      obtain _ | opens := opens
      · exact absurd hopens (Nat.not_lt_zero _)
      have hopen : path.contains id = true := List.contains_iff_mem.2 hid
      rw [Value.inspectWith, inspectTable, hopen, if_pos rfl, Rendering.text]

theorem Renders.inspect_eq (hr : h.Renders Open [] v r) : h.inspect v = r.text := by
  refine hr.inspectWith_eq ?_
  rw [unopened_nil]
  exact Nat.lt_succ_self _

theorem Displays.displayTable_eq (hr : h.Displays id r) : h.displayTable id = r.text := by
  cases hr with
  | mk hvs =>
    exact Table.inspectWith_eq_text ((rendersAll_iff.1 hvs).imp fun _ _ hv => hv.inspect_eq) id

/-! ## Ways down -/

/-- On a way down, the tables on `path` and then those of the way are open. -/
theorem Renders.renders_of_way (hr : h.Renders Cut path v r) {opened : List Nat}
    (hs : r.Way opened s) : ∃ w, h.Renders Cut (opened ++ path) w s := by
  induction hs with
  | here => exact ⟨v, hr⟩
  | item _ hmem ih =>
    obtain ⟨w, hw⟩ := ih
    cases hw with
    | array hvs => exact exists_of_forall₂ (rendersAll_iff.1 hvs) hmem
  | value _ hmem ih =>
    obtain ⟨w, hw⟩ := ih
    cases hw with
    | table _ hvs => exact exists_of_forall₂ (rendersAll_iff.1 hvs) hmem

/-- No table is opened below itself. -/
theorem Renders.nodup_of_way (hr : h.Renders Open path v r) {opened : List Nat}
    (hs : r.Way opened s) (hpath : path.Nodup) : (opened ++ path).Nodup := by
  induction hs with
  | here => exact hpath
  | item _ _ ih => exact ih
  | value hway _ ih =>
    obtain ⟨w, hw⟩ := hr.renders_of_way hway
    cases hw with
    | table hid _ => exact List.nodup_cons.2 ⟨hid, ih⟩

/-! ## Without cutting off -/

/-- Where one does not come back to a table, none is cut off. -/
theorem Renders.never (hr : h.Renders Open path v r)
    (hpath : ∀ id ∈ path, ∀ id', v.Holds id' → TransGen h.Holds id id')
    (hacyclic : ∀ id, v.Reaches h id → ¬ TransGen h.Holds id id) : h.Renders Never path v r := by
  induction r generalizing path v with
  | scalar s =>
    cases hr with
    | scalar hv => exact .scalar hv
  | array rs ih =>
    cases hr with
    | @array _ vs _ hvs =>
      refine .array (rendersAll_iff.2 ((forall₂_mem (rendersAll_iff.1 hvs)).imp ?_))
      rintro v r ⟨hv, hmem, hr⟩
      refine ih r hmem hr (fun id hid id' hid' => ?_) fun id hid => hacyclic id (hid.item hv)
      exact hpath id hid id' (.item (List.mem_toArray.2 hv) hid')
  | table id ks rs ih =>
    cases hr with
    | table hid hvs =>
      refine .table not_false (rendersAll_iff.2 ((forall₂_mem (rendersAll_iff.1 hvs)).imp ?_))
      rintro v r ⟨hv, hmem, hr⟩
      obtain ⟨k, hk⟩ := Table.mem_values.1 hv
      refine ih r hmem hr ?_ fun id' hid' => hacyclic id' (hid'.entry hk)
      refine List.forall_mem_cons.2 ⟨fun id' hid' => .single ⟨k, v, hk, hid'⟩, ?_⟩
      exact fun id' hid' id'' hid'' => .tail (hpath id' hid' id .table) ⟨k, v, hk, hid''⟩
  | ellipsis id =>
    cases hr with
    | ellipsis hid => exact absurd (hpath id hid id .table) (hacyclic id .refl)

/-! ## Every value -/

/-- Every value of every heap has one rendering, which `inspect` gives the text of.  A way down in
it opens each table once at most, and a table is cut off where it is open and nowhere else.  If one
does not come back to a table below the value, the rendering is the one without any cutting off.

The text of a table on its own is that of one rendering too, and the constructor text of a value has
it for each table. -/
theorem every_value_rendered (h : Heap) :
    (∀ v, ∃ r, (∀ s, h.Renders Open [] v s ↔ s = r) ∧ h.inspect v = r.text ∧
      (∀ opened s, r.Way opened s → opened.Nodup ∧
        (∀ id, s = .ellipsis id → id ∈ opened) ∧
        ∀ id ks rs, s = .table id ks rs → id ∉ opened) ∧
      ((∀ id, v.Reaches h id → ¬ TransGen h.Holds id id) →
        ∀ s, h.Renders Never [] v s ↔ s = r)) ∧
    ∃ shown : Nat → Rendering, (∀ id s, h.Displays id s ↔ s = shown id) ∧
      (∀ id, h.displayTable id = (shown id).text) ∧
      (∀ id, h.dumpTable id = Text.Dump.constructed "HashObject" [(shown id).text]) ∧
      ∀ v, h.dump v = v.dumpWith fun id => (shown id).text := by
  constructor
  · intro v
    obtain ⟨r, hr⟩ := h.exists_renders [] v
    refine ⟨r, fun s => ⟨fun hs => hs.unique hr, fun hs => hs ▸ hr⟩, hr.inspect_eq, ?_, ?_⟩
    · intro opened s hs
      obtain ⟨w, hw⟩ := hr.renders_of_way hs
      have hnodup := hr.nodup_of_way hs .nil
      rw [List.append_nil] at hw hnodup
      refine ⟨hnodup, ?_, ?_⟩
      · rintro id rfl
        cases hw with
        | ellipsis hid => exact hid
      · rintro id ks rs rfl
        cases hw with
        | table hid _ => exact hid
    · intro hacyclic s
      have hnever := hr.never nofun hacyclic
      exact ⟨fun hs => hs.unique hnever, fun hs => hs ▸ hnever⟩
  · choose shown hshown using h.exists_displays
    have htext : h.displayTable = fun id => (shown id).text :=
      funext fun id => (hshown id).displayTable_eq
    refine ⟨shown, fun id s => ⟨fun hs => hs.unique (hshown id), fun hs => hs ▸ hshown id⟩,
      fun id => congrFun htext id, fun id => ?_, fun v => ?_⟩
    · rw [dumpTable, htext]
    · rw [dump, htext]

/-- A table that an array has twice. -/
theorem every_value_rendered_shared :
    let h : Heap := ⟨#[({} : Table).insert (.str "a") (.int 1)]⟩
    ∃ r, h.inspect (.array #[.table 0, .table 0]) = r.text ∧
      ∀ s, h.Renders Never [] (.array #[.table 0, .table 0]) s ↔ s = r := by
  intro h
  have hall (id : Nat) : (h.table id).All (· = .int 1) := by
    obtain _ | id := id
    · exact Table.all_empty.insert (.str "a") rfl
    · rw [table_of_size_le h (Nat.succ_le_succ (Nat.zero_le id))]
      exact Table.all_empty
  have hacyclic : h.Acyclic := acyclic_of_lt fun id id' ⟨k, v, hv, hid⟩ => by
    rw [hall id k v hv] at hid
    cases hid
  obtain ⟨r, _, htext, _, hnever⟩ := h.every_value_rendered.1 (.array #[.table 0, .table 0])
  exact ⟨r, htext, hnever fun id _ => hacyclic id⟩

/-- A table that holds itself, in an array also. -/
example : (⟨#[(({} : Table).insert (.str "me") (.table 0)).insert (.int 1)
    (.array #[.table 0])]⟩ : Heap).inspect (.table 0) =
      "{1: [{...}], me: {...}}" := by
  rfl

end Heap

end MonkeyLang
