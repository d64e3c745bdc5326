import Mathlib.Data.List.Sort
import MonkeyLang.Proofs.Data.Literals
import MonkeyLang.Proofs.Data.Unfolds
import MonkeyLang.Proofs.Running.Layout

/-!
# Plain data read back

The text of a plain value, run as a source on any machine, makes such a value again
(`Machine.runSource_inspect`).  The text is the source of a literal, and what a literal makes is its
datum (`Datum.built_literal`): entries are put into a table in the order of their keys, which is the
order in which they come out (`Table.toList_insert_of_lt`).
-/

namespace MonkeyLang

/-! ## Tables in order -/

/-- An entry that comes behind all others is put behind them. -/
theorem Table.toList_insert_of_lt {t : Table} {k : Key} (v : Value)
    (hk : ∀ e ∈ t.toList, compare e.1 k = .lt) :
    (t.insert k v).toList = t.toList ++ [(k, v)] := by
  let before (e f : Key × Value) : Prop := compare e.1 f.1 = .lt
  have hself (l : Key) : ¬ compare l l = .lt := by
    have heq : compare l l = .eq := Std.ReflCmp.compare_self
    rw [heq]
    exact nofun
  have hirrefl : Std.Irrefl before := ⟨fun e => hself e.1⟩
  have hantisymm : Std.Antisymm before := ⟨fun e f hef hfe => by
    have hgt : compare f.1 e.1 = .gt := Std.OrientedCmp.gt_of_lt hef
    rw [hfe] at hgt
    cases hgt⟩
  -- both lists are in order and have no key twice, so they are one if they have the same entries
  have hsorted : (t.toList ++ [(k, v)]).Pairwise before := by
    refine List.pairwise_append.2 ⟨t.pairwise_toList, List.pairwise_singleton _ _, ?_⟩
    rintro e he f hf
    rw [List.mem_singleton.1 hf]
    exact hk e he
  refine List.Pairwise.eq_of_mem_iff (t.insert k v).pairwise_toList hsorted ?_
  rintro ⟨l, w⟩
  rw [mem_toList, get?_insert, List.mem_append, List.mem_singleton, Prod.mk.injEq]
  split
  · next hl =>
    subst hl
    constructor
    · rintro ⟨⟩
      exact .inr ⟨rfl, rfl⟩
    · rintro (hmem | ⟨-, rfl⟩)
      · exact absurd (hk _ hmem) (hself k)
      · rfl
  · next hl =>
    rw [mem_toList]
    exact ⟨.inl, fun h => h.resolve_right fun h => hl h.1.symm⟩

/-- The keys of a plain table go up. -/
theorem pairwise_key {R : Value → Datum → Prop} {t : Table} {es : List (Scalar × Datum)}
    (hes : List.Forall₂ (EntryOf R) t.toList es) :
    es.Pairwise fun e f => compare e.1.key f.1.key = .lt := by
  have hsorted : (t.toList.map (·.1)).Pairwise fun k l => compare k l = .lt :=
    List.pairwise_map.2 t.pairwise_toList
  rw [map_eq_of_forall₂ hes fun e f h => h.key] at hsorted
  exact List.pairwise_map.1 hsorted

/-! ## Runs that only build -/

namespace Run

variable {κ α β : Type} {x : Run κ α} {f : α → Run κ β} {m : Machine κ} {P P' : Heap → α → Prop}
  {Q : Heap → β → Prop}

/-- On this machine the run ends in a value with the property, and does nothing but put new tables
into the heap. -/
def Builds (x : Run κ α) (m : Machine κ) (P : Heap → α → Prop) : Prop :=
  ∃ a heap, x m = .ok a { m with heap } ∧ m.heap.Before heap ∧ P heap a

theorem builds_pure {a : α} (h : P m.heap a) : (pure a : Run κ α).Builds m P :=
  ⟨a, m.heap, rfl, .refl _, h⟩

/-- What is built later stands in the heap beside what was built before. -/
theorem Builds.bind (hx : x.Builds m P)
    (hf : ∀ a heap, m.heap.Before heap → P heap a → (f a).Builds { m with heap } Q) :
    Builds (x >>= f) m Q := by
  obtain ⟨a, heap, hrun, hbefore, ha⟩ := hx
  obtain ⟨b, heap', hrun', hbefore', hb⟩ := hf a heap hbefore ha
  exact ⟨b, heap', (bind_of_ok hrun).trans hrun', hbefore.trans hbefore', hb⟩

theorem Builds.mono (hx : x.Builds m P)
    (h : ∀ heap a, m.heap.Before heap → P heap a → P' heap a) : x.Builds m P' := by
  obtain ⟨a, heap, hrun, hbefore, ha⟩ := hx
  exact ⟨a, heap, hrun, hbefore, h heap a hbefore ha⟩

end Run

open Run

/-- A new table with the entries of a datum is that datum. -/
theorem builds_newTable {κ : Type} {m : Machine κ} {t : Table} {es : List (Scalar × Datum)}
    (hes : List.Forall₂ (EntryOf m.heap.Unfolds) t.toList es) :
    (newTable t : Run κ Value).Builds m fun heap w => heap.Unfolds w (.table es) := by
  have hbefore := m.heap.before_alloc t
  refine ⟨.table m.heap.size, (m.heap.alloc t).2, rfl, hbefore, .table ?_ ?_⟩
  · rw [Heap.size_alloc]
    exact Nat.lt_succ_self _
  · rw [Heap.table_alloc_new]
    refine hes.imp ?_
    rintro _ _ ⟨hv⟩
    exact .mk (hv.before hbefore)

variable {κ : Type} [Console κ]

/-! ## Literals -/

/-- A literal of a key, with a sign or without, is that key. -/
theorem Scalar.eval_literal (scope : Nat) (a : Scalar) :
    (a.literal.eval scope : Run κ Value) = pure a.key.toValue := by
  cases a with
  | int n =>
    rw [literal]
    split
    · show (pure (.int (- -n)) : Run κ Value) = pure (.int n)
      rw [Int64.neg_neg]
    · rfl
  | bool b => rfl

namespace Datum

/-- What the run makes is the datum. -/
def Built (t : Datum) (x : Run κ Value) : Prop :=
  ∀ m : Machine κ, x.Builds m fun heap w => heap.Unfolds w t

/-- The items are built one after the other, and stay as they are when the next ones are built. -/
theorem builds_items {scope : Nat} {ts : List Datum}
    (hts : ∀ t ∈ ts, t.Built (t.literal.eval scope : Run κ Value)) (done : List Value)
    (m : Machine κ) :
    (Expr.evalItems scope done (ts.map literal) : Run κ (List Value)).Builds m fun heap vs =>
      ∃ ws, vs = done.reverse ++ ws ∧ List.Forall₂ heap.Unfolds ws ts := by
  induction ts generalizing done m with
  | nil => exact builds_pure ⟨[], (List.append_nil _).symm, .nil⟩
  | cons t ts ih =>
    obtain ⟨ht, hts⟩ := List.forall_mem_cons.1 hts
    rw [List.map_cons, Expr.evalItems]
    refine (ht m).bind fun w heap _ hw => ?_
    refine (ih hts (w :: done) _).mono ?_
    rintro heap' _ hbefore ⟨ws, rfl, hws⟩
    refine ⟨w :: ws, ?_, .cons (hw.before hbefore) hws⟩
    rw [List.reverse_cons, List.append_assoc, List.singleton_append]

/-- The entries are built in the order of their keys, and each goes behind those before it. -/
theorem builds_entries {scope : Nat} {es : List (Scalar × Datum)}
    (hes : ∀ e ∈ es, e.2.Built (e.2.literal.eval scope : Run κ Value))
    (hkeys : es.Pairwise fun e f => compare e.1.key f.1.key = .lt) {t : Table}
    (ht : ∀ e ∈ t.toList, ∀ f ∈ es, compare e.1 f.1.key = .lt) (m : Machine κ) :
    (Expr.evalPairs scope t (es.map fun e => (e.1.literal, e.2.literal)) : Run κ Table).Builds m
      fun heap t' => ∃ fs, t'.toList = t.toList ++ fs ∧
        List.Forall₂ (EntryOf heap.Unfolds) fs es := by
  induction es generalizing t m with
  | nil => exact builds_pure ⟨[], (List.append_nil _).symm, .nil⟩
  | cons e es ih =>
    obtain ⟨he, hes⟩ := List.forall_mem_cons.1 hes
    obtain ⟨hkey, hkeys⟩ := List.pairwise_cons.1 hkeys
    rw [List.map_cons, Expr.evalPairs, Scalar.eval_literal, pure_bind]
    refine (he m).bind fun w heap _ hw => ?_
    rw [Key.key?_toValue]
    have hinsert : (t.insert e.1.key w).toList = t.toList ++ [(e.1.key, w)] :=
      Table.toList_insert_of_lt w fun f hf => ht f hf e List.mem_cons_self
    -- and the entries to come lie behind the new one too
    have hbehind : ∀ f ∈ (t.insert e.1.key w).toList, ∀ g ∈ es, compare f.1 g.1.key = .lt := by
      rw [hinsert]
      refine List.forall_mem_append.2 ⟨fun f hf g hg => ht f hf g (List.mem_cons_of_mem e hg), ?_⟩
      exact List.forall_mem_singleton.2 hkey
    refine (ih hes hkeys hbehind _).mono ?_
    rintro heap' t' hbefore ⟨fs, hfs, hentries⟩
    refine ⟨(e.1.key, w) :: fs, ?_, .cons (.mk (hw.before hbefore)) hentries⟩
    rw [hfs, hinsert, List.append_assoc, List.singleton_append]

/-- A literal makes the datum that it was made for. -/
theorem built_literal {h : Heap} {v : Value} {t : Datum} (hv : h.Unfolds v t) (scope : Nat) :
    t.Built (t.literal.eval scope : Run κ Value) := by
  intro m
  induction t generalizing v m with
  | scalar a =>
    show (a.literal.eval scope : Run κ Value).Builds m _
    rw [Scalar.eval_literal]
    exact builds_pure (a.unfolds _)
  | null => exact builds_pure .null
  | array ts ih =>
    obtain _ | _ | _ | hts := hv
    have hitems : ∀ t ∈ ts, t.Built (t.literal.eval scope : Run κ Value) := by
      intro t ht
      obtain ⟨w, hw⟩ := exists_of_forall₂ hts ht
      exact ih t ht hw
    rw [literal_array, Expr.eval]
    refine (builds_items hitems [] m).bind fun _ heap _ hws => ?_
    obtain ⟨ws, rfl, hws⟩ := hws
    exact builds_pure (.array hws)
  | table es ih =>
    obtain _ | _ | _ | _ | ⟨-, hes⟩ := hv
    have hentries : ∀ e ∈ es, e.2.Built (e.2.literal.eval scope : Run κ Value) := by
      intro e he
      obtain ⟨f, hf⟩ := exists_of_forall₂ hes he
      exact ih e he hf.value
    have hempty : ∀ e ∈ ({} : Table).toList, ∀ f ∈ es, compare e.1 f.1.key = .lt := by
      rw [Table.toList_empty]
      exact nofun
    rw [literal_table, Expr.eval]
    refine (builds_entries hentries (pairwise_key hes) hempty m).bind fun t heap _ ht => ?_
    obtain ⟨fs, ht, hfs⟩ := ht
    rw [Table.toList_empty, List.nil_append] at ht
    rw [← ht] at hfs
    exact builds_newTable hfs

end Datum

theorem Program.eval_expr (e : Expr) (a : Span) :
    (Program.eval ⟨[.expr e a]⟩ : Run κ Value) = e.eval globalScope :=
  bind_pure (e.eval globalScope)

namespace Machine

/-- A plain value is shown as a text that, run as a source, makes the same datum again and does
nothing else; but if the least integer is in it, the text does not scan. -/
theorem runSource_inspect {h : Heap} {v : Value} (hv : h.Plain 1000 v) (m : Machine κ) :
    ∃ t, h.Unfolds v t ∧
      (¬ t.HasInt .minValue → ∃ w heap,
        m.runSource (h.inspect v) = (.ok (.ok w), { m with heap }) ∧ m.heap.Before heap ∧
          heap.Unfolds w t ∧ heap.inspect w = h.inspect v ∧ (¬ t.HasTable → (w == v) = true)) ∧
      (t.HasInt .minValue → ∃ a, m.runSource (h.inspect v) =
        (.error (.lexer "integer literal out of range: 9223372036854775808" a), m)) := by
  obtain ⟨t, hv, hdepth⟩ := hv.exists_unfolds
  rw [hv.inspect_eq]
  refine ⟨t, hv, fun ht => ?_, fun ht => ?_⟩
  · obtain ⟨p, hcompile, hbare⟩ := t.exists_compile_text ht (by unfold nestingLimit; omega)
    have heval : (p.eval : Run κ Value) = t.literal.eval globalScope :=
      (Program.eval_eq_of_bare hbare).trans (Program.eval_expr _ _)
    obtain ⟨w, heap, hrun, hbefore, hw⟩ := Datum.built_literal hv globalScope m
    rw [← heval] at hrun
    refine ⟨w, heap, runSource_of_ok hcompile hrun, hbefore, hw, hw.inspect_eq, fun hflat => ?_⟩
    rw [hw.eq_of_not_hasTable hv hflat]
    exact BEq.rfl
  · obtain ⟨a, ha⟩ := (Datum.overflows_text ht).tokenize_eq
    exact ⟨a, runSource_of_compile_error (compile_of_tokenize_error ha)⟩

/-- The value is `[{true: null}, -1]`: a table in an array, and an integer below zero. -/
theorem runSource_inspect_of_array :
    let h := (({} : Heap).alloc (({} : Table).insert (.bool true) .null)).2
    let v : Value := .array #[.table 0, .int (-1)]
    h.Plain 1000 v ∧ ∀ m : Machine Transcript, ∃ t, h.Unfolds v t ∧
      (¬ t.HasInt .minValue → ∃ w heap,
        m.runSource (h.inspect v) = (.ok (.ok w), { m with heap }) ∧ m.heap.Before heap ∧
          heap.Unfolds w t ∧ heap.inspect w = h.inspect v ∧ (¬ t.HasTable → (w == v) = true)) ∧
      (t.HasInt .minValue → ∃ a, m.runSource (h.inspect v) =
        (.error (.lexer "integer literal out of range: 9223372036854775808" a), m)) := by
  intro h v
  have hempty : ∀ e ∈ ({} : Table).toList, compare e.1 (.bool true) = .lt := by
    rw [Table.toList_empty]
    exact nofun
  have htable : (h.table 0).toList = [(.bool true, .null)] := Table.toList_insert_of_lt .null hempty
  have hinner : h.Plain 999 (.table 0) := by
    refine .table (Nat.zero_lt_succ 0) ?_ ?_
    · rw [htable]
      exact List.forall_mem_singleton.2 ⟨.bool true, rfl⟩
    · rw [htable]
      exact List.forall_mem_singleton.2 .null
  have hv : h.Plain 1000 v :=
    .array (List.forall_mem_cons.2 ⟨hinner, List.forall_mem_singleton.2 .int⟩)
  exact ⟨hv, fun m => runSource_inspect hv m⟩

end Machine

end MonkeyLang
