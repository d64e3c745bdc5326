import Mathlib.Data.List.TFAE
import Mathlib.Tactic.TFAE
import MonkeyLang.Proofs.Data.Tables
import MonkeyLang.Proofs.Running.Parametric
import MonkeyLang.Proofs.Running.Sequence

/-!
# Setting an entry

A program changes its tables by `object_set` alone.  A call puts one entry into one table, or fails
and leaves all as it is (`Builtin.outcome_objectSet`).  A table is known by its number, so the entry
is there for all who hold that number, on whatever way one comes to it (`Value.along`), and what
lies under other keys or in other tables is what lay there before (`Machine.outcome_at_set`).

Which values are keys is asked in three places, each with a fault of its own: by `object_set`, by
the literal of a table and by an index.  They agree.
-/

namespace MonkeyLang

variable {κ : Type}

/-! ## Outcomes -/

namespace Run

variable {α β : Type} {x : Run κ α} {f : α → Run κ β} {m m' : Machine κ} {a : α} {e : Fault}

theorem outcome_eq_ok_iff : x.outcome m = (.ok a, m') ↔ x m = .ok a m' := by
  rw [outcome]
  cases x m <;> simp

theorem outcome_eq_error_iff : x.outcome m = (.error e, m') ↔ x m = .error e m' := by
  rw [outcome]
  cases x m <;> simp

theorem outcome_bind_of_ok (h : x.outcome m = (.ok a, m')) :
    (x >>= f).outcome m = (f a).outcome m' := by
  rw [outcome, outcome, bind_of_ok (outcome_eq_ok_iff.1 h)]

theorem outcome_bind_of_error (h : x.outcome m = (.error e, m')) :
    (x >>= f).outcome m = (.error e, m') :=
  outcome_eq_error_iff.2 (bind_of_error (outcome_eq_error_iff.1 h))

end Run

namespace Value

/-- What comes of a value where it is met again: a stored error is a fault there. -/
def met : Value → Except Fault Value
  | error m => .error (.stored m)
  | v => .ok v

theorem ofOutcome_met (v : Value) : ofOutcome v.met = v := by cases v <;> rfl

theorem met_of_isError_eq {v : Value} (hv : v.isError = false) : v.met = .ok v := by
  cases v with
  | error m => cases hv
  | _ => rfl

theorem met_ne_unhashable (v : Value) (kind : ValueKind) : v.met ≠ .error (.unhashable kind) := by
  cases v <;> rintro ⟨⟩

/-- A value that comes out of somewhere is met, and nothing changes. -/
theorem outcome_value (v : Value) (m : Machine κ) : (Run.value v).outcome m = (v.met, m) := by
  cases v <;> rfl

/-! ## Indices -/

/-- To look under an index changes nothing. -/
theorem outcome_at_snd (v i : Value) (m : Machine κ) : ((v.at i).outcome m).2 = m := by
  rcases looks_at v i m m rfl rfl with ⟨a, h, -⟩ | ⟨e, h, -⟩ <;> rw [Run.outcome, h]

/-- A key finds what stands under it, or null, and all else is turned down. -/
theorem outcome_at_table (id : Nat) (i : Value) (m : Machine κ) :
    ((table id).at i).outcome m =
      (if i.isHashable then (((m.heap.table id).find? i).getD .null).met
        else .error (.unhashable i.kind), m) := by
  rw [← isSome_key?, Table.find?, Value.at]
  cases i.key? with
  | none => rfl
  | some k => exact outcome_value _ m

/-- What is no key is turned down as an index of any table. -/
theorem isHashable_iff_at (id : Nat) (i : Value) (m : Machine κ) :
    i.isHashable = true ↔ ∀ kind, (((table id).at i).outcome m).1 ≠ .error (.unhashable kind) := by
  rw [outcome_at_table]
  cases i.isHashable with
  | true => exact iff_of_true rfl fun kind => met_ne_unhashable _ kind
  | false => exact iff_of_false Bool.false_ne_true fun h => h _ rfl

/-- An index sees only the entries of the table. -/
theorem outcome_at_table_congr {m m' : Machine κ} {id id' : Nat}
    (h : m.heap.table id = m'.heap.table id') (i : Value) :
    (((table id).at i).outcome m).1 = (((table id').at i).outcome m').1 := by
  rw [outcome_at_table, outcome_at_table, h]

/-- Outside of tables an index is looked up without the heap. -/
theorem outcome_at_of_ne {v : Value} (hv : ∀ id, v ≠ table id) (i : Value) (m m' : Machine κ) :
    ((v.at i).outcome m).1 = ((v.at i).outcome m').1 := by
  cases v with
  | table id => exact absurd rfl (hv id)
  | array vs =>
    cases i with
    | int n =>
      show ((Run.value _).outcome m).1 = ((Run.value _).outcome m').1
      rw [outcome_value, outcome_value]
    | _ => rfl
  | _ => rfl

/-- What one comes to from a value by one index after the other. -/
def along (v : Value) : List Value → Run κ Value
  | [] => pure v
  | i :: is => do
    let w ← v.at i
    w.along is

/-- The last of the indexes is looked up in what the others come to. -/
theorem outcome_along_concat {v w : Value} {is : List Value} {m : Machine κ} (i : Value)
    (h : (v.along is).outcome m = (.ok w, m)) :
    (v.along (is ++ [i])).outcome m = (w.at i).outcome m := by
  induction is generalizing v with
  | nil =>
    obtain rfl : v = w := by cases h; rfl
    exact congrArg (·.outcome m) (bind_pure (v.at i))
  | cons j is ih =>
    have hsnd := outcome_at_snd v j m
    rcases hj : (v.at j).outcome m with ⟨u | u, m'⟩
    · have herror := Run.outcome_bind_of_error (f := fun w => w.along is) hj
      cases h.symm.trans herror
    · obtain rfl : m' = m := by rw [hj] at hsnd; exact hsnd
      rw [along, Run.outcome_bind_of_ok hj] at h
      rw [List.cons_append, along, Run.outcome_bind_of_ok hj]
      exact ih h

end Value

/-! ## One entry of one table -/

/-- Setting an entry changes what its key finds, and nothing else. -/
theorem Table.find?_set (t : Table) (key v i : Value) :
    (t.set key v).2.find? i = if key.isHashable && key == i then some v else t.find? i := by
  have hkey := Value.isHashable_and_beq_iff (v := key) (w := i)
  unfold find?
  cases hi : i.key? with
  | none =>
    rw [if_neg]
    · rfl
    · rw [hkey]
      rintro ⟨k, -, hk⟩
      cases hi.symm.trans hk
  | some k =>
    rw [Option.bind_some, Option.bind_some, get?_set]
    refine if_congr ?_ rfl rfl
    rw [hkey]
    simp only [hi, Option.some.injEq, exists_eq_right']

theorem Heap.find?_set (h : Heap) {id : Nat} (hid : id < h.size) (key v : Value) (id' : Nat)
    (i : Value) :
    ((h.set id key v).table id').find? i =
      if id' = id ∧ (key.isHashable && key == i) then some v else (h.table id').find? i := by
  by_cases heq : id' = id
  · subst heq
    rw [table_set_self h hid, Table.find?_set]
    exact if_congr (and_iff_right rfl).symm rfl rfl
  · rw [table_set_of_ne h (Ne.symm heq), if_neg fun h => heq h.1]

namespace Builtin

variable [Console κ]

/-- A stored error comes back before the key is looked at, and a key that is none is turned down;
otherwise the value is put under the key. -/
theorem outcome_objectSet (id : Nat) (key v : Value) (m : Machine κ) :
    (objectSet.call [.table id, key, v]).outcome m =
      if v.isError then (v.met, m)
      else if key.isHashable then (.ok v, { m with heap := m.heap.set id key v })
      else (.error .invalidKey, m) := by
  have hcall : objectSet.call [.table id, key, v] =
      (callObjectSet (.table id) key v : Run κ Value) := rfl
  rw [hcall, callObjectSet]
  cases hv : v.isError with
  | true =>
    rw [if_pos rfl]
    cases v with
    | error msg => rfl
    | _ => cases hv
  | false =>
    have hvalue := (Value.outcome_value v m).trans (by rw [Value.met_of_isError_eq hv])
    rw [Run.outcome_bind_of_ok hvalue, if_neg Bool.false_ne_true, ← Value.isSome_key?, Heap.set]
    cases key.key? <;> rfl

end Builtin

namespace Heap

/-- A new table with the entries that the table has now. -/
def clone (h : Heap) (id : Nat) : Nat × Heap := h.alloc (h.table id)

variable {h : Heap} {id : Nat}

theorem clone_fst_ne (hid : id < h.size) : (h.clone id).1 ≠ id := (Nat.ne_of_lt hid).symm

theorem size_clone : (h.clone id).2.size = h.size + 1 := size_alloc _ _

theorem table_clone_self : (h.clone id).2.table (h.clone id).1 = h.table id := table_alloc_new _ _

theorem table_clone_of_lt {id' : Nat} (hid' : id' < h.size) :
    (h.clone id).2.table id' = h.table id' :=
  table_alloc_old _ _ hid'

end Heap

/-! ## Literals -/

/-- A literal with one entry fails where the key or its value does, and where the key is none. -/
theorem Expr.outcome_hash_single [Console κ] (scope : Nat) {k e : Expr} (a : Span)
    {m m₁ m₂ : Machine κ} {r : Except Fault Value} {v : Value}
    (hk : (k.eval scope).outcome m = (r, m₁)) (he : (e.eval scope).outcome m₁ = (.ok v, m₂)) :
    (∃ id m', ((Expr.hash [(k, e)] a).eval scope).outcome m = (.ok (.table id), m')) ↔
      (Value.ofOutcome r).isHashable = true := by
  rw [Expr.eval, ← Value.isSome_key?]
  cases r with
  | error f =>
    have hpairs : (Expr.evalPairs scope {} [(k, e)]).outcome m = (.error f, m₁) := by
      rw [Expr.evalPairs, Run.outcome_bind_of_error hk]
    rw [Run.outcome_bind_of_error hpairs]
    simp [Value.ofOutcome, Fault.toValue, Value.key?]
  | ok key =>
    rw [Value.ofOutcome]
    cases hkey : key.key? with
    | none =>
      have hpairs : (Expr.evalPairs scope {} [(k, e)]).outcome m =
          (.error (.unhashable key.kind), m₂) := by
        rw [Expr.evalPairs, Run.outcome_bind_of_ok hk, Run.outcome_bind_of_ok he, hkey]
        rfl
      rw [Run.outcome_bind_of_error hpairs]
      simp
    | some i =>
      have hpairs : (Expr.evalPairs scope {} [(k, e)]).outcome m =
          (.ok (({} : Table).insert i v), m₂) := by
        rw [Expr.evalPairs, Run.outcome_bind_of_ok hk, Run.outcome_bind_of_ok he, hkey]
        rfl
      rw [Run.outcome_bind_of_ok hpairs]
      exact iff_of_true ⟨_, _, rfl⟩ rfl

/-! ## The call -/

namespace Machine

/-- Where an entry was set, its key finds the value, and all else finds what it found. -/
theorem outcome_at_set (m : Machine κ) {id : Nat} (hid : id < m.heap.size) {key v : Value}
    (hkey : key.isHashable = true) (hv : v.isError = false) (w i : Value) :
    ((w.at i).outcome { m with heap := m.heap.set id key v }).1 =
      if w == .table id && i == key then .ok v else ((w.at i).outcome m).1 := by
  have hiff : (w == .table id && i == key) = true ↔ w = .table id ∧ i = key := by simp
  by_cases hset : w = .table id ∧ i = key
  · have hhere : id = id ∧ (key.isHashable && key == i) = true := ⟨rfl, by simp [hkey, hset.2]⟩
    rw [if_pos (hiff.2 hset), hset.1, Value.outcome_at_table, Heap.find?_set _ hid, if_pos hhere,
      hset.2, if_pos hkey]
    exact Value.met_of_isError_eq hv
  · rw [if_neg (mt hiff.1 hset)]
    cases w with
    | table id' =>
      have hother : ¬ (id' = id ∧ (key.isHashable && key == i) = true) := fun h =>
        hset ⟨congrArg _ h.1, (eq_of_beq (Bool.and_eq_true_iff.1 h.2).2).symm⟩
      rw [Value.outcome_at_table, Value.outcome_at_table, Heap.find?_set _ hid, if_neg hother]
    | _ => exact Value.outcome_at_of_ne (by rintro _ ⟨⟩) i _ m

/-- The second machine is the first one with the value under that key of that table.  On whatever
way one comes to the table, the value lies under the key; all else lies where it lay. -/
structure HasSet (m : Machine κ) (id : Nat) (key v : Value) (m' : Machine κ) : Prop where
  scopes : m'.scopes = m.scopes
  console : m'.console = m.console
  size : m'.heap.size = m.heap.size
  found {w : Value} {is : List Value} {i : Value}
    (h : (w.along is).outcome m' = (.ok (.table id), m')) (hi : (i == key) = true) :
    (w.along (is ++ [i])).outcome m' = (.ok v, m')
  kept {w i : Value} (h : (w == .table id && i == key) = false) :
    ((w.at i).outcome m').1 = ((w.at i).outcome m).1

theorem HasSet.kept_of_ne {m m' : Machine κ} {id id' : Nat} {key v : Value}
    (h : m.HasSet id key v m') (hne : id' ≠ id) (i : Value) :
    (((Value.table id').at i).outcome m').1 = (((Value.table id').at i).outcome m).1 := by
  have htable : (Value.table id' == .table id) = false :=
    beq_eq_false_iff_ne.2 fun heq => hne (Value.table.inj heq)
  exact h.kept (by rw [htable, Bool.false_and])

/-- Setting a key of a table to a value that is no error has all these effects. -/
theorem hasSet_set (m : Machine κ) {id : Nat} (hid : id < m.heap.size) {key v : Value}
    (hkey : key.isHashable = true) (hv : v.isError = false) :
    m.HasSet id key v { m with heap := m.heap.set id key v } where
  scopes := rfl
  console := rfl
  size := Heap.size_set _ _ _ _
  found {w is i} h hi := by
    have hat := m.outcome_at_set hid hkey hv (.table id) i
    rw [beq_self_eq_true, hi, Bool.and_true, if_pos rfl] at hat
    rw [Value.outcome_along_concat i h]
    exact Prod.ext hat (Value.outcome_at_snd _ _ _)
  kept h := by rw [m.outcome_at_set hid hkey hv, h, if_neg Bool.false_ne_true]

/-- A table and a copy of it do not see what is set in the other one. -/
theorem outcome_at_set_clone (m : Machine κ) {id : Nat} (hid : id < m.heap.size) {key v : Value}
    (hkey : key.isHashable = true) (hv : v.isError = false) (i : Value) :
    (((Value.table (m.heap.clone id).1).at i).outcome
          { m with heap := (m.heap.clone id).2.set id key v }).1 =
        (((Value.table id).at i).outcome m).1 ∧
      (((Value.table id).at i).outcome
          { m with heap := (m.heap.clone id).2.set (m.heap.clone id).1 key v }).1 =
        (((Value.table id).at i).outcome m).1 := by
  have hlt : m.heap.size < (m.heap.clone id).2.size := by
    rw [Heap.size_clone]
    exact Nat.lt_succ_self _
  have hne := Heap.clone_fst_ne hid
  let cloned : Machine κ := { m with heap := (m.heap.clone id).2 }
  constructor
  · exact ((cloned.hasSet_set (Nat.lt_trans hid hlt) hkey hv).kept_of_ne hne i).trans
      (Value.outcome_at_table_congr Heap.table_clone_self i)
  · exact ((cloned.hasSet_set hlt hkey hv).kept_of_ne hne.symm i).trans
      (Value.outcome_at_table_congr (Heap.table_clone_of_lt hid) i)

variable [Console κ]

/-- In a heap of any shape, `object_set` gives a stored error back, and turns down a key that is
none; either way nothing changes.  Otherwise it gives the value back, and one entry of one table is
set.  A copy of the table that was made before does not see it, nor does the table see what is set
in the copy.

What is a key for `object_set` is one in the literal of a table and as an index. -/
theorem object_set_changes_one_entry (m : Machine κ) {id : Nat} (hid : id < m.heap.size)
    (key v : Value) :
    let set (m : Machine κ) (id : Nat) := (Builtin.objectSet.call [.table id, key, v]).outcome m
    (v.isError = true → Value.ofOutcome (set m id).1 = v ∧ (set m id).2 = m) ∧
    (v.isError = false → key.isHashable = false →
      Value.ofOutcome (set m id).1 = .error "Invalid key" ∧ (set m id).2 = m) ∧
    (v.isError = false → key.isHashable = true →
      (set m id).1 = .ok v ∧ m.HasSet id key v (set m id).2 ∧
      ∀ copy heap, m.heap.clone id = (copy, heap) → ∀ i : Value,
        (((Value.table copy).at i).outcome (set { m with heap } id).2).1 =
            (((Value.table id).at i).outcome m).1 ∧
          (((Value.table id).at i).outcome (set { m with heap } copy).2).1 =
            (((Value.table id).at i).outcome m).1) ∧
    (v.isError = false → ∀ (scope : Nat) (k e : Expr) (a : Span) (m₀ m₁ m₂ m₃ : Machine κ)
      (r : Except Fault Value) (x : Value) (id' : Nat), (k.eval scope).outcome m₀ = (r, m₁) →
      (e.eval scope).outcome m₁ = (.ok x, m₂) → Value.ofOutcome r = key →
      List.TFAE [(set m id).1 = .ok v,
        ∃ t m', ((Expr.hash [(k, e)] a).eval scope).outcome m₀ = (.ok (.table t), m'),
        ∀ kind, (((Value.table id').at key).outcome m₃).1 ≠ .error (.unhashable kind)]) := by
  intro set
  have hset (m : Machine κ) (id : Nat) : set m id = _ := Builtin.outcome_objectSet id key v m
  refine ⟨fun hv => ?_, fun hv hkey => ?_, fun hv hkey => ⟨?_, ?_, ?_⟩, ?_⟩
  · rw [hset, if_pos hv]
    exact ⟨v.ofOutcome_met, rfl⟩
  · rw [hset, hv, hkey]
    exact ⟨rfl, rfl⟩
  · rw [hset, hv, hkey]
    rfl
  · rw [hset, hv, hkey]
    exact m.hasSet_set hid hkey hv
  · intro copy heap hclone i
    obtain rfl : (m.heap.clone id).1 = copy := congrArg Prod.fst hclone
    obtain rfl : (m.heap.clone id).2 = heap := congrArg Prod.snd hclone
    rw [hset, hset, hv, hkey]
    exact m.outcome_at_set_clone hid hkey hv i
  · intro hv scope k e a m₀ m₁ m₂ m₃ r x id' hk he hr
    have hcall : (set m id).1 = .ok v ↔ key.isHashable = true := by
      rw [hset, hv]
      cases key.isHashable <;> simp
    have hliteral := Expr.outcome_hash_single scope a hk he
    rw [hr] at hliteral
    tfae_have 1 ↔ 2 := hcall.trans hliteral.symm
    tfae_have 1 ↔ 3 := hcall.trans (Value.isHashable_iff_at id' key m₃)
    tfae_finish

/-- A table that holds itself gets one more entry, which is there behind all others. -/
theorem object_set_changes_one_entry_cyclic :
    let m : Machine Transcript :=
      { start {} with heap := ⟨#[({} : Table).insert (.str "me") (.table 0)]⟩ }
    let r := (Builtin.objectSet.call [.table 0, .str "n", .int 7]).outcome m
    0 < m.heap.size ∧ r.1 = .ok (.int 7) ∧
      ((Value.table 0).along [.str "me", .str "me", .str "n"]).outcome r.2 =
        (.ok (.int 7), r.2) := by
  intro m r
  have hid : 0 < m.heap.size := Nat.zero_lt_one
  obtain ⟨-, -, haccepted, -⟩ := m.object_set_changes_one_entry hid (.str "n") (.int 7)
  obtain ⟨hr, hset, -⟩ := haccepted rfl rfl
  have hway : ((Value.table 0).along [.str "me", .str "me"]).outcome r.2 =
      (.ok (.table 0), r.2) := by
    rfl
  exact ⟨hid, hr, hset.found hway (beq_self_eq_true _)⟩

end Machine

end MonkeyLang
