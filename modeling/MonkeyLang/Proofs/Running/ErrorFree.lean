import MonkeyLang.Proofs.Running.Invariants

/-!
# Errors are never data

A fault that comes up in a run goes to the end of it, and is put neither into an array nor into a
table nor under a name.  So a machine that holds no error value, in whatever scope or table, holds
none at any time of a run (`Machine.Clean`), and the values of the run are free of them, too
(`Value.ErrorFree`).

To be free of errors is an invariant of values (`Value.invariant_errorFree`), and a clean machine is
one that obeys it (`Machine.clean_iff`), so what all operations keep is known.
`Machine.errors_are_never_data` is about a session, with all machines that its visits meet and those
between its sources.
-/

namespace MonkeyLang

/-! ## Values -/

/-- No error, nor an array with one in it, however deep. -/
inductive Value.ErrorFree : Value → Prop
  | int {n : Int64} : ErrorFree (.int n)
  | str {s : String} : ErrorFree (.str s)
  | bool {b : Bool} : ErrorFree (.bool b)
  | null : ErrorFree .null
  | array {vs : Array Value} (h : ∀ v ∈ vs, ErrorFree v) : ErrorFree (.array vs)
  | table {id : Nat} : ErrorFree (.table id)
  | builtin {b : Builtin} : ErrorFree (.builtin b)

theorem Value.ErrorFree.item {vs : Array Value} (h : ErrorFree (.array vs)) {v : Value}
    (hv : v ∈ vs) : v.ErrorFree := by
  cases h with
  | array h => exact h v hv

theorem Value.ErrorFree.isError_eq {v : Value} (h : v.ErrorFree) : v.isError = false := by
  cases h <;> rfl

/-- A key is never an error. -/
theorem Key.errorFree_toValue (k : Key) : k.toValue.ErrorFree := by
  cases k with
  | int n => exact .int
  | str s => exact .str
  | bool b => exact .bool

/-- Everything that a program does with values without errors comes to such values. -/
theorem Value.invariant_errorFree :
    Value.Invariant (fun _ => True) fun _ v => v.ErrorFree where
  mono h _ := h
  int _ := .int
  str _ := .str
  bool _ := .bool
  null := .null
  array := ⟨fun h _ hv => h.item hv, .array⟩
  table _ := .table
  builtin := ⟨fun _ => trivial, fun _ => .builtin⟩

/-! ## Machines -/

/-- No key and no value of the table is or holds an error. -/
def Table.ErrorFree (t : Table) : Prop :=
  ∀ k v, t.get? k = some v → k.toValue.ErrorFree ∧ v.ErrorFree

def Heap.ErrorFree (h : Heap) : Prop := ∀ t ∈ h.tables, t.ErrorFree

/-- No scope binds a name to an error or what holds one, whether it is still in use or not. -/
def Scopes.ErrorFree (s : Scopes) : Prop :=
  ∀ f ∈ s.frames, ∀ (x : String) v, f.vars[x]? = some v → v.ErrorFree

variable {κ : Type}

/-- The machine holds no error value. -/
structure Machine.Clean (m : Machine κ) : Prop where
  heap : m.heap.ErrorFree
  scopes : m.scopes.ErrorFree

/-- To be clean is to have only values without errors. -/
theorem Machine.clean_iff {m : Machine κ} :
    m.Clean ↔ m.Obeys (fun _ => True) fun _ v => v.ErrorFree := by
  constructor
  · intro hm
    refine ⟨fun id k v h => ?_, fun h => absurd trivial h, hm.scopes⟩
    by_cases hid : id < m.heap.tables.size
    · rw [Heap.table, Array.getD, dif_pos hid] at h
      exact (hm.heap _ (Array.getElem_mem hid) k v h).2
    · rw [Heap.table_of_size_le _ (Nat.not_lt.1 hid)] at h
      exact Table.all_empty k v h
  · intro hm
    refine ⟨fun t ht k v h => ⟨k.errorFree_toValue, ?_⟩, hm.scopes⟩
    obtain ⟨id, hid, rfl⟩ := Array.getElem_of_mem ht
    refine hm.tables id k v ?_
    rw [Heap.table, Array.getD, dif_pos hid]
    exact h

/-- A new machine is clean. -/
theorem Machine.clean_start (console : κ) : (Machine.start console).Clean :=
  clean_iff.2 (obeys_start console)

/-! ## Runs -/

/-- The run is over on a clean machine, and not with a value that `Q` does not hold of. -/
def Ends {α : Type} (Q : α → Prop) : EStateM.Result Fault (Machine κ) α → Prop
  | .ok a m => m.Clean ∧ Q a
  | .error _ m => m.Clean

/-- No error is held when the visit begins nor when it is over, and what comes out is free of
errors, unless it is a fault. -/
def Visit.Clean (v : Visit κ) : Prop := v.before.Clean ∧ Ends Value.ErrorFree v.result

theorem Obeying.ends {n : Nat} {r : EStateM.Result Fault (Machine κ) Value}
    (h : Obeying (fun _ => True) (fun _ v => v.ErrorFree) n (fun _ v => v.ErrorFree) r) :
    Ends Value.ErrorFree r := by
  cases r with
  | ok a m => exact ⟨Machine.clean_iff.2 h.1, h.2.2⟩
  | error e m => exact Machine.clean_iff.2 h.1

theorem Visit.Obeys.clean {v : Visit κ} (h : v.Obeys (fun _ => True) fun _ v => v.ErrorFree) :
    v.Clean :=
  ⟨Machine.clean_iff.2 h.before, h.result.ends⟩

theorem Program.namesOnly_of_true (p : Program) : p.NamesOnly fun _ => True :=
  fun _ _ _ _ _ _ _ _ => trivial

variable [Console κ]

/-- A program leaves a clean machine clean at every visit and in the end. -/
theorem Program.clean_visits (p : Program) {m : Machine κ} (hm : m.Clean) :
    (∀ v, Visit.Occurs (p.visits m) v → v.Clean) ∧ Ends Value.ErrorFree (p.eval m) := by
  obtain ⟨hvisits, hends⟩ :=
    p.keeps_record Value.invariant_errorFree p.namesOnly_of_true (Machine.clean_iff.1 hm)
  exact ⟨fun v hv => (hvisits v hv).clean, hends.ends⟩

/-! ## Sessions -/

namespace Machine

theorem Clean.runSources {m : Machine κ} (hm : m.Clean) (sources : List String) :
    (m.runSources sources).Clean :=
  clean_iff.2 ((clean_iff.1 hm).runSources Value.invariant_errorFree
    fun _ _ p _ => p.namesOnly_of_true).2

/-- Whatever has been run on a new machine, it holds no error; nor does it while the next source
runs, and what that source comes to is free of errors, unless it is a fault. -/
theorem errors_are_never_data (console : κ) (sources : List String) (source : String) :
    ((start console).runSources sources).Clean ∧
      (∀ p, compile source = .ok p →
        ∀ v, Visit.Occurs (p.visits ((start console).runSources sources)) v → v.Clean) ∧
      ∀ v, (((start console).runSources sources).runSource source).1 = .ok (.ok v) →
        v.ErrorFree := by
  have hm := (clean_start console).runSources sources
  refine ⟨hm, fun p _ v hv => (p.clean_visits hm).1 v hv, fun v hv => ?_⟩
  cases hp : compile source with
  | ok p =>
    have hends := (p.clean_visits hm).2
    simp only [Machine.runSource, hp, Run.outcome] at hv
    cases hr : p.eval ((start console).runSources sources) with
    | ok a m' =>
      rw [hr] at hv hends
      cases hv
      exact hends.2
    | error e m' =>
      rw [hr] at hv
      cases hv
  | error e =>
    simp only [Machine.runSource, hp] at hv
    cases hv

end Machine

end MonkeyLang
