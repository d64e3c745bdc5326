import MonkeyLang.Proofs.Running.Parametric

/-!
# What a session goes through

The trace of a session has all machines that it meets, in order: those before and after each
expression, statement and call that is evaluated, and those between the sources
(`Machine.trace`).  An order on machines in which each operation goes up is kept along the trace:

    Steps can S → (m.trace sources).Pairwise S                    (Steps.pairwise_trace)

As in `Recorded.Agree`, only the built-in functions that are called have to go up.
-/

namespace MonkeyLang

open Visit (CallsOnly Occurs)
open Recorded (lift visit)

variable {κ α β : Type}

/-! ## Traces -/

/-- The machine that a run is over on. -/
def Run.final : EStateM.Result Fault (Machine κ) α → Machine κ
  | .ok _ m => m
  | .error _ m => m

theorem Run.outcome_eq_final (x : Run κ α) (m : Machine κ) : (x.outcome m).2 = final (x m) := by
  rw [outcome]
  cases x m <;> rfl

namespace Visit

theorem after_eq (v : Visit κ) : v.after = Run.final v.result := by
  unfold after
  cases v.result <;> rfl

mutual

/-- The machines that the visit meets, from the one before it to the one after it. -/
def machines : Visit κ → List (Machine κ)
  | ⟨_, _, before, nested, result⟩ => before :: (machinesAll nested ++ [Run.final result])

def machinesAll : List (Visit κ) → List (Machine κ)
  | [] => []
  | v :: vs => v.machines ++ machinesAll vs

end

theorem machines_eq (v : Visit κ) :
    v.machines = v.before :: (machinesAll v.nested ++ [Run.final v.result]) := by
  cases v
  rw [machines]

theorem machinesAll_append (vs ws : List (Visit κ)) :
    machinesAll (vs ++ ws) = machinesAll vs ++ machinesAll ws := by
  induction vs with
  | nil => rfl
  | cons v vs ih =>
    rw [List.cons_append, machinesAll, machinesAll, ih, List.append_assoc]

theorem machinesAll_singleton (v : Visit κ) : machinesAll [v] = v.machines := by
  rw [machinesAll, machinesAll, List.append_nil]

mutual

/-- Each machine in a visit is the one that a visit begins on or ends on. -/
theorem exists_of_mem_machines {m : Machine κ} :
    (v : Visit κ) → m ∈ v.machines → ∃ w, Occurs [v] w ∧ (m = w.before ∨ m = w.after)
  | ⟨node, scope, before, nested, result⟩, h => by
    rw [machines, List.mem_cons, List.mem_append, List.mem_singleton] at h
    rcases h with rfl | h | rfl
    · exact ⟨_, .here (List.mem_singleton_self _), .inl rfl⟩
    · obtain ⟨w, hw, hm⟩ := exists_of_mem_machinesAll nested h
      exact ⟨w, .inside (List.mem_singleton_self _) hw, hm⟩
    · exact ⟨_, .here (List.mem_singleton_self _),
        .inr (after_eq ⟨node, scope, before, nested, result⟩).symm⟩

/-- What is met is met when a visit begins or when it is over. -/
theorem exists_of_mem_machinesAll {m : Machine κ} :
    (vs : List (Visit κ)) → m ∈ machinesAll vs →
      ∃ w, Occurs vs w ∧ (m = w.before ∨ m = w.after)
  | [], h => by
    rw [machinesAll] at h
    cases h
  | v :: vs, h => by
    rw [machinesAll, List.mem_append] at h
    rcases h with h | h
    · obtain ⟨w, hw, hm⟩ := exists_of_mem_machines v h
      have hw' : Occurs ([v] ++ vs) w := occurs_append.2 (.inl hw)
      exact ⟨w, hw', hm⟩
    · obtain ⟨w, hw, hm⟩ := exists_of_mem_machinesAll vs h
      have hw' : Occurs ([v] ++ vs) w := occurs_append.2 (.inr hw)
      exact ⟨w, hw', hm⟩

end

end Visit

open Visit (machines machinesAll)

/-- All machines of a session, from the one that it starts on. -/
def Machine.trace [Console κ] (m : Machine κ) (sources : List String) : List (Machine κ) :=
  m :: (machinesAll (m.visitsAll sources) ++ [m.runSources sources])

/-! ## Going up -/

/-- An order on machines in which all that a run does goes up, if it calls only some functions. -/
structure Steps [Console κ] (can : Builtin → Prop) (S : Machine κ → Machine κ → Prop) : Prop where
  refl (m : Machine κ) : S m m
  trans {m₁ m₂ m₃ : Machine κ} (h₁ : S m₁ m₂) (h₂ : S m₂ m₃) : S m₁ m₃
  scopes (m : Machine κ) (scopes : Scopes) : S m { m with scopes }
  alloc (m : Machine κ) (t : Table) : S m { m with heap := (m.heap.alloc t).2 }
  insert (h : can .objectSet) (m : Machine κ) (id : Nat) (k : Key) (v : Value) :
    S m { m with heap := m.heap.insert id k v }
  writeLine (h : can .puts) (m : Machine κ) (line : String) :
    S m { m with console := Console.writeLine m.console line }
  readLine (h : can .stdinRead) (m : Machine κ) (prompt : Option String) :
    S m { m with console := (Console.readLine m.console prompt).2 }

/-- On the way from one machine to another, by those in the list, it only goes up. -/
structure Ascent (S : Machine κ → Machine κ → Prop) (m : Machine κ) (ms : List (Machine κ))
    (m' : Machine κ) : Prop where
  pairwise : ms.Pairwise S
  above {u : Machine κ} (hu : u ∈ ms) : S m u
  below {u : Machine κ} (hu : u ∈ ms) : S u m'
  ends : S m m'

namespace Ascent

variable {S : Machine κ → Machine κ → Prop} {m₁ m₂ m₃ : Machine κ} {ms ms' : List (Machine κ)}

theorem nil (h : S m₁ m₂) : Ascent S m₁ [] m₂ := ⟨.nil, nofun, nofun, h⟩

theorem append (htrans : ∀ {m₁ m₂ m₃}, S m₁ m₂ → S m₂ m₃ → S m₁ m₃) (h : Ascent S m₁ ms m₂)
    (h' : Ascent S m₂ ms' m₃) : Ascent S m₁ (ms ++ ms') m₃ where
  pairwise := List.pairwise_append.2
    ⟨h.pairwise, h'.pairwise, fun u hu u' hu' => htrans (h.below hu) (h'.above hu')⟩
  above hu := by
    rcases List.mem_append.1 hu with hu | hu
    · exact h.above hu
    · exact htrans h.ends (h'.above hu)
  below hu := by
    rcases List.mem_append.1 hu with hu | hu
    · exact htrans (h.below hu) h'.ends
    · exact h'.below hu
  ends := htrans h.ends h'.ends

/-- The two ends may be put to what lies between them. -/
theorem pairwise_ends (h : Ascent S m₁ ms m₂) : (m₁ :: (ms ++ [m₂])).Pairwise S := by
  refine List.pairwise_cons.2 ⟨fun u hu => ?_, ?_⟩
  · rcases List.mem_append.1 hu with hu | hu
    · exact h.above hu
    · rw [List.mem_singleton.1 hu]
      exact h.ends
  · refine List.pairwise_append.2 ⟨h.pairwise, List.pairwise_singleton S m₂, fun u hu u' hu' => ?_⟩
    rw [List.mem_singleton.1 hu']
    exact h.below hu

theorem closed (hrefl : ∀ m, S m m) (h : Ascent S m₁ ms m₂) :
    Ascent S m₁ (m₁ :: (ms ++ [m₂])) m₂ where
  pairwise := h.pairwise_ends
  above hu := by
    rcases List.mem_cons.1 hu with rfl | hu
    · exact hrefl _
    · exact (List.pairwise_cons.1 h.pairwise_ends).1 _ hu
  below hu := by
    rw [← List.cons_append, List.mem_append, List.mem_singleton, List.mem_cons] at hu
    rcases hu with (rfl | hu) | rfl
    · exact h.ends
    · exact h.below hu
    · exact hrefl _
  ends := h.ends

end Ascent

/-! ## Runs -/

variable [Console κ] {can : Builtin → Prop} {S : Machine κ → Machine κ → Prop}

namespace Run

/-- The run ends higher up than it begins. -/
def Rises (S : Machine κ → Machine κ → Prop) (x : Run κ α) : Prop := ∀ m, S m (final (x m))

/-- A look leaves the machine where it is. -/
theorem rises_of_looks (hS : Steps can S) {x x' : Run κ α} (h : Looks x x') : Rises S x := by
  intro m
  rcases h m m rfl rfl with ⟨a, hx, -⟩ | ⟨e, hx, -⟩
  · rw [hx]
    exact hS.refl m
  · rw [hx]
    exact hS.refl m

theorem Rises.bind (hS : Steps can S) {x : Run κ α} {f : α → Run κ β} (hx : Rises S x)
    (hf : ∀ a, Rises S (f a)) : Rises S (x >>= f) := by
  intro m
  have h := hx m
  show S m (final (EStateM.bind x f m))
  unfold EStateM.bind
  cases hr : x m with
  | ok a m' =>
    rw [hr] at h
    exact hS.trans h (hf a m')
  | error e m' =>
    rw [hr] at h
    exact h

/-- Where the operations go up, all runs of the evaluator do. -/
theorem parametric_rises (hS : Steps can S) :
    Parametric fun (α : Type) (x _ : Run κ α) => Rises S x where
  look := rises_of_looks hS
  bind := Rises.bind hS

end Run

open Run (Rises)

/-- Every function that may be called goes up. -/
theorem Builtin.rises_call (hS : Steps can S) {b : Builtin} (h : can b) (args : List Value) :
    Rises S (b.call args) := by
  refine related_call (Run.parametric_rises hS) b args ?_ ?_ ?_
  · rintro rfl line m
    exact hS.writeLine h m line
  · rintro rfl prompt m
    exact hS.readLine h m prompt
  · rintro rfl id k v m
    exact hS.insert h m id k v

namespace Recorded

/-- If the run calls only what it may, it goes up from each machine that it meets to the next. -/
def Climbs (can : Builtin → Prop) (S : Machine κ → Machine κ → Prop) (x : Recorded κ α) : Prop :=
  ∀ m, CallsOnly can (x m).1 → Ascent S m (machinesAll (x m).1) (Run.final (x m).2)

omit [Console κ] in
theorem climbs_lift {x : Run κ α} (h : Rises S x) : Climbs can S (lift x) :=
  fun m _ => .nil (h m)

/-- The visits of the second run are above those of the first. -/
theorem Climbs.bind (hS : Steps can S) {x : Recorded κ α} {f : α → Recorded κ β}
    (hx : Climbs can S x) (hf : ∀ a, Climbs can S (f a)) : Climbs can S (x >>= f) := by
  intro m hcalls
  have h := hx m
  rcases hr : x m with ⟨vs, ⟨a, m'⟩ | ⟨e, m'⟩⟩
  · rw [hr] at h
    rw [bind_of_ok hr] at hcalls ⊢
    obtain ⟨hfirst, hsecond⟩ := Visit.callsOnly_append.1 hcalls
    rw [Visit.machinesAll_append]
    exact (h hfirst).append hS.trans (hf a m' hsecond)
  · -- the fault is the end, and what is met is what the first part met
    rw [hr] at h
    rw [bind_of_error hr] at hcalls ⊢
    exact h hcalls

/-- A visit meets the machines of its run, and the two at its ends. -/
theorem Climbs.visit (hS : Steps can S) {x : Recorded κ Value} (hx : Climbs can S x) (node : Node)
    (scope : Nat) : Climbs can S (visit node scope x) := by
  intro m hcalls
  show Ascent S m (machinesAll [_]) (Run.final (x m).2)
  rw [Visit.machinesAll_singleton, Visit.machines_eq]
  exact (hx m hcalls.nested).closed hS.refl

theorem climbs_call (hS : Steps can S) (b : Builtin) (args : List Value) (scope : Nat) :
    Climbs can S (Recorded.visit (.application (.builtin b) args) scope (lift (b.call args))) := by
  intro m hcalls
  have hb : can b := hcalls _ b args (.here (List.mem_singleton_self _)) rfl
  exact (climbs_lift (Builtin.rises_call hS hb args)).visit hS _ _ m hcalls

/-- Every run of the evaluator climbs, as far as it calls only what it may. -/
theorem parametric_climbs (hS : Steps can S) :
    Parametric fun (α : Type) (x _ : Recorded κ α) => Climbs can S x where
  look h := climbs_lift (Run.rises_of_looks hS h)
  bind := Climbs.bind hS
  enter _ := climbs_lift fun m => hS.scopes m _
  define _ _ _ := climbs_lift fun m => hS.scopes m _
  newTable t := climbs_lift fun m => hS.alloc m t
  visit hx node _ := hx.visit hS node
  call := climbs_call hS

end Recorded

/-! ## Sessions -/

theorem Program.outcome_eq_final (p : Program) (m : Machine κ) :
    (p.eval.outcome m).2 = Run.final (p.record m).2 := by
  rw [Run.outcome_eq_final, ← p.erase_record]
  rfl

namespace Machine

/-- A source leads up through all machines that it meets. -/
theorem ascent_visits (hS : Steps can S) {m : Machine κ} {source : String}
    (hcalls : CallsOnly can (m.visits source)) :
    Ascent S m (machinesAll (m.visits source)) (m.runSource source).2 := by
  unfold visits at hcalls ⊢
  unfold runSource
  cases hp : compile source with
  | error e => exact .nil (hS.refl m)
  | ok p =>
    rw [hp] at hcalls
    have h := (Recorded.parametric_climbs hS).program p m hcalls
    show Ascent S m _ (p.eval.outcome m).2
    rw [p.outcome_eq_final]
    exact h

theorem ascent_visitsAll (hS : Steps can S) {m : Machine κ} {sources : List String}
    (hcalls : CallsOnly can (m.visitsAll sources)) :
    Ascent S m (machinesAll (m.visitsAll sources)) (m.runSources sources) := by
  induction sources generalizing m with
  | nil => exact .nil (hS.refl m)
  | cons source sources ih =>
    obtain ⟨hfirst, hothers⟩ := Visit.callsOnly_append.1 hcalls
    rw [visitsAll, Visit.machinesAll_append]
    exact (ascent_visits hS hfirst).append hS.trans (ih hothers)

end Machine

/-- Of two machines in a trace, the later one is above the earlier. -/
theorem Steps.pairwise_trace (hS : Steps can S) {m : Machine κ} {sources : List String}
    (hcalls : CallsOnly can (m.visitsAll sources)) : (m.trace sources).Pairwise S :=
  (Machine.ascent_visitsAll hS hcalls).pairwise_ends

/-- All machines of the trace are above the first. -/
theorem Steps.of_mem_trace (hS : Steps can S) {m u : Machine κ} {sources : List String}
    (hcalls : CallsOnly can (m.visitsAll sources)) (hu : u ∈ m.trace sources) : S m u := by
  rcases List.mem_cons.1 hu with rfl | hu
  · exact hS.refl u
  · exact (List.pairwise_cons.1 (hS.pairwise_trace hcalls)).1 u hu

end MonkeyLang
