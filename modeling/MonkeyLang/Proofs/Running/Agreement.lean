import MonkeyLang.Proofs.Running.ErrorFree
import MonkeyLang.Proofs.Running.Parametric

/-!
# Consoles that answer alike

A program sees nothing of its console but the lines that it reads.  So if two consoles give the
same lines, and are in some relation again after every line that is written and every line that is
read, then a program ends alike on both, with the same tables and scopes, and the consoles are
still in the relation (`Machine.Alike.runSource`).  Only the functions that are called count: where
nothing is read the lines need not be the same.

A console can so be replaced by one that also notes what happens on it (`Logged`), and nothing else
changes (`Logged.simulates`).
-/

namespace MonkeyLang

open Visit (CallsOnly)
open Recorded (lift)

variable {κ κ' α β : Type}

/-! ## Alike -/

/-- The consoles stay in the relation, and give the same lines, as far as a program can go that
calls only some functions. -/
structure Console.Simulates [Console κ] [Console κ'] (can : Builtin → Prop) (R : κ → κ' → Prop) :
    Prop where
  writeLine {c : κ} {c' : κ'} (h : can .puts) (hR : R c c') (line : String) :
    R (Console.writeLine c line) (Console.writeLine c' line)
  readLine {c : κ} {c' : κ'} (h : can .stdinRead) (hR : R c c') (prompt : Option String) :
    (Console.readLine c prompt).1 = (Console.readLine c' prompt).1 ∧
      R (Console.readLine c prompt).2 (Console.readLine c' prompt).2

/-- Two machines with the same tables and scopes, and with consoles in the relation. -/
structure Machine.Alike (R : κ → κ' → Prop) (m : Machine κ) (m' : Machine κ') : Prop where
  heap : m.heap = m'.heap
  scopes : m.scopes = m'.scopes
  console : R m.console m'.console

/-- The same value or the same fault, on machines that are alike. -/
inductive EndsAlike (R : κ → κ' → Prop) :
    EStateM.Result Fault (Machine κ) α → EStateM.Result Fault (Machine κ') α → Prop
  | ok {a : α} {m : Machine κ} {m' : Machine κ'} (h : m.Alike R m') :
      EndsAlike R (.ok a m) (.ok a m')
  | error {e : Fault} {m : Machine κ} {m' : Machine κ'} (h : m.Alike R m') :
      EndsAlike R (.error e m) (.error e m')

theorem EndsAlike.outcome {R : κ → κ' → Prop} {x : Run κ α} {x' : Run κ' α} {m : Machine κ}
    {m' : Machine κ'} (h : EndsAlike R (x m) (x' m')) :
    (x.outcome m).1 = (x'.outcome m').1 ∧ (x.outcome m).2.Alike R (x'.outcome m').2 := by
  unfold Run.outcome
  generalize x m = r at h
  generalize x' m' = r' at h
  cases h with
  | ok h => exact ⟨rfl, h⟩
  | error h => exact ⟨rfl, h⟩

/-! ## Runs -/

namespace Run

variable {R : κ → κ' → Prop}

/-- The runs end alike wherever they start alike. -/
def Agree (R : κ → κ' → Prop) (x : Run κ α) (x' : Run κ' α) : Prop :=
  ∀ m m', m.Alike R m' → EndsAlike R (x m) (x' m')

/-- A run that only looks at the heap and the scopes sees the same in both. -/
theorem Looks.agree {x : Run κ α} {x' : Run κ' α} (h : Looks x x') : Agree R x x' := by
  intro m m' hm
  rcases h m m' hm.heap hm.scopes with ⟨a, hx, hx'⟩ | ⟨e, hx, hx'⟩
  · rw [hx, hx']
    exact .ok hm
  · rw [hx, hx']
    exact .error hm

/-- Runs that agree one after the other agree as a whole. -/
theorem Agree.bind {x : Run κ α} {x' : Run κ' α} {f : α → Run κ β} {f' : α → Run κ' β}
    (hx : Agree R x x') (hf : ∀ a, Agree R (f a) (f' a)) : Agree R (x >>= f) (x' >>= f') := by
  intro m m' hm
  have h := hx m m' hm
  show EndsAlike R (EStateM.bind x f m) (EStateM.bind x' f' m')
  unfold EStateM.bind
  cases hr : x m <;> cases hr' : x' m' <;> rw [hr, hr'] at h
  · cases h with
    | ok h => exact hf _ _ _ h
  · cases h
  · cases h
  · cases h with
    | error h => exact .error h

theorem parametric_agree :
    Parametric fun (α : Type) (x : Run κ α) (x' : Run κ' α) => Agree R x x' where
  look := Looks.agree
  bind := Agree.bind

theorem agree_enter (scope : Nat) : Agree R (enter scope) (enter scope) := by
  intro m m' hm
  simp only [enter, hm.scopes]
  exact .ok ⟨hm.heap, rfl, hm.console⟩

theorem agree_define (scope : Nat) (name : String) (v : Value) :
    Agree R (define scope name v) (define scope name v) := by
  intro m m' hm
  exact .ok ⟨hm.heap, congrArg (Scopes.define · scope name v) hm.scopes, hm.console⟩

theorem agree_newTable (t : Table) : Agree R (newTable t) (newTable t) := by
  intro m m' hm
  simp only [newTable, hm.heap]
  exact .ok ⟨rfl, hm.scopes, hm.console⟩

theorem agree_setEntry (id : Nat) (k : Key) (v : Value) :
    Agree R (setEntry id k v) (setEntry id k v) := by
  intro m m' hm
  exact .ok ⟨congrArg (Heap.insert · id k v) hm.heap, hm.scopes, hm.console⟩

variable [Console κ] [Console κ'] {can : Builtin → Prop}

/-- A line is written to both consoles, if the function that writes may be called. -/
theorem agree_writeLine (hR : Console.Simulates can R) (h : can .puts) (line : String) :
    Agree R (writeLine line) (writeLine line) := by
  intro m m' hm
  exact .ok ⟨hm.heap, hm.scopes, hR.writeLine h hm.console line⟩

/-- Both consoles give the same line, if the function that reads may be called. -/
theorem agree_readLine (hR : Console.Simulates can R) (h : can .stdinRead)
    (prompt : Option String) : Agree R (readLine prompt) (readLine prompt) := by
  intro m m' hm
  obtain ⟨hline, hconsole⟩ := hR.readLine h hm.console prompt
  simp only [readLine, hline]
  exact .ok ⟨hm.heap, hm.scopes, hconsole⟩

end Run

/-! ## Programs -/

variable [Console κ] [Console κ'] {can : Builtin → Prop} {R : κ → κ' → Prop}

open Run

/-- The functions that may be called agree, on whatever arguments. -/
theorem Builtin.agree_call (hR : Console.Simulates can R) {b : Builtin} (h : can b)
    (args : List Value) : Agree R (b.call args) (b.call args) := by
  refine related_call parametric_agree b args ?_ ?_ ?_
  · rintro rfl line
    exact agree_writeLine hR h line
  · rintro rfl prompt
    exact agree_readLine hR h prompt
  · intro _ id k v
    exact agree_setEntry id k v

namespace Recorded

/-- The recorded runs end alike if the first calls only the functions that it may. -/
def Agree (can : Builtin → Prop) (R : κ → κ' → Prop) (x : Recorded κ α) (x' : Recorded κ' α) :
    Prop :=
  ∀ m m', m.Alike R m' → CallsOnly can (x m).1 → EndsAlike R (x m).2 (x' m').2

omit [Console κ] [Console κ'] in
theorem agree_lift {x : Run κ α} {x' : Run κ' α} (h : Run.Agree R x x') :
    Agree can R (lift x) (lift x') :=
  fun m m' hm _ => h m m' hm

omit [Console κ] [Console κ'] in
theorem Agree.bind {x : Recorded κ α} {x' : Recorded κ' α} {f : α → Recorded κ β}
    {f' : α → Recorded κ' β} (hx : Agree can R x x') (hf : ∀ a, Agree can R (f a) (f' a)) :
    Agree can R (x >>= f) (x' >>= f') := by
  intro m m' hm hcalls
  have h := hx m m' hm
  -- the first parts end alike, so where one goes on and the other does not there is nothing to show
  rcases hr : x m with ⟨vs, ⟨a, m₁⟩ | ⟨e, m₁⟩⟩ <;>
    rcases hr' : x' m' with ⟨vs', ⟨a', m₁'⟩ | ⟨e', m₁'⟩⟩ <;> rw [hr, hr'] at h
  · rw [bind_of_ok hr] at hcalls ⊢
    rw [bind_of_ok hr']
    obtain ⟨hfirst, hsecond⟩ := Visit.callsOnly_append.1 hcalls
    cases h hfirst with
    | ok h => exact hf a _ _ h hsecond
  · rw [bind_of_ok hr] at hcalls
    cases h (Visit.callsOnly_append.1 hcalls).1
  · rw [bind_of_error hr] at hcalls
    cases h hcalls
  · rw [bind_of_error hr] at hcalls ⊢
    rw [bind_of_error hr']
    cases h hcalls with
    | error h => exact .error h

theorem parametric_agree (hR : Console.Simulates can R) :
    Parametric fun (α : Type) (x : Recorded κ α) (x' : Recorded κ' α) => Agree can R x x' where
  look h := agree_lift h.agree
  bind := Agree.bind
  enter scope := agree_lift (agree_enter scope)
  define scope name v := agree_lift (agree_define scope name v)
  newTable t := agree_lift (agree_newTable t)
  visit hx _ _ _ m m' hm hcalls := hx m m' hm hcalls.nested
  call b args _ m m' hm hcalls :=
    Builtin.agree_call hR (hcalls _ b args (.here (List.mem_singleton_self _)) rfl) args m m' hm

end Recorded

namespace Machine

/-- A source has the same result on two machines that are alike, and leaves them alike. -/
theorem Alike.runSource {m : Machine κ} {m' : Machine κ'} (hR : Console.Simulates can R)
    (hm : m.Alike R m') {source : String} (hcalls : CallsOnly can (m.visits source)) :
    (m.runSource source).1 = (m'.runSource source).1 ∧
      (m.runSource source).2.Alike R (m'.runSource source).2 := by
  unfold visits at hcalls
  unfold Machine.runSource
  cases hp : compile source with
  | error e => exact ⟨rfl, hm⟩
  | ok p =>
    rw [hp] at hcalls
    have h := (Recorded.parametric_agree hR).program p m m' hm hcalls
    have hrun : EndsAlike R (p.eval m) (p.eval m') := by
      rw [← p.erase_record, ← p.erase_record]
      exact h
    obtain ⟨hresult, hafter⟩ := hrun.outcome
    exact ⟨congrArg Except.ok hresult, hafter⟩

/-- So do some sources one after the other. -/
theorem Alike.runSources {m : Machine κ} {m' : Machine κ'} (hR : Console.Simulates can R)
    (hm : m.Alike R m') {sources : List String} (hcalls : CallsOnly can (m.visitsAll sources)) :
    m.results sources = m'.results sources ∧
      (m.runSources sources).Alike R (m'.runSources sources) := by
  induction sources generalizing m m' with
  | nil => exact ⟨rfl, hm⟩
  | cons source sources ih =>
    obtain ⟨hfirst, hothers⟩ := Visit.callsOnly_append.1 hcalls
    obtain ⟨hresult, hafter⟩ := hm.runSource hR hfirst
    obtain ⟨hresults, hend⟩ := ih hafter hothers
    exact ⟨by rw [results, results, hresult, hresults], hend⟩

end Machine

/-! ## Noting what happens -/

/-- What a program does with its console. -/
inductive Console.Event where
  | wrote (line : String)
  | read (prompt : Option String) (answer : Option String)

/-- A console, and what has happened on it so far. -/
structure Logged (κ : Type) where
  console : κ
  events : List Console.Event := []

namespace Logged

def writeLine (c : Logged κ) (line : String) : Logged κ :=
  ⟨Console.writeLine c.console line, c.events ++ [.wrote line]⟩

def readLine (c : Logged κ) (prompt : Option String) : Option String × Logged κ :=
  let (answer, console) := Console.readLine c.console prompt
  (answer, ⟨console, c.events ++ [.read prompt answer]⟩)

instance : Console (Logged κ) := ⟨writeLine, readLine⟩

/-- Noting the events makes no difference to the console itself. -/
theorem simulates (can : Builtin → Prop) :
    Console.Simulates can fun (c : Logged κ) (c' : κ) => c.console = c' where
  writeLine := by
    rintro c _ - rfl line
    rfl
  readLine := by
    rintro c _ - rfl prompt
    exact ⟨rfl, rfl⟩

end Logged

end MonkeyLang
