import MonkeyLang.Console
import MonkeyLang.Fault
import MonkeyLang.Scopes
import MonkeyLang.Value.Heap

/-!
# The machine

What a running program can change: its tables, its scopes and its console.  A `Run` is a
computation on the machine that ends in a value or a fault; a fault keeps what was done before it.
-/

namespace MonkeyLang

/-- What a run starts from and leaves. -/
structure Machine (κ : Type) where
  heap : Heap
  scopes : Scopes
  console : κ

/-- The number of the outermost scope of programs. -/
def globalScope : Nat := 0

namespace Machine

variable {κ : Type}

/-- No tables, and one scope with nothing in it. -/
def start (console : κ) : Machine κ := ⟨{}, (Scopes.root {}).2, console⟩

end Machine

/-- A run goes on with a value or stops at a fault; what has been done to the machine stays done. -/
abbrev Run (κ : Type) := EStateM Fault (Machine κ)

namespace Run

variable {κ α : Type}

/-- Goes on with a value, or stops at it if it is a stored error. -/
def value : Value → Run κ Value
  | .error m => throw (.stored m)
  | v => pure v

/-- Goes on with what was found, or with `null`. -/
def valueOrNull (found : Option Value) : Run κ Value := value (found.getD .null)

/-- Puts a table into the heap. -/
def newTable (t : Table) : Run κ Value := fun m =>
  let (id, heap) := m.heap.alloc t
  .ok (.table id) { m with heap }

def setEntry (id : Nat) (k : Key) (v : Value) : Run κ Unit :=
  modify fun m => { m with heap := m.heap.insert id k v }

/-- Opens a scope inside another. -/
def enter (scope : Nat) : Run κ Nat := fun m =>
  let (inner, scopes) := m.scopes.child scope
  .ok inner { m with scopes }

def define (scope : Nat) (name : String) (v : Value) : Run κ Unit :=
  modify fun m => { m with scopes := m.scopes.define scope name v }

def writeLine [Console κ] (line : String) : Run κ Unit :=
  modify fun m => { m with console := Console.writeLine m.console line }

def readLine [Console κ] (prompt : Option String) : Run κ (Option String) := fun m =>
  let (line, console) := Console.readLine m.console prompt
  .ok line { m with console }

/-- The outcome of a run, and the machine after it. -/
def outcome (x : Run κ α) (m : Machine κ) : Except Fault α × Machine κ :=
  match x m with
  | .ok a m => (.ok a, m)
  | .error f m => (.error f, m)

end Run

end MonkeyLang
