import MonkeyLang.Value.Inspect

/-!
# Constructor text of values

Tables show their own text inside the constructors that hold them.
-/

namespace MonkeyLang

open Text.Dump (constructed record list)

mutual

/-- The constructor text of a value, given the text of each table. -/
def Value.dumpWith (table : Nat → String) : Value → String
  | .int n => constructed "Integer" [toString n.toInt]
  | .str s => constructed "Str" [Text.quote s]
  | .bool b => constructed "Boolean" [toString b]
  | .null => "Null"
  | .array ⟨vs⟩ => constructed "Array" [list (Value.dumpItems table [] vs)]
  | .table id =>
    constructed "Hash" [record "RefCell" [("value", constructed "HashObject" [table id])]]
  | .error m => constructed "Error" [Text.quote m]
  | .builtin b => constructed "Builtin" [b.dump]

/-- The texts of the items, after those in `done`, which are in reverse order. -/
def Value.dumpItems (table : Nat → String) (done : List String) : List Value → List String
  | [] => done.reverse
  | v :: vs => Value.dumpItems table (v.dumpWith table :: done) vs

end

namespace Heap

/-- The debugging text of a value; tables in it are shown as a program shows them. -/
def dump (h : Heap) (v : Value) : String := v.dumpWith h.displayTable

def dumpTable (h : Heap) (id : Nat) : String := constructed "HashObject" [h.displayTable id]

end Heap

end MonkeyLang
