import MonkeyLang.Proofs.Parsing.Nesting
import MonkeyLang.Proofs.Running.Visits

/-!
# Invariants of values

A property of values that holds of what is written down in a program, of the built-in functions that
the program names, of arrays exactly if it holds of their items, and of every table that there is
(`Value.Invariant`).  If it holds of all that a machine has in its tables and scopes, then it does
so at any time of a run, and of all values in between (`Expr.keeps_record`): no operation makes a
value of anything else.

There are more and more tables, so the property is told their number and stays true of a value when
the number goes up.  With it goes what a table can hold: where `object_set` is not at hand, nothing
is put into a table that is there already, and so its values had the property before there was the
table itself (`Machine.Obeys.settled`).
-/

namespace MonkeyLang

/-! ## Names -/

namespace Expr

/-- Of the built-in functions the expression names only some, in whatever part of it. -/
def NamesOnly (can : Builtin → Prop) (e : Expr) : Prop :=
  ∀ w x a, Path e w (.ident x a) → ∀ b, Builtin.ofName? x = some b → can b

variable {can : Builtin → Prop} {e f : Expr}

theorem NamesOnly.below (h : e.NamesOnly can) {s : Descent} (hb : Below s e f) :
    f.NamesOnly can :=
  fun w x a hp => h (s :: w) x a (.cons hb hp)

theorem NamesOnly.ident {x : String} {a : Span} (h : NamesOnly can (.ident x a)) {b : Builtin}
    (hb : Builtin.ofName? x = some b) : can b :=
  h [] x a .nil b hb

end Expr

/-! ## Values -/

/-- `P n` is a property of values where there are `n` tables and the built-in functions in reach are
those that `can` has. -/
structure Value.Invariant (can : Builtin → Prop) (P : Nat → Value → Prop) : Prop where
  mono {n n' : Nat} {v : Value} (h : P n v) (hn : n ≤ n') : P n' v
  int {n : Nat} (i : Int64) : P n (.int i)
  str {n : Nat} (s : String) : P n (.str s)
  bool {n : Nat} (b : Bool) : P n (.bool b)
  null {n : Nat} : P n .null
  array {n : Nat} {vs : Array Value} : P n (.array vs) ↔ ∀ v ∈ vs, P n v
  table {n id : Nat} (h : id < n) : P n (.table id)
  builtin {n : Nat} {b : Builtin} : P n (.builtin b) ↔ can b

/-! ## Machines -/

variable {κ : Type} {can : Builtin → Prop} {P : Nat → Value → Prop}

/-- All that the machine holds has the property. -/
structure Machine.Obeys (can : Builtin → Prop) (P : Nat → Value → Prop) (m : Machine κ) : Prop where
  tables (id : Nat) : (m.heap.table id).All (P m.heap.size)
  /-- A table that nothing is put into holds what was there before it. -/
  settled (h : ¬ can .objectSet) (id : Nat) : (m.heap.table id).All (P id)
  scopes : m.scopes.All (P m.heap.size)

/-- A new machine holds nothing. -/
theorem Machine.obeys_start (console : κ) : (Machine.start console).Obeys can P where
  tables id := by
    rw [Heap.table_of_size_le _ (Nat.zero_le id)]
    exact Table.all_empty
  settled _ id := by
    rw [Heap.table_of_size_le _ (Nat.zero_le id)]
    exact Table.all_empty
  scopes := by
    refine Scopes.All.push ?_ none
    intro f hf
    exact absurd hf (Array.not_mem_empty f)

/-! ## What runs keep -/

/-- The run is over on a machine that obeys and has all of the `n` tables, and not with a value that
`Q` does not hold of. -/
def Obeying {α : Type} (can : Builtin → Prop) (P : Nat → Value → Prop) (n : Nat)
    (Q : Nat → α → Prop) : EStateM.Result Fault (Machine κ) α → Prop
  | .ok a m => m.Obeys can P ∧ n ≤ m.heap.size ∧ Q m.heap.size a
  | .error _ m => m.Obeys can P ∧ n ≤ m.heap.size

theorem Obeying.of_le {α : Type} {n n' : Nat} {Q : Nat → α → Prop}
    {r : EStateM.Result Fault (Machine κ) α} (h : Obeying can P n' Q r) (hle : n ≤ n') :
    Obeying can P n Q r := by
  cases r with
  | ok a m => exact ⟨h.1, Nat.le_trans hle h.2.1, h.2.2⟩
  | error e m => exact ⟨h.1, Nat.le_trans hle h.2⟩

namespace Run

variable {α β : Type} {n : Nat} {Q : Nat → α → Prop} {R : Nat → β → Prop}

/-- Begun on a machine with `n` tables that obeys, the run keeps it that way. -/
def Keeps (can : Builtin → Prop) (P : Nat → Value → Prop) (n : Nat) (x : Run κ α)
    (Q : Nat → α → Prop) : Prop :=
  ∀ m, m.Obeys can P → m.heap.size = n → Obeying can P n Q (x m)

theorem keeps_pure {a : α} (ha : Q n a) : Keeps can P n (pure a : Run κ α) Q := by
  rintro m hm rfl
  exact ⟨hm, Nat.le_refl _, ha⟩

theorem keeps_throw (e : Fault) : Keeps can P n (throw e : Run κ α) Q := by
  rintro m hm rfl
  exact ⟨hm, Nat.le_refl _⟩

/-- The second run begins with the tables that the first one leaves. -/
theorem Keeps.bind {x : Run κ α} {f : α → Run κ β} (hx : Keeps can P n x Q)
    (hf : ∀ n' a, n ≤ n' → Q n' a → Keeps can P n' (f a) R) : Keeps can P n (x >>= f) R := by
  intro m hm hn
  have h := hx m hm hn
  show Obeying can P n R (EStateM.bind x f m)
  unfold EStateM.bind
  cases hr : x m with
  | ok a m' =>
    rw [hr] at h
    obtain ⟨hm', hle, ha⟩ := h
    exact (hf _ a hle ha m' hm' rfl).of_le hle
  | error e m' =>
    rw [hr] at h
    exact h

/-- A look at the machine, as far as one that obeys is concerned. -/
theorem keeps_get_bind {f : Machine κ → Run κ α}
    (hf : ∀ m, m.Obeys can P → m.heap.size = n → Obeying can P n Q (f m m)) :
    Keeps can P n (get >>= f) Q :=
  fun m hm hn => hf m hm hn

end Run

open Run (Keeps keeps_pure keeps_throw keeps_get_bind)

section

variable (hP : Value.Invariant can P) {n : Nat}

include hP

namespace Run

omit hP in
theorem keeps_value {v : Value} (hv : P n v) : Keeps can P n (value v : Run κ Value) P := by
  unfold value
  split
  · exact keeps_throw _
  · exact keeps_pure hv

theorem keeps_valueOrNull {found : Option Value} (h : ∀ v ∈ found, P n v) :
    Keeps can P n (valueOrNull found : Run κ Value) P := by
  cases found with
  | none => exact keeps_value hP.null
  | some v => exact keeps_value (h v rfl)

theorem keeps_newTable {t : Table} (ht : t.All (P n)) :
    Keeps can P n (newTable t : Run κ Value) P := by
  rintro m hm rfl
  have hle : m.heap.size ≤ (m.heap.alloc t).2.size := by
    rw [Heap.size_alloc]
    exact Nat.le_succ _
  -- the new table holds what was there before it, and the others are as they were
  have hcases (id : Nat) : (m.heap.alloc t).2.table id = m.heap.table id ∨
      id = m.heap.size ∧ (m.heap.alloc t).2.table id = t := by
    rcases Nat.lt_trichotomy id m.heap.size with hid | rfl | hid
    · exact .inl (m.heap.table_alloc_old t hid)
    · exact .inr ⟨rfl, m.heap.table_alloc_new t⟩
    · refine .inl ?_
      rw [m.heap.table_of_size_le (Nat.le_of_lt hid), Heap.table_of_size_le _ ?_]
      rw [Heap.size_alloc]
      exact hid
  refine ⟨⟨fun id => ?_, fun hset id => ?_, hm.scopes.mono fun v hv => hP.mono hv hle⟩, hle, ?_⟩
  · show ((m.heap.alloc t).2.table id).All (P (m.heap.alloc t).2.size)
    rcases hcases id with h | ⟨-, h⟩
    · rw [h]
      exact (hm.tables id).mono fun v hv => hP.mono hv hle
    · rw [h]
      exact ht.mono fun v hv => hP.mono hv hle
  · show ((m.heap.alloc t).2.table id).All (P id)
    rcases hcases id with h | ⟨rfl, h⟩
    · rw [h]
      exact hm.settled hset id
    · rw [h]
      exact ht
  · refine hP.table (Nat.lt_of_lt_of_eq ?_ (m.heap.size_alloc t).symm)
    exact Nat.lt_succ_self m.heap.size

omit hP in
/-- Where entries may be set, a value with the property can stand under any key. -/
theorem keeps_setEntry (h : can .objectSet) (id : Nat) (k : Key) {v : Value} (hv : P n v) :
    Keeps can P n (setEntry id k v : Run κ Unit) fun _ _ => True := by
  rintro m hm rfl
  have hsize := m.heap.size_insert id k v
  refine ⟨⟨fun id' => ?_, fun hset => absurd h hset, ?_⟩, Nat.le_of_eq hsize.symm, trivial⟩
  · show ((m.heap.insert id k v).table id').All (P (m.heap.insert id k v).size)
    rw [hsize]
    by_cases hid : id' < m.heap.size
    · by_cases heq : id = id'
      · subst heq
        rw [m.heap.table_insert_self hid]
        exact (hm.tables id).insert k hv
      · rw [m.heap.table_insert_of_ne heq]
        exact hm.tables id'
    · rw [Heap.table_of_size_le _ (by rw [hsize]; exact Nat.not_lt.1 hid)]
      exact Table.all_empty
  · show m.scopes.All (P (m.heap.insert id k v).size)
    rw [hsize]
    exact hm.scopes

omit hP in
theorem keeps_enter (scope : Nat) : Keeps can P n (enter scope : Run κ Nat) fun _ _ => True := by
  rintro m hm rfl
  exact ⟨⟨hm.tables, hm.settled, hm.scopes.push (some scope)⟩, Nat.le_refl _, trivial⟩

omit hP in
/-- A definition binds a name to a value with the property. -/
theorem keeps_define (scope : Nat) (name : String) {v : Value} (hv : P n v) :
    Keeps can P n (define scope name v : Run κ Unit) fun _ _ => True := by
  rintro m hm rfl
  exact ⟨⟨hm.tables, hm.settled, hm.scopes.define scope name hv⟩, Nat.le_refl _, trivial⟩

omit hP in
theorem keeps_writeLine [Console κ] (line : String) :
    Keeps can P n (writeLine line : Run κ Unit) fun _ _ => True := by
  rintro m hm rfl
  exact ⟨⟨hm.tables, hm.settled, hm.scopes⟩, Nat.le_refl _, trivial⟩

omit hP in
theorem keeps_readLine [Console κ] (prompt : Option String) :
    Keeps can P n (readLine prompt : Run κ (Option String)) fun _ _ => True := by
  rintro m hm rfl
  exact ⟨⟨hm.tables, hm.settled, hm.scopes⟩, Nat.le_refl _, trivial⟩

end Run

/-! ## Operations -/

open Run

theorem keeps_unaryApply (op : UnaryOp) (v : Value) :
    Keeps can P n (op.apply v : Run κ Value) P := by
  unfold UnaryOp.apply
  split
  · exact keeps_pure (hP.bool _)
  · exact keeps_pure (hP.int _)
  · exact keeps_throw _

theorem keeps_applyInt (op : BinaryOp) (a b : Int64) :
    Keeps can P n (op.applyInt a b : Run κ Value) P := by
  cases op with
  | add => exact keeps_pure (hP.int _)
  | sub => exact keeps_pure (hP.int _)
  | mul => exact keeps_pure (hP.int _)
  | div =>
    by_cases hb : b = 0
    · simp only [BinaryOp.applyInt, if_pos hb]
      exact keeps_throw _
    · simp only [BinaryOp.applyInt, if_neg hb]
      exact keeps_pure (hP.int _)
  | lt => exact keeps_pure (hP.bool _)
  | gt => exact keeps_pure (hP.bool _)
  | eq => exact keeps_pure (hP.bool _)
  | notEq => exact keeps_pure (hP.bool _)

/-- What an operator makes of two values is new, and so needs no hypothesis on them. -/
theorem keeps_binaryApply (op : BinaryOp) (v w : Value) :
    Keeps can P n (op.apply v w : Run κ Value) P := by
  unfold BinaryOp.apply
  split
  · exact keeps_applyInt hP op _ _
  · exact keeps_pure (hP.str _)
  · exact keeps_pure (hP.bool _)
  · exact keeps_pure (hP.bool _)
  · split
    · exact keeps_throw _
    · exact keeps_throw _

/-- What an index finds in a value was in it. -/
theorem keeps_at {v : Value} (hv : P n v) (w : Value) :
    Keeps can P n (v.at w : Run κ Value) P := by
  unfold Value.at
  split
  · refine keeps_valueOrNull hP fun u hu => hP.array.1 hv u ?_
    unfold itemAt? at hu
    split at hu
    · exact Array.mem_of_getElem? hu
    · cases hu
  · split
    · refine keeps_get_bind fun m hm hn => keeps_valueOrNull hP (fun u hu => ?_) m hm hn
      have hu := hm.tables _ _ u hu
      rw [hn] at hu
      exact hu
    · exact keeps_throw _
  · exact keeps_throw _

/-- A name stands for what is bound, or for a function that may be named. -/
theorem keeps_resolve (scope : Nat) {name : String}
    (hname : ∀ b, Builtin.ofName? name = some b → can b) :
    Keeps can P n (resolve scope name : Run κ Value) P := by
  refine keeps_get_bind fun m hm hn => ?_
  cases hget : m.scopes.get? scope name with
  | some v =>
    have hv := hm.scopes.get? hget
    rw [hn] at hv
    exact keeps_value hv m hm hn
  | none =>
    cases hb : Builtin.ofName? name with
    | some b => exact keeps_pure (hP.builtin.2 (hname b hb)) m hm hn
    | none => exact keeps_throw _ m hm hn

namespace Builtin

theorem keeps_callFirst {v : Value} (hv : P n v) :
    Keeps can P n (callFirst v : Run κ Value) P := by
  unfold callFirst
  split
  · exact keeps_valueOrNull hP fun u hu => hP.array.1 hv u (Array.mem_of_getElem? hu)
  · exact keeps_throw _

theorem keeps_callLast {v : Value} (hv : P n v) :
    Keeps can P n (callLast v : Run κ Value) P := by
  unfold callLast
  split
  · exact keeps_valueOrNull hP fun u hu => hP.array.1 hv u (Array.mem_of_back? hu)
  · exact keeps_throw _

theorem keeps_callRest {v : Value} (hv : P n v) :
    Keeps can P n (callRest v : Run κ Value) P := by
  unfold callRest
  split
  · refine keeps_pure ?_
    split
    · exact hP.null
    · refine hP.array.2 fun u hu => ?_
      obtain ⟨i, hi, rfl⟩ := Array.getElem_of_mem hu
      rw [Array.getElem_extract]
      exact hP.array.1 hv _ (Array.getElem_mem _)
  · exact keeps_throw _

theorem keeps_callPush {v w : Value} (hv : P n v) (hw : P n w) :
    Keeps can P n (callPush v w : Run κ Value) P := by
  unfold callPush
  split
  · refine keeps_pure (hP.array.2 fun u hu => ?_)
    rcases Array.mem_push.1 hu with hu | rfl
    · exact hP.array.1 hv u hu
    · exact hw
  · exact keeps_throw _

theorem keeps_callObjectSet (h : can objectSet) (v k : Value) {w : Value} (hw : P n w) :
    Keeps can P n (callObjectSet v k w : Run κ Value) P := by
  unfold callObjectSet
  split
  · refine (keeps_value hw).bind fun n' u _ hu => ?_
    split
    · exact (keeps_setEntry h _ _ hu).bind fun n'' _ hle _ => keeps_pure (hP.mono hu hle)
    · exact keeps_throw _
  · exact keeps_throw _

theorem keeps_callLen (v : Value) : Keeps can P n (callLen v : Run κ Value) P := by
  unfold callLen
  split
  · exact keeps_pure (hP.int _)
  · exact keeps_pure (hP.int _)
  · exact keeps_throw _

theorem keeps_callCharAt (v w : Value) : Keeps can P n (callCharAt v w : Run κ Value) P := by
  unfold callCharAt
  split
  · split
    · exact keeps_pure (hP.str _)
    · exact keeps_throw _
  · exact keeps_throw _
  · exact keeps_throw _

variable [Console κ]

theorem keeps_callPuts (vs : List Value) : Keeps can P n (callPuts vs : Run κ Value) P := by
  induction vs generalizing n with
  | nil => exact keeps_pure hP.null
  | cons v vs ih =>
    exact keeps_get_bind fun m hm hn => ((keeps_writeLine _).bind fun _ _ _ _ => ih) m hm hn

theorem keeps_callStdinRead (vs : List Value) :
    Keeps can P n (callStdinRead vs : Run κ Value) P := by
  have hread (prompt : Option String) : Keeps can P n (readValue prompt : Run κ Value) P := by
    refine (keeps_readLine prompt).bind fun _ line _ _ => ?_
    cases line with
    | some line => exact keeps_pure (hP.str _)
    | none => exact keeps_throw _
  unfold callStdinRead
  split
  · exact hread _
  · exact hread _
  · exact keeps_throw _

/-- Every function that may be called keeps the property, on arguments that have it. -/
theorem keeps_call {b : Builtin} (hb : can b) {args : List Value} (h : ∀ v ∈ args, P n v) :
    Keeps can P n (b.call args : Run κ Value) P := by
  unfold call
  split
  · split
    · exact keeps_callLen hP _
    · exact keeps_callFirst hP (h _ (by simp))
    · exact keeps_callLast hP (h _ (by simp))
    · exact keeps_callRest hP (h _ (by simp))
    · exact keeps_callPush hP (h _ (by simp)) (h _ (by simp))
    · exact keeps_callPuts hP _
    · exact keeps_pure (hP.bool _)
    · exact keeps_callStdinRead hP _
    · exact keeps_callObjectSet hP hb _ _ (h _ (by simp))
    · exact keeps_callCharAt hP _ _
    · exact keeps_throw _
  · exact keeps_throw _

end Builtin

/-- Only a function can be applied. -/
theorem keeps_apply [Console κ] {callee : Value} (hcallee : P n callee) {args : List Value}
    (h : ∀ v ∈ args, P n v) : Keeps can P n (callee.apply args : Run κ Value) P := by
  unfold Value.apply
  split
  · exact Builtin.keeps_call hP (hP.builtin.1 hcallee) h
  · exact keeps_throw _

end

/-! ## Recorded runs -/

/-- The machine obeys when the visit begins and when it is over, and what comes out, or what is
called, has the property. -/
structure Visit.Obeys (can : Builtin → Prop) (P : Nat → Value → Prop) (v : Visit κ) : Prop where
  before : v.before.Obeys can P
  result : Obeying can P v.before.heap.size P v.result
  callee {f : Value} {args : List Value} (h : v.node = .application f args) :
    P v.before.heap.size f

namespace Recorded

variable {α β : Type} {n : Nat} {Q : Nat → α → Prop} {R : Nat → β → Prop}

/-- As for runs, and all visits obey. -/
def Keeps (can : Builtin → Prop) (P : Nat → Value → Prop) (n : Nat) (x : Recorded κ α)
    (Q : Nat → α → Prop) : Prop :=
  ∀ m, m.Obeys can P → m.heap.size = n →
    (∀ v, Visit.Occurs (x m).1 v → v.Obeys can P) ∧ Obeying can P n Q (x m).2

/-- A run without visits has only to keep the property itself. -/
theorem keeps_lift {x : Run κ α} (hx : Run.Keeps can P n x Q) : Keeps can P n (lift x) Q :=
  fun m hm hn => ⟨fun _ hv => absurd hv Visit.not_occurs_nil, hx m hm hn⟩

theorem keeps_pure {a : α} (ha : Q n a) : Keeps can P n (pure a : Recorded κ α) Q :=
  keeps_lift (Run.keeps_pure ha)

theorem Keeps.bind {x : Recorded κ α} {f : α → Recorded κ β} (hx : Keeps can P n x Q)
    (hf : ∀ n' a, n ≤ n' → Q n' a → Keeps can P n' (f a) R) : Keeps can P n (x >>= f) R := by
  intro m hm hn
  obtain ⟨hvisits, hends⟩ := hx m hm hn
  rcases hr : x m with ⟨vs, ⟨a, m'⟩ | ⟨e, m'⟩⟩
  · rw [hr] at hvisits hends
    rw [bind_of_ok hr]
    obtain ⟨hm', hle, ha⟩ := hends
    obtain ⟨hvisits', hends'⟩ := hf _ a hle ha m' hm' rfl
    refine ⟨fun v hv => ?_, hends'.of_le hle⟩
    rcases Visit.occurs_append.1 hv with hv | hv
    · exact hvisits v hv
    · exact hvisits' v hv
  · rw [hr] at hvisits hends
    rw [bind_of_error hr]
    exact ⟨hvisits, hends⟩

theorem Keeps.visit {x : Recorded κ Value} (hx : Keeps can P n x P) {node : Node}
    (hnode : ∀ f args, node = .application f args → P n f) (scope : Nat) :
    Keeps can P n (visit node scope x) P := by
  rintro m hm rfl
  obtain ⟨hvisits, hends⟩ := hx m hm rfl
  refine ⟨fun v hv => ?_, hends⟩
  rcases Visit.occurs_singleton.1 hv with rfl | hv
  · exact ⟨hm, hends, fun h => hnode _ _ h⟩
  · exact hvisits v hv

end Recorded

/-! ## The evaluator -/

open Recorded (keeps_lift)

variable [Console κ]

mutual

/-- Every expression keeps the property, as do all the parts of a program below. -/
theorem Expr.keeps_record (hP : Value.Invariant can P) (n scope : Nat) (e : Expr)
    (he : e.NamesOnly can) : Recorded.Keeps can P n (e.record scope : Recorded κ Value) P := by
  rw [Expr.record.eq_def]
  refine .visit ?_ nofun _
  cases e with
  | int i s => exact Recorded.keeps_pure (hP.int _)
  | str t s => exact Recorded.keeps_pure (hP.str _)
  | bool b s => exact Recorded.keeps_pure (hP.bool _)
  | null s => exact Recorded.keeps_pure hP.null
  | ident x s => exact keeps_lift (keeps_resolve hP scope fun b hb => he.ident hb)
  | unary op e s =>
    exact (Expr.keeps_record hP n scope e (he.below .operand)).bind fun _ v _ _ =>
      keeps_lift (keeps_unaryApply hP op v)
  | binary l op r s =>
    refine (Expr.keeps_record hP n scope l (he.below .binary_left)).bind fun _ v _ _ => ?_
    exact (Expr.keeps_record hP _ scope r (he.below .binary_right)).bind fun _ w _ _ =>
      keeps_lift (keeps_binaryApply hP op v w)
  | cond test yes no s =>
    refine (Expr.keeps_record hP n scope test (he.below .test)).bind fun _ v _ _ => ?_
    split
    · refine (keeps_lift (Run.keeps_enter scope)).bind fun _ inner _ _ => ?_
      exact Stmt.keeps_recordAll hP _ inner hP.null yes fun s hs => he.below (.yes hs)
    · exact Stmt.keeps_recordElse hP _ scope no fun ss hss s hs => by
        subst hss
        exact he.below (.no hs)
  | array es s =>
    refine (Expr.keeps_recordItems hP n scope (by simp) es fun e hmem =>
      he.below (.item hmem)).bind fun _ vs _ hvs => ?_
    exact Recorded.keeps_pure (hP.array.2 fun v hv => hvs v (List.mem_toArray.1 hv))
  | hash ps s =>
    refine (Expr.keeps_recordPairs hP n scope Table.all_empty ps fun p hp =>
      ⟨he.below (.key hp), he.below (.value hp)⟩).bind fun _ t _ ht => ?_
    exact keeps_lift (Run.keeps_newTable hP ht)
  | index target subscript s =>
    refine (Expr.keeps_record hP n scope target (he.below .target)).bind fun _ v _ hv => ?_
    exact (Expr.keeps_record hP _ scope subscript (he.below .subscript)).bind fun _ w hle _ =>
      keeps_lift (keeps_at hP (hP.mono hv hle) w)
  | call callee args s =>
    refine (Expr.keeps_record hP n scope callee (he.below .callee)).bind fun _ f _ hf => ?_
    refine (Expr.keeps_recordItems hP _ scope (by simp) args fun e hmem =>
      he.below (.arg hmem)).bind fun n' vs hle hvs => ?_
    have hf' : P n' f := hP.mono hf hle
    refine (keeps_lift (keeps_apply hP hf' hvs)).visit ?_ scope
    rintro _ _ ⟨⟩
    exact hf'

theorem Expr.keeps_recordItems (hP : Value.Invariant can P) (n scope : Nat) {done : List Value}
    (hdone : ∀ v ∈ done, P n v) (es : List Expr) (hes : ∀ e ∈ es, e.NamesOnly can) :
    Recorded.Keeps can P n (Expr.recordItems scope done es : Recorded κ (List Value))
      fun n' vs => ∀ v ∈ vs, P n' v := by
  cases es with
  | nil => exact Recorded.keeps_pure fun v hv => hdone v (List.mem_reverse.1 hv)
  | cons e es =>
    obtain ⟨he, hes⟩ := List.forall_mem_cons.1 hes
    refine (Expr.keeps_record hP n scope e he).bind fun n' v hle hv => ?_
    refine Expr.keeps_recordItems hP n' scope ?_ es hes
    exact List.forall_mem_cons.2 ⟨hv, fun w hw => hP.mono (hdone w hw) hle⟩

theorem Expr.keeps_recordPairs (hP : Value.Invariant can P) (n scope : Nat) {t : Table}
    (ht : t.All (P n)) (ps : List (Expr × Expr))
    (hps : ∀ p ∈ ps, p.1.NamesOnly can ∧ p.2.NamesOnly can) :
    Recorded.Keeps can P n (Expr.recordPairs scope t ps : Recorded κ Table)
      fun n' t => t.All (P n') := by
  match ps with
  | [] => exact Recorded.keeps_pure ht
  | (k, e) :: ps =>
    obtain ⟨⟨hk, he⟩, hps⟩ := List.forall_mem_cons.1 hps
    refine (Expr.keeps_record hP n scope k hk).bind fun n₁ key hle₁ _ => ?_
    refine (Expr.keeps_record hP n₁ scope e he).bind fun n₂ v hle₂ hv => ?_
    split
    · refine Expr.keeps_recordPairs hP n₂ scope ?_ ps hps
      exact (ht.mono fun w hw => hP.mono hw (Nat.le_trans hle₁ hle₂)).insert _ hv
    · exact keeps_lift (Run.keeps_throw _)

theorem Stmt.keeps_record (hP : Value.Invariant can P) (n scope : Nat) (s : Stmt)
    (hs : s.value.NamesOnly can) : Recorded.Keeps can P n (s.record scope : Recorded κ Value) P := by
  rw [Stmt.record.eq_def]
  refine .visit ?_ nofun _
  cases s with
  | define x xs e s =>
    refine (Expr.keeps_record hP n scope e hs).bind fun _ v _ hv => ?_
    exact (keeps_lift (Run.keeps_define scope x hv)).bind fun _ _ _ _ =>
      Recorded.keeps_pure hP.null
  | expr e s => exact Expr.keeps_record hP n scope e hs

theorem Stmt.keeps_recordAll (hP : Value.Invariant can P) (n scope : Nat) {last : Value}
    (hlast : P n last) (ss : List Stmt) (hss : ∀ s ∈ ss, s.value.NamesOnly can) :
    Recorded.Keeps can P n (Stmt.recordAll scope last ss : Recorded κ Value) P := by
  cases ss with
  | nil => exact Recorded.keeps_pure hlast
  | cons s ss =>
    obtain ⟨hs, hss⟩ := List.forall_mem_cons.1 hss
    exact (Stmt.keeps_record hP n scope s hs).bind fun n' v _ hv =>
      Stmt.keeps_recordAll hP n' scope hv ss hss

theorem Stmt.keeps_recordElse (hP : Value.Invariant can P) (n scope : Nat) (no : Option (List Stmt))
    (hno : ∀ ss, no = some ss → ∀ s ∈ ss, s.value.NamesOnly can) :
    Recorded.Keeps can P n (Stmt.recordElse scope no : Recorded κ Value) P := by
  cases no with
  | none => exact Recorded.keeps_pure hP.null
  | some ss =>
    exact (keeps_lift (Run.keeps_enter scope)).bind fun n' inner _ _ =>
      Stmt.keeps_recordAll hP n' inner hP.null ss (hno ss rfl)

end

/-! ## Sessions -/

/-- The program names only some of the built-in functions. -/
def Program.NamesOnly (can : Builtin → Prop) (p : Program) : Prop :=
  ∀ s ∈ p.statements, s.value.NamesOnly can

variable (hP : Value.Invariant can P)

include hP

/-- A program that names only what it may keeps it at every visit. -/
theorem Program.keeps_record {p : Program} (hp : p.NamesOnly can) {m : Machine κ}
    (hm : m.Obeys can P) : (∀ v, Visit.Occurs (p.visits m) v → v.Obeys can P) ∧
      Obeying can P m.heap.size P (p.eval m) := by
  rw [← p.erase_record]
  exact Stmt.keeps_recordAll hP m.heap.size globalScope hP.null p.statements hp m hm rfl

namespace Machine

/-- The source, if it compiles, names only some of the built-in functions. -/
def SourceNames (can : Builtin → Prop) (source : String) : Prop :=
  ∀ p, compile source = .ok p → p.NamesOnly can

theorem Obeys.runSource {m : Machine κ} (hm : m.Obeys can P) {source : String}
    (hnames : SourceNames can source) :
    (∀ v, Visit.Occurs (m.visits source) v → v.Obeys can P) ∧
      (m.runSource source).2.Obeys can P := by
  unfold visits Machine.runSource
  cases hp : compile source with
  | error e => exact ⟨fun v hv => absurd hv Visit.not_occurs_nil, hm⟩
  | ok p =>
    obtain ⟨hvisits, hends⟩ := p.keeps_record hP (hnames p hp) hm
    refine ⟨hvisits, ?_⟩
    show (p.eval.outcome m).2.Obeys can P
    unfold Run.outcome
    cases hr : p.eval m <;> rw [hr] at hends <;> exact hends.1

/-- Sources that name only what they may keep a machine obeying, as do all visits that they make. -/
theorem Obeys.runSources {m : Machine κ} (hm : m.Obeys can P) {sources : List String}
    (hnames : ∀ source ∈ sources, SourceNames can source) :
    (∀ v, Visit.Occurs (m.visitsAll sources) v → v.Obeys can P) ∧
      (m.runSources sources).Obeys can P := by
  induction sources generalizing m with
  | nil => exact ⟨fun v hv => absurd hv Visit.not_occurs_nil, hm⟩
  | cons source sources ih =>
    obtain ⟨hsource, hsources⟩ := List.forall_mem_cons.1 hnames
    obtain ⟨hvisits, hafter⟩ := hm.runSource hP hsource
    obtain ⟨hvisits', hend⟩ := ih hafter hsources
    refine ⟨fun v hv => ?_, hend⟩
    exact (Visit.occurs_append.1 hv).elim (hvisits v) (hvisits' v)

end Machine

end MonkeyLang
