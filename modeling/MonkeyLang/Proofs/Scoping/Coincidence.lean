import MonkeyLang.Proofs.Scoping.Bound

/-!
# Runs in different scopes

What an expression does depends on the scope it is evaluated in only through the values of the names
that stand in it (`Expr.eval_coincides`).  Two machines match at a place if they have the same
tables and the same console, and each name that is visible there has the same value on both; the
scopes may lie in each other in any way.  Operations do not look at scopes.  A block opens a scope
on either machine, where what is visible is as around it, and a definition in there is made on both;
when the block is left, the scopes around it are as they were (`Stmt.spares_block`), so the machines
match again at the place outside.
-/

namespace MonkeyLang

namespace Scopes

variable {s s' : Scopes} {id id' : Nat} {x y : String}

/-- A copy of a scope shows what the scope itself does. -/
theorem get?_clone (s : Scopes) {id : Nat} (hid : id < s.size) (x : String) :
    (s.clone id).2.get? s.size x = s.get? id x := by
  have hid : id < s.frames.size := hid
  have hparent : s.frames[id].parent.filter (· < s.frames.size) = s.frames[id].parent := by
    cases hp : s.frames[id].parent with
    | none => rfl
    | some p => simp [Option.filter, Nat.lt_trans (s.parent_lt id p hid hp) hid]
  have hframe : (s.clone id).2.frames[s.size]? = some s.frames[id] := by
    simp [clone, push, size, Array.getD, hid, hparent]
  rw [get?_eq, hframe, get?_eq s, Array.getElem?_eq_getElem hid, Option.bind_some, Option.bind_some]
  congr 1
  exact Option.bind_congr fun p hp =>
    s.get?_push_of_lt _ _ (Nat.lt_trans (s.parent_lt id p hid hp) hid) x

/-- The same definition in both scopes. -/
theorem get?_define_congr (hid : id < s.size) (hid' : id' < s'.size) (v : Value)
    (h : y ≠ x → s.get? id y = s'.get? id' y) :
    (s.define id x v).get? id y = (s'.define id' x v).get? id' y := by
  by_cases hyx : y = x
  · subst hyx
    rw [get?_define s hid, get?_define s' hid']
  · rw [get?_define_of_ne s _ _ hyx, get?_define_of_ne s' _ _ hyx, h hyx]

end Scopes

variable {κ : Type}

/-! ## Machines -/

/-- The machines have the same tables and the same console, and each of them the same value for what
is visible at the place. -/
structure Machine.Matches (c : Place) (m m' : Machine κ) : Prop where
  heap : m.heap = m'.heap
  console : m.console = m'.console
  left_lt : c.left < m.scopes.size
  right_lt : c.right < m'.scopes.size
  agree {x : String} (hx : x ∈ c.visible) : m.scopes.get? c.left x = m'.scopes.get? c.right x

namespace Machine.Matches

variable {c : Place} {m m' u u' : Machine κ}

/-- The machines may be changed alike as long as the scopes that there are stay. -/
theorem of_before (h : m.Matches c m') (hheap : u.heap = u'.heap)
    (hconsole : u.console = u'.console) (hbefore : m.scopes.Before u.scopes)
    (hbefore' : m'.scopes.Before u'.scopes) : u.Matches c u' where
  heap := hheap
  console := hconsole
  left_lt := Nat.lt_of_lt_of_le h.left_lt hbefore.size_le
  right_lt := Nat.lt_of_lt_of_le h.right_lt hbefore'.size_le
  agree hx := by rw [hbefore.get? h.left_lt, hbefore'.get? h.right_lt, h.agree hx]

theorem enter (h : m.Matches c m') :
    Machine.Matches (c.inner m.scopes.size m'.scopes.size)
      { m with scopes := (m.scopes.child c.left).2 }
      { m' with scopes := (m'.scopes.child c.right).2 } where
  heap := h.heap
  console := h.console
  left_lt := by simp [Place.inner, Scopes.child, Scopes.push, Scopes.size]
  right_lt := by simp [Place.inner, Scopes.child, Scopes.push, Scopes.size]
  agree {x} hx := by
    show Scopes.get? _ m.scopes.size x = Scopes.get? _ m'.scopes.size x
    rw [m.scopes.get?_child h.left_lt, m'.scopes.get?_child h.right_lt]
    exact h.agree hx

theorem define (h : m.Matches c m') (x : String) (v : Value) :
    Machine.Matches (c.define x) { m with scopes := m.scopes.define c.left x v }
      { m' with scopes := m'.scopes.define c.right x v } where
  heap := h.heap
  console := h.console
  left_lt := by
    show c.left < (m.scopes.define c.left x v).size
    rw [Scopes.size_define]
    exact h.left_lt
  right_lt := by
    show c.right < (m'.scopes.define c.right x v).size
    rw [Scopes.size_define]
    exact h.right_lt
  agree hy := Scopes.get?_define_congr h.left_lt h.right_lt v fun hne =>
    h.agree (Set.mem_of_mem_insert_of_ne hy hne)

theorem of_define {x : String} (h : m.Matches (c.define x) m') : m.Matches c m' :=
  ⟨h.heap, h.console, h.left_lt, h.right_lt, fun hx => h.agree (Set.mem_insert_of_mem x hx)⟩

end Machine.Matches

/-! ## Runs -/

variable {α β : Type} {c : Place} {Q : α → Prop} {R : β → Prop}

/-- The same value, and the machines match, or the same fault, and tables and console are still the
same. -/
inductive EndsMatching (c : Place) (Q : α → Prop) :
    EStateM.Result Fault (Machine κ) α → EStateM.Result Fault (Machine κ) α → Prop
  | ok {a : α} {m m' : Machine κ} (h : m.Matches c m') (ha : Q a) :
      EndsMatching c Q (.ok a m) (.ok a m')
  | error {f : Fault} {m m' : Machine κ} (hheap : m.heap = m'.heap)
      (hconsole : m.console = m'.console) : EndsMatching c Q (.error f m) (.error f m')

/-- The same outcome, the same tables and the same console. -/
structure Run.Alike (r r' : Except Fault α × Machine κ) : Prop where
  result : r.1 = r'.1
  heap : r.2.heap = r'.2.heap
  console : r.2.console = r'.2.console

theorem EndsMatching.alike {x x' : Run κ α} {m m' : Machine κ}
    (h : EndsMatching c Q (x m) (x' m')) : Run.Alike (x.outcome m) (x'.outcome m') := by
  unfold Run.outcome
  generalize x m = r at h
  generalize x' m' = r' at h
  cases h with
  | ok h _ => exact ⟨rfl, h.heap, h.console⟩
  | error hheap hconsole => exact ⟨rfl, hheap, hconsole⟩

namespace Run

/-- On machines that match at the place, both runs come to the same. -/
def Coincide (c : Place) (x x' : Run κ α) (Q : α → Prop) : Prop :=
  ∀ m m', m.Matches c m' → EndsMatching c Q (x m) (x' m')

theorem Coincide.bind {x x' : Run κ α} {f f' : α → Run κ β} (hx : Coincide c x x' Q)
    (hf : ∀ a, Q a → Coincide c (f a) (f' a) R) : Coincide c (x >>= f) (x' >>= f') R := by
  intro m m' hm
  have h := hx m m' hm
  show EndsMatching c R (EStateM.bind x f m) (EStateM.bind x' f' m')
  unfold EStateM.bind
  generalize x m = r at h
  generalize x' m' = r' at h
  cases h with
  | ok h ha => exact hf _ ha _ _ h
  | error hheap hconsole => exact .error hheap hconsole

/-- A step that takes tables and console from one state to another, and leaves the scopes alone. -/
theorem coincide_of_step {x : Run κ α} (step : Heap → κ → α × Heap × κ)
    (hx : ∀ m, x m = .ok (step m.heap m.console).1
      { m with heap := (step m.heap m.console).2.1, console := (step m.heap m.console).2.2 })
    (hQ : ∀ a, Q a) : Coincide c x x Q := by
  intro m m' hm
  rw [hx m, hx m', hm.heap, hm.console]
  exact .ok (hm.of_before rfl rfl (.refl (Nat.le_refl _)) (.refl (Nat.le_refl _))) (hQ _)

theorem coincide_value (v : Value) :
    Coincide c (value v : Run κ Value) (value v) fun _ => True := by
  intro m m' hm
  cases v with
  | error e => exact .error hm.heap hm.console
  | _ => exact .ok hm trivial

theorem coincide_get_bind {f f' : Machine κ → Run κ α}
    (h : ∀ m m', m.Matches c m' → EndsMatching c Q (f m m) (f' m' m')) :
    Coincide c (get >>= f) (get >>= f') Q := h

/-- A visible name stands for the same value at both places. -/
theorem coincide_resolve {x : String} (hx : x ∈ c.visible) :
    Coincide c (resolve c.left x : Run κ Value) (resolve c.right x) fun _ => True := by
  refine coincide_get_bind fun m m' hm => ?_
  rw [hm.agree hx]
  cases m'.scopes.get? c.right x with
  | some v => exact coincide_value v m m' hm
  | none =>
    cases Builtin.ofName? x with
    | some b => exact .ok hm trivial
    | none => exact .error hm.heap hm.console

variable [Console κ]

/-- The operations come to the same wherever they are carried out. -/
theorem local_coincide (c : Place) :
    Local (κ := κ) (fun _ => True) fun _ => Coincide c where
  values := Value.invariant_true
  pure h := fun _ _ hm => .ok hm h
  throw _ := fun _ _ hm => .error hm.heap hm.console
  bind hx hf := hx.bind hf
  value {v} _ := coincide_value v
  heap {_ f f' _} h := fun m m' hm => by
    have hf := h m.heap (fun _ _ _ _ => trivial) m m' hm
    show EndsMatching c _ (f m.heap m) (f' m'.heap m')
    rwa [← hm.heap]
  newTable {t} _ := coincide_of_step (fun heap console =>
    (.table (heap.alloc t).1, (heap.alloc t).2, console)) (fun _ => rfl) fun _ => trivial
  setEntry id k v _ := coincide_of_step (fun heap console =>
    ((), heap.insert id k v, console)) (fun _ => rfl) fun _ => trivial
  writeLine line := coincide_of_step (fun heap console =>
    ((), heap, Console.writeLine console line)) (fun _ => rfl) fun _ => trivial
  readLine prompt := coincide_of_step (fun heap console =>
    ((Console.readLine console prompt).1, heap, (Console.readLine console prompt).2))
    (fun _ => rfl) fun _ => trivial

theorem scoped_coincide :
    Scoped (κ := κ) (fun _ => True) (fun _ _ => True) fun c _ => Coincide c where
  operations := local_coincide
  resolve := coincide_resolve
  block {c ss} h := by
    intro m m' hm
    have hspares := (Stmt.spares_block _ c.left ss).final (Nat.le_refl m.scopes.size)
    have hspares' := (Stmt.spares_block _ c.right ss).final (Nat.le_refl m'.scopes.size)
    have hinner := h m.scopes.size m'.scopes.size trivial _ _ hm.enter
    rw [enter_bind] at hspares hspares' ⊢
    rw [enter_bind]
    generalize Stmt.evalAll m.scopes.size .null ss
      { m with scopes := (m.scopes.child c.left).2 } = r at hinner hspares
    generalize Stmt.evalAll m'.scopes.size .null ss
      { m' with scopes := (m'.scopes.child c.right).2 } = r' at hinner hspares'
    cases hinner with
    | ok h _ => exact .ok (hm.of_before h.heap h.console hspares hspares') trivial
    | error hheap hconsole => exact .error hheap hconsole
  define {c} _ x v _ α y y' Q h := by
    intro m m' hm
    have hbehind := h _ _ (hm.define x v)
    rw [define_bind, define_bind]
    generalize y { m with scopes := m.scopes.define c.left x v } = r at hbehind
    generalize y' { m' with scopes := m'.scopes.define c.right x v } = r' at hbehind
    cases hbehind with
    | ok h ha => exact .ok h.of_define ha
    | error hheap hconsole => exact .error hheap hconsole

end Run

/-! ## Top theorem -/

variable [Console κ]

namespace Expr

/-- Where the names of an expression stand for the same values, the expression does the same. -/
theorem alike_of_agree (e : Expr) {m m' : Machine κ} {scope scope' : Nat}
    (hscope : scope < m.scopes.size) (hscope' : scope' < m'.scopes.size)
    (hheap : m.heap = m'.heap) (hconsole : m.console = m'.console)
    (hagree : ∀ x, e.Names x → m.scopes.get? scope x = m'.scopes.get? scope' x) :
    Run.Alike ((e.eval scope).outcome m) ((e.eval scope').outcome m') := by
  have hclosed : e.Closed {x | e.Names x} := e.closed_of_names fun _ hx => hx
  have hm : m.Matches ⟨scope, scope', {x | e.Names x}⟩ m' :=
    ⟨hheap, hconsole, hscope, hscope', fun hx => hagree _ hx⟩
  exact (Run.scoped_coincide.expr _ e hclosed m m' hm).alike

/-- An expression comes to the same, with the same tables and the same console at the end, in any
two scopes that have the same values for the names that stand in it.  So it does in a new scope that
lies in its own, in a copy of its own, and when a name that does not stand in it has been defined,
in whatever scope. -/
theorem eval_coincides (e : Expr) (m : Machine κ) {scope : Nat} (hscope : scope < m.scopes.size) :
    (∀ (m' : Machine κ) (scope' : Nat), scope' < m'.scopes.size → m.heap = m'.heap →
      m.console = m'.console →
      (∀ x, e.Names x → m.scopes.get? scope x = m'.scopes.get? scope' x) →
      Run.Alike ((e.eval scope).outcome m) ((e.eval scope').outcome m')) ∧
    Run.Alike ((e.eval scope).outcome m)
      ((e.eval (m.scopes.child scope).1).outcome { m with scopes := (m.scopes.child scope).2 }) ∧
    Run.Alike ((e.eval scope).outcome m)
      ((e.eval (m.scopes.clone scope).1).outcome { m with scopes := (m.scopes.clone scope).2 }) ∧
    ∀ id x v, ¬ e.Names x →
      Run.Alike ((e.eval scope).outcome m)
        ((e.eval scope).outcome { m with scopes := m.scopes.define id x v }) := by
  have hnew (vars : Bindings) (parent : Option Nat) :
      m.scopes.size < (m.scopes.push vars parent).size := by
    simp [Scopes.push, Scopes.size]
  refine ⟨fun m' scope' hscope' => e.alike_of_agree hscope hscope', ?_, ?_, ?_⟩
  · exact e.alike_of_agree hscope (hnew _ _) rfl rfl fun x _ => (m.scopes.get?_child hscope x).symm
  · exact e.alike_of_agree hscope (hnew _ _) rfl rfl fun x _ => (m.scopes.get?_clone hscope x).symm
  · intro id x v hx
    refine e.alike_of_agree hscope ?_ rfl rfl fun y hy => ?_
    · rwa [Scopes.size_define]
    · refine (m.scopes.get?_define_of_ne id scope ?_ v).symm
      rintro rfl
      exact hx hy

/-- A block with a definition in it, in a scope that lies in no other and in one that hides another
value of the same name; and when a name has been defined that the block does not use. -/
theorem eval_coincides_of_hidden :
    let a : Span := ⟨0, 0⟩
    let block : List Stmt := [.define "y" a (.ident "x" a) a, .expr (.ident "y" a) a]
    let e : Expr := .cond (.ident "x" a) block none a
    let n : Machine Transcript := Machine.start {}
    let s := n.scopes
    let m := { n with scopes := s.define 0 "x" (.int 1) }
    let m' := { n with scopes := ((s.define 0 "x" (.int 5)).child 0).2.define 1 "x" (.int 1) }
    0 < m.scopes.size ∧ 1 < m'.scopes.size ∧ ¬ e.Names "z" ∧
      (∀ x, e.Names x → m.scopes.get? 0 x = m'.scopes.get? 1 x) ∧
      Run.Alike ((e.eval 0).outcome m) ((e.eval 1).outcome m') ∧
      Run.Alike ((e.eval 0).outcome m)
        ((e.eval 0).outcome { m with scopes := m.scopes.define 0 "z" .null }) := by
  intro a block e n s m m'
  have hscope : 0 < m.scopes.size := by decide
  have hscope' : 1 < m'.scopes.size := by decide
  have hagree (x : String) : m.scopes.get? 0 x = m'.scopes.get? 1 x := by
    refine Scopes.get?_define_congr (by decide) (by decide) (.int 1) fun hne => ?_
    have hroot : 0 < (s.define 0 "x" (.int 5)).size := by decide
    have hchild := Scopes.get?_child _ hroot x
    exact (s.get?_define_of_ne 0 0 hne (.int 5)).symm.trans hchild.symm
  have hname : ¬ e.Names "z" := by
    intro (hz : Names (.cond (.ident "x" a) block none a) "z")
    rcases names_iff.1 hz with ⟨_, ⟨⟩⟩ | ⟨_, f, hb, hf⟩
    cases hb with
    | test => exact absurd (names_ident.1 hf) (by decide)
    | yes hs =>
      rcases List.mem_cons.1 hs with rfl | hs
      · exact absurd (names_ident.1 hf) (by decide)
      · obtain rfl := List.mem_singleton.1 hs
        exact absurd (names_ident.1 hf) (by decide)
  obtain ⟨hsame, -, -, hdefine⟩ := e.eval_coincides m hscope
  exact ⟨hscope, hscope', hname, fun x _ => hagree x,
    hsame m' 1 hscope' rfl rfl fun x _ => hagree x, hdefine 0 "z" .null hname⟩

end Expr

end MonkeyLang
