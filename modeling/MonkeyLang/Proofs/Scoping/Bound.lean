import MonkeyLang.Proofs.Running.ErrorFree
import MonkeyLang.Proofs.Scoping.Frames

/-!
# Names are found

A well-scoped program finds each name that it looks up (`Program.WellScoped.finds_names`).  What is
visible at a place in the program is bound in the scope in which the run is when it gets there, or
in one around it (`Machine.Serves`): a definition binds its name in that scope, a new scope shows
what the one around it binds, and when a block is left the scopes around it are as before it.

A fault that tells of a missing name could also come from an error that is stored somewhere, so the
machine must hold none; that it does not is known of every machine a program starts on.
-/

namespace MonkeyLang

namespace Scopes

/-- A definition is not seen under other names, in whatever scope. -/
theorem get?_define_of_ne (s : Scopes) (id id' : Nat) {x y : String} (hne : y ≠ x) (v : Value) :
    (s.define id x v).get? id' y = s.get? id' y := by
  induction id' using Nat.strongRecOn with
  | ind id' ih =>
    rw [get?_eq, get?_eq, frame_define]
    cases hf : s.frames[id']? with
    | none => split <;> rfl
    | some f =>
      obtain ⟨hid, rfl⟩ := Array.getElem?_eq_some_iff.1 hf
      have houter : (s.frames[id'].parent.bind fun p => (s.define id x v).get? p y) =
          s.frames[id'].parent.bind fun p => s.get? p y :=
        Option.bind_congr fun p hp => ih p (s.parent_lt id' p hid hp)
      split
      · simp [Std.TreeMap.getElem?_insert, Ne.symm hne, houter]
      · simp [houter]

end Scopes

variable {κ : Type}

/-! ## Faults -/

/-- What is put behind a text of two letters or more does not change the second one. -/
theorem second_append {s : String} {c : Char} (h : s.toList[1]? = some c) (t : String) :
    (s ++ t).toList[1]? = some c := by
  rw [String.toList_append, List.getElem?_append_left (List.getElem?_eq_some_iff.1 h).1, h]

namespace Fault

/-- All messages but that of a missing name can be told from it by the second letter. -/
theorem Own.second_message : {f : Fault} → f.Own → ∃ c, f.message.toList[1]? = some c ∧ c ≠ 'd'
  | unaryOperand _ _, _ =>
    have h : "unknown operator: ".toList[1]? = some 'n' := by decide
    ⟨'n', second_append (second_append h _) _, by decide⟩
  | operandsDiffer _ _ _, _ =>
    have h : "type mismatch: ".toList[1]? = some 'y' := by decide
    ⟨'y', second_append (second_append (second_append (second_append (second_append h _) _) _) _) _,
      by decide⟩
  | binaryOperand _ _, _ =>
    have h : "unknown operator: ".toList[1]? = some 'n' := by decide
    ⟨'n', second_append (second_append (second_append (second_append (second_append h _) _) _) _) _,
      by decide⟩
  | divisionByZero, _ => ⟨'i', by decide, by decide⟩
  | unhashable _, _ => ⟨'n', second_append (s := "unusable as hash key: ") (by decide) _, by decide⟩
  | notIndexable _, _ =>
    ⟨'n', second_append (s := "index operator not supported: ") (by decide) _, by decide⟩
  | notCallable _, _ => ⟨'o', second_append (s := "not a function: ") (by decide) _, by decide⟩
  | argumentCount _ _, _ =>
    have h : "wrong number of arguments. got=".toList[1]? = some 'r' := by decide
    ⟨'r', second_append (second_append (second_append h _) _) _, by decide⟩
  | argumentKind _ _ _, _ =>
    have h : "argument to `".toList[1]? = some 'r' := by decide
    ⟨'r', second_append (second_append (second_append (second_append (second_append h _) _) _) _) _,
      by decide⟩
  | noLength _, _ =>
    have h : "argument to `".toList[1]? = some 'r' := by decide
    ⟨'r', second_append (second_append (second_append h _) _) _, by decide⟩
  | inputExhausted, _ => ⟨'a', by decide, by decide⟩
  | invalidKey, _ => ⟨'n', by decide, by decide⟩
  | outOfBounds, _ => ⟨'n', by decide, by decide⟩

/-- No fault of an operation is taken for a missing name. -/
theorem Own.message_ne {f : Fault} (h : f.Own) (x : String) :
    f.message ≠ (unboundName x).message := by
  intro heq
  obtain ⟨c, hc, hne⟩ := h.second_message
  have hd : (unboundName x).message.toList[1]? = some 'd' :=
    second_append (s := "identifier not found: ") (by decide) x
  rw [heq, hd] at hc
  cases hc
  exact hne rfl

end Fault

/-! ## Places -/

/-- The machine holds no error, and each name that may be looked up at the place is bound there or
is that of a built-in function. -/
structure Machine.Serves (m : Machine κ) (c : Place) : Prop where
  clean : m.Clean
  scope_lt : c.left < m.scopes.size
  found {x : String} (hx : x ∈ c.visible) :
    (m.scopes.get? c.left x).isSome ∨ x ∈ Builtin.names

namespace Machine.Serves

variable {m m' : Machine κ} {c : Place}

/-- The machine may be changed as long as the scopes that there are stay. -/
theorem of_before (h : m.Serves c) (hclean : m'.Clean) (hbefore : m.scopes.Before m'.scopes) :
    m'.Serves c where
  clean := hclean
  scope_lt := Nat.lt_of_lt_of_le h.scope_lt hbefore.size_le
  found hx := by
    rw [hbefore.get? h.scope_lt]
    exact h.found hx

theorem enter (h : m.Serves c) (right : Nat) :
    Machine.Serves { m with scopes := (m.scopes.child c.left).2 }
      (c.inner m.scopes.size right) where
  clean := ⟨h.clean.heap, Scopes.All.push h.clean.scopes (some c.left)⟩
  scope_lt := by simp [Place.inner, Scopes.child, Scopes.push, Scopes.size]
  found hx := by
    show (Scopes.get? _ m.scopes.size _).isSome ∨ _
    rw [m.scopes.get?_child h.scope_lt]
    exact h.found hx

theorem define (h : m.Serves c) (x : String) {v : Value} (hv : v.ErrorFree) :
    Machine.Serves { m with scopes := m.scopes.define c.left x v } (c.define x) where
  clean := ⟨h.clean.heap, Scopes.All.define h.clean.scopes c.left x hv⟩
  scope_lt := by
    show c.left < (m.scopes.define c.left x v).size
    rw [Scopes.size_define]
    exact h.scope_lt
  found {y} hy := by
    show ((m.scopes.define c.left x v).get? c.left y).isSome ∨ _
    by_cases hyx : y = x
    · subst hyx
      rw [m.scopes.get?_define h.scope_lt]
      exact .inl rfl
    · rw [m.scopes.get?_define_of_ne _ _ hyx]
      exact h.found (Set.mem_of_mem_insert_of_ne hy hyx)

theorem of_define {x : String} (h : m.Serves (c.define x)) : m.Serves c :=
  ⟨h.clean, h.scope_lt, fun hx => h.found (Set.mem_insert_of_mem x hx)⟩

end Machine.Serves

/-! ## Runs -/

variable {α β : Type} {c : Place} {Q : α → Prop} {R : β → Prop}

/-- The run is over at the place that it began at, with a value that `Q` holds of, or with a fault
that has nothing to do with names. -/
def Serving (c : Place) (Q : α → Prop) : EStateM.Result Fault (Machine κ) α → Prop
  | .ok a m => m.Serves c ∧ Q a
  | .error f _ => f.Own

namespace Run

/-- The run finds the names that it looks up. -/
def Finds (c : Place) (x : Run κ α) (Q : α → Prop) : Prop := ∀ m, m.Serves c → Serving c Q (x m)

theorem Finds.bind {x : Run κ α} {f : α → Run κ β} (hx : Finds c x Q)
    (hf : ∀ a, Q a → Finds c (f a) R) : Finds c (x >>= f) R := by
  intro m hm
  have h := hx m hm
  cases hr : x m with
  | ok a m' =>
    rw [hr] at h
    rw [bind_of_ok hr]
    exact hf a h.2 m' h.1
  | error e m' =>
    rw [hr] at h
    rw [bind_of_error hr]
    exact h

/-- A step that fails never and leaves the scopes alone. -/
theorem finds_of_keeps {x : Run κ α} {Q : α → Prop}
    (hx : ∀ n, Keeps (fun _ => True) (fun _ v => v.ErrorFree) n x fun _ a => Q a)
    (hok : ∀ m, ∃ a m', x m = .ok a m' ∧ m'.scopes = m.scopes) : Finds c x Q := by
  intro m hm
  have h := hx _ m (Machine.clean_iff.1 hm.clean) rfl
  obtain ⟨a, m', hr, hscopes⟩ := hok m
  rw [hr] at h ⊢
  refine ⟨hm.of_before (Machine.clean_iff.2 h.1) ?_, h.2.2⟩
  rw [hscopes]
  exact .refl (Nat.le_refl _)

theorem finds_value {v : Value} (hv : v.ErrorFree) :
    Finds c (value v : Run κ Value) Value.ErrorFree := by
  intro m hm
  cases hv with
  | array h => exact ⟨hm, .array h⟩
  | _ => exact ⟨hm, by constructor⟩

theorem finds_get_bind {f : Machine κ → Run κ α} (h : ∀ m, m.Serves c → Serving c Q (f m m)) :
    Finds c (get >>= f) Q := h

/-- A name that is visible is found. -/
theorem finds_resolve {x : String} (hx : x ∈ c.visible) :
    Finds c (resolve c.left x : Run κ Value) Value.ErrorFree := by
  refine finds_get_bind fun m hm => ?_
  have hfound := hm.found hx
  cases hget : m.scopes.get? c.left x with
  | some v => exact finds_value (Scopes.All.get? hm.clean.scopes hget) m hm
  | none =>
    rw [hget] at hfound
    obtain ⟨b, hb⟩ := Option.isSome_iff_exists.1 (hfound.resolve_left (by simp))
    rw [hb]
    exact ⟨hm, .builtin⟩

variable [Console κ]

/-- The operations find their names, as they look up none. -/
theorem local_finds (c : Place) :
    Local (κ := κ) Value.ErrorFree fun _ x _ Q => Finds c x Q where
  values := Value.invariant_errorFree
  pure h := fun _ hm => ⟨hm, h⟩
  throw h := fun _ _ => h
  bind hx hf := hx.bind hf
  value hv := finds_value hv
  heap h := fun m hm => h m.heap (Machine.clean_iff.1 hm.clean).tables m hm
  newTable ht :=
    finds_of_keeps (fun _ => keeps_newTable Value.invariant_errorFree ht) fun _ => ⟨_, _, rfl, rfl⟩
  setEntry id k _ hv :=
    finds_of_keeps (fun _ => keeps_setEntry trivial id k hv) fun _ => ⟨_, _, rfl, rfl⟩
  writeLine line := finds_of_keeps (fun _ => keeps_writeLine line) fun _ => ⟨_, _, rfl, rfl⟩
  readLine prompt := finds_of_keeps (fun _ => keeps_readLine prompt) fun _ => ⟨_, _, rfl, rfl⟩

/-- Every part of a program that is closed finds its names. -/
theorem scoped_finds :
    Scoped (κ := κ) Value.ErrorFree (fun _ _ => True)
      fun c _ x _ Q => Finds c x Q where
  operations := local_finds
  resolve := finds_resolve
  block {c ss} h := by
    intro m hm
    have hspares := (Stmt.spares_block _ c.left ss).final (Nat.le_refl m.scopes.size)
    have hinner := h m.scopes.size 0 trivial _ (hm.enter 0)
    rw [enter_bind] at hspares ⊢
    cases hr : Stmt.evalAll m.scopes.size .null ss
        { m with scopes := (m.scopes.child c.left).2 } with
    | ok v m' =>
      rw [hr] at hinner hspares
      exact ⟨hm.of_before hinner.1.clean hspares, hinner.2⟩
    | error f m' =>
      rw [hr] at hinner
      exact hinner
  define {c} _ x v hv α y y' Q h := by
    intro m hm
    have hbehind := h _ (hm.define x hv)
    rw [define_bind]
    cases hr : y { m with scopes := m.scopes.define c.left x v } with
    | ok a m' =>
      rw [hr] at hbehind
      exact ⟨hbehind.1.of_define, hbehind.2⟩
    | error f m' =>
      rw [hr] at hbehind
      exact hbehind

end Run

/-! ## Top theorem -/

variable [Console κ]

namespace Program

/-- No name is missing in a well-scoped program: what a host gets for a run of it on a new machine,
whatever there is to read, is not the error that tells of one. -/
theorem WellScoped.finds_names {p : Program} (hp : p.WellScoped) (console : κ) (x : String) :
    Value.ofOutcome (p.eval.outcome (.start console)).1 ≠
      .error ("identifier not found: " ++ x) := by
  have hserves : (Machine.start console).Serves ⟨globalScope, globalScope, Builtin.names⟩ :=
    ⟨Machine.clean_start console, Nat.zero_lt_one, .inr⟩
  have h := Run.scoped_finds.stmts ⟨globalScope, globalScope, Builtin.names⟩ trivial
    Value.ErrorFree.null p.statements hp _ hserves
  change Serving _ _ (p.eval (Machine.start console)) at h
  unfold Run.outcome
  cases hr : p.eval (Machine.start console) with
  | ok v m =>
    rw [hr] at h
    rintro rfl
    cases h.2
  | error f m =>
    rw [hr] at h
    intro heq
    exact h.message_ne x (Value.error.inj heq)

/-- A name that means a built-in function until it is defined, and one that is defined again in a
block. -/
theorem finds_names_of_shadowed :
    let a : Span := ⟨0, 0⟩
    let block : List Stmt := [.define "x" a (.call (.ident "len" a) [.ident "x" a] a) a,
      .define "len" a (.ident "x" a) a, .expr (.ident "len" a) a]
    let p : Program := ⟨[.define "x" a (.str "ab" a) a,
      .expr (.cond (.ident "x" a) block (some [.expr (.ident "x" a) a]) a) a,
      .define "len" a (.call (.ident "len" a) [.ident "x" a, .ident "len" a] a) a]⟩
    p.WellScoped ∧ ∀ x, Value.ofOutcome (p.eval.outcome (.start ({} : Transcript))).1 ≠
      .error ("identifier not found: " ++ x) := by
  intro a block p
  have hp : p.WellScoped := by decide
  exact ⟨hp, hp.finds_names _⟩

/-- What a block defines is not there behind it, nor a name in its own definition. -/
example :
    let a : Span := ⟨0, 0⟩
    ¬ WellScoped ⟨[.expr (.cond (.bool true a) [.define "x" a (.int 1 a) a] none a) a,
      .expr (.ident "x" a) a]⟩ ∧
    ¬ WellScoped ⟨[.define "x" a (.ident "x" a) a]⟩ := by decide

end Program

end MonkeyLang
