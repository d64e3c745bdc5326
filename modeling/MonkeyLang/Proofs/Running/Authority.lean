import MonkeyLang.Proofs.Data.Reach
import MonkeyLang.Proofs.Parsing.Subtexts
import MonkeyLang.Proofs.Running.Agreement
import MonkeyLang.Proofs.Running.Invariants
import MonkeyLang.Proofs.Running.Traces

/-!
# Effects need a name

What a program does besides giving a result, it does by a call of a built-in function: it writes by
`puts`, reads by `stdin_read` and changes a table by `object_set`.  These functions are values, and
can be put anywhere a value can, but the first one to have such a function has it by its name.  So
a session in which the name does not occur has none of the values (`Value.Within`), does not call
the function, and is without the effect (`Machine.effects_need_names`).

What happens on the console is noted beside it (`Logged`).  As long as no table is changed, what a
table holds was there before it, and so no table holds itself, however far down (`Heap.Acyclic`).
-/

namespace MonkeyLang

open Visit (CallsOnly)
open Console (Event)

/-! ## Values in reach -/

/-- The built-in functions in the value are among those that `can` has, and the tables among the
first `n`. -/
inductive Value.Within (can : Builtin → Prop) (n : Nat) : Value → Prop
  | int {i : Int64} : Within can n (.int i)
  | str {s : String} : Within can n (.str s)
  | bool {b : Bool} : Within can n (.bool b)
  | null : Within can n .null
  | array {vs : Array Value} (h : ∀ v ∈ vs, Within can n v) : Within can n (.array vs)
  | table {id : Nat} (h : id < n) : Within can n (.table id)
  | error {m : String} : Within can n (.error m)
  | builtin {b : Builtin} (h : can b) : Within can n (.builtin b)

namespace Value.Within

variable {can : Builtin → Prop} {n : Nat}

theorem mono {n' : Nat} {v : Value} (h : Within can n v) (hn : n ≤ n') : Within can n' v := by
  induction h with
  | array _ ih => exact .array ih
  | table h => exact .table (Nat.lt_of_lt_of_le h hn)
  | builtin h => exact .builtin h
  | int => exact .int
  | str => exact .str
  | bool => exact .bool
  | null => exact .null
  | error => exact .error

theorem array_iff {vs : Array Value} : Within can n (.array vs) ↔ ∀ v ∈ vs, Within can n v := by
  refine ⟨fun h => ?_, .array⟩
  cases h with
  | array h => exact h

theorem builtin_iff {b : Builtin} : Within can n (.builtin b) ↔ can b := by
  refine ⟨fun h => ?_, .builtin⟩
  cases h with
  | builtin h => exact h

/-- The bounds are kept by everything that a program does with values. -/
theorem invariant : Value.Invariant can (Within can) where
  mono := mono
  int _ := .int
  str _ := .str
  bool _ := .bool
  null := .null
  array := array_iff
  table := .table
  builtin := builtin_iff

end Value.Within

/-! ## Older and older tables -/

/-- A table in such a value is one of the first `n`. -/
theorem Value.Within.lt_of_holds {can : Builtin → Prop} {n id : Nat} {v : Value}
    (hv : v.Within can n) (h : v.Holds id) : id < n := by
  induction h with
  | table =>
    cases hv with
    | table h => exact h
  | item hmem _ ih => exact ih (array_iff.1 hv _ hmem)

/-- Without `object_set` no table comes to hold itself. -/
theorem Machine.Obeys.acyclic {κ : Type} {can : Builtin → Prop} {m : Machine κ}
    (hm : m.Obeys can (Value.Within can)) (h : ¬ can .objectSet) : m.heap.Acyclic := by
  refine Heap.acyclic_of_lt fun id id' hid => ?_
  obtain ⟨k, v, hget, hv⟩ := hid
  exact (hm.settled h id k v hget).lt_of_holds hv

/-! ## Events -/

/-- The event comes from a function that may be called. -/
def Console.Event.By (can : Builtin → Prop) : Event → Prop
  | wrote _ => can .puts
  | read _ _ => can .stdinRead

variable {κ κ' : Type} [Console κ] [Console κ'] {can : Builtin → Prop}

/-- More has happened on the console, and nothing that may not; and if tables may not be changed,
none has been. -/
structure Machine.Later (can : Builtin → Prop) (m m' : Machine (Logged κ)) : Prop where
  events : ∃ es, m'.console.events = m.console.events ++ es ∧ ∀ e ∈ es, Event.By can e
  heap (h : ¬ can .objectSet) : m.heap.Before m'.heap

namespace Machine.Later

omit [Console κ] in
theorem of_eq {m m' : Machine (Logged κ)} (hconsole : m'.console = m.console)
    (hheap : ¬ can .objectSet → m.heap.Before m'.heap) : Later can m m' where
  events := ⟨[], by rw [hconsole, List.append_nil], by simp⟩
  heap := hheap

omit [Console κ] in
theorem trans {m₁ m₂ m₃ : Machine (Logged κ)} (h : Later can m₁ m₂) (h' : Later can m₂ m₃) :
    Later can m₁ m₃ where
  events := by
    obtain ⟨es, hes, hby⟩ := h.events
    obtain ⟨es', hes', hby'⟩ := h'.events
    refine ⟨es ++ es', by rw [hes', hes, List.append_assoc], fun e he => ?_⟩
    exact (List.mem_append.1 he).elim (hby e) (hby' e)
  heap hset := (h.heap hset).trans (h'.heap hset)

/-- Every step of a run makes for a later machine. -/
theorem steps : Steps can (Later (κ := κ) can) where
  refl m := of_eq rfl fun _ => .refl m.heap
  trans := trans
  scopes m _ := of_eq rfl fun _ => .refl m.heap
  alloc m t := of_eq rfl fun _ => m.heap.before_alloc t
  insert h _ _ _ _ := of_eq rfl fun hset => absurd h hset
  writeLine h m line :=
    ⟨⟨[.wrote line], rfl, List.forall_mem_singleton.2 h⟩, fun _ => .refl m.heap⟩
  readLine h m prompt :=
    ⟨⟨[.read prompt _], rfl, List.forall_mem_singleton.2 h⟩, fun _ => .refl m.heap⟩

end Machine.Later

/-! ## Sessions -/

/-- The name stands somewhere in one of the sources, as an expression. -/
def Mentions (sources : List String) (name : String) : Prop :=
  ∃ source ∈ sources, ∃ p a, compile source = .ok p ∧ p.HasExpr (.ident name a)

/-- A session names, of the built-in functions, those that it mentions. -/
theorem sourceNames_of_mem {sources : List String} {source : String} (h : source ∈ sources) :
    Machine.SourceNames (fun b => Mentions sources b.name) source := by
  intro p hp s hs w x a hpath b hb
  rw [Builtin.ofName?_eq_some] at hb
  rw [hb]
  exact ⟨source, h, p, a, hp, s, hs, w, hpath⟩

namespace Machine

/-- A new machine on a console that nothing has happened on yet. -/
def startLogged (console : κ) : Machine (Logged κ) := .start { console }

variable (console : κ) (sources : List String)

/-- A session goes by what it mentions, at every visit and in the end. -/
theorem obeys_visitsAll :
    (∀ v, Visit.Occurs ((startLogged console).visitsAll sources) v →
      v.Obeys (fun b => Mentions sources b.name) (Value.Within fun b => Mentions sources b.name)) ∧
    ((startLogged console).runSources sources).Obeys (fun b => Mentions sources b.name)
      (Value.Within fun b => Mentions sources b.name) :=
  (obeys_start _).runSources Value.Within.invariant fun _ h => sourceNames_of_mem h

/-- Only functions that are mentioned are called. -/
theorem callsOnly_visitsAll : CallsOnly (fun b => Mentions sources b.name)
    ((startLogged console).visitsAll sources) := by
  intro v b args hv hnode
  exact Value.Within.builtin_iff.1 (((obeys_visitsAll console sources).1 v hv).callee hnode)

theorem obeys_of_mem_trace {m : Machine (Logged κ)}
    (hm : m ∈ (startLogged console).trace sources) :
    m.Obeys (fun b => Mentions sources b.name) (Value.Within fun b => Mentions sources b.name) := by
  obtain ⟨hvisits, hend⟩ := obeys_visitsAll console sources
  rcases List.mem_cons.1 hm with rfl | hm
  · exact obeys_start _
  · rcases List.mem_append.1 hm with hm | hm
    · obtain ⟨w, hw, rfl | rfl⟩ := Visit.exists_of_mem_machinesAll _ hm
      · exact (hvisits w hw).before
      · -- a visit obeys up to its end, be that a value or a fault
        have hresult := (hvisits w hw).result
        rw [Visit.after_eq]
        cases hr : w.result <;> rw [hr] at hresult <;> exact hresult.1
    · rw [List.mem_singleton.1 hm]
      exact hend

/-- What is noted comes from functions that are mentioned. -/
theorem by_of_mem_trace {m : Machine (Logged κ)} (hm : m ∈ (startLogged console).trace sources)
    {e : Event} (he : e ∈ m.console.events) : e.By fun b => Mentions sources b.name := by
  have hlater := Later.steps.of_mem_trace (callsOnly_visitsAll console sources) hm
  obtain ⟨es, hes, hby⟩ := hlater.events
  rw [hes] at he
  exact hby e (he : e ∈ [] ++ es)

/-- Where nothing is read, the same is written whatever the console. -/
theorem simulates_of_not_read (h : ¬ can .stdinRead) :
    Console.Simulates can fun (c : Logged κ) (c' : Logged κ') => c.events = c'.events where
  writeLine _ hR line := congrArg (· ++ [Event.wrote line]) hR
  readLine hread := absurd hread h

/-- What the sources do not name they do not do.  Without `puts` nothing is written.  Without
`stdin_read` there is no prompt and nothing is read, and the results, the machine and what is
written are the same on all consoles.  Without `object_set` a table stays as it was made, and no
table holds itself.  That the console is noted makes no difference to any of it. -/
theorem effects_need_names :
    let start := startLogged console
    (start.results sources = (Machine.start console).results sources ∧
      (start.runSources sources).Alike (fun c c' => c.console = c')
        ((Machine.start console).runSources sources)) ∧
    (¬ Mentions sources "puts" →
      ∀ m ∈ start.trace sources, ∀ line, .wrote line ∉ m.console.events) ∧
    (¬ Mentions sources "stdin_read" →
      (∀ m ∈ start.trace sources, ∀ prompt answer, .read prompt answer ∉ m.console.events) ∧
      ∀ (τ : Type) [Console τ] (other : τ),
        start.results sources = (startLogged other).results sources ∧
          (start.runSources sources).Alike (fun c c' => c.events = c'.events)
            ((startLogged other).runSources sources)) ∧
    (¬ Mentions sources "object_set" →
      (start.trace sources).Pairwise (fun m m' => m.heap.Before m'.heap) ∧
      ∀ m ∈ start.trace sources, m.heap.Acyclic) := by
  intro start
  have hcalls := callsOnly_visitsAll console sources
  refine ⟨?_, fun hputs m hm line hline => ?_, fun hread => ⟨fun m hm prompt answer he => ?_, ?_⟩,
    fun hset => ⟨?_, fun m hm => ?_⟩⟩
  · exact Alike.runSources (Logged.simulates _) ⟨rfl, rfl, rfl⟩ hcalls
  · exact hputs (by_of_mem_trace console sources hm hline)
  · exact hread (by_of_mem_trace console sources hm he)
  · intro τ _ other
    have hm : start.Alike (fun c (c' : Logged τ) => c.events = c'.events) (startLogged other) :=
      ⟨rfl, rfl, rfl⟩
    exact hm.runSources (simulates_of_not_read hread) hcalls
  · exact (Later.steps.pairwise_trace hcalls).imp fun h => h.heap hset
  · exact (obeys_of_mem_trace console sources hm).acyclic hset

theorem eq_of_path_ident {x y : String} {a b : Span} {w : List Descent}
    (h : Expr.Path (.ident y b) w (.ident x a)) : x = y := by
  cases h with
  | nil => rfl
  | cons hb _ => cases hb

/-- A function is put under a name and into an array, and called from there. -/
theorem effects_need_names_of_len :
    let source := "let f = [len]; f[0](f)"
    let start := startLogged ({} : Transcript)
    ¬ Mentions [source] "puts" ∧ ¬ Mentions [source] "stdin_read" ∧
      ¬ Mentions [source] "object_set" ∧
      (∀ m ∈ start.trace [source], ∀ line, .wrote line ∉ m.console.events) ∧
      (∀ m ∈ start.trace [source], ∀ prompt answer, .read prompt answer ∉ m.console.events) ∧
      ∀ m ∈ start.trace [source], m.heap.Acyclic := by
  intro source start
  let items : Expr := .array [.ident "len" ⟨9, 12⟩] ⟨8, 13⟩
  let callee : Expr := .index (.ident "f" ⟨15, 16⟩) (.int 0 ⟨17, 18⟩) ⟨15, 19⟩
  let p : Program := ⟨[.define "f" ⟨4, 5⟩ items ⟨0, 14⟩,
    .expr (.call callee [.ident "f" ⟨20, 21⟩] ⟨15, 22⟩) ⟨15, 22⟩]⟩
  have hscan : Token.scan source = .ok [⟨.letWord, ⟨0, 3⟩⟩, ⟨.ident "f", ⟨4, 5⟩⟩,
      ⟨.assign, ⟨6, 7⟩⟩, ⟨.lbracket, ⟨8, 9⟩⟩, ⟨.ident "len", ⟨9, 12⟩⟩, ⟨.rbracket, ⟨12, 13⟩⟩,
      ⟨.semi, ⟨13, 14⟩⟩, ⟨.ident "f", ⟨15, 16⟩⟩, ⟨.lbracket, ⟨16, 17⟩⟩, ⟨.int 0, ⟨17, 18⟩⟩,
      ⟨.rbracket, ⟨18, 19⟩⟩, ⟨.lparen, ⟨19, 20⟩⟩, ⟨.ident "f", ⟨20, 21⟩⟩,
      ⟨.rparen, ⟨21, 22⟩⟩] := by decide +kernel
  have hcompile : compile source = .ok p := compile_eq_ok_iff.2 ⟨_, hscan, by rfl⟩
  have hnames {name : String} (h : Mentions [source] name) : name = "len" ∨ name = "f" := by
    obtain ⟨_, hmem, q, a, hq, s, hs, w, hpath⟩ := h
    rw [List.mem_singleton.1 hmem, hcompile] at hq
    cases hq
    simp only [p, List.mem_cons, List.not_mem_nil, or_false] at hs
    rcases hs with rfl | rfl
    · obtain _ | ⟨hb, hpath⟩ := hpath
      cases hb with
      | item he =>
        rw [List.mem_singleton.1 he] at hpath
        exact .inl (eq_of_path_ident hpath)
    · obtain _ | ⟨hb, hpath⟩ := hpath
      cases hb with
      | arg he =>
        rw [List.mem_singleton.1 he] at hpath
        exact .inr (eq_of_path_ident hpath)
      | callee =>
        change Expr.Path (.index _ _ _) _ _ at hpath
        obtain _ | ⟨hb, hpath⟩ := hpath
        cases hb with
        | target => exact .inr (eq_of_path_ident hpath)
        | subscript =>
          obtain _ | ⟨hb, -⟩ := hpath
          cases hb
  have hputs : ¬ Mentions [source] "puts" := fun h => absurd (hnames h) (by decide)
  have hread : ¬ Mentions [source] "stdin_read" := fun h => absurd (hnames h) (by decide)
  have hset : ¬ Mentions [source] "object_set" := fun h => absurd (hnames h) (by decide)
  obtain ⟨-, hwrites, hreads, htables⟩ := effects_need_names ({} : Transcript) [source]
  exact ⟨hputs, hread, hset, hwrites hputs, (hreads hread).1, (htables hset).2⟩

end Machine

end MonkeyLang
