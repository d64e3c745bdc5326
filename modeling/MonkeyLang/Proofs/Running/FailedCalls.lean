import MonkeyLang.Proofs.Running.Entries
import MonkeyLang.Proofs.Running.Ledger

/-!
# Calls that fail

The functions take their arguments by number, and count on the check that comes before them.
`Builtin.unchecked?` is a function without that check: it has no outcome where an argument is
missing or where a slice begins behind the end.  With the check it always has one, and that is the
call (`Builtin.checked?_eq`).

A call that fails leaves the machine as it was, since what may fail comes before what changes
something (`Run.Clean`).  Only `stdin_read` shows its prompt and then finds that the input has ended
(`Builtin.failing_call_changes_nothing`).
-/

namespace MonkeyLang

variable {κ α β : Type}

/-! ## Counts -/

/-- That count is turned down, and the other one is asked for. -/
inductive Arity.Refuses : Arity → Nat → Nat → Prop where
  | exact {n count : Nat} (h : count ≠ n) : Refuses (.exact n) count n
  | below {least most count : Nat} (h : count < least) : Refuses (.range least most) count least
  | above {least most count : Nat} (h : most < count) : Refuses (.range least most) count least

theorem Arity.Refuses.accepts_eq_false {a : Arity} {count n : Nat} (h : a.Refuses count n) :
    a.accepts count = false ∧ a.wanted = n := by
  cases h with
  | exact h => exact ⟨beq_eq_false_iff_ne.2 h, rfl⟩
  | below h => simp [accepts, Arity.wanted, h]
  | above h => simp [accepts, Arity.wanted, h]

/-! ## Arguments by number -/

namespace Builtin

/-- The values from that place on, unless the place is behind the end. -/
def sliceFrom? (vs : Array Value) (start : Nat) : Option (Array Value) :=
  if start ≤ vs.size then some (vs.extract start) else none

/-- A function without the check of the count.  It looks at an argument where it comes to it, and
there is no outcome if the argument is missing. -/
def unchecked? [Console κ] (b : Builtin) (args : List Value) : Option (Run κ Value) := do
  match b with
  | len => return callLen (← args[0]?)
  | first => return callFirst (← args[0]?)
  | last => return callLast (← args[0]?)
  | rest =>
    match ← args[0]? with
    | .array vs =>
      if vs.isEmpty then return pure .null
      return pure (.array (← sliceFrom? vs 1))
    | v => return throw (.argumentKind rest .array v.kind)
  | push =>
    match ← args[0]? with
    | .array vs => return pure (.array (vs.push (← args[1]?)))
    | v => return throw (.argumentKind push .array v.kind)
  | puts => return callPuts args
  | isNull => return pure (.bool (← args[0]?).isNull)
  | stdinRead => return callStdinRead args
  | objectSet =>
    match ← args[0]? with
    | .table id =>
      let v ← args[2]?
      if v.isError then return Run.value v
      return callObjectSet (.table id) (← args[1]?) v
    | v => return throw (.argumentKind objectSet .hash v.kind)
  | charAt =>
    match ← args[0]? with
    | .str s => return callCharAt (.str s) (← args[1]?)
    | v => return throw (.argumentKind charAt .string v.kind)

/-- The function as it is: the count is checked before any argument is looked at. -/
def checked? [Console κ] (b : Builtin) (args : List Value) : Option (Run κ Value) :=
  if b.arity.accepts args.length then b.unchecked? args
  else some (throw (.argumentCount args.length b.arity.wanted))

example : (push.unchecked? [.array #[]] : Option (Run Transcript Value)).isNone := rfl

/-- A slice from the second place is there unless the array is empty. -/
theorem sliceFrom?_one {vs : Array Value} (h : vs.isEmpty = false) :
    sliceFrom? vs 1 = some (vs.extract 1) := by
  have hsize : vs.size ≠ 0 := by simpa using h
  rw [sliceFrom?, if_pos (Nat.one_le_iff_ne_zero.2 hsize)]

theorem callObjectSet_of_isError {v : Value} (hv : v.isError = true) (id : Nat) (key : Value) :
    (callObjectSet (.table id) key v : Run κ Value) = Run.value v := by
  cases v with
  | error m => rfl
  | _ => cases hv

variable [Console κ]

theorem unchecked?_rest (v : Value) :
    rest.unchecked? [v] = some (callRest v : Run κ Value) := by
  cases v with
  | array vs =>
    have hrest : rest.unchecked? [.array vs] = if vs.isEmpty then some (pure .null) else
        (sliceFrom? vs 1).bind fun ws => some (pure (.array ws) : Run κ Value) := rfl
    rw [hrest, callRest]
    cases h : vs.isEmpty with
    | true => rfl
    | false => rw [sliceFrom?_one h]; rfl
  | _ => rfl

theorem unchecked?_objectSet (h k v : Value) :
    objectSet.unchecked? [h, k, v] = some (callObjectSet h k v : Run κ Value) := by
  cases h with
  | table id =>
    have hset : objectSet.unchecked? [.table id, k, v] = if v.isError then some (Run.value v) else
        some (callObjectSet (.table id) k v : Run κ Value) := rfl
    rw [hset]
    split
    · next hv => rw [callObjectSet_of_isError hv]
    · rfl
  | _ => rfl

/-- No argument is missing and no slice is wrong where the number of the arguments is accepted. -/
theorem unchecked?_eq {b : Builtin} {args : List Value}
    (h : b.arity.accepts args.length = true) :
    b.unchecked? args = some (b.call args : Run κ Value) := by
  cases b with
  | len | first | last | isNull =>
    obtain ⟨v, rfl⟩ := List.length_eq_one_iff.1 (beq_iff_eq.1 h)
    rfl
  | rest =>
    obtain ⟨v, rfl⟩ := List.length_eq_one_iff.1 (beq_iff_eq.1 h)
    exact unchecked?_rest v
  | push | charAt =>
    obtain ⟨v, w, rfl⟩ := List.length_eq_two.1 (beq_iff_eq.1 h)
    cases v <;> rfl
  | puts => rfl
  | stdinRead =>
    unfold call
    rw [if_pos h]
    rfl
  | objectSet =>
    obtain ⟨t, k, v, rfl⟩ := List.length_eq_three.1 (beq_iff_eq.1 h)
    exact unchecked?_objectSet t k v

/-- The wrong count is named, and the right one. -/
theorem call_of_refuses {b : Builtin} {args : List Value} {n : Nat}
    (h : b.arity.Refuses args.length n) :
    (b.call args : Run κ Value) = throw (.argumentCount args.length n) := by
  obtain ⟨haccepts, hwanted⟩ := h.accepts_eq_false
  unfold call
  rw [haccepts, if_neg Bool.false_ne_true, hwanted]

/-- A call with any arguments comes to an outcome, the one of the evaluator. -/
theorem checked?_eq (b : Builtin) (args : List Value) :
    b.checked? args = some (b.call args : Run κ Value) := by
  unfold checked?
  split
  · next h => exact unchecked?_eq h
  · next h =>
    unfold call
    rw [if_neg h]

end Builtin

/-! ## Runs that change nothing if they fail -/

namespace Run

variable {x : Run κ α} {f : α → Run κ β}

/-- A run that fails leaves the machine as it was. -/
def Clean (x : Run κ α) : Prop := ∀ m e m', x m = .error e m' → m' = m

/-- The run has a value on every machine. -/
def Succeeds (x : Run κ α) : Prop := ∀ m, ∃ a m', x m = .ok a m'

theorem Succeeds.clean (h : x.Succeeds) : x.Clean := by
  intro m e m' he
  obtain ⟨a, m'', ha⟩ := h m
  cases ha.symm.trans he

theorem Succeeds.bind (hx : x.Succeeds) (hf : ∀ a, (f a).Succeeds) : Succeeds (x >>= f) := by
  intro m
  obtain ⟨a, m', ha⟩ := hx m
  rw [bind_of_ok ha]
  exact hf a m'

/-- A look changes nothing, whether it fails or not. -/
theorem clean_of_looks (h : Looks x x) : x.Clean := by
  intro m e m' he
  rcases h m m rfl rfl with ⟨a, ha, -⟩ | ⟨e', he', -⟩
  · cases ha.symm.trans he
  · cases he'.symm.trans he
    rfl

/-- What changes nothing may come before what changes nothing if it fails. -/
theorem clean_bind_of_looks (hx : Looks x x) (hf : ∀ a, (f a).Clean) : Clean (x >>= f) := by
  intro m e m' he
  rcases hx m m rfl rfl with ⟨a, ha, -⟩ | ⟨e', he', -⟩
  · rw [bind_of_ok ha] at he
    exact hf a m e m' he
  · rw [bind_of_error he'] at he
    cases he
    rfl

end Run

namespace Builtin

/-- `object_set` sets something only when nothing can fail any more. -/
theorem clean_callObjectSet (t k v : Value) : (callObjectSet t k v : Run κ Value).Clean := by
  unfold callObjectSet
  split
  · refine Run.clean_bind_of_looks (Run.looks_value v) fun u => ?_
    split
    · exact Run.Succeeds.clean fun m => ⟨_, _, rfl⟩
    · exact Run.clean_of_looks (Run.looks_throw _)
  · exact Run.clean_of_looks (Run.looks_throw _)

variable [Console κ]

/-- Printing never fails. -/
theorem succeeds_callPuts (vs : List Value) : (callPuts vs : Run κ Value).Succeeds := by
  induction vs with
  | nil => exact fun m => ⟨_, _, rfl⟩
  | cons v vs ih =>
    have hget : (get : Run κ (Machine κ)).Succeeds := fun m => ⟨_, _, rfl⟩
    have hwrite (line : String) : (Run.writeLine line : Run κ Unit).Succeeds :=
      fun m => ⟨_, _, rfl⟩
    exact hget.bind fun m => (hwrite _).bind fun _ => ih

/-- All functions but `stdin_read` leave the machine as it was when they fail. -/
theorem clean_call {b : Builtin} (hb : b ≠ stdinRead) (args : List Value) :
    (b.call args : Run κ Value).Clean := by
  unfold call
  split
  · split
    · exact Run.clean_of_looks (looks_callLen _)
    · exact Run.clean_of_looks (looks_callFirst _)
    · exact Run.clean_of_looks (looks_callLast _)
    · exact Run.clean_of_looks (looks_callRest _)
    · exact Run.clean_of_looks (looks_callPush _ _)
    · exact (succeeds_callPuts _).clean
    · exact Run.clean_of_looks (Run.looks_pure _)
    · exact absurd rfl hb
    · exact clean_callObjectSet _ _ _
    · exact Run.clean_of_looks (looks_callCharAt _ _)
    · exact Run.clean_of_looks (Run.looks_throw _)
  · exact Run.clean_of_looks (Run.looks_throw _)

/-! ## Asking for a line -/

/-- A line is given as text, and the end of the input is a fault. -/
theorem outcome_readValue (prompt : Option String) (m : Machine κ) :
    (readValue prompt).outcome m =
      (match (Console.readLine m.console prompt).1 with
        | some line => .ok (.str line)
        | none => .error .inputExhausted,
      { m with console := (Console.readLine m.console prompt).2 }) := by
  have hread : (Run.readLine prompt).outcome m = (.ok (Console.readLine m.console prompt).1,
      { m with console := (Console.readLine m.console prompt).2 }) := rfl
  unfold readValue
  rw [Run.outcome_bind_of_ok hread]
  cases (Console.readLine m.console prompt).1 <;> rfl

/-- A line is asked for with that prompt or none, and the console has no line. -/
structure FindsEnd (b : Builtin) (args : List Value) (prompt : Option String) (c : κ) : Prop where
  reads : b = stdinRead
  fits : promptOf? args = some prompt
  ended : (Console.readLine c prompt).1 = none

variable {b : Builtin} {args : List Value} {m m' : Machine κ}

/-- At the end of the input the call fails, when the prompt has been shown. -/
theorem FindsEnd.outcome_call {prompt : Option String} (h : b.FindsEnd args prompt m.console) :
    (b.call args).outcome m =
      (.error .inputExhausted, { m with console := (Console.readLine m.console prompt).2 }) := by
  rw [h.reads, call_stdinRead h.fits, outcome_readValue, h.ended]

/-- A call that fails changes nothing, or it has come to the end of the input. -/
theorem eq_or_findsEnd_of_error {e : Fault} (h : (b.call args).outcome m = (.error e, m')) :
    m' = m ∨ ∃ prompt, b.FindsEnd args prompt m.console ∧
      m' = { m with console := (Console.readLine m.console prompt).2 } := by
  by_cases hb : b = stdinRead
  · subst hb
    cases hprompt : promptOf? args with
    | none =>
      obtain ⟨e', he'⟩ := call_stdinRead_of_unfit hprompt m
      cases (Run.outcome_eq_error_iff.2 he').symm.trans h
      exact .inl rfl
    | some prompt =>
      rw [call_stdinRead hprompt, outcome_readValue] at h
      cases hline : (Console.readLine m.console prompt).1 with
      | none => exact .inr ⟨prompt, ⟨rfl, hprompt, hline⟩, (congrArg Prod.snd h).symm⟩
      | some line =>
        rw [hline] at h
        cases h
  · exact .inl (clean_call hb args m e m' (Run.outcome_eq_error_iff.1 h))

/-- An error comes out of a call as a fault only. -/
theorem snd_of_isError (h : (Value.ofOutcome ((b.call args).outcome m).1).isError = true) :
    ((b.call args).outcome m).2 = m ∨ ∃ prompt, b.FindsEnd args prompt m.console ∧
      ((b.call args).outcome m).2 =
        { m with console := (Console.readLine m.console prompt).2 } := by
  rcases hr : (b.call args).outcome m with ⟨e | v, m'⟩
  · exact eq_or_findsEnd_of_error hr
  · have hv : v.isError = false := sound_call b args m v m' (Run.outcome_eq_ok_iff.1 hr)
    rw [hr] at h
    cases hv.symm.trans h

theorem promptOf?_eq_some_some {prompt : String} :
    promptOf? args = some (some prompt) ↔ args = [.str prompt] := by
  constructor
  · intro h
    match args, h with
    | [v], h => cases v <;> cases h; rfl
    | v :: _ :: _, h => cases v <;> cases h
  · rintro rfl
    rfl

end Builtin

/-! ## The consoles -/

/-- A transcript has no line to give exactly if no input is left. -/
theorem Transcript.readLine_fst_eq_none {c : Transcript} {prompt : Option String} :
    (Console.readLine c prompt).1 = none ↔ c.input = [] := by
  show (c.readLine prompt).1 = none ↔ _
  cases hc : c.input with
  | nil => simp [readLine_of_nil hc]
  | cons line input => simp [readLine_of_cons hc]

theorem Terminal.readLine_fst_eq_none {c : Terminal} {prompt : Option String} :
    (Console.readLine c prompt).1 = none ↔ c.stdin = [] := by
  show (c.readLine prompt).1 = none ↔ _
  by_cases hc : c.stdin = []
  · simp [readLine_of_nil hc, hc]
  · simp [readLine_of_ne_nil hc, hc]

namespace Builtin

variable {b : Builtin} {args : List Value}

/-- The call is one of `stdin_read` with that string for a prompt. -/
def Prompts (b : Builtin) (args : List Value) (prompt : String) : Prop :=
  b = stdinRead ∧ args = [.str prompt]

theorem Prompts.findsEnd [Console κ] {prompt : String} (h : b.Prompts args prompt) {c : κ}
    (hc : (Console.readLine c (some prompt)).1 = none) : b.FindsEnd args (some prompt) c :=
  ⟨h.1, promptOf?_eq_some_some.2 h.2, hc⟩

theorem FindsEnd.prompts [Console κ] {prompt : String} {c : κ}
    (h : b.FindsEnd args (some prompt) c) : b.Prompts args prompt :=
  ⟨h.reads, promptOf?_eq_some_some.1 h.fits⟩

/-- The prompt is the one thing that a failed reading leaves in a transcript. -/
theorem outcome_transcript_of_prompts {prompt : String} (h : b.Prompts args prompt)
    {m : Machine Transcript} (hinput : m.console.input = []) :
    (b.call args).outcome m = (.error .inputExhausted,
      { m with console := { m.console with prompts := m.console.prompts.push prompt } }) := by
  rw [(h.findsEnd (Transcript.readLine_fst_eq_none.2 hinput)).outcome_call]
  show (_, { m with console := (m.console.readLine (some prompt)).2 }) = _
  rw [Transcript.readLine_of_nil hinput, Array.push_eq_append]
  rfl

/-- On a terminal it is shown, and the end of the input is remembered. -/
theorem outcome_terminal_of_prompts {prompt : String} (h : b.Prompts args prompt)
    {m : Machine Terminal} (hstdin : m.console.stdin = []) :
    (b.call args).outcome m = (.error .inputExhausted, { m with
      console := { m.console with stdout := m.console.stdout ++ prompt, ended := true } }) := by
  rw [(h.findsEnd (Terminal.readLine_fst_eq_none.2 hstdin)).outcome_call]
  show (_, { m with console := (m.console.readLine (some prompt)).2 }) = _
  rw [Terminal.readLine_of_nil hstdin]
  rfl

/-- Every other call that fails leaves the transcript as it was. -/
theorem snd_transcript_of_isError {m : Machine Transcript}
    (h : (Value.ofOutcome ((b.call args).outcome m).1).isError = true)
    (hprompts : ∀ prompt, b.Prompts args prompt → m.console.input ≠ []) :
    ((b.call args).outcome m).2 = m := by
  rcases snd_of_isError h with hr | ⟨prompt, hend, hr⟩
  · exact hr
  · have hinput : m.console.input = [] := Transcript.readLine_fst_eq_none.1 hend.ended
    cases prompt with
    | none =>
      rw [hr]
      show { m with console := (m.console.readLine none).2 } = _
      rw [Transcript.readLine_of_nil hinput, Option.toArray_none, Array.append_empty]
    | some prompt => exact absurd hinput (hprompts prompt hend.prompts)

/-- The terminal also stays as it was, but for the mark that its input is at an end. -/
theorem snd_terminal_of_isError {m : Machine Terminal}
    (h : (Value.ofOutcome ((b.call args).outcome m).1).isError = true)
    (hprompts : ∀ prompt, b.Prompts args prompt → m.console.stdin ≠ []) :
    ∃ ended, ((b.call args).outcome m).2 = { m with console := { m.console with ended } } := by
  rcases snd_of_isError h with hr | ⟨prompt, hend, hr⟩
  · exact ⟨m.console.ended, hr⟩
  · have hstdin : m.console.stdin = [] := Terminal.readLine_fst_eq_none.1 hend.ended
    cases prompt with
    | none =>
      refine ⟨true, hr.trans ?_⟩
      show { m with console := (m.console.readLine none).2 } = _
      rw [Terminal.readLine_of_nil hstdin, Option.getD_none, String.append_empty]
    | some prompt => exact absurd hstdin (hprompts prompt hend.prompts)

/-! ## Top theorem -/

/-- A call with arguments of any number and any kinds has an outcome.  A wrong number is named,
whatever the kinds.  If an error comes out, nothing has changed, except that a console was asked for
a line that it did not have.  Of that a transcript and a terminal keep only the prompt, if there was
one. -/
theorem failing_call_changes_nothing (b : Builtin) (args : List Value) :
    (∀ {κ : Type} [Console κ] (m : Machine κ), let r := (b.call args).outcome m
      b.checked? args = some (b.call args : Run κ Value) ∧
      (∀ wanted, b.arity.Refuses args.length wanted →
        Value.ofOutcome r.1 = .error ("wrong number of arguments. got=" ++ toString args.length ++
            ", want=" ++ toString wanted) ∧
          r.2 = m) ∧
      ((Value.ofOutcome r.1).isError = true → r.2 = m ∨
        ∃ prompt, b.FindsEnd args prompt m.console ∧
          r.2 = { m with console := (Console.readLine m.console prompt).2 })) ∧
    (∀ m : Machine Transcript, let r := (b.call args).outcome m
      (∀ prompt, b.Prompts args prompt → m.console.input = [] →
        r = (.error .inputExhausted,
          { m with console := { m.console with prompts := m.console.prompts.push prompt } })) ∧
      ((Value.ofOutcome r.1).isError = true →
        (∀ prompt, b.Prompts args prompt → m.console.input ≠ []) → r.2 = m)) ∧
    (∀ m : Machine Terminal, let r := (b.call args).outcome m
      (∀ prompt, b.Prompts args prompt → m.console.stdin = [] →
        r = (.error .inputExhausted, { m with
          console := { m.console with stdout := m.console.stdout ++ prompt, ended := true } })) ∧
      ((Value.ofOutcome r.1).isError = true →
        (∀ prompt, b.Prompts args prompt → m.console.stdin ≠ []) →
        ∃ ended, r.2 = { m with console := { m.console with ended } })) := by
  refine ⟨fun m => ⟨checked?_eq b args, fun wanted hrefuses => ?_, snd_of_isError⟩,
    fun m => ⟨fun _ h hend => outcome_transcript_of_prompts h hend, snd_transcript_of_isError⟩,
    fun m => ⟨fun _ h hend => outcome_terminal_of_prompts h hend, snd_terminal_of_isError⟩⟩
  rw [call_of_refuses hrefuses]
  exact ⟨rfl, rfl⟩

/-- The prompt stays where the input has ended; a stored error that is met changes nothing. -/
example : let m : Machine Transcript := .start {}
    (stdinRead.call [.str "? "]).outcome m =
        (.error .inputExhausted, { m with console := { prompts := #["? "] } }) ∧
      (first.call [.array #[.error "e"]]).outcome m = (.error (.stored "e"), m) :=
  ⟨rfl, rfl⟩

end Builtin

end MonkeyLang
