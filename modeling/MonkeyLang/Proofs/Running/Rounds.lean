import MonkeyLang.Command.Repl
import MonkeyLang.Proofs.Running.Unread

/-!
# The rounds of a session

In each round the loop takes a line, or finds that the input has ended, and does what the line asks
for (`Repl.State.round`).  A session goes through one round after the other, and with the bound that
the loop is given no round is cut off (`Repl.State.plays_loop`).

A round takes whole lines from the input, or all that there is: its own line, and those that the
source asks for (`Repl.State.take_later_round`).  What can be seen of a round is its entry
(`Repl.Entry`): what the source comes to, what it reads and writes, and what is shown.
-/

namespace MonkeyLang

namespace Repl

/-! ## Rounds -/

/-- The line runs nothing and does not end the loop. -/
def Line.idle : Line → Bool
  | blank => true
  | help => true
  | builtins => true
  | clear => true
  | unknown _ => true
  | source text => !(compile text).isOk
  | quit => false
  | torn => false

namespace State

/-- What the user has typed in and nobody has read. -/
def unread (s : State) : List Char := s.machine.console.stdin

def stdout (s : State) : String := s.machine.console.stdout

/-- Takes a line, if there is one. -/
def take (s : State) : Option String × State :=
  let (line, console) := s.machine.console.readLine none
  (line, { s with machine := { s.machine with console } })

/-- What one round leaves, and how the loop ends if it ends there. -/
def round (s : State) : Option Ending × State :=
  match s.take.1 with
  | none => (some .farewell, (s.take.2.finish .farewell).2)
  | some line =>
    match s.take.2.step (.ofString line) with
    | .error e => (some e, (s.take.2.finish e).2)
    | .ok s => (none, s)

/-- The states that the rounds of the loop begin in. -/
def rounds : (bound : List Char) → State → List State
  | [], s => [s]
  | _ :: bound, s => s :: if s.round.1 = none then rounds bound s.round.2 else []

/-- The line of the round. -/
def line? (s : State) : Option Line := s.take.1.map .ofString

end State

/-- What the source comes to, if the line is one. -/
def Line.result? (m : Machine Terminal) : Line → Option (Except CompileError (Except Fault Value))
  | source text => some (m.runSource text).1
  | _ => none

/-- What happens on the console when the source is run, if the line is one. -/
def Line.events (m : Machine Terminal) : Line → List Console.Event
  | source text => m.eventsOf text
  | _ => []

/-- What can be seen of a round. -/
structure Entry where
  line? : Option Line
  result? : Option (Except CompileError (Except Fault Value))
  events : List Console.Event
  stdout : String
  stderr : String

/-- What has come behind a text. -/
def added (before after : String) : String := .ofList (after.toList.drop before.length)

/-- What is put behind a text is what has come behind it. -/
theorem added_append (text more : String) : added text (text ++ more) = more := by
  rw [added, String.toList_append, ← String.length_toList, List.drop_left, String.ofList_toList]

/-- The round that begins in the state. -/
def State.entry (s : State) : Entry where
  line? := s.line?
  result? := s.line?.bind (Line.result? s.take.2.machine)
  events := (s.line?.map (Line.events s.take.2.machine)).getD []
  stdout := added s.stdout s.round.2.stdout
  stderr := added s.stderr s.round.2.stderr

/-- What a session begins in. -/
def start (stdin : List Char) : State := { machine := .start { stdin } : State }.print banner

/-- The states that the rounds of a session begin in. -/
def rounds (stdin : List Char) : List State := (start stdin).rounds stdin

namespace State

variable {s s' t : State} {ss : List State} {e : Ending}

/-- A round that ends the loop is its last one. -/
theorem loop_of_some (h : s.round.1 = some e) (bound : List Char) :
    s.loop bound = (e, s.round.2) := by
  rcases hread : s.machine.console.readLine none with ⟨line, console⟩
  rw [loop.eq_def]
  simp only [round, take, hread] at h ⊢
  cases line with
  | none =>
    cases h
    rfl
  | some line =>
    dsimp only at h ⊢
    generalize step { s with machine := { s.machine with console } } (.ofString line) = r at h ⊢
    cases r with
    | error e' =>
      cases h
      rfl
    | ok s' => cases h

/-- A round that does not is followed by the rest of them. -/
theorem loop_of_none (h : s.round.1 = none) (c : Char) (bound : List Char) :
    s.loop (c :: bound) = s.round.2.loop bound := by
  rcases hread : s.machine.console.readLine none with ⟨line, console⟩
  rw [loop.eq_def]
  simp only [round, take, hread] at h ⊢
  cases line with
  | none => cases h
  | some line =>
    dsimp only at h ⊢
    generalize step { s with machine := { s.machine with console } } (.ofString line) = r at h ⊢
    cases r with
    | error e' => cases h
    | ok s' => rfl

/-- At the end of the input the loop says goodbye. -/
theorem round_of_take_none (h : s.take.1 = none) :
    s.round = (some .farewell, (s.take.2.finish .farewell).2) := by
  rw [round, h]

theorem round_of_step_error {line : String} (h : s.take.1 = some line)
    (hstep : s.take.2.step (.ofString line) = .error e) :
    s.round = (some e, (s.take.2.finish e).2) := by
  simp only [round, h, hstep]

/-- After any other line there is a next round. -/
theorem round_of_step_ok {line : String} (h : s.take.1 = some line)
    (hstep : s.take.2.step (.ofString line) = .ok t) : s.round = (none, t) := by
  simp only [round, h, hstep]

/-! ## Steps -/

theorem print_empty (s : State) : s.print "" = s := by
  simp only [print, Terminal.write, String.append_empty]

theorem complain_empty (s : State) : s.complain "" = s := by
  simp only [complain, String.append_empty]

/-- What is printed of an outcome, and what is said of it in the error text. -/
def replyTo (heap : Heap) : Except CompileError (Except Fault Value) → String × String
  | .error e => ("", e.report "<repl>")
  | .ok (.error f) => ("", heap.inspect f.toValue ++ "\n")
  | .ok (.ok .null) => ("", "")
  | .ok (.ok v) => (heap.inspect v ++ "\n", "")

/-- A source is run, and its outcome is printed. -/
theorem runLine_eq (s : State) (text : String) :
    s.runLine text =
      let (result, machine) := s.machine.runSource text
      let (out, err) := replyTo machine.heap result
      ({ s with machine }.print out).complain err := by
  unfold runLine
  rcases s.machine.runSource text with ⟨e | f | v, machine⟩
  · simp only [replyTo, print_empty]
  · simp only [replyTo, print_empty]
  · cases v <;> simp only [replyTo, print_empty, complain_empty]

/-- An idle line only shows something. -/
theorem step_of_idle {l : Line} (h : l.idle) :
    ∃ out err, ∀ s : State, s.step l = .ok ((s.print out).complain err) := by
  cases l with
  | blank => exact ⟨"", "", fun s => by rw [print_empty, complain_empty]; rfl⟩
  | help => exact ⟨helpText, "", fun s => by rw [complain_empty]; rfl⟩
  | builtins => exact ⟨Builtin.listing, "", fun s => by rw [complain_empty]; rfl⟩
  | clear => exact ⟨clearScreen, "", fun s => by rw [complain_empty]; rfl⟩
  | unknown command => exact ⟨_, "", fun s => by rw [complain_empty]; rfl⟩
  | source text =>
    cases hp : compile text with
    | error e =>
      refine ⟨"", e.report "<repl>", fun s => ?_⟩
      rw [step, runLine_eq, Machine.runSource_of_compile_error hp]
      rfl
    | ok p =>
      rw [Line.idle, hp] at h
      cases h
  | quit => cases h
  | torn => cases h

/-- A line is idle, or ends the loop, or is run. -/
theorem line_cases (l : Line) :
    l.idle ∨ (∃ e, ∀ s : State, s.step l = .error e) ∨ ∃ text, l = .source text := by
  cases l with
  | quit => exact .inr (.inl ⟨.farewell, fun _ => rfl⟩)
  | torn => exact .inr (.inl ⟨.torn, fun _ => rfl⟩)
  | source text => exact .inr (.inr ⟨text, rfl⟩)
  | _ => exact .inl rfl

/-! ## Taking lines -/

/-- The second state has the input that the first one has when some lines are taken. -/
def Later (s t : State) : Prop := s.machine.console.Later t.machine.console

theorem Later.trans {u : State} (h : s.Later t) (h' : t.Later u) : s.Later u :=
  Terminal.Later.trans h h'

theorem Later.length_le (h : s.Later t) : t.unread.length ≤ s.unread.length :=
  Terminal.Later.length_le h

theorem later_take (s : State) : s.Later s.take.2 := .readLine s.machine.console none

/-- A line may read more of the input, and only that. -/
theorem later_step {l : Line} (h : s.step l = .ok t) : s.Later t := by
  rcases line_cases l with hidle | ⟨e, hend⟩ | ⟨text, rfl⟩
  · obtain ⟨out, err, hstep⟩ := step_of_idle hidle
    rw [hstep] at h
    cases h
    exact .of_stdin_eq rfl
  · rw [hend] at h
    cases h
  · cases h
    rw [runLine_eq]
    exact s.machine.later_runSource text

theorem take_later_round (s : State) : s.take.2.Later s.round.2 := by
  cases hline : s.take.1 with
  | none =>
    rw [round_of_take_none hline]
    exact .of_stdin_eq rfl
  | some line =>
    cases hstep : s.take.2.step (.ofString line) with
    | error e =>
      rw [round_of_step_error hline hstep]
      exact .of_stdin_eq rfl
    | ok t =>
      rw [round_of_step_ok hline hstep]
      exact later_step hstep

theorem unread_ne_nil {line : String} (h : s.take.1 = some line) : s.unread ≠ [] := by
  intro hnil
  have hread : s.take.1 = (s.machine.console.readLine none).1 := rfl
  rw [hread, Terminal.readLine_of_nil hnil] at h
  cases h

/-- As long as there is input, a line of it is taken. -/
theorem take_of_ne_nil (h : s.unread ≠ []) :
    s.take = (some (.ofList (stripLineEnd (Terminal.splitLine s.unread).1)),
      ⟨⟨s.machine.heap, s.machine.scopes, (Terminal.splitLine s.unread).2, s.stdout,
        s.machine.console.ended⟩, s.stderr⟩) := by
  simp only [take, Terminal.readLine_of_ne_nil h, Option.getD_none, String.append_empty]
  rfl

/-- A round that does not end the loop takes something. -/
theorem length_round_lt (h : s.round.1 = none) : s.round.2.unread.length < s.unread.length := by
  cases hline : s.take.1 with
  | none =>
    rw [round_of_take_none hline] at h
    cases h
  | some line =>
    have hne := unread_ne_nil hline
    have hle := s.take_later_round.length_le
    have hlt : s.take.2.unread.length < s.unread.length := by
      rw [take_of_ne_nil hne]
      exact Terminal.length_splitLine_lt hne
    omega

/-! ## Sessions -/

/-- The loop goes through rounds that begin in these states, and ends so. -/
inductive Plays : State → List State → Ending × State → Prop
  | last {s : State} {e : Ending} (h : s.round.1 = some e) : Plays s [s] (e, s.round.2)
  | round {s : State} {ss : List State} {out : Ending × State} (h : s.round.1 = none)
      (hrest : Plays s.round.2 ss out) : Plays s (s :: ss) out

/-- With a bound as long as the input, nothing is cut off. -/
theorem plays_loop {bound : List Char} (h : s.unread.length ≤ bound.length) :
    s.Plays (s.rounds bound) (s.loop bound) := by
  induction bound generalizing s with
  | nil =>
    cases hround : s.round.1 with
    | none =>
      -- nothing is left that the round could take
      have hlt := length_round_lt hround
      rw [List.length_nil] at h
      omega
    | some e =>
      rw [loop_of_some hround]
      exact .last hround
  | cons c bound ih =>
    cases hround : s.round.1 with
    | none =>
      have hlt := length_round_lt hround
      rw [List.length_cons] at h
      rw [loop_of_none hround, rounds, if_pos hround]
      refine .round hround (ih ?_)
      omega
    | some e =>
      rw [loop_of_some hround, rounds, hround, if_neg (by nofun)]
      exact .last hround

/-- A session goes one way only. -/
theorem Plays.unique {ss' : List State} {out out' : Ending × State} (h : s.Plays ss out)
    (h' : s.Plays ss' out') : ss = ss' ∧ out = out' := by
  induction h generalizing ss' out' with
  | last hround =>
    cases h' with
    | last hround' =>
      rw [hround] at hround'
      cases hround'
      exact ⟨rfl, rfl⟩
    | round hround' _ =>
      rw [hround] at hround'
      cases hround'
  | round hround _ ih =>
    cases h' with
    | last hround' =>
      rw [hround] at hround'
      cases hround'
    | round _ hrest' =>
      obtain ⟨rfl, rfl⟩ := ih hrest'
      exact ⟨rfl, rfl⟩

/-- The loop goes through rounds that begin in these states, and comes to the last one. -/
inductive Reaches : State → List State → State → Prop
  | refl (s : State) : Reaches s [] s
  | round {s t : State} {ss : List State} (h : s.round.1 = none)
      (hrest : Reaches s.round.2 ss t) : Reaches s (s :: ss) t

theorem Reaches.later (h : s.Reaches ss t) : s.Later t := by
  induction h with
  | refl s => exact .of_stdin_eq rfl
  | round _ _ ih => exact (later_take _).trans ((take_later_round _).trans ih)

/-- What is played after a state that is reached is played from the start. -/
theorem Reaches.plays {ts : List State} {out : Ending × State} (h : s.Reaches ss t)
    (h' : t.Plays ts out) : s.Plays (ss ++ ts) out := by
  induction h with
  | refl => exact h'
  | round hround _ ih => exact .round hround (ih h')

/-- A session may be cut in front of any of its rounds. -/
theorem Plays.split {done later : List State} {out : Ending × State}
    (h : s.Plays (done ++ t :: later) out) : s.Reaches done t ∧ t.Plays (t :: later) out := by
  induction done generalizing s with
  | nil =>
    cases h with
    | last hround => exact ⟨.refl _, .last hround⟩
    | round hround hrest => exact ⟨.refl _, .round hround hrest⟩
  | cons d done ih =>
    rw [List.cons_append] at h
    generalize hlist : done ++ t :: later = rest at h
    cases h with
    | last =>
      cases done <;> cases hlist
    | round hround hrest =>
      rw [← hlist] at hrest
      obtain ⟨hreaches, hplays⟩ := ih hrest
      exact ⟨.round hround hreaches, hplays⟩

end State

end Repl

end MonkeyLang
