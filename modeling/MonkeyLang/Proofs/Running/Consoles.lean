import MonkeyLang.Command.Run
import MonkeyLang.Proofs.Running.Agreement
import MonkeyLang.Proofs.Running.Sequence

/-!
# A transcript for a terminal

A program that is given its input as a list of lines does what it does on a terminal with these
lines as one text (`linesOf`).  The transcript keeps what is written apart from the prompts, and the
terminal shows both in the order in which they come.  So the order is in neither console of its
own, and the transcript is put into one that notes it (`Logged`); what the terminal shows is then
what was noted, with a line feed behind each line (`Console.Event.text`).

The two consoles stay in the relation `Terminal.Scripted`, whatever is written and read, and so
`Machine.terminal_shows_transcript` is an instance of what holds of all consoles that answer alike.
-/

namespace MonkeyLang

/-! ## Lines -/

/-- The lines of a text, each with its line feed.  The last one may lack it, but then has something
else in it. -/
def linesOf : List Char → List (List Char)
  | [] => []
  | c :: cs =>
    if c = '\n' then [c] :: linesOf cs
    else match linesOf cs with
      | [] => [[c]]
      | line :: lines => (c :: line) :: lines

theorem flatten_linesOf (text : List Char) : (linesOf text).flatten = text := by
  induction text with
  | nil => rfl
  | cons c cs ih =>
    rw [linesOf]
    split
    · rw [List.flatten_cons, ih, List.singleton_append]
    · split
      · next h => rw [← ih, h]; rfl
      · next h => rw [← ih, h]; rfl

namespace Terminal

theorem splitLine_lineFeed (cs : List Char) : splitLine ('\n' :: cs) = (['\n'], cs) := rfl

theorem splitLine_cons_of_ne {c : Char} (hc : c ≠ '\n') (cs : List Char) :
    splitLine (c :: cs) = (c :: (splitLine cs).1, (splitLine cs).2) := by
  have hc' : (c != '\n') = true := bne_iff_ne.2 hc
  have hdrop : (c :: cs).dropWhile (· != '\n') = cs.dropWhile (· != '\n') :=
    List.dropWhile_cons_of_pos hc'
  have htake : (c :: cs).takeWhile (· != '\n') = c :: cs.takeWhile (· != '\n') :=
    List.takeWhile_cons_of_pos hc'
  rw [splitLine, splitLine, hdrop, htake]
  split <;> rfl

/-- What is taken off the text is its first line. -/
theorem linesOf_eq_cons {text : List Char} (h : text ≠ []) :
    linesOf text = (splitLine text).1 :: linesOf (splitLine text).2 := by
  induction text with
  | nil => exact absurd rfl h
  | cons c cs ih =>
    rw [linesOf]
    split
    · next hc =>
      subst hc
      rw [splitLine_lineFeed]
    · next hc =>
      rw [splitLine_cons_of_ne hc]
      by_cases hcs : cs = []
      · subst hcs
        rfl
      · rw [ih hcs]

end Terminal

/-! ## Reading a line -/

namespace Transcript

variable {c : Transcript}

/-- Without input there is no line, but the prompt is noted. -/
theorem readLine_of_nil (h : c.input = []) (prompt : Option String) :
    c.readLine prompt = (none, { c with prompts := c.prompts ++ prompt.toArray }) := by
  obtain ⟨input, output, prompts⟩ := c
  obtain rfl : input = [] := h
  cases prompt <;> simp [readLine]

/-- The next line is given without its end. -/
theorem readLine_of_cons {line : String} {input : List String} (h : c.input = line :: input)
    (prompt : Option String) :
    c.readLine prompt = (some (.ofList (stripLineEnd line.toList)),
      { c with input, prompts := c.prompts ++ prompt.toArray }) := by
  cases prompt <;> simp [readLine, h]

end Transcript

namespace Terminal

variable {t : Terminal}

/-- At the end of input the prompt is shown, and then there is no line. -/
theorem readLine_of_nil (h : t.stdin = []) (prompt : Option String) :
    t.readLine prompt = (none, { t with stdout := t.stdout ++ prompt.getD "", ended := true }) := by
  cases prompt <;> simp [readLine, write, h]

/-- What stands before the line feed is given, and the rest is left. -/
theorem readLine_of_ne_nil (h : t.stdin ≠ []) (prompt : Option String) :
    t.readLine prompt = (some (.ofList (stripLineEnd (splitLine t.stdin).1)),
      { t with stdin := (splitLine t.stdin).2, stdout := t.stdout ++ prompt.getD "" }) := by
  obtain ⟨ch, text, h⟩ := List.exists_cons_of_ne_nil h
  cases prompt <;> simp [readLine, write, h]

end Terminal

/-! ## Events -/

namespace Console.Event

def line? : Event → Option String
  | wrote line => some line
  | read _ _ => none

def prompt? : Event → Option String
  | wrote _ => none
  | read prompt _ => prompt

/-- What a terminal shows of it. -/
def text : Event → String
  | wrote line => line ++ "\n"
  | read prompt _ => prompt.getD ""

end Console.Event

/-! ## The consoles side by side -/

/-- The transcript has the lines that the terminal has not read yet, what was noted is what the
transcript keeps, and the terminal shows it all. -/
structure Terminal.Scripted (c : Logged Transcript) (t : Terminal) : Prop where
  input : c.console.input = (linesOf t.stdin).map String.ofList
  output : c.console.output.toList = c.events.filterMap Console.Event.line?
  prompts : c.console.prompts.toList = c.events.filterMap Console.Event.prompt?
  stdout : t.stdout = String.join (c.events.map Console.Event.text)

namespace Terminal.Scripted

variable {c : Logged Transcript} {t : Terminal}

/-- A transcript of the lines of a text goes with a terminal that the text is typed into. -/
theorem start (text : List Char) :
    Scripted { console := { input := (linesOf text).map String.ofList } } { stdin := text } :=
  ⟨rfl, rfl, rfl, rfl⟩

/-- One more event, which both consoles show. -/
theorem add (h : Scripted c t) {e : Console.Event} {c' : Transcript} {t' : Terminal}
    (hinput : c'.input = (linesOf t'.stdin).map String.ofList)
    (houtput : c'.output = c.console.output ++ e.line?.toArray)
    (hprompts : c'.prompts = c.console.prompts ++ e.prompt?.toArray)
    (hstdout : t'.stdout = t.stdout ++ e.text) : Scripted ⟨c', c.events ++ [e]⟩ t' where
  input := hinput
  output := by
    rw [houtput, Array.toList_append, h.output, List.filterMap_append]
    cases e <;> rfl
  prompts := by
    rw [hprompts, Array.toList_append, h.prompts, List.filterMap_append]
    rcases e with line | ⟨_ | prompt, answer⟩ <;> rfl
  stdout := by
    rw [hstdout, h.stdout, List.map_append, String.join_append]
    simp

theorem writeLine (h : Scripted c t) (line : String) :
    Scripted (Console.writeLine c line) (Console.writeLine t line) := by
  refine h.add h.input ?_ ?_ rfl
  · show c.console.output.push line = _
    simp [Console.Event.line?]
  · show c.console.prompts = _
    simp [Console.Event.prompt?]

theorem readLine (h : Scripted c t) (prompt : Option String) :
    (Console.readLine c prompt).1 = (Console.readLine t prompt).1 ∧
      Scripted (Console.readLine c prompt).2 (Console.readLine t prompt).2 := by
  show (c.console.readLine prompt).1 = (t.readLine prompt).1 ∧
    Scripted
      ⟨(c.console.readLine prompt).2, c.events ++ [.read prompt (c.console.readLine prompt).1]⟩
      (t.readLine prompt).2
  by_cases ht : t.stdin = []
  · have hc : c.console.input = [] := by
      rw [h.input, ht]
      rfl
    rw [Transcript.readLine_of_nil hc, readLine_of_nil ht]
    exact ⟨rfl, h.add h.input (Array.append_empty).symm rfl rfl⟩
  · have hc : c.console.input = String.ofList (splitLine t.stdin).1 ::
        (linesOf (splitLine t.stdin).2).map String.ofList := by
      rw [h.input, linesOf_eq_cons ht]
      rfl
    rw [Transcript.readLine_of_cons hc, readLine_of_ne_nil ht, String.toList_ofList]
    exact ⟨rfl, h.add rfl (Array.append_empty).symm rfl rfl⟩

/-- A program cannot tell the terminal from the transcript. -/
theorem simulates (can : Builtin → Prop) : Console.Simulates can Scripted where
  writeLine _ h line := h.writeLine line
  readLine _ h prompt := h.readLine prompt

end Terminal.Scripted

/-! ## Running a file -/

variable {κ : Type} [Console κ]

/-- A source that does not compile leaves the machine alone. -/
theorem Machine.runSource_of_refused {m : Machine κ} {source : String} {e : CompileError}
    (h : (m.runSource source).1 = .error e) : (m.runSource source).2 = m := by
  cases hp : compile source with
  | error e => rw [runSource_of_compile_error hp]
  | ok p =>
    simp only [runSource, hp] at h
    cases h

/-- An error value does not come out of a source, only a fault. -/
theorem Machine.isError_of_runSource {m : Machine κ} {source : String} {v : Value}
    (h : (m.runSource source).1 = .ok (.ok v)) : v.isError = false := by
  cases hp : compile source with
  | error e =>
    simp only [runSource, hp] at h
    cases h
  | ok p =>
    cases hr : p.eval m with
    | ok w m' =>
      rw [runSource_of_ok hp hr] at h
      cases h
      exact Stmt.sound_evalAll globalScope rfl p.statements m v m' hr
    | error f m' =>
      rw [runSource_of_error hp hr] at h
      cases h

theorem SourceFile.text_of_toUTF8 (path source : String) :
    (SourceFile.mk path (.ok source.toUTF8)).text = .ok source := by
  have hsource : String.fromUTF8? source.toUTF8 = some source := by
    unfold String.fromUTF8?
    split
    · rfl
    · next h => exact absurd source.isValidUTF8 h
  simp only [text, hsource]

/-- A new machine on a terminal with that input. -/
def Machine.onTerminal (stdin : String) : Machine Terminal := .start { stdin := stdin.toList }

namespace Command

/-- Runs a file with that source, which is in UTF-8. -/
def reportOn (path source stdin : String) : Report :=
  execute (.run ⟨path, .ok source.toUTF8⟩) stdin.toList

section

variable {path source stdin : String} {m : Machine Terminal}

theorem reportOn_of_refused {e : CompileError}
    (h : (Machine.onTerminal stdin).runSource source = (.error e, m)) :
    reportOn path source stdin = .refused (e.report path) := by
  unfold Machine.onTerminal at h
  simp only [reportOn, execute, runFile, SourceFile.text_of_toUTF8, h]

/-- A fault is printed as an error, and the exit code is 1. -/
theorem reportOn_of_fault {f : Fault}
    (h : (Machine.onTerminal stdin).runSource source = (.ok (.error f), m)) :
    reportOn path source stdin =
      ⟨1, m.console.stdout, m.heap.inspect f.toValue ++ "\n", m.console.ended⟩ := by
  unfold Machine.onTerminal at h
  simp only [reportOn, execute, runFile, SourceFile.text_of_toUTF8, h]

/-- A value is not printed, and the exit code is 0. -/
theorem reportOn_of_value {v : Value}
    (h : (Machine.onTerminal stdin).runSource source = (.ok (.ok v), m)) :
    reportOn path source stdin = ⟨0, m.console.stdout, "", m.console.ended⟩ := by
  unfold Machine.onTerminal at h
  simp only [reportOn, execute, runFile, SourceFile.text_of_toUTF8, h]

end

/-- The exit code says whether a value has come out that is no error. -/
theorem exitCode_reportOn (path source stdin : String) :
    ((reportOn path source stdin).exitCode = 0 ↔
      ∃ r, ((Machine.onTerminal stdin).runSource source).1 = .ok r ∧
        (Value.ofOutcome r).isError = false) ∧
    ((reportOn path source stdin).exitCode ≠ 0 → (reportOn path source stdin).exitCode = 1) := by
  rcases hrun : (Machine.onTerminal stdin).runSource source with ⟨e | f | v, m⟩
  · rw [reportOn_of_refused hrun]
    refine ⟨⟨fun h => absurd h Nat.one_ne_zero, ?_⟩, fun _ => rfl⟩
    rintro ⟨r, ⟨⟩, -⟩
  · rw [reportOn_of_fault hrun]
    refine ⟨⟨fun h => absurd h Nat.one_ne_zero, ?_⟩, fun _ => rfl⟩
    rintro ⟨r, ⟨⟩, h⟩
    cases (h : true = false)
  · rw [reportOn_of_value hrun]
    have hv : v.isError = false := Machine.isError_of_runSource (congrArg Prod.fst hrun)
    exact ⟨⟨fun _ => ⟨.ok v, rfl, hv⟩, fun _ => rfl⟩, fun h => absurd rfl h⟩

/-- Whatever comes of it, what was written is shown. -/
theorem stdout_reportOn (path source stdin : String) :
    (reportOn path source stdin).stdout =
      ((Machine.onTerminal stdin).runSource source).2.console.stdout := by
  rcases hrun : (Machine.onTerminal stdin).runSource source with ⟨e | f | v, m⟩
  · rw [reportOn_of_refused hrun]
    have hm : m = Machine.onTerminal stdin := by
      have hsnd := Machine.runSource_of_refused (congrArg Prod.fst hrun)
      rw [hrun] at hsnd
      exact hsnd
    rw [hm]
    rfl
  · rw [reportOn_of_fault hrun]
  · rw [reportOn_of_value hrun]

end Command

/-! ## Top theorem -/

/-- A source does the same on a terminal as with the lines of its input given one by one; the
terminal shows in order what the transcript keeps apart; and when the source is run as a file, the
exit code is 0 exactly if a value comes out of it that is no error. -/
theorem Machine.terminal_shows_transcript (heap : Heap) (scopes : Scopes)
    (source stdin path : String) :
    let lines := (linesOf stdin.toList).map String.ofList
    let real := Machine.runSource ⟨heap, scopes, ({ stdin := stdin.toList } : Terminal)⟩ source
    let scripted := Machine.runSource ⟨heap, scopes, ({ input := lines } : Transcript)⟩ source
    let noted := Machine.runSource
      ⟨heap, scopes, ({ console := { input := lines } } : Logged Transcript)⟩ source
    let events := noted.2.console.events
    (real.1 = scripted.1 ∧ real.2.heap = scripted.2.heap ∧ real.2.scopes = scripted.2.scopes ∧
        scripted.2.console.input = (linesOf real.2.console.stdin).map String.ofList) ∧
      (noted.1 = scripted.1 ∧ noted.2.console.console = scripted.2.console) ∧
      (scripted.2.console.output.toList = events.filterMap Console.Event.line? ∧
        scripted.2.console.prompts.toList = events.filterMap Console.Event.prompt? ∧
        real.2.console.stdout = String.join (events.map Console.Event.text)) ∧
      (Command.reportOn path source stdin).stdout =
        ((onTerminal stdin).runSource source).2.console.stdout ∧
      ((Command.reportOn path source stdin).exitCode = 0 ↔
        ∃ r, ((onTerminal stdin).runSource source).1 = .ok r ∧
          (Value.ofOutcome r).isError = false) ∧
      ((Command.reportOn path source stdin).exitCode ≠ 0 →
        (Command.reportOn path source stdin).exitCode = 1) := by
  intro lines real scripted noted events
  have hall {κ : Type} (vs : List (Visit κ)) : Visit.CallsOnly (fun _ => True) vs :=
    fun _ _ _ _ _ => trivial
  -- the noting console is like both of the others, and so these are like each other
  obtain ⟨hnoted, hplain⟩ : noted.1 = scripted.1 ∧
      noted.2.Alike (fun c c' => c.console = c') scripted.2 :=
    Alike.runSource (Logged.simulates _) ⟨rfl, rfl, rfl⟩ (hall _)
  obtain ⟨hreal, hshown⟩ : noted.1 = real.1 ∧ noted.2.Alike Terminal.Scripted real.2 :=
    Alike.runSource (Terminal.Scripted.simulates _) ⟨rfl, rfl, .start _⟩ (hall _)
  obtain ⟨hinput, houtput, hprompts, hstdout⟩ := hshown.console
  have hconsole : noted.2.console.console = scripted.2.console := hplain.console
  rw [hconsole] at hinput houtput hprompts
  refine ⟨⟨hreal.symm.trans hnoted, hshown.heap.symm.trans hplain.heap,
    hshown.scopes.symm.trans hplain.scopes, hinput⟩, ⟨hnoted, hconsole⟩,
    ⟨houtput, hprompts, hstdout⟩, Command.stdout_reportOn path source stdin, ?_⟩
  exact Command.exitCode_reportOn path source stdin

end MonkeyLang
